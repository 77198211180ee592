import SolidityVetting.Hex

set_option autoImplicit false

namespace SolidityVetting.Hex

theorem digitChar_injective {m n : Nat} (hm : m < 16) (hn : n < 16)
    (h : digitChar m = digitChar n) : m = n := by
  have sixteen : ∀ a b : Fin 16, digitChar a = digitChar b → a = b := by decide
  exact congrArg Fin.val (sixteen ⟨m, hm⟩ ⟨n, hn⟩ h)

theorem length_encodeChars (bytes : List UInt8) :
    (encodeChars bytes).length = 2 * bytes.length := by
  induction bytes with
  | nil => rfl
  | cons b rest ih =>
    rw [encodeChars, List.length_cons, List.length_cons, ih, List.length_cons]
    omega

theorem encodeChars_injective {a b : List UInt8} (h : encodeChars a = encodeChars b) : a = b := by
  induction a generalizing b with
  | nil =>
    cases b with
    | nil => rfl
    | cons c rest => cases h
  | cons c rest ih =>
    cases b with
    | nil => cases h
    | cons d more =>
      obtain ⟨high, h⟩ := List.cons.inj h
      obtain ⟨low, h⟩ := List.cons.inj h
      have hc := c.toNat_lt
      have hd := d.toNat_lt
      have high : c.toNat / 16 = d.toNat / 16 := digitChar_injective (by omega) (by omega) high
      have low : c.toNat % 16 = d.toNat % 16 := digitChar_injective (by omega) (by omega) low
      have same : c = d := UInt8.toNat_inj.1 (by omega)
      rw [same, ih h]

theorem encode_injective {a b : List UInt8} (h : encode a = encode b) : a = b := by
  apply encodeChars_injective
  simpa [encode] using congrArg String.toList h

end SolidityVetting.Hex
