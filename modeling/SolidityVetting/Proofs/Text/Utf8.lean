import SolidityVetting.Text.Utf8

set_option autoImplicit false

namespace SolidityVetting.Utf8

variable {bytes : List UInt8} {chars : List Char} {lead : Lead}

theorem encode_ofList (s : List Char) :
    encode (String.ofList s) = s.flatMap String.utf8EncodeChar := by
  rw [encode, String.toByteArray_ofList, List.utf8Encode]
  simp

theorem encode_injective {s t : String} (h : encode s = encode t) : s = t := by
  apply String.toByteArray_inj.1
  apply ByteArray.ext
  exact Array.toList_inj.1 h

theorem items_of_mapM {items : List Item} (h : items.mapM Item.char? = some chars) :
    items = chars.map .char := by
  induction items generalizing chars with
  | nil =>
    cases h
    rfl
  | cons item rest ih =>
    rw [List.mapM_cons] at h
    cases item with
    | broken => cases h
    | char c =>
      change (rest.mapM Item.char?).bind (fun more => some (c :: more)) = some chars at h
      obtain ⟨more, hm, same⟩ := Option.bind_eq_some_iff.1 h
      cases same
      rw [ih hm]
      rfl

section Bytes

theorem lead?_cases {b : Nat} (h : lead? b = some lead) :
    (lead.owed = 1 ∧ b = lead.value + 0xC0 ∧ 2 ≤ lead.value ∧ lead.value ≤ 31 ∧
      lead.low = 0x80 ∧ lead.high = 0xBF) ∨
    (lead.owed = 2 ∧ b = lead.value + 0xE0 ∧ lead.value ≤ 15 ∧ 0x80 ≤ lead.low ∧
      lead.high ≤ 0xBF ∧ (lead.value = 0 → 0xA0 ≤ lead.low) ∧
      (lead.value = 13 → lead.high ≤ 0x9F)) ∨
    (lead.owed = 3 ∧ b = lead.value + 0xF0 ∧ lead.value ≤ 4 ∧ 0x80 ≤ lead.low ∧
      lead.high ≤ 0xBF ∧ (lead.value = 0 → 0x90 ≤ lead.low) ∧
      (lead.value = 4 → lead.high ≤ 0x8F)) := by
  unfold lead? at h
  repeat
    split at h
    · obtain rfl := Option.some.inj h
      dsimp only
      omega
  cases h

theorem last_byte (owed : lead.owed ≤ 1) (h : itemsFrom (some lead) bytes = chars.map .char) :
    ∃ b rest more, bytes = b :: rest ∧ lead.low ≤ b.toNat ∧ b.toNat ≤ lead.high ∧
      chars = Char.ofNat (lead.value * 64 + (b.toNat - 0x80)) :: more ∧
      itemsFrom none rest = more.map .char := by
  cases bytes with
  | nil => cases chars <;> cases h
  | cons b rest =>
    unfold itemsFrom at h
    dsimp only at h
    split at h
    · next inside =>
      cases chars with
      | nil => cases h
      | cons c more =>
        rw [List.map_cons, List.cons.injEq] at h
        obtain rfl := Item.char.inj h.1
        exact ⟨b, rest, more, rfl, inside.1, inside.2, rfl, h.2⟩
    · exfalso
      split at h
      · cases chars <;> cases h
      · split at h <;> cases chars <;> cases h

theorem further_byte (owed : 1 < lead.owed) (h : itemsFrom (some lead) bytes = chars.map .char) :
    ∃ b rest, bytes = b :: rest ∧ lead.low ≤ b.toNat ∧ b.toNat ≤ lead.high ∧
      itemsFrom (some ⟨lead.value * 64 + (b.toNat - 0x80), lead.owed - 1, 0x80, 0xBF⟩) rest =
        chars.map .char := by
  cases bytes with
  | nil => cases chars <;> cases h
  | cons b rest =>
    unfold itemsFrom at h
    dsimp only at h
    split at h
    · next inside =>
      rw [if_neg (by omega)] at h
      exact ⟨b, rest, rfl, inside.1, inside.2, h⟩
    · exfalso
      split at h
      · cases chars <;> cases h
      · split at h <;> cases chars <;> cases h

end Bytes

section Characters

theorem val_toNat_ofNat {n : Nat} (h : n.isValidChar) : (Char.ofNat n).val.toNat = n := by
  unfold Char.ofNat
  rw [dif_pos h]
  rfl

theorem ofNat_eq {n : Nat} {b : UInt8} (h : n = b.toNat) : UInt8.ofNat n = b := by
  rw [h]
  exact UInt8.ofNat_toNat

variable {value : Nat} {b₀ b₁ b₂ b₃ : UInt8}

theorem encodeChar_one (small : b₀.toNat < 0x80) :
    String.utf8EncodeChar (Char.ofNat b₀.toNat) = [b₀] := by
  rw [String.utf8EncodeChar, val_toNat_ofNat (.inl (by omega)), if_pos (by omega), ofNat_eq rfl]

theorem encodeChar_two (first : b₀.toNat = value + 0xC0) (long : 2 ≤ value) (short : value ≤ 31)
    (h₁ : 0x80 ≤ b₁.toNat) (h₁' : b₁.toNat ≤ 0xBF) :
    String.utf8EncodeChar (Char.ofNat (value * 64 + (b₁.toNat - 0x80))) = [b₀, b₁] := by
  generalize hn : value * 64 + (b₁.toNat - 0x80) = n
  have byte₀ : n / 64 % 32 + 192 = b₀.toNat := by omega
  have byte₁ : n % 64 + 128 = b₁.toNat := by omega
  rw [String.utf8EncodeChar, val_toNat_ofNat (.inl (by omega)), if_neg (by omega),
    if_pos (by omega), ofNat_eq byte₀, ofNat_eq byte₁]

theorem encodeChar_three (first : b₀.toNat = value + 0xE0) (short : value ≤ 15)
    (h₁ : 0x80 ≤ b₁.toNat) (h₁' : b₁.toNat ≤ 0xBF) (long : value = 0 → 0xA0 ≤ b₁.toNat)
    (valid : value = 13 → b₁.toNat ≤ 0x9F) (h₂ : 0x80 ≤ b₂.toNat) (h₂' : b₂.toNat ≤ 0xBF) :
    String.utf8EncodeChar
      (Char.ofNat ((value * 64 + (b₁.toNat - 0x80)) * 64 + (b₂.toNat - 0x80))) = [b₀, b₁, b₂] := by
  generalize hn : (value * 64 + (b₁.toNat - 0x80)) * 64 + (b₂.toNat - 0x80) = n
  have character : n.isValidChar := by
    unfold Nat.isValidChar
    omega
  have byte₀ : n / 4096 % 16 + 224 = b₀.toNat := by omega
  have byte₁ : n / 64 % 64 + 128 = b₁.toNat := by omega
  have byte₂ : n % 64 + 128 = b₂.toNat := by omega
  rw [String.utf8EncodeChar, val_toNat_ofNat character, if_neg (by omega), if_neg (by omega),
    if_pos (by omega), ofNat_eq byte₀, ofNat_eq byte₁, ofNat_eq byte₂]

theorem encodeChar_four (first : b₀.toNat = value + 0xF0) (short : value ≤ 4)
    (h₁ : 0x80 ≤ b₁.toNat) (h₁' : b₁.toNat ≤ 0xBF) (long : value = 0 → 0x90 ≤ b₁.toNat)
    (valid : value = 4 → b₁.toNat ≤ 0x8F) (h₂ : 0x80 ≤ b₂.toNat) (h₂' : b₂.toNat ≤ 0xBF)
    (h₃ : 0x80 ≤ b₃.toNat) (h₃' : b₃.toNat ≤ 0xBF) :
    String.utf8EncodeChar (Char.ofNat
      (((value * 64 + (b₁.toNat - 0x80)) * 64 + (b₂.toNat - 0x80)) * 64 + (b₃.toNat - 0x80))) =
      [b₀, b₁, b₂, b₃] := by
  generalize hn :
    ((value * 64 + (b₁.toNat - 0x80)) * 64 + (b₂.toNat - 0x80)) * 64 + (b₃.toNat - 0x80) = n
  have character : n.isValidChar := by
    unfold Nat.isValidChar
    omega
  have byte₀ : n / 262144 % 8 + 240 = b₀.toNat := by omega
  have byte₁ : n / 4096 % 64 + 128 = b₁.toNat := by omega
  have byte₂ : n / 64 % 64 + 128 = b₂.toNat := by omega
  have byte₃ : n % 64 + 128 = b₃.toNat := by omega
  rw [String.utf8EncodeChar, val_toNat_ofNat character, if_neg (by omega), if_neg (by omega),
    if_neg (by omega), ofNat_eq byte₀, ofNat_eq byte₁, ofNat_eq byte₂, ofNat_eq byte₃]

end Characters

theorem exists_char_of_lead {b : UInt8} (kind : lead? b.toNat = some lead)
    (h : itemsFrom (some lead) bytes = chars.map .char) :
    ∃ c tail rest more, b :: tail = String.utf8EncodeChar c ∧ bytes = tail ++ rest ∧
      chars = c :: more ∧ itemsFrom none rest = more.map .char := by
  obtain ⟨owed, first, long, short, low, high⟩ | ⟨owed, first, short, low, high, long, valid⟩ |
    ⟨owed, first, short, low, high, long, valid⟩ := lead?_cases kind
  · obtain ⟨b₁, rest, more, rfl, h₁, h₁', rfl, read⟩ := last_byte (by omega) h
    exact ⟨_, [b₁], rest, more, (encodeChar_two first long short (by omega) (by omega)).symm,
      rfl, rfl, read⟩
  · obtain ⟨b₁, rest, rfl, h₁, h₁', h⟩ := further_byte (by omega) h
    obtain ⟨b₂, rest, more, rfl, h₂, h₂', rfl, read⟩ := last_byte (by dsimp only; omega) h
    have bytes := encodeChar_three first short (Nat.le_trans low h₁) (Nat.le_trans h₁' high)
      (fun zero => Nat.le_trans (long zero) h₁) (fun top => Nat.le_trans h₁' (valid top)) h₂ h₂'
    exact ⟨_, [b₁, b₂], rest, more, bytes.symm, rfl, rfl, read⟩
  · obtain ⟨b₁, rest, rfl, h₁, h₁', h⟩ := further_byte (by omega) h
    obtain ⟨b₂, rest, rfl, h₂, h₂', h⟩ := further_byte (by dsimp only; omega) h
    obtain ⟨b₃, rest, more, rfl, h₃, h₃', rfl, read⟩ := last_byte (by dsimp only; omega) h
    have bytes := encodeChar_four first short (Nat.le_trans low h₁) (Nat.le_trans h₁' high)
      (fun zero => Nat.le_trans (long zero) h₁) (fun top => Nat.le_trans h₁' (valid top)) h₂ h₂'
      h₃ h₃'
    exact ⟨_, [b₁, b₂, b₃], rest, more, bytes.symm, rfl, rfl, read⟩

theorem eq_flatMap_of_itemsFrom {bytes : List UInt8} {chars : List Char}
    (h : itemsFrom none bytes = chars.map .char) :
    bytes = chars.flatMap String.utf8EncodeChar := by
  cases cut : bytes with
  | nil =>
    rw [cut] at h
    cases chars with
    | nil => rfl
    | cons c more => cases h
  | cons b rest =>
    have shorter : rest.length < bytes.length := by rw [cut]; exact Nat.lt_succ_self _
    rw [cut] at h
    unfold itemsFrom at h
    dsimp only at h
    split at h
    · next small =>
      cases chars with
      | nil => cases h
      | cons c more =>
        rw [List.map_cons, List.cons.injEq] at h
        obtain rfl := Item.char.inj h.1
        rw [List.flatMap_cons, encodeChar_one small, eq_flatMap_of_itemsFrom h.2]
        rfl
    · split at h
      · next lead kind =>
        obtain ⟨c, tail, later, more, first, rfl, rfl, read⟩ := exists_char_of_lead kind h
        have later_shorter : later.length < bytes.length := by
          rw [List.length_append] at shorter
          omega
        rw [List.flatMap_cons, ← first, ← eq_flatMap_of_itemsFrom read]
        rfl
      · cases chars <;> cases h
termination_by bytes.length

/-- Bytes that are read as a text are the text's bytes. -/
theorem eq_encode_of_decode? {text : String} (h : decode? bytes = some text) :
    bytes = encode text := by
  obtain ⟨chars, read, rfl⟩ := Option.map_eq_some_iff.1 h
  rw [encode_ofList]
  exact eq_flatMap_of_itemsFrom (items_of_mapM read)

end SolidityVetting.Utf8
