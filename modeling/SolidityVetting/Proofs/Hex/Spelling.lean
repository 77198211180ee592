import Mathlib.Data.List.Induction
import SolidityVetting.Proofs.Hex
import SolidityVetting.Proofs.Text.Trimming
import SolidityVetting.Proofs.Text.Utf8

set_option autoImplicit false

namespace SolidityVetting
open Text

namespace Hex

def SpelledBy (digits : List Char) (bytes : List UInt8) : Prop :=
  digits.map Char.toLower = encodeChars bytes

def marks : List (List Char) := [['0', 'x'], ['0', 'X']]

/-- The text spells the bytes, with at most one mark in front and with blanks around. -/
def Spells (text : List Char) (bytes : List UInt8) : Prop :=
  ∃ front mark digits back, text = front ++ (mark ++ (digits ++ back)) ∧
    (∀ c ∈ front, isBlank c = true) ∧ (mark = [] ∨ mark ∈ marks) ∧ SpelledBy digits bytes ∧
      ∀ c ∈ back, isBlank c = true

def Unmarks (text rest : List Char) : Prop :=
  (∃ mark ∈ marks, text = mark ++ rest) ∨ (∀ mark ∈ marks, ¬ mark <+: text) ∧ rest = text

def Body (text rest : List Char) : Prop := ∃ middle, TrimsTo text middle ∧ Unmarks middle rest

def IsDigit (b : UInt8) : Prop := b.toNat ∈ "0123456789abcdefABCDEF".toList.map Char.toNat

instance (b : UInt8) : Decidable (IsDigit b) := inferInstanceAs (Decidable (_ ∈ _))

def FirstOther (ds : List UInt8) (position : Nat) (b : UInt8) : Prop :=
  ∃ front rest, ds = front ++ b :: rest ∧ position = front.length ∧ (∀ c ∈ front, IsDigit c) ∧
    ¬ IsDigit b

/-- What is wrong with digits: there are none; else their number is odd; else one is no digit, and the
first such is told. -/
inductive Fault (ds : List UInt8) : Error → Prop where
  | empty (none : ds = []) : Fault ds .empty
  | oddLength (odd : ds.length % 2 = 1) : Fault ds (.oddLength ds.length)
  | notHex {position : Nat} {b : UInt8} (even : ds.length % 2 = 0) (h : FirstOther ds position b) :
      Fault ds (.notHex position b)

variable {b : UInt8} {n : Nat}

def lowerOf (b : UInt8) : Char := (Char.ofNat b.toNat).toLower

theorem digit?_eq_some_iff : digit? b = some n ↔ n < 16 ∧ lowerOf b = digitChar n := by
  have table : ∀ k < 256, ∀ n < 16,
      digit? (UInt8.ofNat k) = some n ↔ lowerOf (UInt8.ofNat k) = digitChar n := by decide +kernel
  have small : ∀ k < 256, ∀ n ∈ digit? (UInt8.ofNat k), n < 16 := by decide +kernel
  have here := table b.toNat b.toNat_lt n
  have below := small b.toNat b.toNat_lt n
  rw [UInt8.ofNat_toNat] at here below
  constructor
  · intro h
    exact ⟨below h, (here (below h)).1 h⟩
  · intro ⟨hn, same⟩
    exact (here hn).2 same

theorem isDigit_iff : IsDigit b ↔ (digit? b).isSome = true := by
  have table : ∀ k < 256, IsDigit (UInt8.ofNat k) ↔ (digit? (UInt8.ofNat k)).isSome = true := by
    decide +kernel
  have here := table b.toNat b.toNat_lt
  rwa [UInt8.ofNat_toNat] at here

theorem not_isDigit_iff : ¬ IsDigit b ↔ digit? b = none := by
  rw [isDigit_iff, Bool.not_eq_true, Option.isSome_eq_false_iff, Option.isNone_iff_eq_none]

theorem isDigit_of_digit? (h : digit? b = some n) : IsDigit b := by
  rw [isDigit_iff, h]
  rfl

theorem toNat_lt_of_isDigit (h : IsDigit b) : b.toNat < 0x80 := by
  have small : ∀ n ∈ "0123456789abcdefABCDEF".toList.map Char.toNat, n < 0x80 := by decide
  exact small b.toNat h

section Pairs
variable {position low : Nat} {bytes ds rest : List UInt8} {first second : UInt8} {e : Error}

theorem readPairs_of_digits (h : digit? first = some n) (g : digit? second = some low) :
    readPairs position (first :: second :: rest) =
      (readPairs (position + 2) rest).map (UInt8.ofNat (n * 16 + low) :: ·) := by
  rw [readPairs, readDigit, h, readDigit, g]
  cases readPairs (position + 2) rest <;> rfl

theorem readPairs_of_first (h : digit? first = none) :
    readPairs position (first :: second :: rest) = .error (.notHex position first) := by
  rw [readPairs, readDigit, h]
  rfl

theorem readPairs_of_second (h : digit? first = some n) (g : digit? second = none) :
    readPairs position (first :: second :: rest) = .error (.notHex (position + 1) second) := by
  rw [readPairs, readDigit, h, readDigit, g]
  rfl

theorem map_eq_ok_iff {ε α β : Type} {x : Except ε α} {f : α → β} {b : β} :
    x.map f = .ok b ↔ ∃ a, x = .ok a ∧ f a = b := by
  cases x <;> simp [Except.map]

theorem map_eq_error_iff {ε α β : Type} {x : Except ε α} {f : α → β} {e : ε} :
    x.map f = .error e ↔ x = .error e := by
  cases x <;> simp [Except.map]

theorem byte_eq_iff {b : UInt8} (hn : n < 16) (hl : low < 16) :
    UInt8.ofNat (n * 16 + low) = b ↔ n = b.toNat / 16 ∧ low = b.toNat % 16 := by
  have hb := b.toNat_lt
  rw [← UInt8.toNat_inj, UInt8.toNat_ofNat']
  omega

theorem map_lowerOf_eq_iff : (first :: second :: rest).map lowerOf = encodeChars bytes ↔
    ∃ n low more, digit? first = some n ∧ digit? second = some low ∧
      rest.map lowerOf = encodeChars more ∧ UInt8.ofNat (n * 16 + low) :: more = bytes := by
  constructor
  · intro h
    cases bytes with
    | nil => cases h
    | cons b more =>
      have hb := b.toNat_lt
      obtain ⟨high, h⟩ := List.cons.inj h
      obtain ⟨low, more_digits⟩ := List.cons.inj h
      have upper : b.toNat / 16 < 16 := by omega
      have lower : b.toNat % 16 < 16 := by omega
      refine ⟨_, _, more, digit?_eq_some_iff.2 ⟨upper, high⟩, digit?_eq_some_iff.2 ⟨lower, low⟩,
        more_digits, ?_⟩
      rw [(byte_eq_iff upper lower).2 ⟨rfl, rfl⟩]
  · intro ⟨n, low, more, hf, hs, more_digits, spelled⟩
    obtain ⟨hn, high⟩ := digit?_eq_some_iff.1 hf
    obtain ⟨hl, low_digit⟩ := digit?_eq_some_iff.1 hs
    have ⟨upper, lower⟩ := (byte_eq_iff hn hl).1 rfl
    rw [← spelled, List.map_cons, List.map_cons, high, low_digit, more_digits, encodeChars, ← upper,
      ← lower]

theorem readPairs_eq_ok_iff (even : ds.length % 2 = 0) :
    readPairs position ds = .ok bytes ↔ ds.map lowerOf = encodeChars bytes := by
  induction ds using List.twoStepInduction generalizing position bytes with
  | nil =>
    cases bytes with
    | nil => exact iff_of_true rfl rfl
    | cons b more => exact iff_of_false (fun h => by cases h) (fun h => by cases h)
  | singleton first => cases even
  | cons_cons first second rest ih _ =>
    have even' : rest.length % 2 = 0 := by
      simp only [List.length_cons] at even
      omega
    rw [map_lowerOf_eq_iff]
    constructor
    · intro h
      -- a pair is read only if both its digits are, the first one first
      cases hf : digit? first with
      | none =>
        rw [readPairs_of_first hf] at h
        cases h
      | some n =>
        cases hs : digit? second with
        | none =>
          rw [readPairs_of_second hf hs] at h
          cases h
        | some low =>
          rw [readPairs_of_digits hf hs, map_eq_ok_iff] at h
          have ⟨more, read, spelled⟩ := h
          exact ⟨n, low, more, rfl, rfl, (ih even').1 read, spelled⟩
    · intro ⟨n, low, more, hf, hs, more_digits, spelled⟩
      rw [readPairs_of_digits hf hs, map_eq_ok_iff]
      exact ⟨more, (ih even').2 more_digits, spelled⟩

theorem firstOther_cons_iff : FirstOther (first :: rest) position b ↔
    (position = 0 ∧ b = first ∧ ¬ IsDigit first) ∨
      ∃ before, position = before + 1 ∧ IsDigit first ∧ FirstOther rest before b := by
  constructor
  · intro ⟨front, more, cut, length, digits, other⟩
    cases front with
    | nil =>
      obtain ⟨rfl, -⟩ := List.cons.inj cut
      exact .inl ⟨length, rfl, other⟩
    | cons c front =>
      obtain ⟨rfl, behind⟩ := List.cons.inj cut
      have ⟨digit, digits⟩ := List.forall_mem_cons.1 digits
      exact .inr ⟨front.length, length, digit, front, more, behind, rfl, digits, other⟩
  · rintro (⟨start, same, other⟩ | ⟨before, next, digit, front, more, cut, length, digits, other⟩)
    · subst same
      exact ⟨[], rest, rfl, start, fun _ mem => absurd mem List.not_mem_nil, other⟩
    · exact ⟨first :: front, more, by rw [cut]; rfl, by rw [next, length]; rfl,
        List.forall_mem_cons.2 ⟨digit, digits⟩, other⟩

theorem readPairs_eq_error_iff (even : ds.length % 2 = 0) : readPairs low ds = .error e ↔
    ∃ position b, e = .notHex (low + position) b ∧ FirstOther ds position b := by
  induction ds using List.twoStepInduction generalizing low with
  | nil => exact iff_of_false (fun h => by cases h) (fun ⟨_, _, _, _, _, cut, _⟩ => by simp at cut)
  | singleton first => cases even
  | cons_cons first second rest ih _ =>
    have even' : rest.length % 2 = 0 := by
      simp only [List.length_cons] at even
      omega
    simp only [firstOther_cons_iff]
    cases hf : digit? first with
    | none =>
      have other := not_isDigit_iff.2 hf
      rw [readPairs_of_first hf]
      constructor
      · intro h
        exact ⟨0, first, (Except.error.inj h).symm, .inl ⟨rfl, rfl, other⟩⟩
      · rintro ⟨_, _, same, ⟨rfl, rfl, _⟩ | ⟨_, _, digit, _⟩⟩
        · rw [same]
          rfl
        · exact absurd digit other
    | some n =>
      have digit := isDigit_of_digit? hf
      cases hs : digit? second with
      | none =>
        have other := not_isDigit_iff.2 hs
        rw [readPairs_of_second hf hs]
        constructor
        · intro h
          exact ⟨1, second, (Except.error.inj h).symm, .inr ⟨0, rfl, digit, .inl ⟨rfl, rfl, other⟩⟩⟩
        · rintro ⟨_, _, same, ⟨_, _, none⟩ | ⟨_, rfl, _, ⟨rfl, rfl, _⟩ | ⟨_, _, digit', _⟩⟩⟩
          · exact absurd digit none
          · rw [same]
          · exact absurd digit' other
      | some m =>
        have digit' := isDigit_of_digit? hs
        have shift (position : Nat) : low + 2 + position = low + (position + 1 + 1) := by omega
        rw [readPairs_of_digits hf hs, map_eq_error_iff, ih even']
        constructor
        · intro ⟨position, b, same, h⟩
          refine ⟨_, b, ?_, .inr ⟨_, rfl, digit, .inr ⟨position, rfl, digit', h⟩⟩⟩
          rw [same, shift]
        · rintro ⟨_, b, same, ⟨_, _, none⟩ | ⟨_, rfl, _, ⟨_, _, none⟩ | ⟨position, rfl, _, h⟩⟩⟩
          · exact absurd digit none
          · exact absurd digit' none
          · refine ⟨position, b, ?_, h⟩
            rw [same, shift]

end Pairs

variable {bytes : List UInt8} {digits text middle rest : List Char} {c : Char}

theorem exists_digit_of_mem_encodeChars (h : c ∈ encodeChars bytes) :
    ∃ n < 16, c = digitChar n := by
  induction bytes with
  | nil => cases h
  | cons b rest ih =>
    have hb := b.toNat_lt
    rcases List.mem_cons.1 h with same | h
    · exact ⟨b.toNat / 16, by omega, same⟩
    rcases List.mem_cons.1 h with same | h
    · exact ⟨b.toNat % 16, by omega, same⟩
    · exact ih h

theorem toNat_lt_of_toLower_mem (h : c.toLower ∈ encodeChars bytes) : c.toNat < 0x80 := by
  have small : ∀ n < 16, (digitChar n).toNat < 0x80 := by decide
  rcases toLower_eq_or_lt c with same | lt
  · have ⟨n, hn, digit⟩ := exists_digit_of_mem_encodeChars h
    rw [← same, digit]
    exact small n hn
  · exact lt

theorem encode_map_ofNat {ds : List UInt8} (small : ∀ b ∈ ds, b.toNat < 0x80) :
    Utf8.encode (String.ofList (ds.map fun b => Char.ofNat b.toNat)) = ds := by
  rw [Utf8.encode_ofList]
  induction ds with
  | nil => rfl
  | cons b ds ih =>
    have ⟨hb, hds⟩ := List.forall_mem_cons.1 small
    rw [List.map_cons, List.flatMap_cons, Utf8.encodeChar_one hb, ih hds]
    rfl

theorem spelledBy_iff : SpelledBy digits bytes ↔
    (Utf8.encode (String.ofList digits)).map lowerOf = encodeChars bytes := by
  constructor
  · intro h
    have small : ∀ c ∈ digits, c.toNat < 0x80 := fun c hc =>
      toNat_lt_of_toLower_mem (h ▸ List.mem_map_of_mem hc)
    -- every character is small, so it is one byte
    let ds := digits.map fun c => UInt8.ofNat c.toNat
    have value : ∀ c ∈ digits, (UInt8.ofNat c.toNat).toNat = c.toNat := fun c hc =>
      UInt8.toNat_ofNat_of_lt' (Nat.lt_trans (small c hc) (by decide))
    have back : ds.map (fun b => Char.ofNat b.toNat) = digits := by
      rw [List.map_map]
      refine (List.map_congr_left fun c hc => ?_).trans (List.map_id _)
      rw [Function.comp_apply, value c hc, Char.ofNat_toNat]
      rfl
    have plain : ∀ b ∈ ds, b.toNat < 0x80 := by
      intro b hb
      have ⟨c, hc, same⟩ := List.mem_map.1 hb
      rw [← same, value c hc]
      exact small c hc
    have encoded := encode_map_ofNat plain
    rw [back] at encoded
    rw [encoded, ← h]
    conv_rhs => rw [← back, List.map_map]
    rfl
  · intro h
    -- the bytes are small, so they are also those of a text that reads them one by one
    let ds := Utf8.encode (String.ofList digits)
    have plain : ∀ b ∈ ds, b.toNat < 0x80 := by
      intro b hb
      have ⟨n, hn, digit⟩ := exists_digit_of_mem_encodeChars (h ▸ List.mem_map_of_mem hb)
      exact toNat_lt_of_isDigit (isDigit_of_digit? (digit?_eq_some_iff.2 ⟨hn, digit⟩))
    have same := congrArg String.toList (Utf8.encode_injective (encode_map_ofNat plain))
    rw [String.toList_ofList, String.toList_ofList] at same
    rw [SpelledBy, ← h, ← same, List.map_map, same]
    rfl

theorem mem_marks_iff {mark : List Char} : mark ∈ marks ↔ mark = ['0', 'x'] ∨ mark = ['0', 'X'] := by
  rw [marks, List.mem_cons, List.mem_singleton]

theorem isBlank_of_mem_mark {mark : List Char} (h : mark ∈ marks) (hc : c ∈ mark) :
    isBlank c = false := by
  have solid : ∀ mark ∈ marks, mark.all (! isBlank ·) = true := by decide
  simpa using List.all_eq_true.1 (solid mark h) c hc

theorem dropMark_append {mark : List Char} (h : mark ∈ marks) : dropMark (mark ++ rest) = rest := by
  rcases mem_marks_iff.1 h with same | same
  · rw [same]
    rfl
  · rw [same]
    rfl

theorem dropMark_of_unmarked (h : ∀ mark ∈ marks, ¬ mark <+: text) : dropMark text = text := by
  unfold dropMark
  split
  · exact absurd ⟨_, rfl⟩ (h ['0', 'x'] (by decide))
  · exact absurd ⟨_, rfl⟩ (h ['0', 'X'] (by decide))
  · rfl

theorem unmarks_iff : Unmarks text rest ↔ rest = dropMark text := by
  constructor
  · rintro (⟨mark, hm, cut⟩ | ⟨none, same⟩)
    · rw [cut, dropMark_append hm]
    · rw [same, dropMark_of_unmarked none]
  · intro same
    rw [same]
    by_cases marked : ∃ mark ∈ marks, mark <+: text
    · have ⟨mark, hm, more, cut⟩ := marked
      rw [← cut, dropMark_append hm]
      exact .inl ⟨mark, hm, rfl⟩
    · have none : ∀ mark ∈ marks, ¬ mark <+: text := fun mark hm h => marked ⟨mark, hm, h⟩
      exact .inr ⟨none, dropMark_of_unmarked none⟩

theorem body_iff : Body text rest ↔ rest = dropMark (trim text) := by
  constructor
  · intro ⟨middle, trims, unmarks⟩
    rw [unmarks_iff.1 unmarks, trimsTo_iff.1 trims]
  · intro same
    exact ⟨trim text, trimsTo_trim text, unmarks_iff.2 same⟩

theorem SpelledBy.ne_nil (h : SpelledBy digits bytes) (filled : bytes ≠ []) : digits ≠ [] := by
  intro nil
  rw [nil] at h
  cases bytes with
  | nil => exact filled rfl
  | cons b rest => cases h

theorem SpelledBy.mem (h : SpelledBy digits bytes) (hc : c ∈ digits) :
    isBlank c = false ∧ c ≠ 'x' ∧ c ≠ 'X' := by
  have lower : c.toLower ∈ encodeChars bytes := h ▸ List.mem_map_of_mem hc
  refine forall_ascii (P := fun c => (∃ n < 16, c.toLower = digitChar n) →
    isBlank c = false ∧ c ≠ 'x' ∧ c ≠ 'X') (by decide +kernel) (toNat_lt_of_toLower_mem lower) ?_
  exact exists_digit_of_mem_encodeChars lower

theorem SpelledBy.unmarked (h : SpelledBy digits bytes) : ∀ mark ∈ marks, ¬ mark <+: digits := by
  intro mark hm ahead
  have letter : ∀ mark ∈ marks, 'x' ∈ mark ∨ 'X' ∈ mark := by decide
  rcases letter mark hm with hx | hx
  · exact (h.mem (ahead.mem hx)).2.1 rfl
  · exact (h.mem (ahead.mem hx)).2.2 rfl

theorem spells_iff : Spells text bytes ↔ SpelledBy (dropMark (trim text)) bytes := by
  constructor
  · intro ⟨front, mark, digits, back, cut, blank, marked, spelled, blank'⟩
    have solid : ∀ c ∈ mark ++ digits, isBlank c = false := by
      intro c hc
      rcases List.mem_append.1 hc with hc | hc
      · rcases marked with none | hm
        · rw [none] at hc
          cases hc
        · exact isBlank_of_mem_mark hm hc
      · exact (spelled.mem hc).1
    have trims : TrimsTo text (mark ++ digits) :=
      ⟨⟨front, back, by rw [cut, List.append_assoc], blank, blank'⟩,
        fun c hc => solid c (List.mem_of_mem_head? hc),
        fun c hc => solid c (List.mem_of_mem_getLast? hc)⟩
    have unmarks : Unmarks (mark ++ digits) digits := by
      rcases marked with none | hm
      · rw [none, List.nil_append]
        exact .inr ⟨spelled.unmarked, rfl⟩
      · exact .inl ⟨mark, hm, rfl⟩
    rwa [← body_iff.1 ⟨_, trims, unmarks⟩]
  · intro spelled
    have ⟨front, back, cut, blank, blank'⟩ := (trimsTo_trim text).split
    rcases unmarks_iff.2 (rfl : dropMark (trim text) = _) with ⟨mark, hm, same⟩ | ⟨_, same⟩
    · refine ⟨front, mark, _, back, ?_, blank, .inr hm, spelled, blank'⟩
      rw [← List.append_assoc mark, ← same]
      exact cut
    · refine ⟨front, [], _, back, ?_, blank, .inl rfl, spelled, blank'⟩
      rw [same]
      exact cut

theorem decode_of_nil {text : String} (none : Hex.digits text = []) :
    decode text = .error .empty := by
  rw [decode, none]
  rfl

theorem decode_of_odd {text : String} (odd : (Hex.digits text).length % 2 = 1) :
    decode text = .error (.oddLength (Hex.digits text).length) := by
  have some : ¬ (Hex.digits text).isEmpty = true := by
    intro none
    rw [List.isEmpty_iff.1 none] at odd
    cases odd
  exact (if_neg some).trans (if_pos odd)

theorem decode_of_even {text : String} (filled : Hex.digits text ≠ [])
    (even : (Hex.digits text).length % 2 = 0) : decode text = readPairs 0 (Hex.digits text) := by
  have some : ¬ (Hex.digits text).isEmpty = true := fun none => filled (List.isEmpty_iff.1 none)
  exact (if_neg some).trans (if_neg (by omega))

theorem decode_eq_ok_iff {text : String} : decode text = .ok bytes ↔
    bytes ≠ [] ∧ SpelledBy (dropMark (trim text.toList)) bytes := by
  rw [spelledBy_iff]
  change _ ↔ bytes ≠ [] ∧ (Hex.digits text).map lowerOf = encodeChars bytes
  by_cases none : Hex.digits text = []
  · rw [decode_of_nil none, none]
    refine iff_of_false (fun h => by cases h) fun ⟨filled, spelled⟩ => ?_
    cases bytes with
    | nil => exact filled rfl
    | cons b rest => cases spelled
  -- every byte takes two digits, so an odd number spells nothing
  have length (h : (Hex.digits text).map lowerOf = encodeChars bytes) :
      (Hex.digits text).length = 2 * bytes.length := by
    rw [← length_encodeChars, ← h, List.length_map]
  rcases Nat.mod_two_eq_zero_or_one (Hex.digits text).length with even | odd
  · rw [decode_of_even none even, readPairs_eq_ok_iff even]
    refine (and_iff_right_of_imp fun spelled => ?_).symm
    intro nil
    rw [nil] at length spelled
    exact none (List.length_eq_zero_iff.1 (length spelled))
  · rw [decode_of_odd odd]
    refine iff_of_false (fun h => by cases h) fun ⟨_, spelled⟩ => ?_
    have := length spelled
    omega

theorem decode_eq_error_iff {text : String} {e : Error} : decode text = .error e ↔
    Fault (Utf8.encode (String.ofList (dropMark (trim text.toList)))) e := by
  change _ ↔ Fault (Hex.digits text) e
  by_cases none : Hex.digits text = []
  · rw [decode_of_nil none, none]
    constructor
    · intro h
      obtain rfl := Except.error.inj h
      exact .empty rfl
    · intro fault
      cases fault with
      | empty _ => rfl
      | oddLength odd => cases odd
      | notHex _ other =>
        have ⟨_, _, cut, _⟩ := other
        simp at cut
  rcases Nat.mod_two_eq_zero_or_one (Hex.digits text).length with even | odd
  · rw [decode_of_even none even, readPairs_eq_error_iff even]
    simp only [Nat.zero_add]
    constructor
    · intro ⟨position, b, same, other⟩
      rw [same]
      exact .notHex even other
    · intro fault
      cases fault with
      | empty nil => exact absurd nil none
      | oddLength odd => omega
      | notHex _ other => exact ⟨_, _, rfl, other⟩
  · rw [decode_of_odd odd]
    constructor
    · intro h
      obtain rfl := Except.error.inj h
      exact .oddLength odd
    · intro fault
      cases fault with
      | empty nil => exact absurd nil none
      | oddLength _ => rfl
      | notHex even _ => omega

/-- A text is read exactly if it spells bytes, and of any other it is told what is wrong with it. -/
theorem decode_exact (text : String) :
    (∀ bytes, decode text = .ok bytes ↔ bytes ≠ [] ∧ Spells text.toList bytes) ∧
      ∃ body, (∀ rest, Body text.toList rest ↔ rest = body) ∧
        ∀ e, decode text = .error e ↔ Fault (Utf8.encode (String.ofList body)) e := by
  refine ⟨fun bytes => ?_, dropMark (trim text.toList), fun _ => body_iff,
    fun _ => decode_eq_error_iff⟩
  rw [decode_eq_ok_iff, spells_iff]

example : decode " 0X60fF\n" = .ok [0x60, 0xFF] := by decide +kernel

end Hex
end SolidityVetting
