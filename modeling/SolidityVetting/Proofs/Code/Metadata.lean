import SolidityVetting.Proofs.Code.Trailer
import SolidityVetting.Text.Utf8

set_option autoImplicit false

namespace SolidityVetting

namespace Boundary

theorem take_of_le {code : List UInt8} {s p : Nat} (h : Boundary code p) (le : p ≤ s) :
    Boundary (code.take s) p := by
  refine along (motive := fun p => p ≤ s → Boundary (code.take s) p) (fun _ => .start) ?_ h le
  intro p op here ih le
  have there : (code.take s)[p]? = some op := by rwa [List.getElem?_take_of_lt (by omega)]
  exact (ih (by omega)).next there

theorem append_iff {front : List UInt8} (rest : List UInt8) {p : Nat} (le : p ≤ front.length) :
    Boundary (front ++ rest) p ↔ Boundary front p := by
  constructor
  · intro h
    have cut := h.take_of_le le
    rwa [List.take_left] at cut
  · intro h
    have cut : Boundary ((front ++ rest).take front.length) p := by rwa [List.take_left]
    exact cut.of_take

end Boundary

namespace Instruction

theorem walk_concat {body : List UInt8} {op : UInt8} (h : Boundary (body ++ [op]) body.length) :
    walk (body ++ [op]) = walk body ++ [⟨body.length, op, []⟩] := by
  rw [walk, walkFrom_split h, List.take_left, List.drop_left, Nat.zero_add, walkFrom_cons,
    List.take_nil, List.drop_nil, walkFrom_nil]
  rfl

end Instruction

namespace Trailer

/-- The length `n` by the five low bits of a head and the bytes behind it. -/
inductive Size : (info n : Nat) → List UInt8 → Prop
  | inside {n : Nat} (short : n ≤ 23) : Size n n []
  | byte (b : UInt8) : Size 24 b.toNat [b]
  | word (high low : UInt8) : Size 25 (256 * high.toNat + low.toNat) [high, low]

inductive Str (major : Nat) (content : List UInt8) : List UInt8 → Prop
  | mk {head : UInt8} {info : Nat} {size : List UInt8} (head_eq : head.toNat = 32 * major + info)
      (sized : Size info content.length size) : Str major content (head :: (size ++ content))

inductive Value : List UInt8 → Prop
  | small {b : UInt8} (h : b.toNat ≤ 0x17) : Value [b]
  | bytes {content form : List UInt8} (h : Str 2 content form) : Value form
  | text {content form : List UInt8} (h : Str 3 content form) : Value form
  | no : Value [0xF4]
  | yes : Value [0xF5]

inductive Entries : (keys : List (List UInt8)) → List UInt8 → Prop
  | none : Entries [] []
  | entry {key keyForm value rest : List UInt8} {keys : List (List UInt8)} (h : Str 3 key keyForm)
      (v : Value value) (more : Entries keys rest) : Entries (key :: keys) (keyForm ++ (value ++ rest))

/-- A map of 1 to 23 entries, one of which names the compiler. -/
inductive Metadata : List UInt8 → Prop
  | mk {header : UInt8} {keys : List (List UInt8)} {rest : List UInt8}
      (count : header.toNat = 0xA0 + keys.length) (some_entry : 1 ≤ keys.length)
      (few : keys.length ≤ 23) (entries : Entries keys rest)
      (named : Utf8.encode "solc" ∈ keys) : Metadata (header :: rest)

variable {head : UInt8} {bytes rest more content key : List UInt8} {major n : Nat}

theorem word16_eq (high low : UInt8) : word16 high low = 256 * high.toNat + low.toNat := by
  rw [word16, Nat.mul_comm]

theorem length?_eq_some_iff : length? head rest = some (n, more) ↔
    ∃ size, Size (head.toNat % 32) n size ∧ rest = size ++ more := by
  constructor
  · intro h
    unfold length? at h
    dsimp only at h
    split at h
    · next short =>
      cases h
      exact ⟨[], .inside short, rfl⟩
    split at h
    · next info =>
      split at h
      · next b _ =>
        cases h
        exact ⟨[b], info ▸ .byte b, rfl⟩
      · cases h
    split at h
    · next info =>
      split at h
      · next high low _ =>
        cases h
        exact ⟨[high, low], by rw [info, word16_eq]; exact .word high low, rfl⟩
      · cases h
    · cases h
  · rintro ⟨size, sized, rfl⟩
    unfold length?
    generalize head.toNat % 32 = info at sized
    cases sized with
    | inside short => exact if_pos short
    | byte b => rfl
    | word high low =>
      dsimp only [List.cons_append, List.nil_append]
      rw [if_neg (by decide), if_neg (by decide), if_pos rfl, word16_eq]

theorem string?_eq_some_iff (h : kind head = major) :
    string? head rest = some (content, more) ↔
      ∃ taken, Str major content taken ∧ head :: rest = taken ++ more := by
  have head_eq : head.toNat = 32 * major + head.toNat % 32 := by
    rw [← h, kind, Nat.div_add_mod]
  unfold string?
  rw [Option.bind_eq_bind, Option.bind_eq_some_iff]
  constructor
  · rintro ⟨⟨n, behind⟩, sized, found⟩
    obtain ⟨size, sized, rfl⟩ := length?_eq_some_iff.1 sized
    dsimp only at found
    split at found
    · next enough =>
      cases found
      have length : (behind.take n).length = n := List.length_take_of_le enough
      refine ⟨head :: (size ++ behind.take n), .mk head_eq (by rwa [length]), ?_⟩
      rw [List.cons_append, List.append_assoc, List.take_append_drop]
    · cases found
  · rintro ⟨taken, form, same⟩
    cases form with
    | @mk head' info size head_eq' sized =>
      rw [List.cons_append, List.append_assoc] at same
      obtain ⟨rfl, rfl⟩ := List.cons.inj same
      have info_eq : info = head.toNat % 32 := by omega
      rw [info_eq] at sized
      refine ⟨(content.length, content ++ more), length?_eq_some_iff.2 ⟨size, sized, rfl⟩, ?_⟩
      have enough : content.length ≤ (content ++ more).length := by simp
      dsimp only
      rw [if_pos enough, List.take_left, List.drop_left]

theorem Size.info_lt {info n : Nat} {size : List UInt8} (h : Size info n size) : info < 32 := by
  cases h with
  | inside short => omega
  | byte b => decide
  | word high low => decide

theorem Str.kind_eq {form : List UInt8} (h : Str major content form) :
    ∃ head rest, form = head :: rest ∧ kind head = major := by
  cases h with
  | @mk head info size head_eq sized =>
    have info_lt := sized.info_lt
    exact ⟨head, _, rfl, by rw [kind]; omega⟩

theorem key?_eq_some_iff : key? bytes = some (key, more) ↔
    ∃ taken, Str 3 key taken ∧ bytes = taken ++ more := by
  cases bytes with
  | nil =>
    constructor
    · intro h
      cases h
    · rintro ⟨taken, form, same⟩
      obtain ⟨head, rest, rfl, -⟩ := form.kind_eq
      cases same
  | cons head rest =>
    change (if kind head = 3 then string? head rest else none) = some (key, more) ↔ _
    split
    · next text => exact string?_eq_some_iff text
    · next other =>
      constructor
      · intro h
        cases h
      · rintro ⟨taken, form, same⟩
        obtain ⟨head', rest', rfl, text⟩ := form.kind_eq
        obtain ⟨rfl, -⟩ := List.cons.inj same
        exact absurd text other

theorem afterValue?_of_str {form : List UInt8} (h : Str major content form)
    (string : major = 2 ∨ major = 3) : afterValue? (form ++ more) = some more := by
  obtain ⟨head, rest, rfl, same⟩ := h.kind_eq
  have found : string? head (rest ++ more) = some (content, more) :=
    (string?_eq_some_iff same).2 ⟨_, h, rfl⟩
  have other : kind head ≠ 0 := by omega
  change (if kind head = 0 then _ else if kind head = 2 ∨ kind head = 3 then
    (string? head (rest ++ more)).map (·.2) else _) = some more
  rw [if_neg other, same, if_pos string, found]
  rfl

theorem afterValue?_of_value {value : List UInt8} (h : Value value) :
    afterValue? (value ++ more) = some more := by
  cases h with
  | @small b h =>
    have number : kind b = 0 := by
      rw [kind]
      omega
    change (if kind b = 0 then if b.toNat ≤ 0x17 then some more else none else _) = some more
    rw [if_pos number, if_pos h]
  | bytes h => exact afterValue?_of_str h (.inl rfl)
  | text h => exact afterValue?_of_str h (.inr rfl)
  | no => rfl
  | yes => rfl

theorem value_of_afterValue? (h : afterValue? bytes = some more) :
    ∃ value, Value value ∧ bytes = value ++ more := by
  cases bytes with
  | nil => cases h
  | cons head rest =>
    unfold afterValue? at h
    dsimp only at h
    split at h
    · split at h
      · next short =>
        cases h
        exact ⟨[head], .small short, rfl⟩
      · cases h
    split at h
    · next string =>
      obtain ⟨⟨content, behind⟩, found, rfl⟩ := Option.map_eq_some_iff.1 h
      obtain isBytes | isText := string
      · obtain ⟨taken, form, same⟩ := (string?_eq_some_iff isBytes).1 found
        exact ⟨taken, .bytes form, same⟩
      · obtain ⟨taken, form, same⟩ := (string?_eq_some_iff isText).1 found
        exact ⟨taken, .text form, same⟩
    split at h
    · next truth =>
      cases h
      obtain rfl | rfl := truth
      · exact ⟨[0xF4], .no, rfl⟩
      · exact ⟨[0xF5], .yes, rfl⟩
    · cases h

theorem entries?_of_entries {keys : List (List UInt8)} {form : List UInt8}
    (h : Entries keys form) :
    entries? keys.length (form ++ more) = some (keys.contains compilerKey, more) := by
  induction h with
  | none => rfl
  | @entry key keyForm value rest keys written v _ ih =>
    have readKey : key? (keyForm ++ (value ++ (rest ++ more))) = some (key, value ++ (rest ++ more)) :=
      key?_eq_some_iff.2 ⟨keyForm, written, rfl⟩
    rw [List.length_cons, entries?, List.append_assoc, List.append_assoc, readKey]
    dsimp only [bind, Option.bind]
    rw [afterValue?_of_value v]
    dsimp only
    rw [ih, List.contains_cons, Bool.beq_comm]
    rfl

theorem entries_of_entries? {named : Bool} (h : entries? n bytes = some (named, more)) :
    ∃ keys form, keys.length = n ∧ Entries keys form ∧ bytes = form ++ more := by
  induction n generalizing bytes named with
  | zero =>
    cases h
    exact ⟨[], [], rfl, .none, rfl⟩
  | succ n ih =>
    rw [entries?] at h
    obtain ⟨⟨key, behind⟩, readKey, h⟩ := Option.bind_eq_some_iff.1 h
    obtain ⟨afterValue, readValue, h⟩ := Option.bind_eq_some_iff.1 h
    obtain ⟨⟨named', afterAll⟩, readMore, h⟩ := Option.bind_eq_some_iff.1 h
    cases h
    obtain ⟨keyForm, written, rfl⟩ := key?_eq_some_iff.1 readKey
    obtain ⟨value, v, rfl⟩ := value_of_afterValue? readValue
    obtain ⟨keys, rest, rfl, entries, rfl⟩ := ih readMore
    refine ⟨key :: keys, keyForm ++ (value ++ rest), rfl, .entry written v entries, ?_⟩
    rw [List.append_assoc, List.append_assoc]

theorem encode_solc : Utf8.encode "solc" = compilerKey := by decide

theorem isMap_iff : isMap bytes = true ↔ Metadata bytes := by
  constructor
  · intro h
    cases bytes with
    | nil => cases h
    | cons header rest =>
      unfold isMap at h
      simp only [Bool.and_eq_true, decide_eq_true_eq, beq_iff_eq] at h
      obtain ⟨⟨low, high⟩, entries⟩ := h
      obtain ⟨keys, form, length, written, rfl⟩ := entries_of_entries? entries
      rw [← length, entries?_of_entries written] at entries
      obtain ⟨named, -⟩ := Prod.mk.inj (Option.some.inj entries)
      rw [List.append_nil]
      refine .mk (by omega) (by omega) (by omega) written ?_
      rw [encode_solc]
      exact List.contains_iff_mem.1 named
  · intro h
    cases h with
    | @mk header keys rest count some_entry few entries named =>
      have read : entries? keys.length (rest ++ []) = _ := entries?_of_entries entries
      rw [encode_solc] at named
      rw [List.append_nil, List.contains_iff_mem.2 named] at read
      unfold isMap
      simp only [Bool.and_eq_true, decide_eq_true_eq, beq_iff_eq]
      refine ⟨⟨by omega, by omega⟩, ?_⟩
      rw [count, Nat.add_sub_cancel_left, read]

def EndsMarked (code : List UInt8) : Prop :=
  ∃ last, (Instruction.walk code).getLast? = some last ∧ last.opcode = Opcode.invalid ∧
    last.offset + 1 = code.length

theorem endsMarked_iff {code : List UInt8} :
    EndsMarked code ↔ ∃ body, code = body ++ [0xFE] ∧ Boundary code body.length := by
  constructor
  · rintro ⟨last, found, mark, behind⟩
    obtain ⟨p, boundary, here, offset, -⟩ := Instruction.mem_walkFrom.1 (List.mem_of_getLast? found)
    obtain rfl | ⟨body, op, rfl⟩ := List.eq_nil_or_concat code
    · cases behind
    · rw [List.concat_eq_append] at *
      rw [List.length_append, List.length_singleton] at behind
      obtain rfl : p = body.length := by omega
      rw [List.getElem?_concat_length, mark] at here
      cases here
      exact ⟨body, rfl, boundary⟩
  · rintro ⟨body, rfl, boundary⟩
    refine ⟨⟨body.length, 0xFE, []⟩, ?_, rfl, by simp⟩
    rw [Instruction.walk_concat boundary, List.getLast?_concat]

variable {code front map : List UInt8} {high low : UInt8} {s : Nat}

theorem declaredLength?_append (code : List UInt8) (high low : UInt8) :
    declaredLength? (code ++ [high, low]) = some (word16 high low) := by
  unfold declaredLength?
  rw [List.drop_left' (by simp)]

theorem start?_append (length : map.length = word16 high low) :
    start? (front ++ map ++ [high, low]) = some s ↔
      2 ≤ map.length ∧ EndsMarked front ∧ isMap map = true ∧ s = front.length := by
  have size : (front ++ map ++ [high, low]).length - 2 - map.length = front.length := by
    simp only [List.length_append, List.length_cons, List.length_nil]
    omega
  have before : (front ++ map ++ [high, low]).take front.length = front := by
    rw [List.append_assoc, List.take_left]
  have within : ((front ++ map ++ [high, low]).drop front.length).take map.length = map := by
    rw [List.append_assoc, List.drop_left, List.take_left]
  unfold start?
  rw [declaredLength?_append, ← length]
  dsimp only [bind, Option.bind]
  rw [size, before, within]
  constructor
  · intro h
    split at h
    · cases h
    next room =>
    split at h
    · cases h
    next last found =>
    dsimp only at h
    split at h
    · next ends =>
      cases h
      exact ⟨by omega, ⟨last, found, ends.1, ends.2.1⟩, ends.2.2, rfl⟩
    · cases h
  · rintro ⟨long, ⟨last, found, mark, behind⟩, isMap, rfl⟩
    have room : ¬ (map.length < 2 ∨
        (front ++ map ++ [high, low]).length < map.length + 3) := by
      simp only [List.length_append, List.length_cons, List.length_nil]
      omega
    rw [if_neg room, found]
    exact if_pos ⟨mark, behind, isMap⟩

theorem exists_append_of_start? (h : start? code = some s) :
    ∃ front map high low, code = front ++ map ++ [high, low] ∧ map.length = word16 high low := by
  obtain ⟨declared, here, h⟩ := Option.bind_eq_some_iff.1 h
  split at h
  · cases h
  next room =>
  unfold declaredLength? at here
  split at here
  · next high low tail =>
    cases here
    let front := code.take (code.length - 2)
    have cut : code = front ++ [high, low] := by rw [← tail, List.take_append_drop]
    refine ⟨front.take (front.length - word16 high low), front.drop (front.length - word16 high low),
      high, low, by rw [List.take_append_drop]; exact cut, ?_⟩
    have size := congrArg List.length cut
    rw [List.length_append] at size
    rw [List.length_drop]
    change _ = front.length + 2 at size
    omega
  · cases here

/-- There is a trailer that starts at `s` exactly if the code is laid out as a body, the mark at a
boundary right in front of `s`, the metadata and its length. -/
theorem start?_eq_some_iff : start? code = some s ↔
    ∃ body map high low, code = body ++ [0xFE] ++ map ++ [high, low] ∧
      map.length = 256 * high.toNat + low.toNat ∧ 2 ≤ map.length ∧ s = body.length + 1 ∧
      Boundary code body.length ∧ Metadata map := by
  have within (body map : List UInt8) (high low : UInt8) :
      Boundary (body ++ [0xFE] ++ map ++ [high, low]) body.length ↔
        Boundary (body ++ [0xFE]) body.length := by
    rw [List.append_assoc (body ++ [0xFE])]
    exact Boundary.append_iff _ (by simp)
  constructor
  · intro h
    obtain ⟨front, map, high, low, rfl, length⟩ := exists_append_of_start? h
    obtain ⟨long, marked, isMap, rfl⟩ := (start?_append length).1 h
    obtain ⟨body, rfl, boundary⟩ := endsMarked_iff.1 marked
    refine ⟨body, map, high, low, rfl, by rw [length, word16_eq], long, by simp, ?_, ?_⟩
    · exact (within ..).2 boundary
    · exact isMap_iff.1 isMap
  · rintro ⟨body, map, high, low, rfl, length, long, rfl, boundary, metadata⟩
    have marked : EndsMarked (body ++ [0xFE]) :=
      endsMarked_iff.2 ⟨body, rfl, (within ..).1 boundary⟩
    rw [start?_append (by rw [length, word16_eq])]
    exact ⟨long, marked, isMap_iff.2 metadata, by simp⟩

end Trailer
end SolidityVetting
