import SolidityVetting.Proofs.Version

set_option autoImplicit false

namespace SolidityVetting
open Text

structure Digits where
  chars : List Char
  ne_nil : chars ≠ []
  decimal : ∀ c ∈ chars, '0' ≤ c ∧ c ≤ '9'

def Digits.value (d : Digits) : Nat :=
  d.chars.foldl (fun n c => n * 10 + (c.toNat - '0'.toNat)) 0

def Digits.Fits (d : Digits) : Prop := d.value < Nat.pow 2 32

def Digits.ofChars (cs : List Char)
    (h : (! cs.isEmpty && cs.all fun c => decide ('0' ≤ c ∧ c ≤ '9')) = true) : Digits where
  chars := cs
  ne_nil := by
    rintro rfl
    cases h
  decimal := fun c hc =>
    of_decide_eq_true (List.all_eq_true.1 (Bool.and_eq_true_iff.1 h).2 c hc)

structure WrittenVersion where
  major : Digits
  minor : Digits
  patch : Digits

namespace WrittenVersion

def text (v : WrittenVersion) : List Char :=
  v.major.chars ++ '.' :: (v.minor.chars ++ '.' :: v.patch.chars)

def version (v : WrittenVersion) : Version := ⟨v.major.value, v.minor.value, v.patch.value⟩

def Fits (v : WrittenVersion) : Prop := v.major.Fits ∧ v.minor.Fits ∧ v.patch.Fits

end WrittenVersion

namespace Version

/-- The next version that may break what works with this one. -/
def nextBreaking (v : Version) : Version :=
  if v.major ≠ 0 then ⟨v.major + 1, 0, 0⟩
  else if v.minor ≠ 0 then ⟨0, v.minor + 1, 0⟩
  else ⟨0, 0, v.patch + 1⟩

def nextMinor (v : Version) : Version := ⟨v.major, v.minor + 1, 0⟩

end Version

inductive Operator where
  | bare
  | equal
  | caret
  | tilde
  | atLeast
  | above
  | atMost
  | below

namespace Operator

def symbol : Operator → List Char
  | .bare => []
  | .equal => ['=']
  | .caret => ['^']
  | .tilde => ['~']
  | .atLeast => ['>', '=']
  | .above => ['>']
  | .atMost => ['<', '=']
  | .below => ['<']

def isUpper : Operator → Bool
  | .atMost => true
  | .below => true
  | _ => false

def Allows (operator : Operator) (bound w : Version) : Prop :=
  match operator with
  | .bare => w = bound
  | .equal => w = bound
  | .caret => bound ≤ w ∧ w < bound.nextBreaking
  | .tilde => bound ≤ w ∧ w < bound.nextMinor
  | .atLeast => bound ≤ w
  | .above => bound < w
  | .atMost => w ≤ bound
  | .below => w < bound

theorem le_of_allows {operator : Operator} {bound w : Version} (h : operator.Allows bound w)
    (lower : operator.isUpper = false) : bound ≤ w := by
  cases operator with
  | bare => exact h ▸ Version.le_refl bound
  | equal => exact h ▸ Version.le_refl bound
  | caret => exact h.1
  | tilde => exact h.1
  | atLeast => exact h
  | above => exact Version.not_lt_of_lt h
  | atMost => cases lower
  | below => cases lower

theorem ge_of_allows {operator : Operator} {bound w : Version} (h : operator.Allows bound w)
    (upper : operator.isUpper = true) : w ≤ bound := by
  cases operator with
  | atMost => exact h
  | below => exact Version.not_lt_of_lt h
  | _ => cases upper

end Operator

/-- A comparator with the white space in front of it and between its operator and its version. -/
structure Comparator where
  lead : List Char
  lead_blank : ∀ c ∈ lead, isBlank c = true
  operator : Operator
  gap : List Char
  gap_blank : ∀ c ∈ gap, isBlank c = true
  bound : WrittenVersion

namespace Comparator

def body (c : Comparator) : List Char := c.operator.symbol ++ (c.gap ++ c.bound.text)

def text (c : Comparator) : List Char := c.lead ++ c.body

def Allows (c : Comparator) (w : Version) : Prop := c.operator.Allows c.bound.version w

end Comparator

structure Alternative where
  comparators : List Comparator
  apart : ∀ c ∈ comparators.tail, c.lead ≠ []
  trail : List Char
  trail_blank : ∀ c ∈ trail, isBlank c = true

namespace Alternative

def text (a : Alternative) : List Char := a.comparators.flatMap (·.text) ++ a.trail

def Allows (a : Alternative) (w : Version) : Prop := ∀ c ∈ a.comparators, c.Allows w

end Alternative

structure Constraint where
  first : Alternative
  others : List Alternative

namespace Constraint

def text (c : Constraint) : List Char :=
  c.first.text ++ c.others.flatMap fun a => '|' :: '|' :: a.text

def Allows (c : Constraint) (w : Version) : Prop := ∃ a ∈ c.first :: c.others, a.Allows w

end Constraint

end SolidityVetting
