import SolidityVetting.Expression.Reader
import SolidityVetting.Logging.Settings
import SolidityVetting.Numeral
/-! # Log filters

A filter is a list of directives with commas between them. A directive is a level, or a target, a
span in brackets or both, with a level after an equals sign; a span may ask for a field, by its name
or by its name and value.

A directive is scanned without the blanks around it, but its parts are cut from the whole of it at
the positions that the scan found. So blanks in front shift what the parts are, and a cut may even
fall into the middle of a character, which breaks the setup off.
-/

set_option autoImplicit false

namespace SolidityVetting

inductive LoggingFault where
  | filter
  /-- A part of a directive would begin or end inside a character. -/
  | splitCharacter
  | alreadyInitialized
  deriving DecidableEq

namespace LogFilter

def levelNames : List (List Char) :=
  ["off", "error", "warn", "info", "debug", "trace"].map String.toList

def isLevel (s : List Char) : Bool :=
  levelNames.contains (s.map Char.toLower) || ((Numeral.word64? s).any (· ≤ 5))

def isValue (s : List Char) : Bool := Numeral.isDecimal s || Expression.isWellFormed s

/-- A field by its name, or by its name and a pattern for its value, up to a second equals sign. -/
def isField (s : List Char) : Bool :=
  ! s.isEmpty &&
    match s.dropWhile (· != '=') with
    | [] => true
    | _ :: value => isValue (value.takeWhile (· != '='))

inductive Scan where
  | start
  | name
  | span (begin : Nat)
  | field (begin : Nat)
  /-- Behind the closing brace of a field. -/
  | fields
  /-- Behind the closing bracket of a span. -/
  | target
  | level (begin : Nat)
  deriving DecidableEq

def dropBytes? : (n : Nat) → List Char → Option (List Char)
  | 0, s => some s
  | _, [] => none
  | n, c :: rest => if c.utf8Size ≤ n then dropBytes? (n - c.utf8Size) rest else none

def takeBytes? : (n : Nat) → List Char → Option (List Char)
  | 0, _ => some []
  | _, [] => none
  | n, c :: rest =>
    if c.utf8Size ≤ n then (takeBytes? (n - c.utf8Size) rest).map (c :: ·) else none

def cut (directive : List Char) (begin finish : Nat) : Except LoggingFault (List Char) :=
  match (dropBytes? begin directive).bind (takeBytes? (finish - begin)) with
  | some s => .ok s
  | none => .error .splitCharacter

def cutRest (directive : List Char) (begin : Nat) : Except LoggingFault (List Char) :=
  match dropBytes? begin directive with
  | some s => .ok s
  | none => .error .splitCharacter

def startsTarget (c : Char) : Bool :=
  c == '-' || c == ':' || c == '_' || Text.isAlphanumeric c

def Scan.step (directive : List Char) (position : Nat) (c : Char) : Scan → Except LoggingFault Scan
  | .start =>
    if c == '[' then .ok (.span (position + 1))
    else if startsTarget c then .ok .name
    else .error .filter
  | .name =>
    if c == '=' then do let _ ← cut directive 0 position; return .level (position + 1)
    else if c == '[' then do let _ ← cut directive 0 position; return .span (position + 1)
    else .ok .name
  | .span begin =>
    if c == ']' then do let _ ← cut directive begin position; return .target
    else if c == '\x7b' then do let _ ← cut directive begin position; return .field (position + 1)
    else .ok (.span begin)
  | .field begin =>
    if c == '\x7d' then do
      if isField (← cut directive begin position) then return .fields else throw .filter
    else .ok (.field begin)
  | .fields => if c == ']' then .ok .target else .error .filter
  | .target => if c == '=' then .ok (.level (position + 1)) else .error .filter
  | .level begin => .ok (.level begin)

/-- A directive may end behind a name, a span or a level; an empty level means every level. -/
def Scan.finish (directive : List Char) : Scan → Except LoggingFault Unit
  | .name => .ok ()
  | .target => .ok ()
  | .level begin => do
    let s ← cutRest directive begin
    if s.isEmpty || isLevel s then return () else throw .filter
  | _ => .error .filter

def scanFrom (directive : List Char) (position : Nat) (scan : Scan) :
    List Char → Except LoggingFault Unit
  | [] => scan.finish directive
  | c :: rest => do
    scanFrom directive (position + c.utf8Size) (← scan.step directive position c) rest

def readDirective (directive : List Char) : Except LoggingFault Unit :=
  scanFrom directive 0 .start (Text.trim directive)

def readAll : List (List Char) → Except LoggingFault Unit
  | [] => .ok ()
  | directive :: rest => do
    readDirective directive
    readAll rest

def read (filter : String) : Except LoggingFault Unit :=
  readAll ((Text.pieces (· == ',') filter.toList).filter (! ·.isEmpty))

end LogFilter

def LogSettings.install (installed : Bool) (s : LogSettings) : Except LoggingFault Unit := do
  LogFilter.read s.level
  if installed then throw .alreadyInitialized

end SolidityVetting
