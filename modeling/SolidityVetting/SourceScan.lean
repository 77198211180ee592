import SolidityVetting.Report
import SolidityVetting.Rule
import SolidityVetting.Version
/-! # Scanning source text

The rules are tried on every line, then on the whole text for what stretches over lines; a code is
reported once. After them come the checks of the declared compiler version, of value transfers
without a reentrancy guard, and of size.
-/

set_option autoImplicit false

namespace SolidityVetting.SourceScan

def defaultLargeSize : Nat := 50000

def tryOnLine (line : List Char) (number : Nat) (r : Report) (rule : Rule) : Report :=
  if r.hasCode rule.code then r
  else match rule.linePattern.search? line with
    | some hit => r.push ((rule.finding hit).atLine number)
    | none => r

def overLines (r : Report) (number : Nat) : List (List Char) → Report
  | [] => r
  | line :: rest => overLines (Rule.table.foldl (tryOnLine line number) r) (number + 1) rest

def tryOnText (text : List Char) (r : Report) (rule : Rule) : Report :=
  if r.hasCode rule.code then r
  else match rule.wholePattern.search? text with
    | some hit => r.push ((rule.finding hit).atLine hit.line)
    | none => r

def overText (r : Report) (text : List Char) : Report := Rule.table.foldl (tryOnText text) r

structure Declared where
  version : Version
  line : Nat

/-- The lowest version that any of the pragmas declares, the first of those that declare it. -/
def lowest (pragmas : List Hit) : Option Declared :=
  pragmas.foldl (fun low hit =>
    match Version.ofConstraint? hit.text, low with
    | none, low => low
    | some version, none => some ⟨version, hit.line⟩
    | some version, some low => some (if version < low.version then ⟨version, hit.line⟩ else low))
    none

def unreadable? (pragmas : List Hit) : Option Hit :=
  pragmas.find? fun hit => (Version.ofConstraint? hit.text).isNone

def missingPragma : Finding :=
  { severity := .critical, code := "NO_PRAGMA",
    message := "Missing `pragma solidity` version declaration (>= " ++ Version.minimum.text ++
      " required)" }

def unreadablePragma (hit : Hit) : Finding :=
  { severity := .critical, code := "UNPARSEABLE_PRAGMA",
    message := "Cannot determine compiler version from pragma `" ++
      String.ofList (Text.trim hit.text) ++ "`",
    line := some hit.line }

def oldVersion (declared : Declared) : Finding :=
  { severity := .critical, code := "OLD_SOLIDITY",
    message := "Solidity " ++ declared.version.text ++
      " is below the minimum supported version " ++ Version.minimum.text,
    line := some declared.line }

def versionFindings (text : List Char) : List Finding :=
  match Rule.versionPragma.hits text with
  | [] => [missingPragma]
  | pragmas =>
    ((unreadable? pragmas).map unreadablePragma).toList ++
      (((lowest pragmas).filter (! ·.version.isSupported)).map oldVersion).toList

/-- A value transfer in a text that nowhere names a guard. -/
def reentrancyFindings (text : List Char) : List Finding :=
  match Rule.valueTransfer.search? text with
  | none => []
  | some site =>
    if Rule.reentrancyGuard.occursIn text then []
    else
      [{ severity := .warning, code := "REENTRANCY_RISK",
         message := "Value transfer without ReentrancyGuard; " ++
           "use nonReentrant or checks-effects-interactions",
         line := some site.line }]

def sizeFindings (threshold : Nat) (text : List Char) : List Finding :=
  let size := Utf8.length text
  if size > threshold then
    [{ severity := .info, code := "LARGE_SOURCE",
       message := "Source is " ++ toString size ++ " bytes (threshold " ++ toString threshold ++
         "); large contracts are harder to review" }]
  else []

/-- The report on a text; more than `threshold` bytes count as large. -/
def scan (threshold : Nat) (source : String) : Report :=
  let text := source.toList
  let byRules := overText (overLines { subject := .source } 1 (Text.lines text)) text
  byRules.pushAll (versionFindings text ++ reentrancyFindings text ++ sizeFindings threshold text)

end SolidityVetting.SourceScan
