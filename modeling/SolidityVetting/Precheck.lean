import SolidityVetting.Rule

set_option autoImplicit false

namespace SolidityVetting.Precheck

open Pattern Text

def licence : Pattern :=
  exactly "SPDX-License-Identifier:" ++ zeroOrMore isBlank ++ oneOrMore (! isBlank ·)

def anyPragma : Pattern :=
  wordEdge ++ exactly "pragma" ++ oneOrMore isBlank ++ exactly "solidity" ++ wordEdge

def startsName (c : Char) : Bool := c.isAlpha || c == '_' || c == '$'

def continuesName (c : Char) : Bool := startsName c || c.isDigit

def contractHead : Pattern :=
  wordEdge ++ exactly "contract" ++ oneOrMore isBlank ++ one startsName ++ zeroOrMore continuesName

def demands : List (Pattern × String) :=
  [(licence, "Missing SPDX license identifier"),
   (anyPragma, "Missing pragma solidity version declaration"),
   (contractHead, "No contract declaration found")]

/-- The words for all that is missing; a source without any is valid. -/
def complaints (source : String) : List String :=
  (demands.filter fun demand => ! demand.1.occursIn source.toList).map (·.2)

end SolidityVetting.Precheck
