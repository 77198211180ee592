import SolidityVetting.Json.Basic

set_option autoImplicit false

namespace SolidityVetting.Json

def hexQuad (n : Nat) : String :=
  let ds := Nat.toDigits 16 n
  String.ofList (List.replicate (4 - ds.length) '0' ++ ds)

def escapeChar (c : Char) : String :=
  if c = '"' then "\\\""
  else if c = '\\' then "\\\\"
  else if c.toNat < 0x20 then "\\u" ++ hexQuad c.toNat
  else c.toString

def renderString (s : String) : String :=
  "\"" ++ s.foldl (fun out c => out ++ escapeChar c) "" ++ "\""

def renderDigits (ds : List Nat) : String := String.ofList (ds.map Nat.digitChar)

def Number.render (n : Number) : String :=
  (if n.negative then "-" else "") ++ renderDigits n.whole ++
    (if n.fraction.isEmpty then "" else "." ++ renderDigits n.fraction) ++
    match n.exponent with
    | none => ""
    | some e => "e" ++ toString e

def renderText : Option String → String
  | some s => renderString s
  | none => "null"

mutual

def render : Json → String
  | .null => "null"
  | .bool b => if b then "true" else "false"
  | .number n => n.render
  | .text s => renderText s
  | .array items => "[" ++ renderItems items ++ "]"
  | .object fields => "\x7b" ++ renderFields fields ++ "\x7d"

def renderItems : List Json → String
  | [] => ""
  | [item] => item.render
  | item :: rest => item.render ++ "," ++ renderItems rest

def renderFields : List (Option String × Json) → String
  | [] => ""
  | [(key, value)] => renderText key ++ ":" ++ value.render
  | (key, value) :: rest => renderText key ++ ":" ++ value.render ++ "," ++ renderFields rest

end

end SolidityVetting.Json
