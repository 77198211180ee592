import SolidityVetting.Json.Token

set_option autoImplicit false

namespace SolidityVetting.Json

/-- An open container with what it holds so far, the last item first. -/
inductive Frame where
  | array (done : List Json)
  | object (done : List (Option String × Json))
  | entry (done : List (Option String × Json)) (key : Option String)

inductive Expected where
  | value
  /-- A value, or the end of the array that was just opened. -/
  | item
  | key
  /-- A key, or the end of the object that was just opened. -/
  | member
  | colon
  | more
  | nothing (result : Json)

structure Reader where
  expected : Expected := .value
  frames : List Frame := []

namespace Reader

def complete (v : Json) : List Frame → Option Reader
  | [] => some ⟨.nothing v, []⟩
  | .array done :: outer => some ⟨.more, .array (v :: done) :: outer⟩
  | .entry done key :: outer => some ⟨.more, .object ((key, v) :: done) :: outer⟩
  | .object _ :: _ => none

def begin (frames : List Frame) : Token → Option Reader
  | .openBrace => some ⟨.member, .object [] :: frames⟩
  | .openBracket => some ⟨.item, .array [] :: frames⟩
  | .null => complete .null frames
  | .bool b => complete (.bool b) frames
  | .number n => complete (.number n) frames
  | .text s => complete (.text s) frames
  | _ => none

def close : List Frame → Token → Option Reader
  | .array done :: outer, .closeBracket => complete (.array done.reverse) outer
  | .object done :: outer, .closeBrace => complete (.object done.reverse) outer
  | _, _ => none

def takeKey : List Frame → Token → Option Reader
  | .object done :: outer, .text key => some ⟨.colon, .entry done key :: outer⟩
  | _, _ => none

def step (r : Reader) (t : Token) : Option Reader :=
  match r.expected with
  | .value => begin r.frames t
  | .item => (close r.frames t).or (begin r.frames t)
  | .key => takeKey r.frames t
  | .member => (close r.frames t).or (takeKey r.frames t)
  | .colon => match t with
    | .colon => some ⟨.value, r.frames⟩
    | _ => none
  | .more => match t, r.frames with
    | .comma, .array _ :: _ => some ⟨.value, r.frames⟩
    | .comma, .object _ :: _ => some ⟨.key, r.frames⟩
    | _, _ => close r.frames t
  | .nothing _ => none

def result? (r : Reader) : Option Json :=
  match r.expected with
  | .nothing v => some v
  | _ => none

end Reader

def ofTokens? (tokens : List Token) : Option Json :=
  (tokens.foldlM Reader.step {}).bind Reader.result?

def ofBytes? (bytes : List UInt8) : Option Json := (Token.ofBytes? bytes).bind ofTokens?

def ofString? (s : String) : Option Json := ofBytes? (Utf8.encode s)

end SolidityVetting.Json
