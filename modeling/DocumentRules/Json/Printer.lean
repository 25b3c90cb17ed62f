import DocumentRules.Json.Basic

/-!
# Printing documents

The one spelling of a document: no white space, fields in the order of the table, and in a string
only what must be escaped — the quote, the backslash and the characters below U+0020, of which five
have a short form. Everything else stands as it is, U+007F and U+2028 included.

Printing recurses with the value and its lists, so each of the three functions is structural.
-/

set_option autoImplicit false

namespace DocumentRules

/-- One character of a string as it is written between quotes. -/
def escapedChar (c : Char) : List Char :=
  if c = '"' then ['\\', '"']
  else if c = '\\' then ['\\', '\\']
  else if c = '\n' then ['\\', 'n']
  else if c = '\r' then ['\\', 'r']
  else if c = '\t' then ['\\', 't']
  else if c = '\x08' then ['\\', 'b']
  else if c = '\x0c' then ['\\', 'f']
  else if c.toNat < 0x20 then
    ['\\', 'u', '0', '0', Nat.digitChar (c.toNat / 16), Nat.digitChar (c.toNat % 16)]
  else [c]

/-- A string between quotes. -/
def quoted (text : String) : String :=
  String.ofList ('"' :: text.toList.flatMap escapedChar ++ ['"'])

namespace Json

mutual

/-- The spelling of a value. -/
def render : Json → String
  | .null => "null"
  | .bool true => "true"
  | .bool false => "false"
  | .num n => n.render
  | .str text => quoted text
  | .arr items => "[" ++ ",".intercalate (renderItems items) ++ "]"
  | .obj fields => "\x7b" ++ ",".intercalate (renderFields fields) ++ "\x7d"
termination_by structural value => value

/-- The spellings of the items of an array. -/
def renderItems : List Json → List String
  | [] => []
  | item :: rest => item.render :: renderItems rest
termination_by structural items => items

/-- The spellings of the fields of an object, each with its key. -/
def renderFields : List (String × Json) → List String
  | [] => []
  | (key, value) :: rest => (quoted key ++ ":" ++ value.render) :: renderFields rest
termination_by structural fields => fields

end

end Json

end DocumentRules
