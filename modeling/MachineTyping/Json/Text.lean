/-
# JSON text

A JSON value and its compact text: no blanks, members in the order in which they are given, and
the shortest escapes.  In a string the quote, the backslash and the five control characters that
have a letter are escaped by two characters, the other control characters below U+0020 by
`\u00xx` with lower-case digits, and every other character stands for itself.

Writers take the text that follows, so that each value is written once however deep it stands.
-/
namespace MachineTyping

/-- A JSON value.  Numbers are naturals, which is all that is ever written. -/
inductive Json where
  | null
  | bool (value : Bool)
  | num (value : Nat)
  | str (value : String)
  | arr (items : List Json)
  | obj (members : List (String × Json))

/-! ## 1. Strings -/

/-- The hexadecimal digit for a number below sixteen. -/
def hexDigit (n : Nat) : Char :=
  if n < 10 then Char.ofNat ('0'.toNat + n) else Char.ofNat ('a'.toNat + (n - 10))

/-- How a character is written inside of a string. -/
def escaped (c : Char) : List Char :=
  match c with
  | '"' => ['\\', '"']
  | '\\' => ['\\', '\\']
  | '\x08' => ['\\', 'b']
  | '\x0c' => ['\\', 'f']
  | '\n' => ['\\', 'n']
  | '\r' => ['\\', 'r']
  | '\t' => ['\\', 't']
  | c =>
    if c.toNat < 0x20 then
      ['\\', 'u', '0', '0', hexDigit (c.toNat / 16), hexDigit (c.toNat % 16)]
    else [c]

/-- The characters of a string, escaped, and then `rest`. -/
def writeEscaped : List Char → List Char → List Char
  | [], rest => rest
  | c :: cs, rest => escaped c ++ writeEscaped cs rest

/-- A string between quotes, and then `rest`. -/
def writeString (s : String) (rest : List Char) : List Char :=
  '"' :: writeEscaped s.toList ('"' :: rest)

/-! ## 2. Values -/

mutual

/-- The text of a value, and then `rest`. -/
def Json.write : Json → List Char → List Char
  | .null, rest => 'n' :: 'u' :: 'l' :: 'l' :: rest
  | .bool true, rest => 't' :: 'r' :: 'u' :: 'e' :: rest
  | .bool false, rest => 'f' :: 'a' :: 'l' :: 's' :: 'e' :: rest
  | .num n, rest => Nat.toDigits 10 n ++ rest
  | .str s, rest => writeString s rest
  | .arr [], rest => '[' :: ']' :: rest
  | .arr (item :: items), rest => '[' :: item.write (Json.writeItems items (']' :: rest))
  | .obj [], rest => '\x7b' :: '\x7d' :: rest
  | .obj ((key, value) :: members), rest =>
    '\x7b' :: writeString key (':' :: value.write (Json.writeMembers members ('\x7d' :: rest)))

/-- Further items, each after a comma, and then `rest`. -/
def Json.writeItems : List Json → List Char → List Char
  | [], rest => rest
  | item :: items, rest => ',' :: item.write (Json.writeItems items rest)

/-- Further members, each after a comma, and then `rest`. -/
def Json.writeMembers : List (String × Json) → List Char → List Char
  | [], rest => rest
  | (key, value) :: members, rest =>
    ',' :: writeString key (':' :: value.write (Json.writeMembers members rest))

end

/-- **The compact text of a value.** -/
def Json.text (value : Json) : String := String.ofList (value.write [])

/-! ## 3. Examples -/

/-- Values are written without blanks. -/
example : (Json.obj [("a", .arr [.num 10, .null]), ("b", .bool true)]).text =
    "\x7b\"a\":[10,null],\"b\":true\x7d" := by decide +kernel

/-- Short escapes where there are some, and nothing escaped that need not be. -/
example : (Json.str "a\"\n\x01é/").text = "\"a\\\"\\n\\u0001é/\"" := by decide +kernel

end MachineTyping
