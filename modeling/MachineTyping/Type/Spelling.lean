/-
# How types are spelled

Messages spell a type as a program would write it: `int`, `seq[bool]`, `map[int, float]`,
`(int, bool)`, `(x: int, y: bool)`.  A tuple of one element keeps a comma, `(int,)`, and enums and
aliases go by their name.
-/
import MachineTyping.Type.Basic

namespace MachineTyping

/-- Phrases one after the other, with a comma and a blank between them. -/
def commaSeparated (phrases : List String) : String := String.intercalate ", " phrases

mutual

/-- The spelling of a type. -/
def Ty.spelling : Ty → String
  | .int => "int"
  | .float => "float"
  | .bool => "bool"
  | .any => "any"
  | .null => "null"
  | .event => "event"
  | .machine => "machine"
  | .enum name => name
  | .tuple [t] => "(" ++ t.spelling ++ ",)"
  | .tuple elems => "(" ++ commaSeparated (Ty.spellings elems) ++ ")"
  | .named fields => "(" ++ commaSeparated (Ty.fieldSpellings fields) ++ ")"
  | .seq elem => "seq[" ++ elem.spelling ++ "]"
  | .map key value => "map[" ++ key.spelling ++ ", " ++ value.spelling ++ "]"
  | .alias name _ => name

/-- The spellings of the types of a list. -/
def Ty.spellings : List Ty → List String
  | [] => []
  | t :: ts => t.spelling :: Ty.spellings ts

/-- The spellings of fields, each a name, a colon and a type. -/
def Ty.fieldSpellings : List (String × Ty) → List String
  | [] => []
  | (name, t) :: fields => (name ++ ": " ++ t.spelling) :: Ty.fieldSpellings fields

end

theorem Ty.spellings_eq_map (ts : List Ty) : Ty.spellings ts = ts.map Ty.spelling := by
  induction ts with
  | nil => rfl
  | cons t ts ih => rw [Ty.spellings, ih, List.map_cons]

theorem Ty.fieldSpellings_eq_map (fields : List (String × Ty)) :
    Ty.fieldSpellings fields = fields.map fun field => field.1 ++ ": " ++ field.2.spelling := by
  induction fields with
  | nil => rfl
  | cons field fields ih => rw [Ty.fieldSpellings, ih, List.map_cons]

instance : ToString Ty := ⟨Ty.spelling⟩

/-- The spelling of a kind. -/
def Kind.spelling : Kind → String
  | .int => "int"
  | .float => "float"
  | .bool => "bool"
  | .any => "any"
  | .null => "null"
  | .event => "event"
  | .machine => "machine"
  | .enum => "enum"
  | .tuple => "tuple"
  | .named => "named tuple"
  | .seq => "seq"
  | .map => "map"

instance : ToString Kind := ⟨Kind.spelling⟩

/-! ## Examples -/

/-- A comma tells a tuple of one element from a type in parentheses. -/
example : (Ty.tuple [.int]).spelling = "(int,)" := by decide +kernel

/-- The empty tuple and the empty named tuple are spelled alike. -/
example : (Ty.tuple []).spelling = "()" ∧ (Ty.named []).spelling = "()" := by decide +kernel

/-- Spellings nest. -/
example : (Ty.map .int (.named [("x", .seq .bool), ("y", .alias "Id" .int)])).spelling =
    "map[int, (x: seq[bool], y: Id)]" := by decide +kernel

end MachineTyping
