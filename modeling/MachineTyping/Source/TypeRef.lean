/-
# Written types

A type as it stands in a source, before its names are resolved.  Every part has its span.
-/
import MachineTyping.Source.Span

namespace MachineTyping

mutual

/-- A written type: what it says and where it says it. -/
inductive TypeRef where
  | node (span : Span) (form : TypeRef.Form)

/-- What a written type says. -/
inductive TypeRef.Form where
  /-- A name, built in or declared. -/
  | name (name : String)
  /-- `(A, B)` -/
  | tuple (elems : List TypeRef)
  /-- `(x: A, y: B)` -/
  | named (fields : List (String × TypeRef))
  /-- `seq[A]` -/
  | seq (elem : TypeRef)
  /-- `map[K, V]` -/
  | map (key value : TypeRef)

end

/-- Where a written type stands. -/
def TypeRef.span : TypeRef → Span
  | .node span _ => span

/-- What a written type says. -/
def TypeRef.form : TypeRef → TypeRef.Form
  | .node _ form => form

end MachineTyping
