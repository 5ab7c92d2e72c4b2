/-
# Rules for parts of a value

Components and fields of tuples, elements of sequences, values of maps, and what can be asked of
a collection as a whole.  The type of a part is canonical, because it is read off the canonical
type of the base.  The rules take checked operands, so that expressions and assignment targets
share them.
-/
import MachineTyping.Rule.Basic
import MachineTyping.Type.Assignable

namespace MachineTyping

namespace Rule

/-- `e.N` on a tuple.  `N` is a natural numeral below the number of elements; anything else is
out of bounds. -/
def component (span : Span) (base : Typed) (index : String) : Verdict Typed :=
  match base.ty.canonical with
  | .tuple elems =>
    match naturalOfChars? index.toList with
    | none => .error ⟨.outOfBounds index base.ty, span⟩
    | some position =>
      match elems[position]? with
      | none => .error ⟨.outOfBounds index base.ty, span⟩
      | some elem => .ok (.node span elem (.component base position))
  | _ => .error (base.mismatch [.kind .tuple])

/-- `e.x` on a named tuple: the first field of that name. -/
def field (span : Span) (base : Typed) (name : String) : Verdict Typed :=
  match base.ty.canonical with
  | .named fields =>
    match fields.lookup name with
    | none => .error ⟨.noField name base.ty, span⟩
    | some ty => .ok (.node span ty (.field base name))
  | _ => .error (base.mismatch [.kind .named])

/-- `e[i]`: a sequence takes an `int`, a map a key that its keys accept. -/
def index (span : Span) (base index : Typed) : Verdict Typed :=
  match base.ty.canonical with
  | .seq elem =>
    if index.ty.isOf .int then .ok (.node span elem (.seqItem base index))
    else .error (index.mismatch [.type .int])
  | .map key value =>
    if key.accepts index.ty then .ok (.node span value (.mapItem base index))
    else .error (index.mismatch [.type key])
  | _ => .error (base.mismatch [.kind .seq, .kind .map])

/-- `keys(m)` is the sequence of a map's keys. -/
def keys (span : Span) (map : Typed) : Verdict Typed :=
  match map.ty.canonical with
  | .map key _ => .ok (.node span (.seq key) (.keys map))
  | _ => .error (map.mismatch [.kind .map])

/-- `values(m)` is the sequence of a map's values. -/
def values (span : Span) (map : Typed) : Verdict Typed :=
  match map.ty.canonical with
  | .map _ value => .ok (.node span (.seq value) (.values map))
  | _ => .error (map.mismatch [.kind .map])

/-- `sizeof(c)` counts a sequence or a map. -/
def sizeof (span : Span) (collection : Typed) : Verdict Typed :=
  if collection.ty.isOf .seq || collection.ty.isOf .map then
    .ok (.node span .int (.sizeof collection))
  else .error (collection.mismatch [.kind .seq, .kind .map])

end Rule

end MachineTyping
