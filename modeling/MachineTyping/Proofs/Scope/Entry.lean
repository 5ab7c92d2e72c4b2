/-
# Entries

A binding can be told apart from all others by the frame that it was made in, its name and when it was
made.  An `Entry` has the first two, and a log, a list of entries **with the latest first**, the third.
This module has what a log says of a name, `Entries.latest` and `Entries.Taken`, and when it says the
same as a stack of frames (`Entries.Match`): the entries of the frames that count are the bindings
of the stack, frame by frame.

That is an equation of lists, and so each thing that can be done to a stack is a lemma on lists:
`Match.push`, `Match.pop` and `Match.add`.  It is stated for one namespace, of any kind of binding.
-/
import Mathlib.Data.List.Basic

namespace MachineTyping

namespace Scope

/-! ## 1. Logs -/

/-- A binding that was made: in which frame, of which name, and to what. -/
structure Entry (α : Type) where
  frame : Nat
  name : String
  value : α

/-- An entry of a frame, for a binding. -/
def Entry.of {α : Type} (frame : Nat) (binding : String × α) : Entry α :=
  ⟨frame, binding.1, binding.2⟩

namespace Entries

variable {α : Type}

/-- The name has an entry in the frame. -/
def Taken (log : List (Entry α)) (frame : Nat) (name : String) : Prop :=
  ∃ entry ∈ log, entry.frame = frame ∧ entry.name = name

instance (log : List (Entry α)) (frame : Nat) (name : String) : Decidable (Taken log frame name) :=
  inferInstanceAs (Decidable (∃ entry ∈ log, entry.frame = frame ∧ entry.name = name))

/-- **The latest entry of a name in one of the frames.**  Entries are kept the latest first. -/
def latest (log : List (Entry α)) (frames : List Nat) (name : String) : Option α :=
  (log.find? fun entry => entry.name = name ∧ entry.frame ∈ frames).map Entry.value

/-- Enter bindings one by one, up to the first whose name is taken in its frame. -/
def enter (log : List (Entry α)) : List (Entry α) → List (Entry α)
  | [] => log
  | entry :: entries =>
    if Taken log entry.frame entry.name then log else enter (entry :: log) entries

/-- The bindings of a stack, each with the number of its frame. -/
def tagged : List Nat → List (List (String × α)) → List (Entry α)
  | frame :: frames, bindings :: stack => bindings.map (.of frame) ++ tagged frames stack
  | _, _ => []

/-! ## 2. Logs and stacks -/

/-- **The entries of the frames are the bindings of the stack**, in order. -/
structure Match (frames : List Nat) (log : List (Entry α)) (stack : List (List (String × α))) :
    Prop where
  length : frames.length = stack.length
  entries : log.filter (fun entry => entry.frame ∈ frames) = tagged frames stack

variable {frames : List Nat} {log : List (Entry α)} {stack : List (List (String × α))}
  {frame : Nat} {bindings : List (String × α)} {name : String}

theorem find?_map_of (frame : Nat) (bindings : List (String × α)) (name : String) :
    ((bindings.map (Entry.of frame)).find? fun entry => entry.name = name).map Entry.value =
      bindings.lookup name := by
  induction bindings with
  | nil => rfl
  | cons binding bindings ih =>
    obtain ⟨x, a⟩ := binding
    by_cases hx : x = name
    · simp [Entry.of, hx]
    · have hx' : (name == x) = false := beq_false_of_ne (Ne.symm hx)
      rw [List.map_cons, List.find?_cons_of_neg (by simp [Entry.of, hx]), ih,
        List.lookup_cons, hx']

/-- The first entry with a name is the innermost binding of the name. -/
theorem find?_tagged (h : frames.length = stack.length) (name : String) :
    ((tagged frames stack).find? fun entry => entry.name = name).map Entry.value =
      stack.findSome? (·.lookup name) := by
  induction frames generalizing stack with
  | nil =>
    obtain rfl := List.eq_nil_of_length_eq_zero h.symm
    rfl
  | cons frame frames ih =>
    cases stack with
    | nil => cases h
    | cons bindings stack =>
      rw [tagged, List.find?_append, List.findSome?_cons, ← ih (Nat.succ.inj h),
        ← find?_map_of frame bindings name]
      cases (bindings.map (Entry.of frame)).find? fun entry => entry.name = name <;> rfl

theorem mem_frames_of_mem_tagged {entry : Entry α} (h : entry ∈ tagged frames stack) :
    entry.frame ∈ frames := by
  induction frames generalizing stack with
  | nil => cases h
  | cons frame frames ih =>
    cases stack with
    | nil => cases h
    | cons bindings stack =>
      rcases List.mem_append.mp h with h | h
      · obtain ⟨binding, -, rfl⟩ := List.mem_map.mp h
        exact List.mem_cons_self
      · exact List.mem_cons_of_mem _ (ih h)

/-! ## 3. What is done to a stack -/

namespace Match

/-- **Lookup finds the latest entry.** -/
theorem findSome?_eq (h : Match frames log stack) (name : String) :
    stack.findSome? (·.lookup name) = latest log frames name := by
  rw [latest, ← find?_tagged h.length, ← h.entries, List.find?_filter]
  congr 2
  funext entry
  simp [and_comm]

/-- A name has an entry in the current frame when it is bound there. -/
theorem taken_iff (h : Match (frame :: frames) log (bindings :: stack)) (hf : frame ∉ frames) :
    Taken log frame name ↔ bindings.lookup name ≠ none := by
  have hb : Taken log frame name ↔ ∃ a, (name, a) ∈ bindings := by
    constructor
    · rintro ⟨entry, he, hframe, hname⟩
      have hm : entry ∈ tagged (frame :: frames) (bindings :: stack) := by
        rw [← h.entries]
        exact List.mem_filter.mpr ⟨he, by simp [hframe]⟩
      rcases List.mem_append.mp hm with hm | hm
      · obtain ⟨⟨x, a⟩, hb, rfl⟩ := List.mem_map.mp hm
        obtain rfl : x = name := hname
        exact ⟨a, hb⟩
      · exact absurd (hframe ▸ mem_frames_of_mem_tagged hm) hf
    · rintro ⟨a, ha⟩
      have hm : Entry.of frame (name, a) ∈ log.filter (fun entry => entry.frame ∈ frame :: frames) := by
        rw [h.entries]
        exact List.mem_append_left _ (List.mem_map_of_mem ha)
      exact ⟨_, (List.mem_filter.mp hm).1, rfl, rfl⟩
  rw [hb, ne_eq, List.lookup_eq_none_iff]
  constructor
  · rintro ⟨a, ha⟩ hn
    simpa using hn (name, a) ha
  · intro hn
    by_contra hne
    refine hn fun binding hm => ?_
    obtain ⟨x, a⟩ := binding
    simpa using fun hx : name = x => hne ⟨a, hx ▸ hm⟩

/-- A frame that is entered has no entries. -/
theorem push (h : Match frames log stack) (hf : ∀ entry ∈ log, entry.frame ≠ frame) :
    Match (frame :: frames) log ([] :: stack) := by
  refine ⟨congrArg Nat.succ h.length, ?_⟩
  rw [tagged, List.map_nil, List.nil_append, ← h.entries]
  refine List.filter_congr fun entry he => ?_
  simp [hf entry he]

/-- The entries of a frame that is left do not count any more. -/
theorem pop (h : Match (frame :: frames) log (bindings :: stack)) (hf : frame ∉ frames) :
    Match frames log stack := by
  refine ⟨Nat.succ.inj h.length, ?_⟩
  have left : (bindings.map (Entry.of frame)).filter (fun entry => entry.frame ∈ frames) = [] := by
    rw [List.filter_eq_nil_iff]
    intro entry he
    obtain ⟨binding, -, rfl⟩ := List.mem_map.mp he
    simp [Entry.of, hf]
  have inner : (tagged frames stack).filter (fun entry => entry.frame ∈ frames) =
      tagged frames stack := by
    rw [List.filter_eq_self]
    intro entry he
    simpa using mem_frames_of_mem_tagged he
  calc log.filter (fun entry => entry.frame ∈ frames)
      = (log.filter fun entry => entry.frame ∈ frame :: frames).filter
          (fun entry => entry.frame ∈ frames) := by
        rw [List.filter_filter]
        refine List.filter_congr fun entry _ => ?_
        by_cases he : entry.frame ∈ frames <;> simp [he]
    _ = tagged frames stack := by
        rw [h.entries, tagged, List.filter_append, left, inner, List.nil_append]

/-- What is entered in the current frame is bound in it. -/
theorem add (h : Match (frame :: frames) log (bindings :: stack)) (binding : String × α) :
    Match (frame :: frames) (.of frame binding :: log) ((binding :: bindings) :: stack) := by
  refine ⟨h.length, ?_⟩
  rw [List.filter_cons_of_pos (by simp [Entry.of]), h.entries]
  rfl

end Match

end Entries

end Scope

end MachineTyping
