import IrGraph.Fault

/-! Storage for the entities of one kind. An entity is added at the end and never moves, so a
reference handed out stays good. -/

namespace IrGraph

structure Arena (k : Kind) (α : Type) where
  items : Array α
  deriving DecidableEq, Repr

namespace Arena

variable {k : Kind} {α : Type}

def empty : Arena k α :=
  ⟨#[]⟩

instance : Inhabited (Arena k α) := ⟨empty⟩

def size (a : Arena k α) : Nat :=
  a.items.size

/-- The reference that the next entity gets. -/
def next (a : Arena k α) : Ref k :=
  ⟨a.size⟩

def get? (a : Arena k α) (r : Ref k) : Option α :=
  a.items[r.index]?

def get (a : Arena k α) (r : Ref k) : Except Fault α :=
  match a.get? r with
  | some x => .ok x
  | none => .error (.outOfRange a.size r.index)

def push (a : Arena k α) (x : α) : Arena k α :=
  ⟨a.items.push x⟩

def set (a : Arena k α) (r : Ref k) (x : α) : Arena k α :=
  ⟨a.items.setIfInBounds r.index x⟩

def modify (a : Arena k α) (r : Ref k) (f : α → α) : Except Fault (Arena k α) :=
  match a.get? r with
  | some x => .ok (a.set r (f x))
  | none => .error (.outOfRange a.size r.index)

/-- References in use, in the order of creation. -/
def refs (a : Arena k α) : List (Ref k) :=
  (List.range a.size).map fun i => ⟨i⟩

theorem get_eq_ok_iff {a : Arena k α} {r : Ref k} {x : α} :
    a.get r = .ok x ↔ a.get? r = some x := by
  unfold get; split <;> simp_all

theorem mem_refs_of_get {a : Arena k α} {r : Ref k} {x : α} (h : a.get r = .ok x) :
    r ∈ a.refs := by
  obtain ⟨i⟩ := r
  have h' := Array.getElem?_eq_some_iff.mp (get_eq_ok_iff.mp h)
  simpa [refs, size] using h'.1

theorem get?_push (a : Arena k α) (x : α) (r : Ref k) :
    (a.push x).get? r = if r = a.next then some x else a.get? r := by
  obtain ⟨i⟩ := r
  simp [push, get?, next, size, Array.getElem?_push]

theorem get?_set (a : Arena k α) (r s : Ref k) (x : α) :
    (a.set r x).get? s = if r = s then (a.get? s).map (fun _ => x) else a.get? s := by
  obtain ⟨i⟩ := r
  obtain ⟨j⟩ := s
  simp only [set, get?, Array.getElem?_setIfInBounds, Ref.mk.injEq]
  split
  · subst_vars
    split <;> simp_all
  · rfl

theorem size_push (a : Arena k α) (x : α) : (a.push x).size = a.size + 1 := by
  simp [push, size]

end Arena

end IrGraph
