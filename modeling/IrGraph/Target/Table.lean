/-! Tables whose rows are sorted by key, so that two tables with the same content are equal. -/

namespace IrGraph

structure Table (α : Type) where
  rows : List (UInt64 × α)
  sorted : rows.Pairwise (·.1 < ·.1)
  deriving DecidableEq

namespace Table

variable {α : Type}

instance [Repr α] : Repr (Table α) := ⟨fun t n => reprPrec t.rows n⟩

def empty : Table α :=
  ⟨[], .nil⟩

/-- Puts a row in its place; it replaces the row that has its key. -/
def insertRow (key : UInt64) (x : α) : List (UInt64 × α) → List (UInt64 × α)
  | [] => [(key, x)]
  | row :: rest =>
    if key < row.1 then (key, x) :: row :: rest
    else if row.1 < key then row :: insertRow key x rest
    else (key, x) :: rest

theorem mem_insertRow {key : UInt64} {x : α} {rows : List (UInt64 × α)} {row : UInt64 × α}
    (h : row ∈ insertRow key x rows) : row = (key, x) ∨ row ∈ rows := by
  induction rows with
  | nil => simpa [insertRow] using h
  | cons first rest ih =>
    unfold insertRow at h
    split at h
    · simpa using h
    · split at h
      · rcases List.mem_cons.mp h with rfl | h
        · simp
        · rcases ih h with rfl | h <;> simp_all
      · rcases List.mem_cons.mp h with rfl | h <;> simp_all

theorem sorted_insertRow (key : UInt64) (x : α) {rows : List (UInt64 × α)}
    (h : rows.Pairwise (·.1 < ·.1)) : (insertRow key x rows).Pairwise (·.1 < ·.1) := by
  induction rows with
  | nil => simp [insertRow]
  | cons first rest ih =>
    obtain ⟨hfirst, hrest⟩ := List.pairwise_cons.mp h
    unfold insertRow
    split
    · rename_i hlt
      refine List.pairwise_cons.mpr ⟨fun row hrow => ?_, h⟩
      rcases List.mem_cons.mp hrow with rfl | hrow
      · exact hlt
      · exact UInt64.lt_trans hlt (hfirst row hrow)
    · split
      · rename_i hlt
        refine List.pairwise_cons.mpr ⟨fun row hrow => ?_, ih hrest⟩
        rcases mem_insertRow hrow with rfl | hrow
        · exact hlt
        · exact hfirst row hrow
      · rename_i hge hle
        have heq : key = first.1 := UInt64.le_antisymm (UInt64.not_lt.mp hle) (UInt64.not_lt.mp hge)
        exact List.pairwise_cons.mpr ⟨fun row hrow => heq ▸ hfirst row hrow, hrest⟩

def insert (t : Table α) (key : UInt64) (x : α) : Table α :=
  ⟨insertRow key x t.rows, sorted_insertRow key x t.sorted⟩

/-- The table of some rows in any order; of two rows with one key the later one counts. -/
def ofRows (rows : List (UInt64 × α)) : Table α :=
  rows.foldl (fun t row => t.insert row.1 row.2) empty

def find? (t : Table α) (key : UInt64) : Option α :=
  t.rows.lookup key

end Table

end IrGraph
