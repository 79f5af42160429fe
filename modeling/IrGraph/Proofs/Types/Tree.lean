import IrGraph.Proofs.Types.Closed

/-! What a reference denotes: the type with its components written out, down to types that have
none. Where components come before the types they are part of, every reference denotes a tree; where
no type is stored twice, different references denote different trees. -/

namespace IrGraph

inductive TypeTree
  | void
  | label
  | token
  | metadata
  | int (bits : Nat)
  | float (format : FloatFormat)
  | pointer (addrSpace : Nat)
  | vector (length : Nat) (elem : TypeTree) (scalable : Bool)
  | array (length : Nat) (elem : TypeTree)
  | struct (fields : List TypeTree) (packed : Bool)
  | func (result : TypeTree) (params : List TypeTree) (variadic : Bool)
  deriving Repr

/-- A type with the trees of its components in their places. -/
def IrType.tree? (sub : TypeRef → Option TypeTree) : IrType → Option TypeTree
  | void => some .void
  | label => some .label
  | token => some .token
  | metadata => some .metadata
  | int bits => some (.int bits)
  | float format => some (.float format)
  | pointer addrSpace => some (.pointer addrSpace)
  | vector length elem scalable => (sub elem).map (.vector length · scalable)
  | array length elem => (sub elem).map (.array length ·)
  | struct fields packed => (fields.mapM sub).map (.struct · packed)
  | func result params variadic =>
    (sub result).bind fun head => (params.mapM sub).map (.func head · variadic)

theorem exists_mapM_eq_some {α β : Type} {f : α → Option β} {l : List α}
    (h : ∀ x ∈ l, ∃ y, f x = some y) : ∃ ys, l.mapM f = some ys := by
  induction l with
  | nil => exact ⟨[], rfl⟩
  | cons x l ih =>
    obtain ⟨y, hy⟩ := h x List.mem_cons_self
    obtain ⟨ys, hys⟩ := ih fun z hz => h z (List.mem_cons_of_mem x hz)
    exact ⟨y :: ys, by simp [hy, hys]⟩

theorem eq_of_mapM_eq_some {α β : Type} {f f' : α → Option β} {l l' : List α} {ys : List β}
    (hf : ∀ x ∈ l, ∀ x' y, f x = some y → f' x' = some y → x = x') (h : l.mapM f = some ys)
    (h' : l'.mapM f' = some ys) : l = l' := by
  induction l generalizing l' ys with
  | nil =>
    obtain rfl : ys = [] := by simpa using h.symm
    cases l' with
    | nil => rfl
    | cons x' l' => simp [Option.bind_eq_some_iff] at h'
  | cons x l ih =>
    simp only [List.mapM_cons, Option.bind_eq_bind, Option.pure_def, Option.bind_eq_some_iff,
      Option.some.injEq] at h
    obtain ⟨y, hy, rest, hrest, rfl⟩ := h
    cases l' with
    | nil => simp at h'
    | cons x' l' =>
      simp only [List.mapM_cons, Option.bind_eq_bind, Option.pure_def, Option.bind_eq_some_iff,
        Option.some.injEq, List.cons.injEq] at h'
      obtain ⟨y', hy', rest', hrest', rfl, rfl⟩ := h'
      obtain rfl := hf x List.mem_cons_self x' _ hy hy'
      rw [ih (fun z hz => hf z (List.mem_cons_of_mem x hz)) hrest hrest']

namespace IrType

variable {sub sub' : TypeRef → Option TypeTree} {type type' : IrType} {a : TypeTree}

theorem exists_tree? (h : ∀ c ∈ type.components, ∃ a, sub c = some a) :
    ∃ a, type.tree? sub = some a := by
  cases type with
  | vector length elem scalable | array length elem =>
    obtain ⟨a, ha⟩ := h elem (by simp [components])
    exact ⟨_, by simp [tree?, ha]; rfl⟩
  | struct fields packed =>
    obtain ⟨as, has⟩ : ∃ as, fields.mapM sub = some as := exists_mapM_eq_some h
    exact ⟨.struct as packed, by simp [tree?, has]⟩
  | func result params variadic =>
    obtain ⟨a, ha⟩ := h result List.mem_cons_self
    obtain ⟨as, has⟩ := exists_mapM_eq_some fun c hc => h c (List.mem_cons_of_mem result hc)
    exact ⟨.func a as variadic, by simp [tree?, ha, has]⟩
  | _ => exact ⟨_, rfl⟩

/-- Types that give the same tree are the same when their components are. -/
theorem eq_of_tree?_eq (hsub : ∀ c ∈ type.components, ∀ c' b, sub c = some b → sub' c' = some b →
    c = c') (h : type.tree? sub = some a) (h' : type'.tree? sub' = some a) : type = type' := by
  cases type with
  | vector length elem scalable =>
    obtain ⟨b, hb, rfl⟩ := Option.map_eq_some_iff.mp h
    cases type' with
    | vector =>
      obtain ⟨b', hb', hsame⟩ := Option.map_eq_some_iff.mp h'
      cases hsame
      rw [hsub elem List.mem_cons_self _ b hb hb']
    | _ => simp [tree?, Option.bind_eq_some_iff] at h'
  | array length elem =>
    obtain ⟨b, hb, rfl⟩ := Option.map_eq_some_iff.mp h
    cases type' with
    | array =>
      obtain ⟨b', hb', hsame⟩ := Option.map_eq_some_iff.mp h'
      cases hsame
      rw [hsub elem List.mem_cons_self _ b hb hb']
    | _ => simp [tree?, Option.bind_eq_some_iff] at h'
  | struct fields packed =>
    obtain ⟨bs, hbs, rfl⟩ := Option.map_eq_some_iff.mp h
    cases type' with
    | struct =>
      obtain ⟨bs', hbs', hsame⟩ := Option.map_eq_some_iff.mp h'
      cases hsame
      have hfields : fields = _ := eq_of_mapM_eq_some hsub hbs hbs'
      rw [hfields]
    | _ => simp [tree?, Option.bind_eq_some_iff] at h'
  | func result params variadic =>
    obtain ⟨b, hb, h⟩ := Option.bind_eq_some_iff.mp h
    obtain ⟨bs, hbs, rfl⟩ := Option.map_eq_some_iff.mp h
    cases type' with
    | func =>
      obtain ⟨b', hb', h'⟩ := Option.bind_eq_some_iff.mp h'
      obtain ⟨bs', hbs', hsame⟩ := Option.map_eq_some_iff.mp h'
      cases hsame
      have hresult : result = _ := hsub result List.mem_cons_self _ b hb hb'
      have hparams : params = _ :=
        eq_of_mapM_eq_some (fun c hc => hsub c (List.mem_cons_of_mem result hc)) hbs hbs'
      rw [hresult, hparams]
    | _ => simp [tree?] at h'
  | _ =>
    obtain rfl := Option.some.inj h
    cases type' <;> simp_all [tree?, Option.bind_eq_some_iff]

end IrType

namespace TypeTable

/-- The tree of a reference with `depth` levels of components at most. -/
def treeWithin (t : TypeTable) : Nat → TypeRef → Option TypeTree
  | 0, _ => none
  | depth + 1, r => (t.get? r).bind (IrType.tree? (t.treeWithin depth))

/-- A type nests no deeper than the table is long. -/
def tree? (t : TypeTable) (r : TypeRef) : Option TypeTree :=
  t.treeWithin (t.entries.size + 1) r

variable {t : TypeTable} {r s : TypeRef} {type : IrType} {a : TypeTree} {depth depth' : Nat}

theorem Ordered.exists_treeWithin (h : t.Ordered) (hdepth : r.index < depth) (hr : t.Has r) :
    ∃ a, t.treeWithin depth r = some a := by
  induction depth generalizing r with
  | zero => exact absurd hdepth (Nat.not_lt_zero _)
  | succ depth ih =>
    have hget : t.get? r = some t.entries[r.index] := Array.getElem?_eq_getElem hr
    have hsub : ∀ c ∈ t.entries[r.index].components, ∃ a, t.treeWithin depth c = some a := by
      intro c hc
      have hlt : c.index < r.index := h.lt_of_mem hget hc
      exact ih (by omega) (h.has_component hget hc)
    obtain ⟨a, ha⟩ := IrType.exists_tree? hsub
    exact ⟨a, by rw [treeWithin, hget, Option.bind_some, ha]⟩

theorem Ordered.exists_tree? (h : t.Ordered) (hr : t.Has r) : ∃ a, t.tree? r = some a :=
  h.exists_treeWithin (Nat.lt_succ_of_lt hr) hr

theorem eq_of_treeWithin_eq (h : ∀ r s type, t.get? r = some type → t.get? s = some type → r = s)
    (hr : t.treeWithin depth r = some a) (hs : t.treeWithin depth' s = some a) : r = s := by
  induction depth generalizing r s a depth' with
  | zero => cases hr
  | succ depth ih =>
    obtain ⟨type, htype, hr⟩ := Option.bind_eq_some_iff.mp hr
    cases depth' with
    | zero => cases hs
    | succ depth' =>
      obtain ⟨type', htype', hs⟩ := Option.bind_eq_some_iff.mp hs
      obtain rfl := IrType.eq_of_tree?_eq (fun c _ c' b hc hc' => ih hc hc') hr hs
      exact h r s type htype htype'

end TypeTable

end IrGraph
