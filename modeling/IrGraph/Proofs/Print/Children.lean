import IrGraph.Proofs.Print.Definitions
import IrGraph.Proofs.Walk.Reach

/-! Metadata nodes as a walk sees them and as they are printed. A walk goes on with what a node's
definition lists, in the same order; so it comes to all that the definition mentions, and the
definition mentions all metadata that the walk goes on with. -/

namespace IrGraph

namespace Field

variable {key s : String} {m : Option MetadataRef}

@[simp]
theorem refs_cons_string {fields : List Field} :
    ((key, FieldValue.string s) :: fields).filterMap (·.2.ref?) = fields.filterMap (·.2.ref?) :=
  rfl

@[simp]
theorem refs_cons_int {n : Int} {fields : List Field} :
    ((key, FieldValue.int n) :: fields).filterMap (·.2.ref?) = fields.filterMap (·.2.ref?) :=
  rfl

@[simp]
theorem refs_cons_uint {n : Nat} {fields : List Field} :
    ((key, FieldValue.uint n) :: fields).filterMap (·.2.ref?) = fields.filterMap (·.2.ref?) :=
  rfl

@[simp]
theorem refs_ref : (ref key m).filterMap (·.2.ref?) = m.toList := by
  cases m <;> rfl

@[simp]
theorem refs_string : (string key s).filterMap (·.2.ref?) = [] := by
  unfold string
  split <;> rfl

@[simp]
theorem refs_enum : (enum key s).filterMap (·.2.ref?) = [] := by
  unfold enum
  split <;> rfl

@[simp]
theorem refs_uint {n : Nat} : (uint key n).filterMap (·.2.ref?) = [] := by
  unfold uint
  split <;> rfl

@[simp]
theorem refs_int {n : Int} : (int key n).filterMap (·.2.ref?) = [] := by
  unfold int
  split <;> rfl

@[simp]
theorem refs_flag {b : Bool} : (flag key b).filterMap (·.2.ref?) = [] := by
  cases b <;> rfl

end Field

namespace MetadataNode

def wrapped? : MetadataNode → Option Value
  | value v => some v
  | _ => none

theorem present_cons (m : Option MetadataRef) (refs : List (Option MetadataRef)) :
    children.present (m :: refs) = m.toList.map (·.node) ++ children.present refs := by
  cases m <;> rfl

theorem present_nil : children.present [] = [] := rfl

/-- The children of a node are the nodes that it lists, in the same order, and the value that it
wraps. -/
theorem children_eq (n : MetadataNode) :
    n.children = n.listed.map (·.node) ++ n.wrapped?.toList.map Value.node := by
  -- the two tables of fields, compared kind by kind
  cases n <;> simp [children, listed, fieldRefs, fields, elements, wrapped?, present_cons,
    present_nil]

theorem listed_eq_nil {n : MetadataNode} (h : n.isDefined = false) : n.listed = [] := by
  cases n with
  | value | string | null => rfl
  | _ => cases h

end MetadataNode

namespace Graph

variable {g : Graph} {d : Doc} {m c : MetadataRef} {n : MetadataNode} {v : Value} {k : Nat}

section Walked

theorem below_const {r : ConstRef} {x : StoredConstant} (hr : g.consts.get? r = some x)
    (hv : v ∈ x.data.parts) : g.Below r.node v.node :=
  ⟨_, children_const hr, List.mem_map_of_mem hv⟩

theorem below_listed (hm : g.metadata.get? m = some n) (hc : c ∈ n.listed) :
    g.Below m.node c.node := by
  refine ⟨n.children, children_metadata hm, ?_⟩
  rw [n.children_eq]
  exact List.mem_append_left _ (List.mem_map_of_mem hc)

theorem below_wrapped (hm : g.metadata.get? m = some (.value v)) : g.Below m.node v.node :=
  ⟨_, children_metadata hm, List.mem_singleton_self _⟩

theorem Below.listed_or_wrapped (hm : g.metadata.get? m = some n) (h : g.Below m.node c.node) :
    c ∈ n.listed ∨ n = .value (.metadata c) := by
  obtain ⟨below, hbelow, hc⟩ := h
  cases (children_metadata hm).symm.trans hbelow
  rw [n.children_eq, List.mem_append] at hc
  obtain hc | hc := hc
  · obtain ⟨c', hc', heq⟩ := List.mem_map.mp hc
    cases c
    cases c'
    cases heq
    exact .inl hc'
  · obtain ⟨v, hv, heq⟩ := List.mem_map.mp hc
    have hwrapped := Value.ofNode?_node v
    rw [heq] at hwrapped
    cases hwrapped
    cases n with
    | value v =>
      obtain rfl := List.mem_singleton.mp hv
      exact .inr rfl
    | _ => cases hv

end Walked

section Shown

/-- Whatever an operand is printed with, a walk from the operand comes to. -/
theorem reached_of_mem_operandDoc (h : g.operandDoc v = .ok d) (hk : .mention k ∈ d) :
    g.Reached (fun _ => true) v.node ⟨.metadata, k⟩ := by
  have hconst : ∀ (r : ConstRef) x w p, g.consts.get? r = some x → w ∈ x.data.parts →
      (p = Piece.mention k → g.Reached (fun _ => true) w.node ⟨.metadata, k⟩) →
      p = Piece.mention k → g.Reached (fun _ => true) r.node ⟨.metadata, k⟩ :=
    fun r x w p hr hw hP hp => (hP hp).head ⟨rfl, below_const hr hw⟩
  have hwrapped : ∀ (m : MetadataRef) w p, g.metadata.get? m = some (.value w) →
      (p = Piece.mention k → g.Reached (fun _ => true) w.node ⟨.metadata, k⟩) →
      p = Piece.mention k → g.Reached (fun _ => true) m.node ⟨.metadata, k⟩ :=
    fun m w p hm hP hp => (hP hp).head ⟨rfl, below_wrapped hm⟩
  refine operandWithin_induction
    (P := fun v p => p = .mention k → g.Reached (fun _ => true) v.node ⟨.metadata, k⟩)
    ?_ ?_ hconst hwrapped h hk rfl
  · intro v s _ hs
    cases hs
  · intro m n _ _ hm
    cases hm
    exact .refl

theorem metadataDoc_of_defines (hm : g.defines m) : g.metadataDoc m = .ok [.mention m.index] := by
  obtain ⟨n, hn, hdefined⟩ := defines_iff.mp hm
  have hget := Arena.get_eq_ok_iff.mpr hn
  cases n with
  | value | string | null => cases hdefined
  | _ =>
    rw [metadataDoc, operandDoc, operandWithin, hget]
    rfl

theorem metadataDoc_wrapped (hm : g.metadata.get? m = some (.value v)) (h : g.metadataDoc m = .ok d) :
    ∃ dv, g.operandDoc v = .ok dv ∧ dv <:+: d := by
  simp only [metadataDoc, operandDoc, operandWithin, bind_eq_ok_iff, Arena.get_eq_ok_iff] at h
  obtain ⟨n, hn, h⟩ := h
  obtain rfl := Option.some.inj (hm.symm.trans hn)
  simp only [typed, bind_eq_ok_iff, pure_eq_ok_iff] at h
  obtain ⟨type, -, text, -, dv, hdv, rfl⟩ := h
  exact ⟨dv, operandWithin_succ hdv, (List.suffix_append _ dv).isInfix⟩

/-- What is printed of a node itself: its definition, or what stands where it is listed if it has
none. -/
def shownDoc (g : Graph) (m : MetadataRef) : Except Fault Doc := do
  match ← g.definitionDoc? (← g.metadata.get m) with
  | some d => return d
  | none => g.metadataDoc m

theorem shownDoc_eq_ok (hm : g.metadata.get? m = some n) (h : g.shownDoc m = .ok d) :
    n.isDefined ∧ g.definitionDoc? n = .ok (some d) ∨
      n.isDefined = false ∧ g.metadataDoc m = .ok d := by
  simp only [shownDoc, Arena.get_eq_ok_iff.mpr hm, bind_eq_ok_iff] at h
  obtain ⟨n, hn, d?, hd?, h⟩ := h
  cases hn
  have hdefined := isSome_of_definitionDoc? hd?
  cases d? with
  | some d' =>
    obtain rfl := pure_eq_ok_iff.mp h
    exact .inl ⟨hdefined.symm, hd?⟩
  | none => exact .inr ⟨hdefined.symm, h⟩

theorem reached_of_shown (hm : g.metadata.get? m = some n) (h : g.shownDoc m = .ok d)
    (hk : k ∈ d.mentions) : g.Reached (fun _ => true) m.node ⟨.metadata, k⟩ := by
  rw [Doc.mem_mentions] at hk
  obtain ⟨-, hd⟩ | ⟨-, hd⟩ := shownDoc_eq_ok hm h
  · obtain ⟨s, hs⟩ | ⟨c, hc, dc, hdc, hk⟩ := (lists_of_definitionDoc? hd).text_or_node hk
    · cases hs
    · exact (reached_of_mem_operandDoc hdc hk).head ⟨rfl, below_listed hm hc⟩
  · exact reached_of_mem_operandDoc hd hk

theorem isInfix_of_shown (hm : g.metadata.get? m = some n) (h : g.shownDoc m = .ok d)
    (hc : g.Below m.node c.node) : ∃ dc, g.metadataDoc c = .ok dc ∧ dc <:+: d := by
  obtain ⟨hdefined, hd⟩ | ⟨hundefined, hd⟩ := shownDoc_eq_ok hm h
  · obtain hc | rfl := hc.listed_or_wrapped hm
    · exact (lists_of_definitionDoc? hd).exists_isInfix hc
    · cases hdefined
  · obtain hc | rfl := hc.listed_or_wrapped hm
    · rw [MetadataNode.listed_eq_nil hundefined] at hc
      cases hc
    · exact metadataDoc_wrapped hm hd

/-- A walk and the printer see the same of a metadata node. Its children are what its definition
lists, one by one, or the value that it wraps; so the walk comes to all that the node is printed
with, and the node is printed with all metadata right below it. -/
theorem metadata_walked_as_shown (hm : g.metadata.get? m = some n) :
    g.children m.node = .ok (n.fieldRefs.map (·.node) ++ n.elements.map (·.node) ++
      n.wrapped?.toList.map Value.node) ∧
    (∀ d, g.definitionDoc? n = .ok (some d) → g.Lists (n.fieldRefs ++ n.elements) d) ∧
    ((∀ x, g.Reached (fun _ => true) m.node x → ∃ below, g.children x = .ok below) →
      ∃ seen, g.walkNodes m.node = .ok seen) ∧
    ∀ d, g.shownDoc m = .ok d →
      (∀ k ∈ d.mentions, g.Reached (fun _ => true) m.node ⟨.metadata, k⟩ ∧
        ∀ seen, g.walkNodes m.node = .ok seen → ⟨.metadata, k⟩ ∈ seen) ∧
      ∀ c : MetadataRef, g.Below m.node c.node →
        ∃ dc, g.metadataDoc c = .ok dc ∧ dc <:+: d ∧ (g.defines c → c.index ∈ d.mentions) := by
  refine ⟨?_, fun d => lists_of_definitionDoc?, exists_walkNodes, fun d hd => ⟨?_, ?_⟩⟩
  · rw [children_metadata hm, n.children_eq, MetadataNode.listed, List.map_append]
  · intro k hk
    have hreached := reached_of_shown hm hd hk
    exact ⟨hreached, fun seen hseen => mem_of_walkNodes hseen hreached⟩
  · intro c hc
    obtain ⟨dc, hdc, hin⟩ := isInfix_of_shown hm hd hc
    refine ⟨dc, hdc, hin, fun hdefines => ?_⟩
    cases (metadataDoc_of_defines hdefines).symm.trans hdc
    exact Doc.mem_mentions.mpr (hin.mem (List.mem_singleton_self _))

/-- A tuple with the same file twice, a wrapped reference to it, and a function that has both. -/
def wrappedTupleRun : List Edit :=
  [.addMetadata (.file ⟨"a.c", "/tmp"⟩), .addMetadata (.tuple [⟨0⟩, ⟨0⟩]),
    .addMetadata (.value (.metadata ⟨1⟩)),
    .addMetadata (.subprogram ⟨some ⟨2⟩, "f", "", some ⟨0⟩, 0, some ⟨1⟩, none, none, none, none,
      some ⟨1⟩, none⟩)]

def wrappedTupleGraph : Graph :=
  match empty.run wrappedTupleRun with
  | .ok g => g
  | .error _ => empty

theorem wrappedTupleGraph_walked_as_shown :
    wrappedTupleGraph.children ⟨.metadata, 3⟩ =
        .ok [⟨.metadata, 2⟩, ⟨.metadata, 0⟩, ⟨.metadata, 1⟩, ⟨.metadata, 1⟩] ∧
      ∃ d seen, wrappedTupleGraph.shownDoc ⟨3⟩ = .ok d ∧ d.mentions = [1, 0, 1, 1] ∧
        wrappedTupleGraph.walkNodes ⟨.metadata, 3⟩ = .ok seen ∧
        ∀ k ∈ d.mentions, ⟨.metadata, k⟩ ∈ seen := by
  obtain ⟨hchildren, -, -, hshown⟩ :=
    metadata_walked_as_shown (g := wrappedTupleGraph) (m := ⟨3⟩) rfl
  have hdoc : ∃ d, wrappedTupleGraph.shownDoc ⟨3⟩ = .ok d ∧ d.mentions = [1, 0, 1, 1] :=
    ⟨_, rfl, rfl⟩
  obtain ⟨d, hd, hmentions⟩ := hdoc
  have hwalk : wrappedTupleGraph.walkNodes ⟨.metadata, 3⟩ =
      .ok [⟨.metadata, 3⟩, ⟨.metadata, 2⟩, ⟨.metadata, 1⟩, ⟨.metadata, 0⟩] := by
    cbv
  exact ⟨hchildren, d, _, hd, hmentions, hwalk, fun k hk => ((hshown d hd).1 k hk).2 _ hwalk⟩

end Shown

end Graph

end IrGraph
