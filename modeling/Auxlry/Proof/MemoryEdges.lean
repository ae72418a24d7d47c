import Auxlry.Proof.MemoryCalls

/-!
# Edges between memories

An edge should relate two memories that exist. The table of edges has no foreign keys,
creating an edge looks at no memory, and a delete removes the edges of a memory before its
metadata, in a step of their own.

* `joined_iff`: no edge dangles **exactly in the runs where** edges are created between
  memories that exist, and the metadata of a memory is deleted when it has no edges.
* `edge_to_nowhere`, `edge_in_delete`: an edge between ids that were made up, and one that is
  created while its memory is deleted.
-/

namespace Auxlry

variable {V : Type}

namespace Stores

/-- The memory has metadata. -/
def Exists (s : Stores V) (id : String) : Prop := (s.metadata id).isSome

/-- Every edge is between memories that exist. -/
def Joined (s : Stores V) : Prop := ∀ edge ∈ s.edges, s.Exists edge.sourceId ∧ s.Exists edge.targetId

/-- No edge touches the memory. -/
def Isolated (s : Stores V) (id : String) : Prop := ∀ edge ∈ s.edges, edge.sourceId ≠ id ∧ edge.targetId ≠ id

variable {s : Stores V}

/-- Metadata that is written, with the edges as they are. -/
theorem Joined.setMetadata (h : s.Joined) {id : String} {row : Option MetadataRow}
    (hrow : s.Exists id → row.isSome) : (s.setMetadata id row).Joined := by
  have hkeep : ∀ id', s.Exists id' → (s.setMetadata id row).Exists id' := by
    intro id' hid'
    unfold Exists Stores.setMetadata at *
    rcases eq_or_ne id' id with rfl | hne
    · simpa only [Function.update_self] using hrow hid'
    · simpa only [Function.update_of_ne hne] using hid'
  exact fun edge hedge => ⟨hkeep _ (h edge hedge).1, hkeep _ (h edge hedge).2⟩

theorem joined_deleteMetadata_iff (h : s.Joined) (id : String) :
    (s.setMetadata id none).Joined ↔ s.Isolated id := by
  have hexists : ∀ id', (s.setMetadata id none).Exists id' ↔ id' ≠ id ∧ s.Exists id' := by
    intro id'
    unfold Exists Stores.setMetadata
    rcases eq_or_ne id' id with rfl | hne
    · simp
    · simp [hne]
  unfold Joined Isolated
  simp only [hexists]
  constructor
  · intro h' edge hedge
    exact ⟨(h' edge hedge).1.1, (h' edge hedge).2.1⟩
  · intro hne edge hedge
    exact ⟨⟨(hne edge hedge).1, (h edge hedge).1⟩, (hne edge hedge).2, (h edge hedge).2⟩

theorem Joined.removeEdges (h : s.Joined) (id : String) : (s.removeEdges id).Joined :=
  fun edge hedge => h edge (Multiset.mem_of_mem_filter hedge)

theorem joined_createEdge_iff (h : s.Joined) (id : ℕ) (sourceId targetId : String) (t : EdgeType) :
    (s.createEdge id sourceId targetId t).Joined ↔ s.Exists sourceId ∧ s.Exists targetId := by
  unfold createEdge
  split
  · -- the edge was there, between memories
    rename_i hedge
    obtain ⟨edge, hmem, rfl, rfl, -⟩ := hedge
    exact iff_of_true h (h edge hmem)
  · constructor
    · intro h'
      exact h' _ (Multiset.mem_cons_self ..)
    · intro hnew edge hedge
      rcases Multiset.mem_cons.1 hedge with rfl | hedge
      · exact hnew
      · exact h edge hedge

/-- A sub-step other than the deletion of metadata. -/
theorem Joined.write (h : s.Joined) (e : Env V) (op : MemoryOp) {p : SubStep} (hp : p ≠ .deleteMetadata) :
    (s.write e op p).Joined := by
  cases p with
  | deleteMetadata => exact absurd rfl hp
  | deleteEdges => exact h.removeEdges op.id
  | initMetadata =>
    cases op with
    | toolStore | httpStore => exact h.setMetadata fun _ => rfl
    | _ => exact h
  | updateType =>
    cases op with
    | toolUpdate => exact h.setMetadata fun hid => by simpa [Exists] using hid
    | _ => exact h
  | addRow => cases op <;> exact h
  | _ => exact h

end Stores

namespace MemoryCalls

/-- Edges are created between memories that exist, and a memory whose metadata is deleted has no
edges. -/
def JoinsMemories (m : MemoryCalls V) : Action V → Prop
  | .sub k (.ok ()) =>
    match m.call k with
    | .running _ _ (.createEdge sourceId targetId _ :: _) => m.stores.Exists sourceId ∧ m.stores.Exists targetId
    | .running (.operation op) _ (.sub .deleteMetadata :: _) => m.stores.Isolated op.id
    | _ => True
  | _ => True

variable {m m' : MemoryCalls V} {a : Action V}

/-- **One step** leaves no edge dangling exactly when it joins memories. -/
theorem joined_step (hP : m.stores.Joined) (h : m.step a = some m') :
    m'.stores.Joined ↔ m.JoinsMemories a := by
  cases step_move h with
  | start | refused => exact iff_of_true hP trivial
  | dropped | failed =>
    simp only [stores_proceed, stores_setCall]
    exact iff_of_true hP trivial
  | @done k call e p rest running =>
    simp only [stores_proceed, JoinsMemories, running]
    cases p with
    | createEdge sourceId targetId t => exact Stores.joined_createEdge_iff hP (m.edgeSeq + 1) sourceId targetId t
    | sub q =>
      cases call with
      | operation op =>
        by_cases hq : q = .deleteMetadata
        · subst hq
          exact Stores.joined_deleteMetadata_iff hP op.id
        · refine iff_of_true (hP.write e op hq) ?_
          split
          · rename_i he
            cases he
          · rename_i he
            cases he
            exact absurd rfl hq
          · trivial
      | toolCreateEdge | httpCreateEdge =>
        refine iff_of_true hP ?_
        split
        · rename_i he
          cases he
        · rename_i he
          cases he
        · trivial

/-- **No edge dangles** throughout a run exactly if each edge is created between memories that
exist, and the metadata of a memory is deleted when no edge touches it. -/
theorem joined_iff (stores : Stores V)
    (hstores : ∀ edge ∈ stores.edges, stores.Exists edge.sourceId ∧ stores.Exists edge.targetId)
    (edgeSeq : ℕ) (as : List (Action V)) :
    (∀ t, Sys.Visits step (init stores edgeSeq) as t →
        ∀ edge ∈ t.stores.edges, t.stores.Exists edge.sourceId ∧ t.stores.Exists edge.targetId) ↔
      ∀ t a, Sys.Takes step (init stores edgeSeq) as t a → t.JoinsMemories a :=
  Sys.visits_iff_takes (J := fun _ => True) (P := fun t : MemoryCalls V => t.stores.Joined)
    (fun _ _ _ _ _ _ _ => trivial) (fun _ _ _ _ hP h => joined_step hP h) as trivial hstores

/-! ## Edges that dangle -/

/-- Stores without a memory. -/
def noMemory : Stores Unit := ⟨0, fun _ => none, 0⟩

/-- Two memories with metadata. -/
def twoMemories : Stores Unit := ⟨0, fun id => if id = "m" ∨ id = "n" then some ⟨"fact", 0, "1", "1"⟩ else none, 0⟩

/-- An edge between ids that no memory has. -/
def inventedEdge : List (Action Unit) :=
  [.start 0 (.toolCreateEdge "x" "y" "related_to") "1" (), .sub 0 (.ok ())]

/-- **An edge to nowhere** is created, and the tool says so. -/
theorem edge_to_nowhere :
    ∃ t, Sys.run step (init noMemory 0) inventedEdge = some t ∧
      t.call 0 = .returned (.toolCreateEdge "x" "y" "related_to")
        (.reply (.text "Created edge: x --[related_to]--> y")) ∧
      t.stores.edges = {⟨1, "x", "y", "related_to"⟩} ∧ ¬ t.stores.Joined := by
  have hrun : Sys.run step (init noMemory 0) inventedEdge = some _ := rfl
  refine ⟨_, hrun, rfl, rfl, fun h => ?_⟩
  have hx := (h ⟨1, "x", "y", "related_to"⟩ (Multiset.mem_singleton_self _)).1
  cases hx

/-- So the edge was not created between memories. -/
theorem joined_iff_invented :
    ¬ ∀ t a, Sys.Takes step (init noMemory 0) inventedEdge t a → t.JoinsMemories a := by
  rw [← joined_iff noMemory (by simp [noMemory]) 0 inventedEdge]
  intro h
  have hrun : Sys.run step (init noMemory 0) inventedEdge = some _ := rfl
  have hx := (h _ ⟨_, List.prefix_rfl, hrun⟩ ⟨1, "x", "y", "related_to"⟩ (Multiset.mem_singleton_self _)).1
  cases hx

/-- A memory is deleted, and related to another one after its edges are gone. -/
def edgeInDelete : List (Action Unit) :=
  [.start 0 (.operation (.toolDelete "m")) "2" (), .sub 0 (.ok ()), .sub 0 (.ok ()), .sub 0 (.ok ()),
    .start 1 (.httpCreateEdge "m" "n" "part_of") "2" (), .sub 1 (.ok ()), .sub 0 (.ok ())]

/-- **An edge of a deleted memory**: both calls return that all went well. -/
theorem edge_in_delete :
    ∃ t, Sys.run step (init twoMemories 0) edgeInDelete = some t ∧
      t.call 0 = .returned (.operation (.toolDelete "m")) (.reply (.text "Deleted memory m and its edges")) ∧
      t.call 1 = .returned (.httpCreateEdge "m" "n" "part_of") .created ∧
      t.stores.edges = {⟨1, "m", "n", "part_of"⟩} ∧ t.stores.metadata "m" = none := by
  have hrun : Sys.run step (init twoMemories 0) edgeInDelete = some _ := rfl
  exact ⟨_, hrun, rfl, rfl, rfl, rfl⟩

end MemoryCalls

end Auxlry
