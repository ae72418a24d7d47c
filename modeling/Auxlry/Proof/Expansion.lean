import Auxlry.Proof.Filters
import Auxlry.Spec.HybridSearch

/-!
# Graph expansion

A hybrid search follows the edges of the top vector results, in both directions.

* `graphIds_spec`: **the memories found** are those at a distance from one to the depth of
  the search, each once, the nearer ones first.
-/

namespace Auxlry

variable {V K : Type} [Field K] [LinearOrder K] {s : Stores V} {e : SearchEnv K s} {u v : String} {n : ℕ}

/-- An edge relates two memories, in one of its directions. -/
def Stores.Adjacent (s : Stores V) (u v : String) : Prop :=
  ∃ edge ∈ s.edges, (edge.sourceId = u ∧ edge.targetId = v) ∨ (edge.targetId = u ∧ edge.sourceId = v)

instance (s : Stores V) (u v : String) : Decidable (s.Adjacent u v) := Multiset.decidableExistsMultiset

/-- The ids that a search starts from. -/
def IsSeed (p : SearchParams K) (vectorResults : List (SearchResult K)) (id : String) : Prop :=
  ∃ result ∈ vectorResults.take p.limit.toNat, result.id = id

/-- All lookups of edges succeed. -/
def SearchEnv.EdgesFound (e : SearchEnv K s) : Prop := ∀ n id, (e.edgesFor n id).isSome = true

theorem mem_edgesAt {edge : MemoryEdge} :
    edge ∈ s.edgesAt u ↔ edge ∈ s.edges ∧ (edge.sourceId = u ∨ edge.targetId = u) :=
  Multiset.mem_filter

/-- The other ends of the edges of a memory, those of loops included. -/
theorem mem_neighbors {edges : List MemoryEdge} (h : e.edgesFor n u = some edges) :
    v ∈ edges.map (·.neighbor u) ↔ s.Adjacent u v := by
  have hmem : ∀ edge, edge ∈ edges ↔ edge ∈ s.edges ∧ (edge.sourceId = u ∨ edge.targetId = u) := by
    intro edge
    rw [← Multiset.mem_coe, ← e.edgesFor_eq h, mem_edgesAt]
  rw [List.mem_map]
  unfold MemoryEdge.neighbor
  constructor
  · rintro ⟨edge, hedge, hv⟩
    obtain ⟨hin, hu⟩ := (hmem edge).1 hedge
    by_cases hsource : edge.sourceId = u
    · rw [if_pos hsource] at hv
      exact ⟨edge, hin, Or.inl ⟨hsource, hv⟩⟩
    · rw [if_neg hsource] at hv
      exact ⟨edge, hin, Or.inr ⟨hu.resolve_left hsource, hv⟩⟩
  · rintro ⟨edge, hin, ⟨hsource, htarget⟩ | ⟨htarget, hsource⟩⟩
    · refine ⟨edge, (hmem edge).2 ⟨hin, Or.inl hsource⟩, ?_⟩
      rw [if_pos hsource]
      exact htarget
    · refine ⟨edge, (hmem edge).2 ⟨hin, Or.inr htarget⟩, ?_⟩
      split
      · -- a loop
        rename_i hloop
        rw [htarget, ← hloop]
        exact hsource
      · exact hsource

/-- A frontier is looked through once. -/
theorem expandFrontier_eq (hok : e.EdgesFound) (frontier : List String) (n : ℕ) (x : Graph.Search String) :
    ∃ vs : List String, e.expandFrontier n frontier x = vs.foldl Graph.Search.see x ∧
      ∀ v, v ∈ vs ↔ ∃ u ∈ frontier, s.Adjacent u v := by
  induction frontier generalizing n x with
  | nil => exact ⟨[], rfl, by simp⟩
  | cons memId frontier ih =>
    obtain ⟨edges, hedges⟩ := Option.isSome_iff_exists.1 (hok n memId)
    obtain ⟨vs, heq, hvs⟩ := ih (n + 1) ((edges.map (·.neighbor memId)).foldl Graph.Search.see x)
    refine ⟨edges.map (·.neighbor memId) ++ vs, ?_, fun v => ?_⟩
    · rw [List.foldl_append, ← heq]
      simp only [SearchEnv.expandFrontier, hedges]
    · rw [List.mem_append, mem_neighbors hedges, hvs v]
      constructor
      · rintro (hv | ⟨u, hu, hv⟩)
        · exact ⟨memId, List.mem_cons_self, hv⟩
        · exact ⟨u, List.mem_cons_of_mem _ hu, hv⟩
      · rintro ⟨u, hu, hv⟩
        rcases List.mem_cons.1 hu with rfl | hu
        · exact Or.inl hv
        · exact Or.inr ⟨u, hu, hv⟩

/-- Each level of the search adds the memories at the next distance. -/
theorem atLevel_expand {S : String → Prop} (hok : e.EdgesFound) (depth n d : ℕ) {x : Graph.Search String}
    (hx : Graph.AtLevel s.Adjacent S d x) : Graph.AtLevel s.Adjacent S (d + depth) (e.expand depth n x) := by
  induction depth generalizing n d x with
  | zero => exact hx
  | succ depth ih =>
    obtain ⟨vs, heq, hvs⟩ := expandFrontier_eq hok x.next n x.nextLevel
    have hstep := ih (n + x.next.length) (d + 1) (hx.step hvs)
    rw [← heq] at hstep
    have hsum : d + 1 + depth = d + (depth + 1) := by omega
    rw [hsum] at hstep
    exact hstep

/-- **What graph expansion finds**, in every multigraph: the ids at a distance from one to the
depth of the search from a seed, without duplicates, in the order of their distance. -/
theorem graphIds_spec (e : SearchEnv K s) (p : SearchParams K) (vectorResults : List (SearchResult K))
    (hok : e.EdgesFound) : Graph.Levels s.Adjacent (IsSeed p vectorResults) p.graphDepth.toNat
      (e.graphIds p vectorResults) := by
  unfold SearchEnv.graphIds
  split
  · rename_i hnone
    refine ⟨List.nodup_nil, List.Pairwise.nil, fun id => iff_of_false List.not_mem_nil ?_⟩
    rintro ⟨n, h₁, hn, hdist⟩
    rcases hnone with hdepth | hempty
    · have hzero : p.graphDepth.toNat = 0 := by rw [hdepth]; rfl
      omega
    · -- there is nothing to start from
      have hnowalk : ∀ n v, ¬ Graph.Walk s.Adjacent (IsSeed p vectorResults) n v := by
        intro n v hwalk
        induction hwalk with
        | start h =>
          obtain ⟨result, hresult, -⟩ := h
          simp [List.isEmpty_iff.1 hempty] at hresult
        | step _ _ ih => exact ih
      exact hnowalk n id hdist.1
  · have hseeds : ∀ v, v ∈ (vectorResults.take p.limit.toNat).map (·.id) ↔ IsSeed p vectorResults v :=
      fun v => List.mem_map
    have hlevel := atLevel_expand hok p.graphDepth.toNat 0 0 (Graph.atLevel_start (R := s.Adjacent) hseeds)
    rw [Nat.zero_add] at hlevel
    exact hlevel.found

/-! ## Searches of given rows -/

/-- The stores with these rows. -/
def Stores.ofRows (rows : List (MemoryRow V)) (metadata : String → Option MetadataRow)
    (edges : List MemoryEdge) : Stores V := ⟨rows, metadata, edges⟩

/-- A search in which every lookup succeeds, of rows in the order of their distance from the query. -/
def SearchEnv.ofRows (rows : List (MemoryRow V × K)) (metadata : String → Option MetadataRow)
    (edges : List MemoryEdge) (fetch : HashOrder (MemoryRow V)) (importance : Importance K) :
    SearchEnv K (Stores.ofRows (rows.map Prod.fst) metadata edges) where
  nearest limit := .ok (rows.take limit)
  edgesFor _ id := some (edges.filter fun edge => edge.sourceId = id ∨ edge.targetId = id)
  edgesFor_eq h := by
    rw [← Option.some.inj h]
    exact Multiset.filter_coe ..
  fetched ids := .ok (fetch.visit ((rows.map Prod.fst).filter (·.id ∈ ids)))
  fetched_eq {ids rows'} hids h := by
    obtain ⟨first, rest, rfl⟩ := List.exists_cons_of_ne_nil hids
    have hrows : ((rows' : List (MemoryRow V)) : Multiset (MemoryRow V)) =
        (((rows.map Prod.fst).filter (·.id ∈ first :: rest) : List (MemoryRow V)) : Multiset (MemoryRow V)) := by
      rw [← Except.ok.inj h]
      exact Multiset.coe_eq_coe.2 (fetch.perm _)
    rw [hrows, selected_idsFilter]
    exact congrArg some (Multiset.filter_coe ..)
  importance := importance
  metadataOk _ := true
  edgeCountOk _ := true
  recordOk _ := true
  now := "2025-01-02 00:00:00"

/-- Rows in the order they are stored in. -/
def HashOrder.stored (α : Type*) : HashOrder α := ⟨id, fun _ => List.Perm.refl _⟩

/-- A memory, without a source. -/
def memory (id : String) (t : MemoryType) : MemoryRow Unit :=
  ⟨id, id, "", t.asStr, "2025-01-01T00:00:00+00:00", ()⟩

/-- The metadata of a memory that has not been found yet. -/
def unseen (t : MemoryType) : MetadataRow := ⟨t.asStr, 0, "2025-01-01 00:00:00", "2025-01-01 00:00:00"⟩

/-- How the time of this metadata is read. -/
def newYear : TimeFormats :=
  ⟨fun _ => none, fun t => if t = "2025-01-01 00:00:00" then some (1735689600 * 10 ^ 9) else none⟩

/-- The time of a search, a day later. -/
def nextDay : ℤ := 1735776000 * 10 ^ 9

/-- The stores that a search reads. -/
def SearchEnv.stores (_ : SearchEnv K s) : Stores V := s

/-- Three memories, with a loop and edges in both directions. -/
noncomputable def threeMemories := SearchEnv.ofRows (K := ℝ)
  [(memory "a" .fact, 0.1), (memory "b" .fact, 0.2), (memory "c" .fact, 0.3)] (fun _ => some (unseen .fact))
  [⟨1, "a", "a", "related_to"⟩, ⟨2, "b", "a", "part_of"⟩, ⟨3, "a", "b", "caused_by"⟩, ⟨4, "c", "b", "related_to"⟩]
  (.stored _) (earned newYear nextDay)

/-- The theorem at work. -/
theorem graphIds_spec_three : Graph.Levels threeMemories.stores.Adjacent
    (IsSeed ⟨1, none, .finite 0, 2⟩ [(memory "a" .fact).toResult (1 : ℝ)]) 2
    (threeMemories.graphIds ⟨1, none, .finite 0, 2⟩ [(memory "a" .fact).toResult 1]) :=
  graphIds_spec threeMemories ⟨1, none, .finite 0, 2⟩ [(memory "a" .fact).toResult 1] fun _ _ => rfl

end Auxlry
