import Auxlry.Proof.Expansion
import Mathlib.Tactic.Linarith

/-!
# What a hybrid search returns

The results of a search are the best of those that pass its filters (`survivors`): the first
result of each id found, with the weights of its ranks added up.

* `hybridSearch_answered`: **what holds of every answer**, in whatever order a hash map is
  visited and whichever lookups fail.
* `forall_best_iff`: what the order of a hash map can do to the answer.
-/

namespace Auxlry

variable {V K : Type}

/-! ## The score map -/

section ScoreMap

variable [Field K] {vs gs : List (SearchResult K)}

/-- The first result of each id. -/
def candidates (vs gs : List (SearchResult K)) : List (SearchResult K) := Rank.firsts (·.id) (vs ++ gs)

/-- The weights of the ranks of an id. -/
def fusedScore (vs gs : List (SearchResult K)) (id : String) : K :=
  Rank.total (·.id) (SearchEnv.vectorScores vs ++ SearchEnv.graphScores gs) id

theorem vectorScores_snd (vs : List (SearchResult K)) : (SearchEnv.vectorScores vs).map Prod.snd = vs := by
  unfold SearchEnv.vectorScores
  rw [List.map_map]
  exact List.zipIdx_map_fst 0 vs

theorem graphScores_snd (gs : List (SearchResult K)) : (SearchEnv.graphScores gs).map Prod.snd = gs := by
  unfold SearchEnv.graphScores
  rw [List.map_map]
  exact List.zipIdx_map_fst 0 gs

theorem scoreMap_eq (vs gs : List (SearchResult K)) :
    SearchEnv.scoreMap vs gs = (candidates vs gs).map fun r => (fusedScore vs gs r.id, r) := by
  have hitems : (SearchEnv.vectorScores vs ++ SearchEnv.graphScores gs).map Prod.snd = vs ++ gs := by
    rw [List.map_append, vectorScores_snd, graphScores_snd]
  unfold SearchEnv.scoreMap candidates fusedScore
  rw [Rank.fuse_eq, hitems]

omit [Field K] in
theorem candidates_nodup (vs gs : List (SearchResult K)) : ((candidates vs gs).map (·.id)).Nodup :=
  Rank.firsts_nodup _ _

omit [Field K] in
theorem candidates_subset {r : SearchResult K} (h : r ∈ candidates vs gs) : r ∈ vs ∨ r ∈ gs :=
  List.mem_append.1 ((Rank.firsts_sublist _ _).subset h)

end ScoreMap

variable [Field K] [LinearOrder K] {s : Stores V} {e : SearchEnv K s} {p : SearchParams K}
  {order : HashOrder (K × SearchResult K)} {vs gs rs : List (SearchResult K)} {x y : K × SearchResult K}

/-! ## Filters and boost -/

/-- A result that passes the filters, and its score. -/
theorem boost_eq_some : e.boost p x = some y ↔
    y.2 = x.2 ∧ (∀ t, p.typeFilter = some t → x.2.memoryType = t) ∧
      ((∃ i, e.importanceOf x.2.id = some i ∧ p.minImportance.exceeds i = false ∧
        y.1 = x.1 * (1 + i * 0.1)) ∨ (e.importanceOf x.2.id = none ∧ y.1 = x.1)) := by
  have htype : (p.typeFilter.all (x.2.memoryType == ·)) = true ↔
      ∀ t, p.typeFilter = some t → x.2.memoryType = t := by
    cases p.typeFilter with
    | none => simp
    | some t => simp
  have hpair : ∀ score : K, (score, x.2) = y ↔ y.2 = x.2 ∧ y.1 = score := by
    intro score
    rw [Prod.ext_iff]
    exact ⟨fun h => ⟨h.2.symm, h.1.symm⟩, fun h => ⟨h.2.symm, h.1.symm⟩⟩
  have hlast : ∀ score : K, (if p.typeFilter.all (x.2.memoryType == ·) then some (score, x.2) else none) = some y ↔
      y.2 = x.2 ∧ (∀ t, p.typeFilter = some t → x.2.memoryType = t) ∧ y.1 = score := by
    intro score
    rw [Option.ite_none_right_eq_some, htype, Option.some_inj, hpair]
    tauto
  unfold SearchEnv.boost
  cases e.importanceOf x.2.id with
  | none =>
    rw [hlast]
    simp
  | some i =>
    cases hmin : p.minImportance.exceeds i with
    | true => simp [hmin]
    | false =>
      simp only [hmin, Bool.false_eq_true, if_false]
      rw [hlast]
      simp [hmin]

/-- The results that pass the filters, with their scores. -/
def survivors (e : SearchEnv K s) (p : SearchParams K) (vs gs : List (SearchResult K)) :
    List (K × SearchResult K) := (SearchEnv.scoreMap vs gs).filterMap (e.boost p)

theorem mem_survivors : y ∈ survivors e p vs gs ↔
    ∃ r ∈ candidates vs gs, e.boost p (fusedScore vs gs r.id, r) = some y := by
  unfold survivors
  rw [scoreMap_eq, List.mem_filterMap]
  simp

/-- Which of the candidates pass. -/
theorem survivors_eq (e : SearchEnv K s) (p : SearchParams K) (vs gs : List (SearchResult K)) :
    survivors e p vs gs = (candidates vs gs).filterMap fun r => e.boost p (fusedScore vs gs r.id, r) := by
  unfold survivors
  rw [scoreMap_eq, List.filterMap_map]
  rfl

theorem survivors_sublist (e : SearchEnv K s) (p : SearchParams K) (vs gs : List (SearchResult K)) :
    ((survivors e p vs gs).map Prod.snd).Sublist (candidates vs gs) := by
  rw [survivors_eq]
  induction candidates vs gs with
  | nil => exact List.Sublist.refl _
  | cons r l ih =>
    rw [List.filterMap_cons]
    split
    · exact ih.cons r
    · rename_i y hy
      have hr : y.2 = r := (boost_eq_some.1 hy).1
      rw [List.map_cons, hr]
      exact ih.cons_cons r

theorem survivors_nodup (e : SearchEnv K s) (p : SearchParams K) (vs gs : List (SearchResult K)) :
    ((survivors e p vs gs).map (·.2.id)).Nodup := by
  have hids := (survivors_sublist e p vs gs).map (·.id)
  rw [List.map_map] at hids
  exact (candidates_nodup vs gs).sublist hids

/-! ## The best of them -/

/-- The results in the order that a hash map is visited in. -/
theorem visited_perm (order : HashOrder (K × SearchResult K)) (e : SearchEnv K s) (p : SearchParams K)
    (vs gs : List (SearchResult K)) :
    ((order.visit (SearchEnv.scoreMap vs gs)).filterMap (e.boost p)).Perm (survivors e p vs gs) :=
  (order.perm _).filterMap _

/-- Put the score into a result. -/
def scored (x : K × SearchResult K) : SearchResult K := { x.2 with score := x.1 }

theorem best_eq (order : HashOrder (K × SearchResult K)) (e : SearchEnv K s) (p : SearchParams K)
    (vs gs : List (SearchResult K)) : ∃ o, o.Perm (survivors e p vs gs) ∧
      e.best order p vs gs = (Rank.top Prod.fst p.limit.toNat o).map scored :=
  ⟨_, visited_perm order e p vs gs, rfl⟩

/-- An order that visits one map as wished. -/
noncomputable def HashOrder.through {α : Type*} {l l' : List α} (h : l'.Perm l) : HashOrder α where
  visit k := by
    classical
    exact if k = l then l' else k
  perm k := by
    classical
    by_cases hk : k = l
    · -- the one map that is visited in another order
      rw [if_pos hk, hk]
      exact h
    · rw [if_neg hk]

/-- **The order of a hash map** may bring the results that pass the filters in any order. -/
theorem forall_best_iff {P : List (SearchResult K) → Prop} : (∀ order, P (e.best order p vs gs)) ↔
    ∀ o, o.Perm (survivors e p vs gs) → P ((Rank.top Prod.fst p.limit.toNat o).map scored) := by
  constructor
  · intro h o ho
    obtain ⟨l, hl, rfl⟩ := Rank.exists_perm_filterMap ho
    have hvisit : (HashOrder.through hl).visit (SearchEnv.scoreMap vs gs) = l := if_pos rfl
    have hbest := h (HashOrder.through hl)
    unfold SearchEnv.best at hbest
    rw [hvisit] at hbest
    exact hbest
  · intro h order
    exact h _ (visited_perm order e p vs gs)

/-! ## The whole search -/

/-- What the vector search and the lookup of graph results return. -/
structure Retrieved (e : SearchEnv K s) (p : SearchParams K) (vs gs : List (SearchResult K)) : Prop where
  vector : e.vectorSearch (SearchEnv.overfetch p) = .ok vs
  graph : e.fetchByIds (e.graphIds p vs) = .ok gs

theorem hybridSearch_of_retrieved (h : Retrieved e p vs gs) : e.hybridSearch order p =
    (e.recordAccesses (e.best order p vs gs), .ok (e.best order p vs gs)) := by
  unfold SearchEnv.hybridSearch
  rw [h.vector]
  dsimp only
  rw [h.graph]

/-- A search that fails leaves everything as it was. -/
theorem retrieved_or_error (e : SearchEnv K s) (p : SearchParams K) :
    (∃ vs gs, Retrieved e p vs gs) ∨ ∃ text, ∀ order, e.hybridSearch order p = (s, .error text) := by
  cases hvs : e.vectorSearch (SearchEnv.overfetch p) with
  | error text =>
    refine Or.inr ⟨text, fun order => ?_⟩
    unfold SearchEnv.hybridSearch
    rw [hvs]
  | ok vs =>
    cases hgs : e.fetchByIds (e.graphIds p vs) with
    | error text =>
      refine Or.inr ⟨text, fun order => ?_⟩
      unfold SearchEnv.hybridSearch
      rw [hvs]
      dsimp only
      rw [hgs]
    | ok gs => exact Or.inl ⟨vs, gs, hvs, hgs⟩

theorem hybridSearch_ok (h : (e.hybridSearch order p).2 = .ok rs) :
    ∃ vs gs, Retrieved e p vs gs ∧ rs = e.best order p vs gs := by
  rcases retrieved_or_error e p with ⟨vs, gs, hret⟩ | ⟨text, herror⟩
  · rw [hybridSearch_of_retrieved hret] at h
    exact ⟨vs, gs, hret, (Except.ok.inj h).symm⟩
  · rw [herror order] at h
    cases h

/-! ## Accesses -/

/-- The metadata of a memory that has been found once more. -/
def touched (now : String) (md : MetadataRow) : MetadataRow :=
  { md with accessCount := md.accessCount + 1, lastAccessedAt := now }

theorem recordAccess_spec (e : SearchEnv K s) (t : Stores V) (r : SearchResult K) :
    (e.recordAccess t r).memories = t.memories ∧ (e.recordAccess t r).edges = t.edges ∧
      ∀ id, (e.recordAccess t r).metadata id =
        if id = r.id ∧ e.recordOk id then (t.metadata id).map (touched e.now) else t.metadata id := by
  unfold SearchEnv.recordAccess
  by_cases hok : e.recordOk r.id
  · rw [if_pos hok]
    refine ⟨rfl, rfl, fun id => ?_⟩
    by_cases hid : id = r.id
    · subst hid
      rw [if_pos ⟨rfl, hok⟩]
      exact Function.update_self ..
    · rw [if_neg (fun h => hid h.1)]
      exact Function.update_of_ne hid ..
  · rw [if_neg hok]
    refine ⟨rfl, rfl, fun id => ?_⟩
    rw [if_neg]
    rintro ⟨rfl, h⟩
    exact hok h

/-- Recording the accesses to different memories changes only their metadata, once each. -/
theorem recordAccesses_spec (e : SearchEnv K s) (hnodup : (rs.map (·.id)).Nodup) :
    (e.recordAccesses rs).memories = s.memories ∧ (e.recordAccesses rs).edges = s.edges ∧
      ∀ id, (e.recordAccesses rs).metadata id =
        if id ∈ rs.map (·.id) ∧ e.recordOk id then (s.metadata id).map (touched e.now)
        else s.metadata id := by
  have hfold : ∀ t : Stores V, (rs.foldl e.recordAccess t).memories = t.memories ∧
      (rs.foldl e.recordAccess t).edges = t.edges ∧
        ∀ id, (rs.foldl e.recordAccess t).metadata id =
          if id ∈ rs.map (·.id) ∧ e.recordOk id then (t.metadata id).map (touched e.now)
          else t.metadata id := by
    induction rs with
    | nil =>
      intro t
      simp
    | cons r rs ih =>
      intro t
      obtain ⟨hr, hrs⟩ := List.nodup_cons.1 hnodup
      obtain ⟨hmemories, hedges, hmetadata⟩ := ih hrs (e.recordAccess t r)
      obtain ⟨hmemories₁, hedges₁, hmetadata₁⟩ := recordAccess_spec e t r
      refine ⟨hmemories.trans hmemories₁, hedges.trans hedges₁, fun id => (hmetadata id).trans ?_⟩
      rw [hmetadata₁ id]
      by_cases hid : id = r.id
      · -- no other result has this id
        subst hid
        rw [if_neg (fun h => hr h.1)]
        simp
      · simp [hid]
  exact hfold s

/-! ## Answers -/

/-- What a search guarantees of its answer and of the stores it leaves. -/
structure Answered (e : SearchEnv K s) (p : SearchParams K) (vs gs : List (SearchResult K))
    (s' : Stores V) (rs : List (SearchResult K)) : Prop where
  length_le : rs.length ≤ p.limit.toNat
  ids_nodup : (rs.map (·.id)).Nodup
  descending : rs.Pairwise fun a b => b.score ≤ a.score
  types : ∀ t, p.typeFilter = some t → ∀ r ∈ rs, r.memoryType = t
  found : ∀ r ∈ rs, (∃ v ∈ vs, v.id = r.id) ∨ ∃ g ∈ gs, g.id = r.id
  memories : s'.memories = s.memories
  edges : s'.edges = s.edges
  /-- the accesses that can be recorded are -/
  metadata : ∀ id, s'.metadata id = if id ∈ rs.map (·.id) ∧ e.recordOk id then
    (s.metadata id).map (touched e.now) else s.metadata id

/-- A result comes from a candidate. -/
theorem mem_best {r : SearchResult K} (h : r ∈ e.best order p vs gs) :
    ∃ x ∈ survivors e p vs gs, scored x = r := by
  obtain ⟨o, hperm, heq⟩ := best_eq order e p vs gs
  rw [heq] at h
  obtain ⟨x, hx, rfl⟩ := List.mem_map.1 h
  exact ⟨x, hperm.subset (Rank.top_subset hx), rfl⟩

theorem best_nodup (order : HashOrder (K × SearchResult K)) (e : SearchEnv K s) (p : SearchParams K)
    (vs gs : List (SearchResult K)) : ((e.best order p vs gs).map (·.id)).Nodup := by
  obtain ⟨o, hperm, heq⟩ := best_eq order e p vs gs
  have hids : (o.map (·.2.id)).Nodup := (hperm.map _).nodup_iff.2 (survivors_nodup e p vs gs)
  rw [heq, List.map_map]
  exact Rank.nodup_top hids

theorem answered_best (order : HashOrder (K × SearchResult K)) (e : SearchEnv K s) (p : SearchParams K)
    (vs gs : List (SearchResult K)) :
    Answered e p vs gs (e.recordAccesses (e.best order p vs gs)) (e.best order p vs gs) := by
  obtain ⟨hmemories, hedges, hmetadata⟩ := recordAccesses_spec e (best_nodup order e p vs gs)
  obtain ⟨o, hperm, heq⟩ := best_eq order e p vs gs
  refine ⟨?_, best_nodup order e p vs gs, ?_, fun t ht r hr => ?_, fun r hr => ?_, hmemories, hedges, hmetadata⟩
  · rw [heq, List.length_map, Rank.length_top]
    exact min_le_left _ _
  · rw [heq, List.pairwise_map]
    exact Rank.top_pairwise _ _ _
  · obtain ⟨x, hx, rfl⟩ := mem_best hr
    obtain ⟨c, hc, hboost⟩ := mem_survivors.1 hx
    obtain ⟨hxc, htype, -⟩ := boost_eq_some.1 hboost
    have hmt : x.2.memoryType = c.memoryType := congrArg SearchResult.memoryType hxc
    exact hmt.trans (htype t ht)
  · obtain ⟨x, hx, rfl⟩ := mem_best hr
    obtain ⟨c, hc, hboost⟩ := mem_survivors.1 hx
    have hid : c.id = x.2.id := congrArg SearchResult.id (boost_eq_some.1 hboost).1.symm
    rcases candidates_subset hc with hv | hg
    · exact Or.inl ⟨c, hv, hid⟩
    · exact Or.inr ⟨c, hg, hid⟩

/-- **Every search**, in whatever order the hash map is visited and whichever lookups of
metadata fail: it answers as it should, or fails and changes nothing. -/
theorem hybridSearch_answered (e : SearchEnv K s) (order : HashOrder (K × SearchResult K))
    (p : SearchParams K) :
    (∃ vs gs rs, Retrieved e p vs gs ∧ (e.hybridSearch order p).2 = .ok rs ∧
        Answered e p vs gs (e.hybridSearch order p).1 rs) ∨
      ∃ text, e.hybridSearch order p = (s, .error text) := by
  rcases retrieved_or_error e p with ⟨vs, gs, hret⟩ | ⟨text, herror⟩
  · rw [hybridSearch_of_retrieved hret]
    exact Or.inl ⟨vs, gs, _, hret, rfl, answered_best order e p vs gs⟩
  · exact Or.inr ⟨text, herror order⟩

end Auxlry
