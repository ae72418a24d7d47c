import Auxlry.Proof.SearchFilters

/-!
# The order of the results

Results are ranked by the position of their rows in two lists, and then sorted.

* `graphRank_iff`: **the exact condition** for a nearer memory to get no smaller share of the
  score than one farther from the seeds: with distinct ids, their rows come in this order.
* `sameAsVector_iff`: **the exact condition** for a search by similarity alone to agree with
  the vector search: three times the limit does not wrap around to less than there are rows.
* `runs_agree`: **when two runs agree**, whatever the order of their hash maps.
-/

namespace Auxlry

variable {V K : Type} [Field K] [LinearOrder K] {s : Stores V} {e : SearchEnv K s} {p : SearchParams K}
  {vs gs : List (SearchResult K)}

/-! ## Ties -/

theorem mem_survivors_eq {x y : K × SearchResult K} (hx : x ∈ survivors e p vs gs)
    (hy : y ∈ survivors e p vs gs) (hid : x.2.id = y.2.id) : x = y :=
  List.inj_on_of_nodup_map (survivors_nodup e p vs gs) hx hy hid

/-- Different results with equal scores are all outranked by as many others as are asked for. -/
def NoTies (e : SearchEnv K s) (p : SearchParams K) (vs gs : List (SearchResult K)) : Prop :=
  ∀ x ∈ survivors e p vs gs, ∀ y ∈ survivors e p vs gs, x.2.id ≠ y.2.id → x.1 = y.1 →
    p.limit.toNat ≤ Rank.above Prod.fst (survivors e p vs gs) x

theorem noTies_iff : NoTies e p vs gs ↔ Rank.TiesCut Prod.fst p.limit.toNat (survivors e p vs gs) := by
  constructor
  · intro h x hx y hy hne
    exact h x hx y hy fun hid => hne (mem_survivors_eq hx hy hid)
  · intro h x hx y hy hne
    exact h x hx y hy fun heq => hne (congrArg (·.2.id) heq)

/-- Results with the same ids are the same. -/
theorem map_id_inj {o₁ o₂ : List (K × SearchResult K)} (h₁ : ∀ x ∈ o₁, x ∈ survivors e p vs gs)
    (h₂ : ∀ x ∈ o₂, x ∈ survivors e p vs gs) (h : o₁.map (·.2.id) = o₂.map (·.2.id)) : o₁ = o₂ := by
  induction o₁ generalizing o₂ with
  | nil => exact (List.map_eq_nil_iff.1 h.symm).symm
  | cons x o₁ ih =>
    cases o₂ with
    | nil => cases h
    | cons y o₂ =>
      obtain ⟨hid, hrest⟩ := List.cons.inj h
      have hxy := mem_survivors_eq (h₁ x List.mem_cons_self) (h₂ y List.mem_cons_self) hid
      rw [hxy, ih (fun z hz => h₁ z (List.mem_cons_of_mem _ hz)) (fun z hz => h₂ z (List.mem_cons_of_mem _ hz)) hrest]

/-- **The exact condition** for the ids of the results not to depend on the hash map. -/
theorem best_ids_iff : (∀ o₁ o₂, (e.best o₁ p vs gs).map (·.id) = (e.best o₂ p vs gs).map (·.id)) ↔
    NoTies e p vs gs := by
  rw [noTies_iff, ← Rank.top_eq_iff]
  have hids : ∀ o : List (K × SearchResult K), (o.map scored).map (·.id) = o.map (·.2.id) := by
    intro o
    rw [List.map_map]
    rfl
  constructor
  · intro h o₁ o₂ ho₁ ho₂
    have hboth : ∀ o₂, ((Rank.top Prod.fst p.limit.toNat o₁).map scored).map (·.id) =
        (e.best o₂ p vs gs).map (·.id) :=
      forall_best_iff (P := fun rs => ∀ o₂, rs.map (·.id) = (e.best o₂ p vs gs).map (·.id)).1 h o₁ ho₁
    have heq := forall_best_iff (P := fun rs => ((Rank.top Prod.fst p.limit.toNat o₁).map scored).map (·.id) =
      rs.map (·.id)).1 hboth o₂ ho₂
    rw [hids, hids] at heq
    exact map_id_inj (fun x hx => ho₁.subset (Rank.top_subset hx)) (fun x hx => ho₂.subset (Rank.top_subset hx)) heq
  · intro h o₁ o₂
    obtain ⟨l₁, hl₁, h₁⟩ := best_eq o₁ e p vs gs
    obtain ⟨l₂, hl₂, h₂⟩ := best_eq o₂ e p vs gs
    rw [h₁, h₂, h l₁ l₂ hl₁ hl₂]

/-- The scores never depend on it. -/
theorem best_scores (o₁ o₂ : HashOrder (K × SearchResult K)) (e : SearchEnv K s) (p : SearchParams K)
    (vs gs : List (SearchResult K)) : (e.best o₁ p vs gs).map (·.score) = (e.best o₂ p vs gs).map (·.score) := by
  obtain ⟨l₁, hl₁, h₁⟩ := best_eq o₁ e p vs gs
  obtain ⟨l₂, hl₂, h₂⟩ := best_eq o₂ e p vs gs
  rw [h₁, h₂, List.map_map, List.map_map]
  exact Rank.map_key_top_eq hl₁ hl₂

/-- The ids that a search returns. -/
def returnedIds (r : Except String (List (SearchResult K))) : Except String (List String) := r.map (·.map (·.id))

/-- **Two runs on the same state** return the same scores, and they return the same ids,
whatever the order of their hash maps, exactly if ties are cut. -/
theorem runs_agree (e : SearchEnv K s) (p : SearchParams K) :
    (∀ o₁ o₂, (e.hybridSearch o₁ p).2.map (·.map (·.score)) = (e.hybridSearch o₂ p).2.map (·.map (·.score))) ∧
      ((∀ o₁ o₂, returnedIds (e.hybridSearch o₁ p).2 = returnedIds (e.hybridSearch o₂ p).2) ↔
        ∀ vs gs, Retrieved e p vs gs → NoTies e p vs gs) := by
  rcases retrieved_or_error e p with ⟨vs, gs, hret⟩ | ⟨text, herror⟩
  · have honly : ∀ vs' gs', Retrieved e p vs' gs' → vs' = vs ∧ gs' = gs := by
      intro vs' gs' hret'
      obtain rfl : vs' = vs := Except.ok.inj (hret'.vector.symm.trans hret.vector)
      exact ⟨rfl, Except.ok.inj (hret'.graph.symm.trans hret.graph)⟩
    have hids : ∀ order, returnedIds (e.hybridSearch order p).2 = .ok ((e.best order p vs gs).map (·.id)) := by
      intro order
      rw [hybridSearch_of_retrieved hret]
      rfl
    refine ⟨fun o₁ o₂ => ?_, ?_⟩
    · rw [hybridSearch_of_retrieved hret, hybridSearch_of_retrieved hret]
      exact congrArg Except.ok (best_scores o₁ o₂ e p vs gs)
    · constructor
      · intro h vs' gs' hret'
        obtain ⟨rfl, rfl⟩ := honly vs' gs' hret'
        refine best_ids_iff.1 fun o₁ o₂ => ?_
        have heq := h o₁ o₂
        rw [hids o₁, hids o₂] at heq
        exact Except.ok.inj heq
      · intro h o₁ o₂
        rw [hids o₁, hids o₂, best_ids_iff.2 (h vs gs hret) o₁ o₂]
  · -- both runs fail with the same error
    have hnone : ∀ vs gs, ¬ Retrieved e p vs gs := by
      intro vs gs hret
      have hok := herror (.stored _)
      rw [hybridSearch_of_retrieved hret] at hok
      cases congrArg Prod.snd hok
    refine ⟨fun o₁ o₂ => by rw [herror o₁, herror o₂], ?_⟩
    refine iff_of_true (fun o₁ o₂ => by rw [herror o₁, herror o₂]) ?_
    intro vs gs hret
    exact absurd hret (hnone vs gs)

/-- Memories of which two are facts: one at rank 61, with an edge that leads nowhere, and
the last, which the first has an edge to. -/
noncomputable def tiedRows : List (MemoryRow Unit × ℝ) :=
  (List.range 64).map fun i : ℕ =>
    (memory (toString i) (if i = 61 ∨ i = 63 then .fact else .observation), (i : ℝ))

noncomputable def tied := SearchEnv.ofRows tiedRows (fun _ => some (unseen .fact))
  [⟨1, "0", "63", "related_to"⟩, ⟨2, "61", "62", "related_to"⟩] (.stored _) (earned newYear nextDay)

/-- A search for facts. -/
def tiedParams : SearchParams ℝ := ⟨21, some .fact, .finite 0, 1⟩

theorem tied_retrieved : Retrieved tied tiedParams (vectorResults tiedRows 63)
    [(memory "63" .fact).toResult 0] := ⟨rfl, rfl⟩

/-- The importance of either fact: no access, one edge. -/
noncomputable def tiedImportance : ℝ := computeImportance newYear nextDay 0 1 "2025-01-01 00:00:00"

/-- The entries of the score map, before they are fused. -/
noncomputable def tiedScores : List (ℝ × SearchResult ℝ) :=
  SearchEnv.vectorScores (vectorResults tiedRows 63) ++ SearchEnv.graphScores [(memory "63" .fact).toResult 0]

theorem tiedScores_nodup : (tiedScores.map fun x => x.2.id).Nodup := by
  have hids : (tiedScores.map fun x => x.2.id) = (List.range 64).map toString := rfl
  rw [hids]
  decide +kernel

theorem tied_survives {w : ℝ} {r : SearchResult ℝ} (hmem : (w, r) ∈ tiedScores) (htype : r.memoryType = .fact)
    (himp : tied.importanceOf r.id = some tiedImportance) :
    (w * (1 + tiedImportance * 0.1), r) ∈
      survivors tied tiedParams (vectorResults tiedRows 63) [(memory "63" .fact).toResult 0] := by
  have hmap : SearchEnv.scoreMap (vectorResults tiedRows 63) [(memory "63" .fact).toResult 0] = tiedScores :=
    Rank.fuse_of_nodup tiedScores_nodup
  have hpass : tiedParams.minImportance.exceeds tiedImportance = false :=
    decide_eq_false (not_lt.2 (importanceOf_nonneg himp))
  unfold survivors
  rw [hmap]
  refine List.mem_filterMap.2 ⟨(w, r), hmem, boost_eq_some.2 ⟨rfl, fun t ht => ?_, Or.inl ⟨_, himp, hpass, rfl⟩⟩⟩
  rw [htype]
  exact Option.some.inj ht

/-- **Ranks 61 and 0 weigh the same**, and the order of a hash map decides between them. -/
theorem tied_results : ¬ ∀ o₁ o₂, returnedIds (tied.hybridSearch o₁ tiedParams).2 =
    returnedIds (tied.hybridSearch o₂ tiedParams).2 := by
  intro h
  have hids : ∀ o₁ o₂ : HashOrder (ℝ × SearchResult ℝ),
      (tied.best o₁ tiedParams (vectorResults tiedRows 63) [(memory "63" .fact).toResult 0]).map (·.id) =
        (tied.best o₂ tiedParams (vectorResults tiedRows 63) [(memory "63" .fact).toResult 0]).map (·.id) := by
    intro o₁ o₂
    have heq := h o₁ o₂
    rw [hybridSearch_of_retrieved tied_retrieved, hybridSearch_of_retrieved tied_retrieved] at heq
    exact Except.ok.inj heq
  have hvector : (SearchEnv.rankScore 61, (memory "61" .fact).toResult (1 - ((61 : ℕ) : ℝ))) ∈ tiedScores :=
    List.mem_append_left _ (List.mem_map.2 ⟨(_, 61), List.mem_zipIdx_iff_getElem?.2 rfl, rfl⟩)
  have hgraph : (0.5 * SearchEnv.rankScore 0, (memory "63" .fact).toResult 0) ∈ tiedScores :=
    List.mem_append_right _ List.mem_cons_self
  have hweights : (SearchEnv.rankScore 61 : ℝ) = 0.5 * SearchEnv.rankScore 0 := by
    norm_num [SearchEnv.rankScore]
  have hmany := best_ids_iff.1 hids _ (tied_survives hvector rfl rfl) _ (tied_survives hgraph rfl rfl)
    (by decide) (by rw [hweights])
  have hlimit : tiedParams.limit.toNat = 21 := rfl
  rw [hlimit] at hmany
  -- there are only two facts
  have hfew : (survivors tied tiedParams (vectorResults tiedRows 63) [(memory "63" .fact).toResult 0]).length ≤ 2 := by
    rw [length_survivors tied rfl]
    exact (Rank.firsts_sublist _ _).countP_le.trans (by decide)
  have hall := hmany.trans ((Rank.above_le_length _ _ _).trans hfew)
  omega

/-! ## Ranks -/

theorem rankScore_lt [IsStrictOrderedRing K] {i j : ℕ} (h : i < j) :
    (SearchEnv.rankScore j : K) < SearchEnv.rankScore i := by
  unfold SearchEnv.rankScore
  have hcast : (i : K) < j := by exact_mod_cast h
  exact one_div_lt_one_div_of_lt (by positivity) (by linarith)

omit [Field K] in
/-- Ranked lists give each result less than those before it. -/
theorem pairwise_zipIdx {f : ℕ → K} (h : ∀ i j, i < j → f j < f i) (l : List (SearchResult K)) :
    (l.zipIdx.map fun x => (f x.2, x.1)).Pairwise fun x y => y.1 < x.1 := by
  rw [List.pairwise_map, List.pairwise_iff_getElem]
  intro i j hi hj hij
  rw [List.getElem_zipIdx, List.getElem_zipIdx]
  exact h _ _ (by omega)

/-! ## Search by similarity alone -/

/-- Only vector results count, and they keep their order: the boost is the same for all. -/
theorem survivors_vector [IsStrictOrderedRing K] {c : Option K} (htype : p.typeFilter = none)
    (hmin : p.minImportance = .finite 0) (hids : (vs.map (·.id)).Nodup)
    (hequal : ∀ r ∈ vs, e.importanceOf r.id = c) :
    (survivors e p vs []).map Prod.snd = vs ∧
      (survivors e p vs []).Pairwise fun x y => y.1 < x.1 := by
  have hscores : SearchEnv.scoreMap vs [] = SearchEnv.vectorScores vs := by
    have hnodup : ((SearchEnv.vectorScores vs).map fun x => x.2.id).Nodup := by
      rw [← vectorScores_snd vs, List.map_map] at hids
      exact hids
    unfold SearchEnv.scoreMap
    rw [show SearchEnv.graphScores ([] : List (SearchResult K)) = [] from rfl, List.append_nil]
    exact Rank.fuse_of_nodup hnodup
  have hmem : ∀ x ∈ SearchEnv.vectorScores vs, x.2 ∈ vs := by
    intro x hx
    obtain ⟨y, hy, rfl⟩ := List.mem_map.1 hx
    exact List.fst_mem_of_mem_zipIdx hy
  obtain ⟨f, hf, hboost⟩ : ∃ f : K, 0 < f ∧
      ∀ x ∈ SearchEnv.vectorScores vs, e.boost p x = some (x.1 * f, x.2) := by
    cases c with
    | none =>
      refine ⟨1, one_pos, fun x hx => boost_eq_some.2 ⟨rfl, fun t ht => ?_, Or.inr ⟨hequal _ (hmem x hx), ?_⟩⟩⟩
      · rw [htype] at ht
        cases ht
      · exact mul_one _
    | some i =>
      by_cases hi : 0 ≤ i
      · refine ⟨1 + i * 0.1, by positivity, fun x hx => boost_eq_some.2 ⟨rfl, fun t ht => ?_, ?_⟩⟩
        · rw [htype] at ht
          cases ht
        · refine Or.inl ⟨i, hequal _ (hmem x hx), ?_, rfl⟩
          rw [hmin]
          exact decide_eq_false (not_lt.2 hi)
      · -- there are no results at all
        refine ⟨1, one_pos, fun x hx => ?_⟩
        exact absurd (importanceOf_nonneg (hequal _ (hmem x hx))) hi
  have hsurvivors : survivors e p vs [] = (SearchEnv.vectorScores vs).map fun x => (x.1 * f, x.2) := by
    unfold survivors
    rw [hscores, ← List.filterMap_eq_map]
    exact List.filterMap_congr hboost
  rw [hsurvivors]
  refine ⟨?_, ?_⟩
  · rw [List.map_map]
    exact vectorScores_snd vs
  · rw [List.pairwise_map]
    refine (pairwise_zipIdx (fun i j hij => rankScore_lt hij) vs).imp fun {x y} hxy => ?_
    exact mul_lt_mul_of_pos_right hxy hf

omit [LinearOrder K] in
theorem vectorResults_ids (ranked : List (MemoryRow V × K)) (limit : ℕ) :
    (vectorResults ranked limit).map (·.id) = (ranked.take limit).map (·.1.id) := by
  unfold vectorResults
  rw [List.map_map]
  rfl

theorem vectorSearch_ids {ranked : List (MemoryRow V × K)} (hnear : Nearest e ranked) (limit : ℕ) :
    returnedIds (e.vectorSearch limit) = .ok ((ranked.take limit).map (·.1.id)) := by
  rw [vectorSearch_eq hnear, ← vectorResults_ids]
  rfl

/-- **What a search by similarity alone returns**: the nearest rows, as many as asked for among
those that have been fetched. -/
theorem hybridSearch_ids [IsStrictOrderedRing K] {ranked : List (MemoryRow V × K)} {c : Option K}
    (hdepth : p.graphDepth = 0) (htype : p.typeFilter = none) (hmin : p.minImportance = .finite 0)
    (hnear : Nearest e ranked) (hids : (ranked.map (·.1.id)).Nodup)
    (hequal : ∀ x ∈ ranked, e.importanceOf x.1.id = c) (order : HashOrder (K × SearchResult K)) :
    returnedIds (e.hybridSearch order p).2 =
      .ok ((ranked.take (min p.limit.toNat (SearchEnv.overfetch p))).map (·.1.id)) := by
  have hret : Retrieved e p (vectorResults ranked (SearchEnv.overfetch p)) [] := by
    refine ⟨vectorSearch_eq hnear _, ?_⟩
    unfold SearchEnv.graphIds
    rw [if_pos (Or.inl hdepth)]
    rfl
  have hnodup : ((vectorResults ranked (SearchEnv.overfetch p)).map (·.id)).Nodup := by
    rw [vectorResults_ids]
    exact hids.sublist ((List.take_sublist _ _).map _)
  have hsame : ∀ r ∈ vectorResults ranked (SearchEnv.overfetch p), e.importanceOf r.id = c := by
    intro r hr
    obtain ⟨x, hx, rfl⟩ := List.mem_map.1 hr
    exact hequal x (List.mem_of_mem_take hx)
  obtain ⟨hsnd, hstrict⟩ := survivors_vector htype hmin hnodup hsame
  obtain ⟨o, hperm, hbest⟩ := best_eq order e p (vectorResults ranked (SearchEnv.overfetch p)) []
  -- the scores decrease strictly, so the hash map has no say
  rw [hybridSearch_of_retrieved hret, hbest, Rank.top_of_perm hstrict hperm]
  refine congrArg Except.ok ?_
  calc ((List.take p.limit.toNat (survivors e p _ [])).map scored).map (·.id)
      = (((survivors e p (vectorResults ranked (SearchEnv.overfetch p)) []).map Prod.snd).take
          p.limit.toNat).map (·.id) := by
        rw [← List.map_take, List.map_map, List.map_map]
        rfl
    _ = ((ranked.take (SearchEnv.overfetch p)).map (·.1.id)).take p.limit.toNat := by
        rw [hsnd, List.map_take, vectorResults_ids]
    _ = (ranked.take (min p.limit.toNat (SearchEnv.overfetch p))).map (·.1.id) := by
        rw [← List.map_take, List.take_take]

/-- **The exact condition** for a search by similarity alone to return what the vector search
returns: three times the limit, which may wrap around, is no less than the limit, or than
the number of rows. -/
theorem sameAsVector_iff [IsStrictOrderedRing K] (e : SearchEnv K s) (p : SearchParams K)
    {ranked : List (MemoryRow V × K)} {c : Option K} (hdepth : p.graphDepth = 0)
    (htype : p.typeFilter = none) (hmin : p.minImportance = .finite 0) (hnear : Nearest e ranked)
    (hids : (ranked.map (·.1.id)).Nodup) (hequal : ∀ x ∈ ranked, e.importanceOf x.1.id = c) :
    (∀ order, returnedIds (e.hybridSearch order p).2 = returnedIds (e.vectorSearch p.limit.toNat)) ↔
      p.limit.toNat ≤ SearchEnv.overfetch p ∨ ranked.length ≤ SearchEnv.overfetch p := by
  have hhybrid := hybridSearch_ids hdepth htype hmin hnear hids hequal
  rw [vectorSearch_ids hnear]
  constructor
  · intro h
    have heq := h (.stored _)
    rw [hhybrid] at heq
    have hlen := congrArg List.length (Except.ok.inj heq)
    simp only [List.length_map, List.length_take] at hlen
    omega
  · intro h order
    rw [hhybrid]
    refine congrArg (fun rows : List (MemoryRow V × K) => Except.ok (rows.map (·.1.id))) ?_
    rcases h with hle | hle
    · rw [Nat.min_eq_left hle]
    · -- both lists are all rows
      rcases Nat.le_total p.limit.toNat (SearchEnv.overfetch p) with hlt | hlt
      · rw [Nat.min_eq_left hlt]
      · rw [Nat.min_eq_right hlt, List.take_of_length_le hle, List.take_of_length_le (hle.trans hlt)]

theorem importanceOf_rareFact (id : String) :
    rareFact.importanceOf id = some (computeImportance newYear nextDay 0 0 "2025-01-01 00:00:00") := rfl

/-- The condition at work: two of four rows are asked for. -/
theorem sameAsVector_iff_two :
    (∀ order, returnedIds (rareFact.hybridSearch order ⟨2, none, .finite 0, 0⟩).2 =
        returnedIds (rareFact.vectorSearch 2)) ↔
      2 ≤ SearchEnv.overfetch (⟨2, none, .finite 0, 0⟩ : SearchParams ℝ) ∨
        rareRows.length ≤ SearchEnv.overfetch (⟨2, none, .finite 0, 0⟩ : SearchParams ℝ) :=
  sameAsVector_iff rareFact ⟨2, none, .finite 0, 0⟩ rfl rfl rfl nearest_rareFact (by decide)
    fun x _ => importanceOf_rareFact x.1.id

/-- A limit whose triple is just above the largest number. -/
def wrappingParams : SearchParams ℝ := ⟨6148914691236517206, none, .finite 0, 0⟩

/-- **A large limit returns fewer results**: of four rows that the vector search returns, a
hybrid search looks at two. -/
theorem limit_wraps : Nearest rareFact rareRows ∧ (rareRows.map (·.1.id)).Nodup ∧
    SearchEnv.overfetch wrappingParams = 2 ∧
      returnedIds (rareFact.vectorSearch wrappingParams.limit.toNat) = .ok ["a", "b", "c", "d"] ∧
      ∃ rs, (rareFact.hybridSearch (.stored _) wrappingParams).2 = .ok rs ∧ rs.length ≤ 2 := by
  have hret : Retrieved rareFact wrappingParams (vectorResults rareRows 2) [] := ⟨rfl, rfl⟩
  refine ⟨nearest_rareFact, by decide, rfl, rfl, _, congrArg Prod.snd (hybridSearch_of_retrieved hret), ?_⟩
  have hle := ((survivors_sublist rareFact wrappingParams (vectorResults rareRows 2) []).trans
    (Rank.firsts_sublist _ _)).length_le
  rw [List.length_map] at hle
  rw [length_best]
  exact (min_le_right _ _).trans hle

/-! ## Graph results -/

/-- A memory that only graph expansion finds, and its distance from the seeds. -/
def FoundAt (s : Stores V) (p : SearchParams K) (vs : List (SearchResult K)) (n : ℕ) (id : String) : Prop :=
  (∀ v ∈ vs, v.id ≠ id) ∧ Graph.IsDist s.Adjacent (IsSeed p vs) n id

/-- The rows that the filter of the ids found by graph expansion selects, in the order they come in. -/
def FilterAnswer (e : SearchEnv K s) (p : SearchParams K) (vs : List (SearchResult K))
    (rows : List (MemoryRow V)) : Prop :=
  e.vectorSearch (SearchEnv.overfetch p) = .ok vs ∧ e.graphIds p vs ≠ [] ∧ e.fetched (e.graphIds p vs) = .ok rows

/-- Among the memories that only graph expansion finds, a nearer one gets no smaller share of the
score than one farther from the seeds. -/
def GraphRanked (e : SearchEnv K s) (p : SearchParams K) : Prop :=
  ∀ vs gs, Retrieved e p vs gs → ∀ a ∈ gs, ∀ b ∈ gs, ∀ m n, FoundAt s p vs m a.id → FoundAt s p vs n b.id →
    m < n → fusedScore vs gs b.id ≤ fusedScore vs gs a.id

/-- The sum of `rankScore i`, that is `1 / (60 + i + 1)`, over the places `i` of the rows of an id. -/
def placeWeight (id : String) : ℕ → List (MemoryRow V) → K
  | _, [] => 0
  | i, row :: rows => (if row.id = id then SearchEnv.rankScore i else 0) + placeWeight id (i + 1) rows

omit [LinearOrder K] in
/-- **The score of a memory that only graph expansion finds** is half the weight of the places of
its rows. -/
theorem fusedScore_of_found {id : String} (rows : List (MemoryRow V)) (hvs : ∀ v ∈ vs, v.id ≠ id) :
    fusedScore vs (rows.map fun row => row.toResult 0) id = 0.5 * placeWeight id 0 rows := by
  have hvector : ¬ ∃ v ∈ (SearchEnv.vectorScores vs).map Prod.snd, v.id = id := by
    rintro ⟨v, hv, hid⟩
    rw [vectorScores_snd] at hv
    exact hvs v hv hid
  have hgraph : ∀ i, Rank.total SearchResult.id (((rows.map fun row => row.toResult (0 : K)).zipIdx i).map
      fun x => ((0.5 : K) * SearchEnv.rankScore x.2, x.1)) id = 0.5 * placeWeight id i rows := by
    induction rows with
    | nil => intro i; exact (mul_zero _).symm
    | cons row rows ih =>
      intro i
      rw [List.map_cons, List.zipIdx_cons, List.map_cons, Rank.total_cons, ih (i + 1), placeWeight, mul_add]
      refine congrArg (· + _) ?_
      show (if row.id = id then _ else 0) = _
      split
      · rfl
      · exact (mul_zero _).symm
  unfold fusedScore
  rw [Rank.total_append, Rank.total_of_not_mem hvector, zero_add]
  exact hgraph 0

omit [LinearOrder K] in
theorem placeWeight_of_ne {id : String} {rows : List (MemoryRow V)} (i : ℕ) (h : ∀ row ∈ rows, row.id ≠ id) :
    (placeWeight id i rows : K) = 0 := by
  induction rows generalizing i with
  | nil => rfl
  | cons row rows ih =>
    obtain ⟨hrow, hrows⟩ := List.forall_mem_cons.1 h
    rw [placeWeight, if_neg hrow, ih _ hrows, zero_add]

omit [LinearOrder K] in
/-- Where ids are distinct, an id has one place. -/
theorem placeWeight_getElem (rows : List (MemoryRow V)) (hids : (rows.map (·.id)).Nodup) {j : ℕ}
    (hj : j < rows.length) (i : ℕ) : (placeWeight rows[j].id i rows : K) = SearchEnv.rankScore (i + j) := by
  induction rows generalizing i j with
  | nil => exact absurd hj (Nat.not_lt_zero j)
  | cons row rows ih =>
    obtain ⟨hrow, hrows⟩ := List.nodup_cons.1 hids
    cases j with
    | zero =>
      have hrest : ∀ r ∈ rows, r.id ≠ row.id := fun r hr heq => hrow (List.mem_map.2 ⟨r, hr, heq⟩)
      rw [List.getElem_cons_zero, placeWeight, if_pos rfl, placeWeight_of_ne _ hrest, add_zero]; rfl
    | succ j =>
      have hj' : j < rows.length := Nat.lt_of_succ_lt_succ hj
      have hne : row.id ≠ rows[j].id := fun heq => hrow (List.mem_map.2 ⟨rows[j], List.getElem_mem hj', heq.symm⟩)
      rw [List.getElem_cons_succ, placeWeight, if_neg hne, ih hrows hj', zero_add]
      congr 1; omega

/-- The graph results are the rows of the filter's answer. -/
theorem exists_filterAnswer (hret : Retrieved e p vs gs) (hgs : gs ≠ []) :
    ∃ rows, FilterAnswer e p vs rows ∧ gs = rows.map fun row => row.toResult 0 := by
  have hgraph := hret.graph
  unfold SearchEnv.fetchByIds at hgraph
  split at hgraph
  · exact absurd (Except.ok.inj hgraph).symm hgs
  · rename_i hids
    cases hrows : e.fetched (e.graphIds p vs) with
    | error text => rw [hrows] at hgraph; cases hgraph
    | ok rows =>
      rw [hrows] at hgraph
      exact ⟨rows, ⟨hret.vector, fun h => hids (List.isEmpty_iff.2 h), hrows⟩, (Except.ok.inj hgraph).symm⟩

theorem FilterAnswer.retrieved {rows : List (MemoryRow V)} (h : FilterAnswer e p vs rows) :
    Retrieved e p vs (rows.map fun row => row.toResult 0) := by
  refine ⟨h.1, ?_⟩
  unfold SearchEnv.fetchByIds
  rw [if_neg (fun hids => h.2.1 (List.isEmpty_iff.1 hids)), h.2.2]
  rfl

/-- What the filter selects has distinct ids, if all rows have. -/
theorem FilterAnswer.nodup {rows : List (MemoryRow V)} (h : FilterAnswer e p vs rows)
    (hids : (s.memories.map (·.id)).Nodup) : (rows.map (·.id)).Nodup := by
  obtain ⟨-, hne, hrows⟩ := h
  have hselected := e.fetched_eq hne hrows
  obtain ⟨first, rest, hcons⟩ := List.exists_cons_of_ne_nil hne
  rw [hcons, selected_idsFilter, Option.some_inj] at hselected
  have hsub := Multiset.nodup_of_le (Multiset.map_le_map (f := MemoryRow.id)
    (Multiset.filter_le (fun row => row.id ∈ first :: rest) s.memories)) hids
  rw [hselected, Multiset.map_coe, Multiset.coe_nodup] at hsub
  exact hsub

/-- The shares of the score follow the distance exactly if the weights of the places do. -/
theorem graphRanked_iff [IsStrictOrderedRing K] : GraphRanked e p ↔
    ∀ vs rows, FilterAnswer e p vs rows → ∀ a ∈ rows, ∀ b ∈ rows, ∀ m n, FoundAt s p vs m a.id →
      FoundAt s p vs n b.id → m < n → (placeWeight b.id 0 rows : K) ≤ placeWeight a.id 0 rows := by
  have hhalf : (0 : K) < 0.5 := by positivity
  constructor
  · intro h vs rows hrows a ha b hb m n hm hn hmn
    have hle := h vs _ hrows.retrieved _ (List.mem_map_of_mem ha) _ (List.mem_map_of_mem hb) m n hm hn hmn
    change fusedScore vs _ b.id ≤ fusedScore vs _ a.id at hle
    rw [fusedScore_of_found rows hm.1, fusedScore_of_found rows hn.1] at hle
    exact le_of_mul_le_mul_left hle hhalf
  · intro h vs gs hret a ha b hb m n hm hn hmn
    obtain ⟨rows, hrows, rfl⟩ := exists_filterAnswer hret (List.ne_nil_of_mem ha)
    obtain ⟨x, hx, rfl⟩ := List.mem_map.1 ha
    obtain ⟨y, hy, rfl⟩ := List.mem_map.1 hb
    change FoundAt s p vs m x.id at hm
    change FoundAt s p vs n y.id at hn
    show fusedScore vs _ y.id ≤ fusedScore vs _ x.id
    rw [fusedScore_of_found rows hm.1, fusedScore_of_found rows hn.1]
    exact mul_le_mul_of_nonneg_left (h vs rows hrows x hx y hy m n hm hn hmn) (le_of_lt hhalf)

/-- **The exact condition** for the shares of graph results to follow their distance. The rows come
in an order in which the places of a nearer memory weigh no less; and if no two rows of the
store have one id, no row comes before the row of a nearer memory. -/
theorem graphRank_iff [IsStrictOrderedRing K] (e : SearchEnv K s) (p : SearchParams K) :
    (GraphRanked e p ↔ ∀ vs rows, FilterAnswer e p vs rows → ∀ a ∈ rows, ∀ b ∈ rows, ∀ m n,
        FoundAt s p vs m a.id → FoundAt s p vs n b.id → m < n →
          (placeWeight b.id 0 rows : K) ≤ placeWeight a.id 0 rows) ∧
      ((s.memories.map (·.id)).Nodup → (GraphRanked e p ↔ ∀ vs rows, FilterAnswer e p vs rows →
        rows.Pairwise fun b a => ∀ m n, FoundAt s p vs m a.id → FoundAt s p vs n b.id → ¬ m < n)) := by
  refine ⟨graphRanked_iff, fun hids => ?_⟩
  rw [graphRanked_iff]
  refine forall_congr' fun vs => forall_congr' fun rows => imp_congr_right fun hrows => ?_
  have hweight : ∀ i (hi : i < rows.length), (placeWeight rows[i].id 0 rows : K) = SearchEnv.rankScore i := by
    intro i hi
    rw [placeWeight_getElem rows (hrows.nodup hids) hi, Nat.zero_add]
  rw [List.pairwise_iff_getElem]
  constructor
  · -- a row that comes later weighs less
    intro h i j hi hj hij m n ha hb hmn
    have hle := h _ (List.getElem_mem hj) _ (List.getElem_mem hi) m n ha hb hmn
    rw [hweight i hi, hweight j hj] at hle
    exact absurd hle (not_le.2 (rankScore_lt hij))
  · intro h a ha b hb m n hm hn hmn
    obtain ⟨i, hi, rfl⟩ := List.getElem_of_mem ha
    obtain ⟨j, hj, rfl⟩ := List.getElem_of_mem hb
    rw [hweight i hi, hweight j hj]
    rcases Nat.lt_trichotomy i j with hij | rfl | hji
    · exact le_of_lt (rankScore_lt hij)
    · exact le_refl _
    · exact absurd hmn (h j i hj hi hji m n hm hn)

/-- Two memories behind the nearest ones, in a chain of edges that starts from the first. -/
noncomputable def chainRows : List (MemoryRow Unit × ℝ) :=
  [(memory "v" .fact, 0.1), (memory "w" .fact, 0.2), (memory "x" .fact, 0.3), (memory "a" .fact, 0.4),
    (memory "b" .fact, 0.5)]

/-- A search in which the later row comes first. -/
noncomputable def chain := SearchEnv.ofRows chainRows (fun _ => some (unseen .fact))
  [⟨1, "v", "a", "related_to"⟩, ⟨2, "b", "a", "part_of"⟩] ⟨List.reverse, List.reverse_perm⟩ (earned newYear nextDay)

def chainParams : SearchParams ℝ := ⟨1, none, .finite 0, 2⟩

/-- The rows of the memories that the edges lead to. -/
def chainAnswer : List (MemoryRow Unit) := [memory "b" .fact, memory "a" .fact]

noncomputable def chainFound : List (SearchResult ℝ) := chainAnswer.map fun row => row.toResult 0

/-- The condition at work, in this search, whose rows have distinct ids. -/
theorem graphRank_iff_chain : (chain.stores.memories.map (·.id)).Nodup ∧
    (GraphRanked chain chainParams ↔ ∀ vs rows, FilterAnswer chain chainParams vs rows →
      rows.Pairwise fun b a => ∀ m n, FoundAt chain.stores chainParams vs m a.id →
        FoundAt chain.stores chainParams vs n b.id → ¬ m < n) := by
  have hids : (chain.stores.memories.map (·.id)).Nodup := by decide
  exact ⟨hids, (graphRank_iff chain chainParams).2 hids⟩

/-- **A memory two edges away weighs more than one that is one edge away.** -/
theorem chain_reversed : Retrieved chain chainParams (vectorResults chainRows 3) chainFound ∧
    FoundAt chain.stores chainParams (vectorResults chainRows 3) 1 "a" ∧
      FoundAt chain.stores chainParams (vectorResults chainRows 3) 2 "b" ∧
      fusedScore (vectorResults chainRows 3) chainFound "a" <
        fusedScore (vectorResults chainRows 3) chainFound "b" ∧ ¬ GraphRanked chain chainParams := by
  have hseed : ∀ id, IsSeed chainParams (vectorResults chainRows 3) id ↔ id = "v" := by
    intro id
    constructor
    · rintro ⟨r, hr, rfl⟩
      rw [List.mem_singleton.1 hr]
      rfl
    · rintro rfl
      exact ⟨_, List.mem_singleton.2 rfl, rfl⟩
  have hvector : ∀ id, id ≠ "v" → id ≠ "w" → id ≠ "x" → ∀ r ∈ vectorResults chainRows 3, r.id ≠ id := by
    intro id hv hw hx r hr
    have hids : r.id ∈ ["v", "w", "x"] := List.mem_map_of_mem (f := SearchResult.id) hr
    rintro rfl
    simp only [List.mem_cons, List.not_mem_nil, or_false] at hids
    tauto
  have ha : Graph.IsDist chain.stores.Adjacent (IsSeed chainParams (vectorResults chainRows 3)) 1 "a" := by
    refine Graph.isDist_succ.2 ⟨⟨"v", Graph.isDist_zero.2 ((hseed _).2 rfl), by decide⟩, ?_⟩
    rintro ⟨m, hm, hdist⟩
    rw [Nat.le_zero.1 hm, Graph.isDist_zero, hseed] at hdist
    revert hdist; decide
  have hb : Graph.IsDist chain.stores.Adjacent (IsSeed chainParams (vectorResults chainRows 3)) 2 "b" := by
    refine Graph.isDist_succ.2 ⟨⟨"a", ha, by decide⟩, ?_⟩
    rintro ⟨m, hm, hdist⟩
    rcases Nat.le_one_iff_eq_zero_or_eq_one.1 hm with rfl | rfl
    · rw [Graph.isDist_zero, hseed] at hdist
      revert hdist; decide
    · obtain ⟨⟨u, hu, hadj⟩, -⟩ := Graph.isDist_succ.1 hdist
      rw [Graph.isDist_zero, hseed] at hu
      subst hu
      revert hadj; decide
  have hvectorA := hvector "a" (by decide) (by decide) (by decide)
  have hvectorB := hvector "b" (by decide) (by decide) (by decide)
  -- the row of `b` comes first
  have hscoreA : fusedScore (vectorResults chainRows 3) chainFound "a" = 0.5 * placeWeight "a" 0 chainAnswer :=
    fusedScore_of_found chainAnswer hvectorA
  have hscoreB : fusedScore (vectorResults chainRows 3) chainFound "b" = 0.5 * placeWeight "b" 0 chainAnswer :=
    fusedScore_of_found chainAnswer hvectorB
  have hplaceA : placeWeight "a" 0 chainAnswer = (SearchEnv.rankScore 1 : ℝ) :=
    placeWeight_getElem chainAnswer (by decide) (j := 1) (by decide) 0
  have hplaceB : placeWeight "b" 0 chainAnswer = (SearchEnv.rankScore 0 : ℝ) :=
    placeWeight_getElem chainAnswer (by decide) (j := 0) (by decide) 0
  have hlt : fusedScore (vectorResults chainRows 3) chainFound "a" <
      fusedScore (vectorResults chainRows 3) chainFound "b" := by
    rw [hscoreA, hscoreB, hplaceA, hplaceB]
    exact mul_lt_mul_of_pos_left (rankScore_lt (by decide)) (by norm_num)
  have hret : Retrieved chain chainParams (vectorResults chainRows 3) chainFound := ⟨rfl, rfl⟩
  refine ⟨hret, ⟨hvectorA, ha⟩, ⟨hvectorB, hb⟩, hlt, fun hranked => ?_⟩
  have hle := hranked _ _ hret _ (.tail _ (.head _)) _ (.head _) 1 2 ⟨hvectorA, ha⟩ ⟨hvectorB, hb⟩ (by decide)
  exact absurd hle (not_le.2 hlt)

end Auxlry
