import Auxlry.Proof.HybridSearch

/-!
# Filters of a hybrid search

Results are filtered after three times as many rows as asked for have been fetched. The
importance of a result is compared with the threshold if its metadata can be read; its type
always.

* `filtered_spec`: **how many results** a search for a type returns.
* `importance_iff`: **the exact condition** for all results to reach the threshold.
-/

namespace Auxlry

variable {V K : Type} [Field K] [LinearOrder K] {s : Stores V} {e : SearchEnv K s} {p : SearchParams K}
  {order : HashOrder (K × SearchResult K)} {vs gs rs : List (SearchResult K)} {x : K × SearchResult K}
  {id : String} {i : K}

/-! ## Importance -/

theorem importanceOf_eq_some : e.importanceOf id = some i ↔ ∃ md, e.memoryMetadata id = some md ∧
    e.importance.of md.accessCount (e.edgeCount id) md.lastAccessedAt = i := Option.map_eq_some_iff

theorem importanceOf_eq_none : e.importanceOf id = none ↔ e.memoryMetadata id = none := Option.map_eq_none_iff

theorem importanceOf_nonneg (h : e.importanceOf id = some i) : 0 ≤ i := by
  obtain ⟨md, -, rfl⟩ := importanceOf_eq_some.1 h
  exact e.importance.nonneg ..

theorem memoryMetadata_stored {md : MetadataRow} (h : e.memoryMetadata id = some md) :
    s.metadata id = some md := by
  unfold SearchEnv.memoryMetadata at h
  split at h
  · exact h
  · cases h

/-! ## The number of results -/

/-- A vector search returns the nearest rows, as many as asked for. -/
structure Nearest (e : SearchEnv K s) (ranked : List (MemoryRow V × K)) : Prop where
  rows : (ranked.map Prod.fst : Multiset (MemoryRow V)) = s.memories
  sorted : ranked.Pairwise fun a b => a.2 ≤ b.2
  nearest : ∀ limit, e.nearest limit = .ok (ranked.take limit)

/-- Lookups of rows by their ids succeed. -/
def SearchEnv.RowsFound (e : SearchEnv K s) : Prop := ∀ ids, ∃ rows, e.fetched ids = .ok rows

/-- The results of a vector search. -/
def vectorResults (ranked : List (MemoryRow V × K)) (limit : ℕ) : List (SearchResult K) :=
  (ranked.take limit).map fun x => x.1.toResult (1 - x.2)

theorem vectorSearch_eq {ranked : List (MemoryRow V × K)} (h : Nearest e ranked) (limit : ℕ) :
    e.vectorSearch limit = .ok (vectorResults ranked limit) := by
  unfold SearchEnv.vectorSearch
  rw [h.nearest]
  rfl

theorem exists_retrieved {ranked : List (MemoryRow V × K)} (h : Nearest e ranked) (hrows : e.RowsFound) :
    ∃ gs, Retrieved e p (vectorResults ranked (SearchEnv.overfetch p)) gs := by
  have hfetch : ∀ ids, ∃ gs, e.fetchByIds ids = .ok gs := by
    intro ids
    unfold SearchEnv.fetchByIds
    split
    · exact ⟨[], rfl⟩
    · obtain ⟨rows, hids⟩ := hrows ids
      rw [hids]
      exact ⟨_, rfl⟩
  obtain ⟨gs, hgs⟩ := hfetch (e.graphIds p (vectorResults ranked (SearchEnv.overfetch p)))
  exact ⟨gs, vectorSearch_eq h _, hgs⟩

omit [Field K] [LinearOrder K] in
theorem overfetch_eq (h : p.limit.toNat * 3 < UInt64.size) : SearchEnv.overfetch p = p.limit.toNat * 3 := by
  unfold SearchEnv.overfetch
  rw [UInt64.toNat_mul]
  exact Nat.mod_eq_of_lt h

/-- Without a threshold only the type is looked at. -/
theorem isSome_boost (hmin : p.minImportance = .finite 0) :
    (e.boost p x).isSome = p.typeFilter.all (x.2.memoryType == ·) := by
  unfold SearchEnv.boost
  cases himp : e.importanceOf x.2.id with
  | none =>
    dsimp only
    split <;> simp_all
  | some i =>
    have hpass : p.minImportance.exceeds i = false := by
      rw [hmin]
      exact decide_eq_false (not_lt.2 (importanceOf_nonneg himp))
    simp only [hpass, Bool.false_eq_true, if_false]
    split <;> simp_all

theorem length_survivors (e : SearchEnv K s) (hmin : p.minImportance = .finite 0)
    (vs gs : List (SearchResult K)) :
    (survivors e p vs gs).length = (candidates vs gs).countP fun r => p.typeFilter.all (r.memoryType == ·) := by
  rw [survivors_eq, List.length_filterMap_eq_countP]
  exact List.countP_congr fun r _ => by rw [isSome_boost hmin]

theorem length_best (order : HashOrder (K × SearchResult K)) (e : SearchEnv K s) (p : SearchParams K)
    (vs gs : List (SearchResult K)) :
    (e.best order p vs gs).length = min p.limit.toNat (survivors e p vs gs).length := by
  obtain ⟨o, hperm, heq⟩ := best_eq order e p vs gs
  rw [heq, List.length_map, Rank.length_top, hperm.length_eq]

/-- **A search for a type** returns the candidates of this type, up to the limit: those
among three times as many nearest rows, and among the memories that edges lead to. -/
theorem filtered_spec (e : SearchEnv K s) (order : HashOrder (K × SearchResult K)) (p : SearchParams K)
    {t : MemoryType} {ranked : List (MemoryRow V × K)} (htype : p.typeFilter = some t)
    (hmin : p.minImportance = .finite 0) (hlimit : p.limit.toNat * 3 < UInt64.size)
    (hnear : Nearest e ranked) (hrows : e.RowsFound) :
    ∃ gs rs, e.fetchByIds (e.graphIds p (vectorResults ranked (p.limit.toNat * 3))) = .ok gs ∧
      (e.hybridSearch order p).2 = .ok rs ∧
      rs.length = min p.limit.toNat
        ((candidates (vectorResults ranked (p.limit.toNat * 3)) gs).countP (·.memoryType = t)) ∧
      ∀ r ∈ rs, r.memoryType = t := by
  obtain ⟨gs, hret⟩ := exists_retrieved (p := p) hnear hrows
  rw [overfetch_eq hlimit] at hret
  have hanswer := answered_best order e p (vectorResults ranked (p.limit.toNat * 3)) gs
  refine ⟨gs, _, hret.graph, congrArg Prod.snd (hybridSearch_of_retrieved hret), ?_, hanswer.types t htype⟩
  rw [length_best, length_survivors e hmin, htype]
  exact congrArg (min _) (List.countP_congr fun r _ => by simp)

theorem nearest_ofRows {rows : List (MemoryRow V × K)} {metadata : String → Option MetadataRow}
    {edges : List MemoryEdge} {fetch : HashOrder (MemoryRow V)} {importance : Importance K}
    (h : rows.Pairwise fun a b => a.2 ≤ b.2) :
    Nearest (SearchEnv.ofRows rows metadata edges fetch importance) rows :=
  ⟨rfl, h, fun _ => rfl⟩

/-- A fact behind three observations. -/
noncomputable def rareRows : List (MemoryRow Unit × ℝ) :=
  [(memory "a" .observation, 0.1), (memory "b" .observation, 0.2), (memory "c" .observation, 0.3),
    (memory "d" .fact, 0.4)]

noncomputable def rareFact := SearchEnv.ofRows rareRows
  (fun id => some (unseen (if id = "d" then .fact else .observation))) [] (.stored _) (earned newYear nextDay)

theorem nearest_rareFact : Nearest rareFact rareRows := by
  refine nearest_ofRows ?_
  unfold rareRows
  norm_num

/-- Two facts among observations. -/
noncomputable def mixedRows : List (MemoryRow Unit × ℝ) :=
  [(memory "a" .observation, 0.1), (memory "b" .fact, 0.2), (memory "c" .observation, 0.3),
    (memory "d" .fact, 0.4)]

noncomputable def mixed := SearchEnv.ofRows mixedRows (fun _ => some (unseen .fact)) [] (.stored _)
  (earned newYear nextDay)

theorem nearest_mixed : Nearest mixed mixedRows := by
  refine nearest_ofRows ?_
  unfold mixedRows
  norm_num

/-- The count at work: two of four rows are of the type, and both are returned. -/
theorem filtered_spec_mixed :
    ∃ gs rs, mixed.fetchByIds (mixed.graphIds ⟨2, some .fact, .finite 0, 1⟩ (vectorResults mixedRows 6)) = .ok gs ∧
      (mixed.hybridSearch (.stored _) ⟨2, some .fact, .finite 0, 1⟩).2 = .ok rs ∧
      rs.length = 2 ∧ ∀ r ∈ rs, r.memoryType = .fact := by
  obtain ⟨gs, rs, hgs, hrs, hlen, htypes⟩ := filtered_spec mixed (.stored _) ⟨2, some .fact, .finite 0, 1⟩
    rfl rfl (by decide) nearest_mixed fun _ => ⟨_, rfl⟩
  -- there are no edges to follow
  obtain rfl : [] = gs := Except.ok.inj hgs
  refine ⟨[], rs, hgs, hrs, hlen.trans ?_, htypes⟩
  decide

/-- **A memory of the type asked for is not found**: three others are nearer. -/
theorem rareFact_not_found : Nearest rareFact rareRows ∧
    1 ≤ rareFact.stores.memories.countP (·.memoryType = "fact") ∧
      (rareFact.hybridSearch (.stored _) ⟨1, some .fact, .finite 0, 1⟩).2 = .ok [] := by
  refine ⟨nearest_rareFact, by decide, ?_⟩
  have hret : Retrieved rareFact ⟨1, some .fact, .finite 0, 1⟩ (vectorResults rareRows 3) [] := ⟨rfl, rfl⟩
  rw [hybridSearch_of_retrieved hret]
  refine congrArg Except.ok (List.eq_nil_iff_forall_not_mem.2 fun r hr => ?_)
  obtain ⟨x, hx, -⟩ := mem_best hr
  obtain ⟨c, hc, hboost⟩ := mem_survivors.1 hx
  have hfact := (boost_eq_some.1 hboost).2.1 .fact rfl
  have hobservation : ∀ c ∈ vectorResults rareRows 3, c.memoryType = .observation := by
    intro c hc
    simp only [vectorResults, rareRows, List.take_succ_cons, List.take_zero, List.map_cons, List.map_nil,
      List.mem_cons, List.not_mem_nil, or_false] at hc
    rcases hc with rfl | rfl | rfl <;> decide
  rcases candidates_subset hc with hv | hg
  · have hother := (hobservation c hv).symm.trans hfact
    cases hother
  · exact absurd hg List.not_mem_nil

/-! ## The threshold -/

/-- The importance of a memory, from what is stored. -/
def storedImportance (e : SearchEnv K s) (id : String) : Option K :=
  (s.metadata id).map fun md => e.importance.of md.accessCount (s.edgesAt id).card md.lastAccessedAt

/-- A memory reaches a threshold, and if that is positive, its importance is known. -/
def ReachesThreshold (e : SearchEnv K s) (m : Threshold K) (id : String) : Prop :=
  (∀ i, storedImportance e id = some i → m.reached i = true) ∧
    (m.positive = true → (e.importanceOf id).isSome = true)

/-- The threshold is not applied to a memory: it is positive and there is no metadata to
be read, or it is no number. -/
def Unchecked (e : SearchEnv K s) (m : Threshold K) (id : String) : Prop :=
  (m.positive = true ∧ e.memoryMetadata id = none) ∨ (m = .nan ∧ (s.metadata id).isSome = true)

theorem edgeCount_le (e : SearchEnv K s) (id : String) : e.edgeCount id ≤ (s.edgesAt id).card := by
  unfold SearchEnv.edgeCount
  split
  · exact le_refl _
  · exact Nat.zero_le _

omit [Field K] in
/-- A threshold that an importance is not below is reached by a greater one. -/
theorem reached_of_exceeds {m : Threshold K} {j : K} (hnan : m ≠ .nan) (h : m.exceeds i = false)
    (hij : i ≤ j) : m.reached j = true := by
  cases m with
  | nan => exact absurd rfl hnan
  | negInfinity => rfl
  | finite y => exact decide_eq_true (le_trans (not_lt.1 (of_decide_eq_false h)) hij)
  | infinity => cases h

theorem reached_of_not_positive {m : Threshold K} (hnan : m ≠ .nan) (h : m.positive ≠ true) (hi : 0 ≤ i) :
    m.reached i = true := by
  cases m with
  | nan => exact absurd rfl hnan
  | negInfinity => rfl
  | finite y => exact decide_eq_true (le_trans (not_lt.1 fun hy => h (decide_eq_true hy)) hi)
  | infinity => exact absurd rfl h

/-- **Which results reach the threshold**: those that it is applied to. -/
theorem reachesThreshold_iff (hx : x ∈ survivors e p vs gs) :
    ReachesThreshold e p.minImportance x.2.id ↔ ¬ Unchecked e p.minImportance x.2.id := by
  obtain ⟨c, -, hboost⟩ := mem_survivors.1 hx
  obtain ⟨hxc, -, himportance⟩ := boost_eq_some.1 hboost
  have hid : (fusedScore vs gs c.id, c).2.id = x.2.id := congrArg SearchResult.id hxc.symm
  rw [hid] at himportance
  constructor
  · rintro ⟨hreached, hknown⟩ (⟨hpos, hnone⟩ | ⟨hnan, hstored⟩)
    · have hsome := hknown hpos
      rw [importanceOf_eq_none.2 hnone] at hsome
      cases hsome
    · obtain ⟨md, hmd⟩ := Option.isSome_iff_exists.1 hstored
      have hfalse := hreached _ (congrArg (Option.map _) hmd)
      rw [hnan] at hfalse
      cases hfalse
  · intro hchecked
    have hnan : (s.metadata x.2.id).isSome = true → p.minImportance ≠ .nan :=
      fun hstored hnan => hchecked (Or.inr ⟨hnan, hstored⟩)
    rcases himportance with ⟨i, hi, hpass, -⟩ | ⟨hnone, -⟩
    · refine ⟨fun j hj => ?_, fun _ => Option.isSome_iff_exists.2 ⟨i, hi⟩⟩
      obtain ⟨md, hmd, rfl⟩ := importanceOf_eq_some.1 hi
      have hstored := memoryMetadata_stored hmd
      unfold storedImportance at hj
      rw [hstored, Option.map_some, Option.some_inj] at hj
      rw [← hj]
      exact reached_of_exceeds (hnan (by rw [hstored]; rfl)) hpass (e.importance.mono _ _ (edgeCount_le e _))
    · -- without metadata only a threshold that is not positive is reached
      have hpos : p.minImportance.positive ≠ true :=
        fun hpos => hchecked (Or.inl ⟨hpos, importanceOf_eq_none.1 hnone⟩)
      refine ⟨fun j hj => ?_, fun h => absurd h hpos⟩
      obtain ⟨md, hmd, rfl⟩ := Option.map_eq_some_iff.1 hj
      exact reached_of_not_positive (hnan (by rw [hmd]; rfl)) hpos (e.importance.nonneg ..)

/-- The results of a search are memories of the store. -/
theorem exists_row_of_candidate {ranked : List (MemoryRow V × K)} {r : SearchResult K} (hnear : Nearest e ranked)
    (hret : Retrieved e p vs gs) (hr : r ∈ candidates vs gs) : ∃ row ∈ s.memories, row.id = r.id := by
  rcases candidates_subset hr with hv | hg
  · have hvs := hret.vector
    rw [vectorSearch_eq hnear] at hvs
    rw [← Except.ok.inj hvs] at hv
    obtain ⟨x, hx, rfl⟩ := List.mem_map.1 hv
    refine ⟨x.1, ?_, rfl⟩
    rw [← hnear.rows, Multiset.mem_coe]
    exact List.mem_map_of_mem (List.mem_of_mem_take hx)
  · have hgs := hret.graph
    unfold SearchEnv.fetchByIds at hgs
    split at hgs
    · rw [← Except.ok.inj hgs] at hg
      cases hg
    · rename_i hids
      cases hrows : e.fetched (e.graphIds p vs) with
      | error text => rw [hrows] at hgs; cases hgs
      | ok rows =>
        rw [hrows] at hgs
        rw [← Except.ok.inj hgs] at hg
        obtain ⟨row, hrow, rfl⟩ := List.mem_map.1 hg
        refine ⟨row, ?_, rfl⟩
        -- what the filter selects is stored
        obtain ⟨first, rest, hcons⟩ := List.exists_cons_of_ne_nil fun h => hids (List.isEmpty_iff.2 h)
        have hselected := e.fetched_eq (by rw [hcons]; exact List.cons_ne_nil _ _) hrows
        rw [hcons, selected_idsFilter, Option.some_inj] at hselected
        exact Multiset.mem_of_mem_filter (hselected ▸ Multiset.mem_coe.2 hrow)

/-- A memory that the threshold is not applied to passes a search without a type. -/
theorem boost_of_unchecked {r : SearchResult K} (w : K) (htype : p.typeFilter = none)
    (h : Unchecked e p.minImportance r.id) : ∃ w', e.boost p (w, r) = some (w', r) := by
  have hall : ∀ t, p.typeFilter = some t → r.memoryType = t := by
    intro t ht
    rw [htype] at ht
    cases ht
  cases himp : e.importanceOf r.id with
  | none => exact ⟨w, boost_eq_some.2 ⟨rfl, hall, .inr ⟨himp, rfl⟩⟩⟩
  | some i =>
    refine ⟨w * (1 + i * 0.1), boost_eq_some.2 ⟨rfl, hall, .inl ⟨i, himp, ?_, rfl⟩⟩⟩
    rcases h with ⟨-, hnone⟩ | ⟨hnan, -⟩
    · rw [importanceOf_eq_none.2 hnone] at himp
      cases himp
    · rw [hnan]; rfl

/-- **A search for everything returns** each memory that the threshold is not applied to. -/
theorem unchecked_returned {ranked : List (MemoryRow V × K)} {row : MemoryRow V} (hnear : Nearest e ranked)
    (hdepth : p.graphDepth = 0) (htype : p.typeFilter = none) (hfetch : s.memories.card ≤ SearchEnv.overfetch p)
    (hlimit : s.memories.card ≤ p.limit.toNat) (hrow : row ∈ s.memories)
    (hunchecked : Unchecked e p.minImportance row.id) (order : HashOrder (K × SearchResult K)) :
    ∃ rs, (e.hybridSearch order p).2 = .ok rs ∧ ∃ r ∈ rs, r.id = row.id := by
  have hlen : ranked.length = s.memories.card := by
    rw [← hnear.rows, Multiset.coe_card, List.length_map]
  -- all rows are fetched
  have hvector : e.vectorSearch (SearchEnv.overfetch p) = .ok (vectorResults ranked ranked.length) := by
    rw [vectorSearch_eq hnear]
    unfold vectorResults
    rw [List.take_of_length_le (hlen ▸ hfetch), List.take_length]
  have hret : Retrieved e p (vectorResults ranked ranked.length) [] := by
    refine ⟨hvector, ?_⟩
    unfold SearchEnv.graphIds
    rw [if_pos (Or.inl hdepth)]
    rfl
  rw [← hnear.rows, Multiset.mem_coe, List.mem_map] at hrow
  obtain ⟨x, hx, rfl⟩ := hrow
  have hfound : x.1.toResult (1 - x.2) ∈ vectorResults ranked ranked.length := by
    unfold vectorResults
    rw [List.take_length]
    exact List.mem_map_of_mem hx
  -- the first of the id passes
  obtain ⟨c, hc, hid⟩ : ∃ c ∈ candidates (vectorResults ranked ranked.length) [], c.id = x.1.id :=
    Rank.exists_mem_firsts.2 ⟨_, List.mem_append_left _ hfound, rfl⟩
  obtain ⟨w, hw⟩ := boost_of_unchecked (e := e) (p := p) (r := c)
    (fusedScore (vectorResults ranked ranked.length) [] c.id) htype (hid ▸ hunchecked)
  have hsurvivor := mem_survivors.2 ⟨c, hc, hw⟩
  -- and none is cut
  have hfew : (survivors e p (vectorResults ranked ranked.length) []).length ≤ p.limit.toNat := by
    have hle := ((survivors_sublist e p (vectorResults ranked ranked.length) []).trans
      (Rank.firsts_sublist _ _)).length_le
    have hrows : (vectorResults ranked ranked.length).length = ranked.length := by
      unfold vectorResults
      rw [List.length_map, List.take_length]
    rw [List.length_map, List.append_nil, hrows] at hle
    omega
  obtain ⟨o, hperm, hbest⟩ := best_eq order e p (vectorResults ranked ranked.length) []
  refine ⟨_, congrArg Prod.snd (hybridSearch_of_retrieved hret), scored (w, c), ?_, hid⟩
  rw [hbest, Rank.top_of_length_le (hperm.length_eq ▸ hfew)]
  exact List.mem_map_of_mem ((Rank.sortDesc_perm _ _).mem_iff.2 (hperm.mem_iff.2 hsurvivor))

/-- A search without a type and without graph expansion, with the largest limit. -/
def everything (m : Threshold K) : SearchParams K := ⟨18446744073709551615, none, m, 0⟩

omit [Field K] [LinearOrder K] in
theorem everything_limits (m : Threshold K) :
    SearchEnv.overfetch (everything m) + 3 = UInt64.size ∧ (everything m).limit.toNat + 1 = UInt64.size := by
  have hfetch : ((18446744073709551615 : UInt64) * 3).toNat + 3 = UInt64.size := by decide
  have hlimit : (18446744073709551615 : UInt64).toNat + 1 = UInt64.size := by decide
  exact ⟨hfetch, hlimit⟩

/-- **The exact condition** for all results to reach the threshold. A result reaches it exactly if
it is applied to the memory; all results of all searches of the store do if it is applied to
every memory, and only then if a search can list all memories. -/
theorem importance_iff (e : SearchEnv K s) (m : Threshold K) {ranked : List (MemoryRow V × K)}
    (hnear : Nearest e ranked) :
    (∀ p order rs, p.minImportance = m → (e.hybridSearch order p).2 = .ok rs →
        ∀ r ∈ rs, (ReachesThreshold e m r.id ↔ ¬ Unchecked e m r.id)) ∧
      ((∀ row ∈ s.memories, ¬ Unchecked e m row.id) →
        ∀ p order rs, p.minImportance = m → (e.hybridSearch order p).2 = .ok rs →
          ∀ r ∈ rs, ReachesThreshold e m r.id) ∧
      (s.memories.card + 3 ≤ UInt64.size →
        (∀ p order rs, p.minImportance = m → (e.hybridSearch order p).2 = .ok rs →
          ∀ r ∈ rs, ReachesThreshold e m r.id) →
        ∀ row ∈ s.memories, ¬ Unchecked e m row.id) := by
  have hresult : ∀ p order rs, p.minImportance = m → (e.hybridSearch order p).2 = .ok rs →
      ∀ r ∈ rs, (ReachesThreshold e m r.id ↔ ¬ Unchecked e m r.id) ∧ ∃ row ∈ s.memories, row.id = r.id := by
    rintro p order rs rfl hrs r hr
    obtain ⟨vs, gs, hret, rfl⟩ := hybridSearch_ok hrs
    obtain ⟨x, hx, rfl⟩ := mem_best hr
    obtain ⟨c, hc, hboost⟩ := mem_survivors.1 hx
    have hxc : x.2 = c := (boost_eq_some.1 hboost).1
    obtain ⟨row, hrow, hid⟩ := exists_row_of_candidate hnear hret hc
    exact ⟨reachesThreshold_iff hx, row, hrow, hid.trans (congrArg SearchResult.id hxc).symm⟩
  refine ⟨fun p order rs hm hrs r hr => (hresult p order rs hm hrs r hr).1, ?_, ?_⟩
  · intro h p order rs hm hrs r hr
    obtain ⟨hiff, row, hrow, hid⟩ := hresult p order rs hm hrs r hr
    exact hiff.2 (hid ▸ h row hrow)
  · intro hsize h row hrow hunchecked
    obtain ⟨hfetch, hlimit⟩ := everything_limits m
    obtain ⟨rs, hrs, r, hr, hid⟩ := unchecked_returned (p := everything m) hnear rfl rfl (by omega) (by omega)
      hrow hunchecked (.stored _)
    have hreach := h (everything m) (.stored _) rs rfl hrs r hr
    exact (hresult (everything m) (.stored _) rs rfl hrs r hr).1.1 hreach (hid ▸ hunchecked)

/-- The condition at work: all metadata can be read, so every result reaches the threshold. -/
theorem importance_iff_mixed : (∀ row ∈ mixedRows, ¬ Unchecked mixed (.finite 0.001) row.1.id) ∧
    ∀ p order rs, p.minImportance = .finite 0.001 → (mixed.hybridSearch order p).2 = .ok rs →
      ∀ r ∈ rs, ReachesThreshold mixed (.finite 0.001) r.id := by
  have hchecked : ∀ id, ¬ Unchecked mixed (.finite 0.001) id := by
    rintro id (⟨-, hnone⟩ | ⟨hnan, -⟩)
    · cases hnone
    · cases hnan
  refine ⟨fun row _ => hchecked row.1.id, ?_⟩
  exact (importance_iff mixed (.finite 0.001) nearest_mixed).2.1 fun row _ => hchecked row.id

/-- A memory whose metadata has not been written. -/
noncomputable def noMetadata := SearchEnv.ofRows (K := ℝ) [(memory "a" .fact, 0)] (fun _ => none) [] (.stored _)
  (earned newYear nextDay)

/-- **A memory of unknown importance is returned** by a search with the threshold `1`. -/
theorem noMetadata_returned : noMetadata.stores.metadata "a" = none ∧
    (noMetadata.hybridSearch (.stored _) ⟨10, none, .finite 1, 1⟩).2 =
      .ok [(memory "a" .fact).toResult (SearchEnv.rankScore 0)] ∧
      ¬ ReachesThreshold noMetadata (.finite 1) "a" := by
  refine ⟨rfl, rfl, fun h => ?_⟩
  have hpos : (Threshold.finite (1 : ℝ)).positive = true := decide_eq_true one_pos
  have hknown : (noMetadata.importanceOf "a").isSome = true := h.2 hpos
  cases hknown

end Auxlry
