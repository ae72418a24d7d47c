import Mathlib.Data.Finset.Dedup
import Mathlib.Data.Finset.Insert
import Mathlib.Data.Nat.Find

/-!
# Search level by level

A search from given nodes looks at the neighbours of a whole level before those of the
next, and keeps each node that it sees for the first time (`Search.see`). The relation
between neighbours is arbitrary: it may have loops and cycles.

* `foldl_see`: what the neighbours of a level add.
* `AtLevel.step`: **one level**. If the nodes found are those at a distance from `1` to `d`,
  the nearer ones first, then they are those up to `d + 1` afterwards.
-/

namespace Graph

variable {α : Type*} {R : α → α → Prop} {S : α → Prop} {n m d : ℕ} {u v : α}

/-! ## Distance -/

/-- A walk of `n` steps from a node in `S` to a node. -/
inductive Walk (R : α → α → Prop) (S : α → Prop) : ℕ → α → Prop
  | start {v : α} (h : S v) : Walk R S 0 v
  | step {n : ℕ} {u v : α} (h : Walk R S n u) (hr : R u v) : Walk R S (n + 1) v

/-- The distance of a node from `S`: the length of a shortest walk. -/
def IsDist (R : α → α → Prop) (S : α → Prop) (n : ℕ) (v : α) : Prop :=
  Walk R S n v ∧ ∀ m, Walk R S m v → n ≤ m

theorem IsDist.unique (hn : IsDist R S n v) (hm : IsDist R S m v) : n = m :=
  le_antisymm (hn.2 m hm.1) (hm.2 n hn.1)

theorem Walk.exists_isDist (h : Walk R S n v) : ∃ m ≤ n, IsDist R S m v := by
  classical
  have hex : ∃ m, Walk R S m v := ⟨n, h⟩
  exact ⟨Nat.find hex, Nat.find_min' hex h, Nat.find_spec hex, fun m hm => Nat.find_min' hex hm⟩

theorem isDist_zero : IsDist R S 0 v ↔ S v := by
  constructor
  · rintro ⟨h, -⟩
    cases h with
    | start h => exact h
  · intro h
    exact ⟨.start h, fun m _ => Nat.zero_le m⟩

/-- The last but one node of a shortest walk is one step nearer. -/
theorem isDist_succ : IsDist R S (n + 1) v ↔
    (∃ u, IsDist R S n u ∧ R u v) ∧ ¬ ∃ m ≤ n, IsDist R S m v := by
  constructor
  · intro hv
    refine ⟨?_, ?_⟩
    · obtain ⟨hw, hmin⟩ := hv
      cases hw with
      | step hu hr =>
        -- a shorter walk to the last but one node goes on to a shorter walk
        refine ⟨_, ⟨hu, fun m hm => ?_⟩, hr⟩
        have hle := hmin (m + 1) (hm.step hr)
        omega
    · rintro ⟨m, hm, hd⟩
      have heq := hv.unique hd
      omega
  · rintro ⟨⟨u, hu, hr⟩, hnot⟩
    refine ⟨hu.1.step hr, fun m hm => ?_⟩
    obtain ⟨k, hk, hd⟩ := hm.exists_isDist
    by_contra hlt
    exact hnot ⟨k, by omega, hd⟩

/-! ## The search -/

/-- The nodes seen, the next level, and all nodes found. -/
structure Search (α : Type*) where
  seen : Finset α
  next : List α
  found : List α

namespace Search

variable [DecidableEq α]

def start (roots : List α) : Search α := ⟨roots.toFinset, roots, []⟩

/-- See a node. -/
def see (x : Search α) (v : α) : Search α :=
  if v ∈ x.seen then x else ⟨insert v x.seen, x.next ++ [v], x.found ++ [v]⟩

/-- Begin a level: nothing is known of the next one. -/
def nextLevel (x : Search α) : Search α := { x with next := [] }

/-- **Seeing a list of nodes** adds those that are new, once each. -/
theorem foldl_see (x : Search α) (vs : List α) : ∃ new : List α,
    new.Nodup ∧ (∀ v, v ∈ new ↔ v ∈ vs ∧ v ∉ x.seen) ∧
      (vs.foldl see x).next = x.next ++ new ∧ (vs.foldl see x).found = x.found ++ new ∧
        ∀ v, v ∈ (vs.foldl see x).seen ↔ v ∈ x.seen ∨ v ∈ vs := by
  induction vs generalizing x with
  | nil => exact ⟨[], List.nodup_nil, by simp, by simp, by simp, by simp⟩
  | cons w vs ih =>
    obtain ⟨new, hnodup, hmem, hnext, hfound, hseen⟩ := ih (x.see w)
    rw [List.foldl_cons]
    by_cases hw : w ∈ x.seen
    · -- seen before, nothing changes
      have hsee : x.see w = x := if_pos hw
      rw [hsee] at hmem hnext hfound hseen ⊢
      refine ⟨new, hnodup, fun v => ?_, hnext, hfound, fun v => ?_⟩
      · rw [hmem v, List.mem_cons]
        constructor
        · rintro ⟨hv, hx⟩
          exact ⟨Or.inr hv, hx⟩
        · rintro ⟨rfl | hv, hx⟩
          · exact absurd hw hx
          · exact ⟨hv, hx⟩
      · rw [hseen v, List.mem_cons]
        constructor
        · rintro (hv | hv)
          · exact Or.inl hv
          · exact Or.inr (Or.inr hv)
        · rintro (hv | rfl | hv)
          · exact Or.inl hv
          · exact Or.inl hw
          · exact Or.inr hv
    · -- the new node is behind those of `x` and before those that come
      have hsee : x.see w = ⟨insert w x.seen, x.next ++ [w], x.found ++ [w]⟩ := if_neg hw
      rw [hsee] at hmem hnext hfound hseen ⊢
      simp only [Finset.mem_insert] at hmem hseen
      refine ⟨w :: new, List.nodup_cons.2 ⟨?_, hnodup⟩, fun v => ?_, ?_, ?_, fun v => ?_⟩
      · intro hin
        exact ((hmem w).1 hin).2 (Or.inl rfl)
      · rw [List.mem_cons, List.mem_cons, hmem v]
        constructor
        · rintro (rfl | ⟨hv, hx⟩)
          · exact ⟨Or.inl rfl, hw⟩
          · exact ⟨Or.inr hv, fun hv => hx (Or.inr hv)⟩
        · rintro ⟨rfl | hv, hx⟩
          · exact Or.inl rfl
          · by_cases hvw : v = w
            · exact Or.inl hvw
            · exact Or.inr ⟨hv, fun h => h.elim hvw hx⟩
      · rw [hnext, List.append_assoc, List.singleton_append]
      · rw [hfound, List.append_assoc, List.singleton_append]
      · rw [hseen v, List.mem_cons]
        tauto

end Search

/-- A list of the nodes at a distance from `1` to `d`, each once, the nearer ones first. -/
structure Levels (R : α → α → Prop) (S : α → Prop) (d : ℕ) (l : List α) : Prop where
  nodup : l.Nodup
  ordered : l.Pairwise fun u v => ∀ m n, IsDist R S m u → IsDist R S n v → m ≤ n
  mem_iff : ∀ v, v ∈ l ↔ ∃ n, 1 ≤ n ∧ n ≤ d ∧ IsDist R S n v

/-- After `d` levels: the nodes seen are those up to distance `d`, the next level are those
at this distance, and the seen ones that are no roots have been found in order. -/
structure AtLevel (R : α → α → Prop) (S : α → Prop) (d : ℕ) (x : Search α) : Prop where
  seen : ∀ v, v ∈ x.seen ↔ ∃ n ≤ d, IsDist R S n v
  next : ∀ v, v ∈ x.next ↔ IsDist R S d v
  found : Levels R S d x.found

theorem atLevel_start [DecidableEq α] {roots : List α} (h : ∀ v, v ∈ roots ↔ S v) :
    AtLevel R S 0 (Search.start roots) where
  seen v := by
    have hroot : v ∈ (Search.start roots).seen ↔ v ∈ roots := List.mem_toFinset
    rw [hroot, h v]
    constructor
    · intro hv
      exact ⟨0, le_refl 0, isDist_zero.2 hv⟩
    · rintro ⟨n, hn, hv⟩
      rw [Nat.le_zero.1 hn] at hv
      exact isDist_zero.1 hv
  next v := (h v).trans isDist_zero.symm
  found := by
    refine ⟨List.nodup_nil, List.Pairwise.nil, fun v => iff_of_false List.not_mem_nil ?_⟩
    rintro ⟨n, h₁, h₀, -⟩
    omega

/-- The nodes at the next distance come behind those found. -/
theorem Levels.append {l new : List α} (h : Levels R S d l) (hnodup : new.Nodup)
    (hnew : ∀ v, v ∈ new ↔ IsDist R S (d + 1) v) : Levels R S (d + 1) (l ++ new) where
  nodup := by
    refine List.nodup_append'.2 ⟨h.nodup, hnodup, fun v hv hn => ?_⟩
    obtain ⟨n, -, hle, hd⟩ := (h.mem_iff v).1 hv
    have heq := hd.unique ((hnew v).1 hn)
    omega
  ordered := by
    refine List.pairwise_append.2 ⟨h.ordered, ?_, ?_⟩
    · refine List.pairwise_iff_forall_sublist.2 fun {u v} hsub m n hm hn => ?_
      have hu : u ∈ new := hsub.subset (by simp)
      have hv : v ∈ new := hsub.subset (by simp)
      have h₁ := hm.unique ((hnew u).1 hu)
      have h₂ := hn.unique ((hnew v).1 hv)
      omega
    · intro u hu v hv m n hm hn
      obtain ⟨k, -, hle, hd⟩ := (h.mem_iff u).1 hu
      have h₁ := hm.unique hd
      have h₂ := hn.unique ((hnew v).1 hv)
      omega
  mem_iff v := by
    rw [List.mem_append, h.mem_iff v, hnew v]
    constructor
    · rintro (⟨n, h₁, h₂, hv⟩ | hv)
      · exact ⟨n, h₁, by omega, hv⟩
      · exact ⟨d + 1, by omega, le_refl _, hv⟩
    · rintro ⟨n, h₁, h₂, hv⟩
      rcases Nat.lt_or_ge d n with hlt | hle
      · obtain rfl : n = d + 1 := by omega
        exact Or.inr hv
      · exact Or.inl ⟨n, h₁, hle, hv⟩

/-- **One level**: see the neighbours of all nodes of the level. -/
theorem AtLevel.step [DecidableEq α] {x : Search α} {vs : List α} (hx : AtLevel R S d x)
    (h : ∀ v, v ∈ vs ↔ ∃ u ∈ x.next, R u v) : AtLevel R S (d + 1) (vs.foldl Search.see x.nextLevel) := by
  obtain ⟨new, hnodup, hmem, hnext, hfound, hseen⟩ := Search.foldl_see x.nextLevel vs
  have hvs : ∀ v, v ∈ vs ↔ ∃ u, IsDist R S d u ∧ R u v := by
    intro v
    rw [h v]
    constructor
    · rintro ⟨u, hu, hr⟩
      exact ⟨u, (hx.next u).1 hu, hr⟩
    · rintro ⟨u, hu, hr⟩
      exact ⟨u, (hx.next u).2 hu, hr⟩
  have hnew : ∀ v, v ∈ new ↔ IsDist R S (d + 1) v := by
    intro v
    have hold : v ∈ x.nextLevel.seen ↔ ∃ n ≤ d, IsDist R S n v := hx.seen v
    rw [hmem v, hvs v, hold, isDist_succ]
  refine ⟨fun v => ?_, fun v => ?_, ?_⟩
  · have hold : v ∈ x.nextLevel.seen ↔ ∃ n ≤ d, IsDist R S n v := hx.seen v
    rw [hseen v, hold]
    constructor
    · rintro (⟨n, hn, hv⟩ | hv)
      · exact ⟨n, by omega, hv⟩
      · -- a neighbour may be nearer, but not farther than one step
        obtain ⟨u, hu, hr⟩ := (hvs v).1 hv
        exact (hu.1.step hr).exists_isDist
    · rintro ⟨n, hn, hv⟩
      rcases Nat.lt_or_ge d n with hlt | hle
      · obtain rfl : n = d + 1 := by omega
        exact Or.inr ((hvs v).2 (isDist_succ.1 hv).1)
      · exact Or.inl ⟨n, hle, hv⟩
  · rw [hnext, ← hnew v]
    exact Iff.of_eq rfl
  · rw [hfound]
    exact hx.found.append hnodup hnew

end Graph
