import Mathlib.Data.List.Sort

/-!
# The first of a stable sort

A list is sorted by descending keys and cut (`top`). Elements with equal keys stay in the
order they came in, so where that order is arbitrary, it may decide which of them are cut.

* `sortDesc_cons`: an element that comes first is sorted right behind those that outrank it.
* `top_eq_iff`: the result **does not depend on the order** exactly if of any two elements
  with equal keys, enough others outrank both.
-/

namespace Rank

variable {α κ : Type*} [LinearOrder κ] {key : α → κ} {l o o₁ o₂ : List α} {x y : α} {n : ℕ}

/-- Sort by descending keys; elements with equal keys keep their order. -/
def sortDesc (key : α → κ) (l : List α) : List α := l.insertionSort fun x y => key y ≤ key x

def top (key : α → κ) (n : ℕ) (l : List α) : List α := (sortDesc key l).take n

/-- How many elements have a greater key. -/
def above (key : α → κ) (l : List α) (x : α) : ℕ := l.countP fun y => key x < key y

theorem sortDesc_perm (key : α → κ) (l : List α) : (sortDesc key l).Perm l :=
  List.perm_insertionSort _ _

theorem sortDesc_pairwise (key : α → κ) (l : List α) :
    (sortDesc key l).Pairwise fun x y => key y ≤ key x := by
  have htotal : Std.Total fun x y : α => key y ≤ key x := ⟨fun x y => le_total (key y) (key x)⟩
  have htrans : IsTrans α fun x y => key y ≤ key x := ⟨fun x y z hxy hyz => le_trans hyz hxy⟩
  exact List.pairwise_insertionSort _ _

theorem above_perm (h : o.Perm l) (x : α) : above key o x = above key l x := h.countP_eq _

theorem above_le_length (key : α → κ) (l : List α) (x : α) : above key l x ≤ l.length :=
  List.countP_le_length

/-- Any order of what a map keeps comes from an order of what it is given. -/
theorem exists_perm_filterMap {β : Type*} {f : α → Option β} {l : List α} {o : List β}
    (h : o.Perm (l.filterMap f)) : ∃ l' : List α, l'.Perm l ∧ l'.filterMap f = o := by
  induction o generalizing l with
  | nil => exact ⟨l, List.Perm.refl l, h.nil_eq.symm⟩
  | cons b o ih =>
    -- take out an element that is mapped to the first one
    obtain ⟨a, ha, hab⟩ := List.mem_filterMap.1 (h.subset List.mem_cons_self)
    obtain ⟨pre, post, rfl⟩ := List.append_of_mem ha
    have hmiddle : (pre ++ a :: post).Perm (a :: (pre ++ post)) := List.perm_middle
    have hrest : o.Perm ((pre ++ post).filterMap f) := by
      have hcons := h.trans (hmiddle.filterMap f)
      rw [List.filterMap_cons_some hab] at hcons
      exact hcons.cons_inv
    obtain ⟨l', hl', heq⟩ := ih hrest
    refine ⟨a :: l', (hl'.cons a).trans hmiddle.symm, ?_⟩
    rw [List.filterMap_cons_some hab, heq]

/-! ## What the first elements are -/

theorem top_subset (h : x ∈ top key n l) : x ∈ l :=
  (sortDesc_perm key l).subset (List.mem_of_mem_take h)

theorem length_top (key : α → κ) (n : ℕ) (l : List α) : (top key n l).length = min n l.length := by
  unfold top
  rw [List.length_take, (sortDesc_perm key l).length_eq]

theorem top_pairwise (key : α → κ) (n : ℕ) (l : List α) :
    (top key n l).Pairwise fun x y => key y ≤ key x :=
  (sortDesc_pairwise key l).sublist (List.take_sublist _ _)

/-- The elements that have been inserted in descending order stay as they are. -/
theorem top_of_pairwise (h : l.Pairwise fun x y => key y ≤ key x) : top key n l = l.take n := by
  unfold top sortDesc
  rw [List.Pairwise.insertionSort_eq h]

/-- Nothing is cut from few enough elements. -/
theorem top_of_length_le (h : l.length ≤ n) : top key n l = sortDesc key l :=
  List.take_of_length_le ((sortDesc_perm key l).length_eq ▸ h)

theorem nodup_top {β : Type*} {f : α → β} (h : (l.map f).Nodup) : ((top key n l).map f).Nodup := by
  have hsort : ((sortDesc key l).map f).Nodup := ((sortDesc_perm key l).map f).nodup_iff.2 h
  exact hsort.sublist ((List.take_sublist _ _).map f)

/-! ## Where an element is sorted -/

/-- An element that comes first of those with its key is sorted right behind the elements
that outrank it. -/
theorem sortDesc_cons (x : α) (l : List α) : ∃ pre post, sortDesc key (x :: l) = pre ++ x :: post ∧
    pre.length = above key l x := by
  refine ⟨_, _, List.insertionSort_cons_eq_take_drop _ x l, ?_⟩
  have hcount : ∀ s : List α, s.Pairwise (fun x y => key y ≤ key x) →
      (s.takeWhile fun b => ¬ key b ≤ key x).length = s.countP fun y => key x < key y := by
    intro s hs
    induction s with
    | nil => rfl
    | cons a s ih =>
      obtain ⟨ha, hs⟩ := List.pairwise_cons.1 hs
      by_cases hax : key x < key a
      · rw [List.takeWhile_cons_of_pos (by simpa using hax), List.length_cons, ih hs,
          List.countP_cons_of_pos (by simpa using hax)]
      · have hnone : s.countP (fun y => key x < key y) = 0 := by
          rw [List.countP_eq_zero]
          intro y hy
          have hle := le_trans (ha y hy) (not_lt.1 hax)
          simpa using hle
        rw [List.takeWhile_cons_of_neg (by simpa using hax), List.countP_cons_of_neg (by simpa using hax),
          hnone, List.length_nil]
  rw [← above_perm (sortDesc_perm key l) x]
  exact hcount _ (sortDesc_pairwise key l)

theorem above_cons_self (x : α) (l : List α) : above key (x :: l) x = above key l x :=
  List.countP_cons_of_neg (by simp)

/-! ## When the order does not matter -/

/-- Elements with equal keys are cut. -/
def TiesCut (key : α → κ) (n : ℕ) (l : List α) : Prop :=
  ∀ x ∈ l, ∀ y ∈ l, x ≠ y → key x = key y → n ≤ above key l x

/-- Two descending lists of the same elements begin alike, if ties are cut. -/
theorem take_eq_of_pairwise (hl : TiesCut key n o₁) (hperm : o₁.Perm o₂)
    (h₁ : o₁.Pairwise fun x y => key y ≤ key x) (h₂ : o₂.Pairwise fun x y => key y ≤ key x) :
    o₁.take n = o₂.take n := by
  induction o₁ generalizing o₂ n with
  | nil => rw [hperm.nil_eq]
  | cons a t₁ ih =>
    cases n with
    | zero => rfl
    | succ n =>
      cases o₂ with
      | nil => exact absurd hperm.eq_nil (by simp)
      | cons b t₂ =>
        obtain ⟨ha, ht₁⟩ := List.pairwise_cons.1 h₁
        obtain ⟨hb, ht₂⟩ := List.pairwise_cons.1 h₂
        -- both lists begin with a greatest key, and nothing outranks it
        have hab : key b ≤ key a := by
          rcases List.mem_cons.1 (hperm.symm.subset List.mem_cons_self) with rfl | hmem
          · exact le_refl _
          · exact ha b hmem
        have hba : key a ≤ key b := by
          rcases List.mem_cons.1 (hperm.subset List.mem_cons_self) with rfl | hmem
          · exact le_refl _
          · exact hb a hmem
        have hnone : above key (a :: t₁) a = 0 := by
          unfold above
          rw [List.countP_eq_zero]
          intro y hy
          rcases List.mem_cons.1 hy with rfl | hy
          · simp
          · simpa using ha y hy
        obtain rfl : a = b := by
          by_contra hne
          have htie := hl a List.mem_cons_self b (hperm.symm.subset List.mem_cons_self) hne
            (le_antisymm hba hab)
          omega
        rw [List.take_succ_cons, List.take_succ_cons]
        refine congrArg (a :: ·) (ih (fun x hx y hy hne heq => ?_) hperm.cons_inv ht₁ ht₂)
        have htie := hl x (List.mem_cons_of_mem _ hx) y (List.mem_cons_of_mem _ hy) hne heq
        unfold above at htie ⊢
        rw [List.countP_cons] at htie
        split at htie <;> omega

theorem TiesCut.perm (h : TiesCut key n l) (hperm : o.Perm l) : TiesCut key n o := by
  intro x hx y hy hne heq
  rw [above_perm hperm x]
  exact h x (hperm.subset hx) y (hperm.subset hy) hne heq

theorem getElem?_top_cons (h : above key l x < n) : (top key n (x :: l))[above key l x]? = some x := by
  obtain ⟨pre, post, hsort, hlen⟩ : ∃ pre post, sortDesc key (x :: l) = pre ++ x :: post ∧
      pre.length = above key l x := sortDesc_cons x l
  unfold top
  rw [List.getElem?_take_of_lt h, hsort, ← hlen, List.getElem?_append_right (le_refl _), Nat.sub_self]
  rfl

/-- The keys do not depend on the order. -/
theorem map_key_top_eq (h₁ : o₁.Perm l) (h₂ : o₂.Perm l) :
    (top key n o₁).map key = (top key n o₂).map key := by
  have hperm : ((sortDesc key o₁).map key).Perm ((sortDesc key o₂).map key) :=
    (((sortDesc_perm key o₁).trans h₁).trans ((sortDesc_perm key o₂).trans h₂).symm).map key
  have hsorted : ∀ o : List α, ((sortDesc key o).map key).Pairwise fun a b => b ≤ a := by
    intro o
    exact List.pairwise_map.2 (sortDesc_pairwise key o)
  have heq : (sortDesc key o₁).map key = (sortDesc key o₂).map key :=
    List.Perm.eq_of_pairwise (fun a b _ _ hab hba => le_antisymm hba hab) (hsorted o₁) (hsorted o₂) hperm
  unfold top
  rw [List.map_take, List.map_take, heq]

/-- **The exact condition** for the order of the elements not to matter. -/
theorem top_eq_iff : (∀ o₁ o₂, o₁.Perm l → o₂.Perm l → top key n o₁ = top key n o₂) ↔
    TiesCut key n l := by
  constructor
  · intro h x hx y hy hne heq
    by_contra hlt
    -- either of the two may come first, and takes the same place
    have hplace : ∀ z ∈ l, key z = key x → ∃ o, o.Perm l ∧ (top key n o)[above key l x]? = some z := by
      intro z hz hzx
      obtain ⟨pre, post, rfl⟩ := List.append_of_mem hz
      have hperm : (z :: (pre ++ post)).Perm (pre ++ z :: post) := List.perm_middle.symm
      have hsame : above key (pre ++ post) z = above key (pre ++ z :: post) x := by
        rw [← above_cons_self, above_perm hperm z]
        unfold above
        rw [hzx]
      refine ⟨_, hperm, ?_⟩
      rw [← hsame]
      exact getElem?_top_cons (by omega)
    obtain ⟨o₁, ho₁, h₁⟩ := hplace x hx rfl
    obtain ⟨o₂, ho₂, h₂⟩ := hplace y hy heq.symm
    rw [h o₁ o₂ ho₁ ho₂, h₂] at h₁
    exact hne (Option.some.inj h₁).symm
  · intro h o₁ o₂ ho₁ ho₂
    have hperm : (sortDesc key o₁).Perm (sortDesc key o₂) :=
      ((sortDesc_perm key o₁).trans ho₁).trans (((sortDesc_perm key o₂).trans ho₂).symm)
    exact take_eq_of_pairwise (h.perm ((sortDesc_perm key o₁).trans ho₁)) hperm
      (sortDesc_pairwise key o₁) (sortDesc_pairwise key o₂)

/-- Elements with different keys have one descending order. -/
theorem top_of_perm (h : l.Pairwise fun x y => key y < key x) (ho : o.Perm l) : top key n o = l.take n := by
  have hties : TiesCut key n l := by
    intro x hx y hy hne heq
    have hnodup : (l.map key).Nodup := List.pairwise_map.2 (h.imp fun hlt => ne_of_gt hlt)
    exact absurd (List.inj_on_of_nodup_map hnodup hx hy heq) hne
  rw [top_eq_iff.2 hties o l ho (List.Perm.refl l)]
  exact top_of_pairwise (h.imp fun hlt => le_of_lt hlt)

end Rank
