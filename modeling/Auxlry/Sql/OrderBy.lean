import Mathlib.Data.List.DropRight
import Mathlib.Data.List.Perm.Basic
import Mathlib.Order.Lattice

/-!
# Sorted queries with ties

`SELECT ... ORDER BY key DESC LIMIT n` returns the first `n` rows in a descending order
of the keys; rows with equal keys come in any order (`OrderBy`). Reversed, these are
meant to be the last `n` rows inserted (`rtake`).

* `newest_iff`: **they are, in every order, exactly if** each of the last `n` rows has a
  greater key than all rows before it, or the same columns.
-/

namespace Sql

variable {α β κ : Type*} [LinearOrder κ]

/-- The rows in a descending order of their keys. -/
def OrderBy (key : α → κ) (rows order : List α) : Prop :=
  order.Perm rows ∧ order.Pairwise fun x y => key y ≤ key x

instance [DecidableEq α] (key : α → κ) (rows order : List α) : Decidable (OrderBy key rows order) :=
  inferInstanceAs (Decidable (order.Perm rows ∧ order.Pairwise fun x y => key y ≤ key x))

/-- Each of the last `n` rows comes after all rows before it, or looks the same. -/
def Newest (key : β → κ) (rows : List β) (n : ℕ) : Prop :=
  ∀ pre x post, rows = pre ++ x :: post → post.length < n → ∀ y ∈ pre, key y < key x ∨ y = x

/-! ## Orders -/

theorem OrderBy.map {f : α → β} {key : β → κ} {rows order : List α}
    (h : OrderBy (fun x => key (f x)) rows order) : OrderBy key (rows.map f) (order.map f) :=
  ⟨h.1.map f, List.pairwise_map.2 h.2⟩

/-- An order of what a function makes of rows is made of an order of the rows. -/
theorem OrderBy.exists_map {f : α → β} {key : β → κ} {rows : List α} {order : List β}
    (h : OrderBy key (rows.map f) order) :
    ∃ order', OrderBy (fun x => key (f x)) rows order' ∧ order'.map f = order := by
  have hsame : List.Forall₂ (fun y x => f x = y) (rows.map f) rows :=
    List.forall₂_map_left_iff.2 (List.forall₂_same.2 fun _ _ => rfl)
  obtain ⟨order', hmap, hperm⟩ := List.perm_comp_forall₂ h.1 hsame
  have hmap : order'.map f = order := by
    clear h hperm
    induction hmap with
    | nil => rfl
    | cons hx _ ih => rw [List.map_cons, hx, ih]
  refine ⟨order', ⟨hperm, ?_⟩, hmap⟩
  have hpair := h.2
  rwa [← hmap, List.pairwise_map] at hpair

/-- The rows can be ordered. -/
theorem exists_orderBy (key : α → κ) (rows : List α) : ∃ order, OrderBy key rows order := by
  refine ⟨rows.mergeSort fun x y => decide (key y ≤ key x), List.mergeSort_perm .., ?_⟩
  have htrans : ∀ x y z, decide (key y ≤ key x) = true → decide (key z ≤ key y) = true →
      decide (key z ≤ key x) = true := by
    intro x y z hxy hyz
    simp only [decide_eq_true_eq] at hxy hyz ⊢
    exact le_trans hyz hxy
  have htotal : ∀ x y, (decide (key y ≤ key x) || decide (key x ≤ key y)) = true := by
    intro x y
    simpa using le_total (key y) (key x)
  simpa using List.pairwise_mergeSort htrans htotal rows

/-- A row with the greatest key may come first. -/
theorem OrderBy.cons [DecidableEq α] {key : α → κ} {rows order : List α} {x : α} (hx : x ∈ rows)
    (hmax : ∀ y ∈ rows, key y ≤ key x) (h : OrderBy key (rows.erase x) order) :
    OrderBy key rows (x :: order) := by
  refine ⟨(h.1.cons x).trans (List.perm_cons_erase hx).symm, List.pairwise_cons.2 ⟨?_, h.2⟩⟩
  intro y hy
  exact hmax y (List.mem_of_mem_erase (h.1.subset hy))

/-! ## The last rows -/

theorem newest_zero (key : β → κ) (rows : List β) : Newest key rows 0 := by
  intro pre x post _ hpost
  exact absurd hpost (Nat.not_lt_zero _)

theorem newest_nil (key : β → κ) (n : ℕ) : Newest key [] n := by
  intro pre x post h
  simp at h

/-- The last row, and the `n` before it. -/
theorem newest_concat {key : β → κ} {rows : List β} {x : β} {n : ℕ} :
    Newest key (rows ++ [x]) (n + 1) ↔ (∀ y ∈ rows, key y < key x ∨ y = x) ∧ Newest key rows n := by
  constructor
  · intro h
    refine ⟨h rows x [] rfl (Nat.succ_pos n), fun pre z post hrows hpost => ?_⟩
    exact h pre z (post ++ [x]) (by simp [hrows]) (by simpa using hpost)
  · rintro ⟨hlast, hrest⟩ pre z post hrows hpost
    rcases List.eq_nil_or_concat post with rfl | ⟨post', w, rfl⟩
    · obtain ⟨rfl, hz⟩ := List.append_inj' hrows rfl
      cases hz
      exact hlast
    · rw [List.concat_eq_append, ← List.cons_append, ← List.append_assoc] at hrows
      obtain ⟨rfl, hw⟩ := List.append_inj' hrows rfl
      exact hrest pre z post' rfl (by simpa using hpost)

/-- If the last rows are the newest, every order returns them. -/
theorem take_of_newest {key : β → κ} {rows order : List β} {n : ℕ} (hnew : Newest key rows n)
    (h : OrderBy key rows order) : (order.take n).reverse = rows.rtake n := by
  induction rows using List.reverseRecOn generalizing n order with
  | nil =>
    rw [h.1.eq_nil, List.take_nil, List.rtake_nil, List.reverse_nil]
  | append_singleton rows x ih =>
    cases n with
    | zero => simp
    | succ n =>
      obtain ⟨hlast, hrest⟩ := newest_concat.1 hnew
      obtain ⟨hperm, hpair⟩ := h
      have hx : x ∈ order := hperm.symm.subset (by simp)
      cases order with
      | nil => simp at hx
      | cons z order =>
        obtain ⟨hmax, hpair⟩ := List.pairwise_cons.1 hpair
        -- the first of the order is the last row
        obtain rfl : z = x := by
          have hz : z ∈ rows ++ [x] := hperm.subset List.mem_cons_self
          rcases List.mem_append.1 hz with hz | hz
          · rcases hlast z hz with hlt | heq
            · rcases List.mem_cons.1 hx with rfl | hx
              · exact absurd hlt (lt_irrefl _)
              · exact absurd hlt (not_lt_of_ge (hmax x hx))
            · exact heq
          · exact List.mem_singleton.1 hz
        have hperm' : order.Perm rows := (hperm.trans (List.perm_append_singleton z rows)).cons_inv
        rw [List.take_succ_cons, List.reverse_cons, ih hrest ⟨hperm', hpair⟩, List.rtake_concat_succ]

/-- The first row of an order is the last one inserted, if the query is to return that. -/
theorem head_of_rtake {f : α → β} {rows order : List α} {x z : α} {n : ℕ}
    (h : (((z :: order).take (n + 1)).map f).reverse = ((rows ++ [x]).map f).rtake (n + 1)) :
    f z = f x ∧ ((order.take n).map f).reverse = (rows.map f).rtake n := by
  rw [List.take_succ_cons, List.map_cons, List.reverse_cons, List.map_append, List.map_singleton,
    List.rtake_concat_succ] at h
  obtain ⟨hrest, hlast⟩ := List.append_inj' h rfl
  exact ⟨(List.cons.inj hlast).1, hrest⟩

/-- If every order returns the last rows, they are the newest. -/
theorem newest_of_take {f : α → β} {key : β → κ} {rows : List α} {n : ℕ}
    (h : ∀ order, OrderBy (fun x => key (f x)) rows order →
      ((order.take n).map f).reverse = (rows.map f).rtake n) : Newest key (rows.map f) n := by
  classical
  induction rows using List.reverseRecOn generalizing n with
  | nil => exact newest_nil key n
  | append_singleton rows x ih =>
    cases n with
    | zero => exact newest_zero key _
    | succ n =>
      have hlast : ∀ y ∈ rows, key (f y) < key (f x) ∨ f y = f x := by
        intro y hy
        by_contra hcon
        obtain ⟨hlt, hne⟩ := not_or.1 hcon
        obtain ⟨order, horder⟩ := exists_orderBy (fun x => key (f x)) (rows ++ [x])
        have hmem : x ∈ order := horder.1.symm.subset (by simp)
        cases order with
        | nil => simp at hmem
        | cons z order =>
          -- no row has a greater key than `x`, so `y` may come first as well
          have hz := (head_of_rtake (h _ horder)).1
          have hxy : key (f z) ≤ key (f y) := by
            rw [hz]
            exact not_lt.1 hlt
          have hmax : ∀ w ∈ rows ++ [x], key (f w) ≤ key (f y) := by
            intro w hw
            rcases List.mem_cons.1 (horder.1.symm.subset hw) with rfl | hw
            · exact hxy
            · exact le_trans ((List.pairwise_cons.1 horder.2).1 w hw) hxy
          obtain ⟨rest, hrest⟩ := exists_orderBy (fun x => key (f x)) ((rows ++ [x]).erase y)
          have hy' := OrderBy.cons (List.mem_append_left _ hy) hmax hrest
          exact hne (head_of_rtake (h _ hy')).1
      rw [List.map_append, List.map_singleton, newest_concat]
      refine ⟨by simpa using hlast, ih fun order horder => ?_⟩
      have hcons : OrderBy (fun x => key (f x)) (rows ++ [x]) (x :: order) := by
        refine ⟨(horder.1.cons x).trans (List.perm_append_singleton x rows).symm,
          List.pairwise_cons.2 ⟨fun y hy => ?_, horder.2⟩⟩
        rcases hlast y (horder.1.subset hy) with hlt | heq
        · exact le_of_lt hlt
        · exact le_of_eq (congrArg key heq)
      exact (head_of_rtake (h _ hcons)).2

/-- **The exact condition** under which a query with ties returns the last `n` rows in the
order of insertion, whatever order the database chooses. -/
theorem newest_iff (f : α → β) (key : β → κ) (rows : List α) (n : ℕ) :
    (∀ order, OrderBy (fun x => key (f x)) rows order →
      ((order.take n).map f).reverse = (rows.map f).rtake n) ↔ Newest key (rows.map f) n := by
  refine ⟨newest_of_take, fun hnew order horder => ?_⟩
  rw [List.map_take]
  exact take_of_newest hnew horder.map

end Sql
