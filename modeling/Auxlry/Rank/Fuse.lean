import Mathlib.Algebra.BigOperators.Group.List.Basic
import Mathlib.Data.List.Induction

/-!
# Fusing weighted lists

Items come with weights, and items with the same key are one: the weights of a key add up
and its first item is kept (`credit`, `fuse`).

* `fuse_eq`: the entries in closed form.
-/

namespace Rank

variable {α ι κ : Type*} [DecidableEq ι] {key : α → ι} {l : List α} {a b : α} {i : ι}

/-- Add a weight to the entry of an item's key. -/
def credit [Add κ] (key : α → ι) : List (κ × α) → κ × α → List (κ × α)
  | [], x => [x]
  | (w, a) :: m, x => if key a = key x.2 then (w + x.1, a) :: m else (w, a) :: credit key m x

def fuse [Add κ] (key : α → ι) (xs : List (κ × α)) : List (κ × α) := xs.foldl (credit key) []

/-! ## The first item of each key -/

/-- The items, without those whose key an earlier one has. -/
def firsts (key : α → ι) : List α → List α
  | [] => []
  | a :: l => a :: (firsts key l).filter fun b => key b ≠ key a

theorem firsts_sublist (key : α → ι) (l : List α) : (firsts key l).Sublist l := by
  induction l with
  | nil => exact List.Sublist.refl _
  | cons a l ih => exact (List.filter_sublist.trans ih).cons_cons a

theorem firsts_nodup (key : α → ι) (l : List α) : ((firsts key l).map key).Nodup := by
  induction l with
  | nil => exact List.nodup_nil
  | cons a l ih =>
    refine List.nodup_cons.2 ⟨?_, ih.sublist (List.filter_sublist.map key)⟩
    intro hmem
    obtain ⟨b, hb, heq⟩ := List.mem_map.1 hmem
    have hne := (List.mem_filter.1 hb).2
    simp [heq] at hne

theorem exists_mem_firsts : (∃ a ∈ firsts key l, key a = i) ↔ ∃ a ∈ l, key a = i := by
  constructor
  · rintro ⟨a, ha, hi⟩
    exact ⟨a, (firsts_sublist key l).subset ha, hi⟩
  · induction l with
    | nil => exact id
    | cons a l ih =>
      rintro ⟨b, hb, hi⟩
      by_cases hai : key a = i
      · exact ⟨a, List.mem_cons_self, hai⟩
      · rcases List.mem_cons.1 hb with rfl | hb
        · exact absurd hi hai
        · obtain ⟨c, hc, hci⟩ := ih ⟨b, hb, hi⟩
          refine ⟨c, List.mem_cons_of_mem _ (List.mem_filter.2 ⟨hc, ?_⟩), hci⟩
          have hne : key c ≠ key a := by
            rw [hci]
            exact fun h => hai h.symm
          simpa using hne

theorem firsts_of_nodup (h : (l.map key).Nodup) : firsts key l = l := by
  induction l with
  | nil => rfl
  | cons a l ih =>
    obtain ⟨ha, hl⟩ := List.nodup_cons.1 h
    unfold firsts
    rw [ih hl, List.filter_eq_self.2]
    intro b hb
    have hne : key b ≠ key a := by
      intro heq
      exact ha (List.mem_map.2 ⟨b, hb, heq⟩)
    simpa using hne

/-- An item at the end counts if its key is new. -/
theorem firsts_concat (key : α → ι) (l : List α) (b : α) : firsts key (l ++ [b]) =
    if ∃ a ∈ l, key a = key b then firsts key l else firsts key l ++ [b] := by
  induction l with
  | nil => simp [firsts]
  | cons a l ih =>
    rw [List.cons_append]
    unfold firsts
    rw [ih]
    by_cases hl : ∃ c ∈ l, key c = key b
    · obtain ⟨c, hc, hcb⟩ := hl
      rw [if_pos ⟨c, hc, hcb⟩, if_pos ⟨c, List.mem_cons_of_mem _ hc, hcb⟩]
    · rw [if_neg hl, List.filter_append]
      by_cases hab : key a = key b
      · rw [if_pos ⟨a, List.mem_cons_self, hab⟩]
        simp [hab]
      · have hex : ¬ ∃ c ∈ a :: l, key c = key b := by
          rintro ⟨c, hc, hcb⟩
          rcases List.mem_cons.1 hc with rfl | hc
          · exact hab hcb
          · exact hl ⟨c, hc, hcb⟩
        have hba : key b ≠ key a := fun heq => hab heq.symm
        rw [if_neg hex]
        simp [hba]

/-! ## The entries -/

/-- The sum of the weights of a key. -/
def total [Add κ] [Zero κ] (key : α → ι) (xs : List (κ × α)) (i : ι) : κ :=
  ((xs.filter fun x => key x.2 = i).map Prod.fst).sum

section AddMonoid

variable [AddMonoid κ] {xs : List (κ × α)} {x : κ × α} {w : κ}

theorem total_append (xs ys : List (κ × α)) : total key (xs ++ ys) i = total key xs i + total key ys i := by
  unfold total
  rw [List.filter_append, List.map_append, List.sum_append]

theorem total_cons (x : κ × α) (xs : List (κ × α)) :
    total key (x :: xs) i = (if key x.2 = i then x.1 else 0) + total key xs i := by
  unfold total
  by_cases h : key x.2 = i
  · rw [if_pos h, List.filter_cons_of_pos (by simpa using h), List.map_cons, List.sum_cons]
  · rw [if_neg h, List.filter_cons_of_neg (by simpa using h), zero_add]

theorem total_concat : total key (xs ++ [(w, b)]) i = total key xs i + if key b = i then w else 0 := by
  rw [total_append]
  unfold total
  split
  · rename_i h
    simp [h]
  · rename_i h
    simp [h]

theorem total_of_not_mem (h : ¬ ∃ a ∈ xs.map Prod.snd, key a = i) : total key xs i = 0 := by
  have hnone : (xs.filter fun x => key x.2 = i) = [] := by
    rw [List.filter_eq_nil_iff]
    intro x hx heq
    exact h ⟨x.2, List.mem_map.2 ⟨x, hx, rfl⟩, by simpa using heq⟩
  unfold total
  rw [hnone]
  rfl

/-- The weight of the only item with its key. -/
theorem total_of_nodup (h : (xs.map fun x => key x.2).Nodup) (hx : x ∈ xs) :
    total key xs (key x.2) = x.1 := by
  have honly : (xs.filter fun y => key y.2 = key x.2) = [x] := by
    induction xs with
    | nil => exact absurd hx List.not_mem_nil
    | cons y xs ih =>
      obtain ⟨hy, hxs⟩ := List.nodup_cons.1 h
      rcases List.mem_cons.1 hx with rfl | hx
      · rw [List.filter_cons_of_pos (by simp), List.filter_eq_nil_iff.2]
        intro z hz heq
        exact hy (List.mem_map.2 ⟨z, hz, by simpa using heq⟩)
      · rw [List.filter_cons_of_neg, ih hxs hx]
        intro heq
        exact hy (List.mem_map.2 ⟨x, hx, by simpa using Eq.symm (by simpa using heq)⟩)
  unfold total
  rw [honly]
  exact add_zero _

/-- Crediting an item changes one entry of a map without duplicate keys. -/
theorem credit_map {as : List α} (f : ι → κ) (h : (as.map key).Nodup) (w : κ) (b : α) :
    credit key (as.map fun a => (f (key a), a)) (w, b) =
      if ∃ a ∈ as, key a = key b then as.map fun a => (f (key a) + if key b = key a then w else 0, a)
      else (as.map fun a => (f (key a), a)) ++ [(w, b)] := by
  induction as with
  | nil => simp [credit]
  | cons a as ih =>
    obtain ⟨ha, has⟩ := List.nodup_cons.1 h
    rw [List.map_cons]
    unfold credit
    by_cases hab : key a = key b
    · -- no other entry has this key
      have hrest : (as.map fun a => (f (key a), a)) =
          as.map fun a => (f (key a) + if key b = key a then w else 0, a) := by
        refine List.map_congr_left fun c hc => ?_
        have hne : key b ≠ key c := fun heq => ha (List.mem_map.2 ⟨c, hc, heq.symm.trans hab.symm⟩)
        rw [if_neg hne, add_zero]
      rw [if_pos hab, if_pos ⟨a, List.mem_cons_self, hab⟩, List.map_cons, if_pos hab.symm, hrest]
    · have hba : ¬ key b = key a := fun heq => hab heq.symm
      rw [if_neg hab, ih has, List.map_cons, if_neg hba, add_zero]
      by_cases hex : ∃ a ∈ as, key a = key b
      · obtain ⟨c, hc, hcb⟩ := hex
        rw [if_pos ⟨c, hc, hcb⟩, if_pos ⟨c, List.mem_cons_of_mem _ hc, hcb⟩]
      · have hex' : ¬ ∃ c ∈ a :: as, key c = key b := by
          rintro ⟨c, hc, hcb⟩
          rcases List.mem_cons.1 hc with rfl | hc
          · exact hab hcb
          · exact hex ⟨c, hc, hcb⟩
        rw [if_neg hex, if_neg hex', List.cons_append]

/-- **The entries of the fused list**: the first item of each key, with all its weights. -/
theorem fuse_eq (key : α → ι) (xs : List (κ × α)) :
    fuse key xs = (firsts key (xs.map Prod.snd)).map fun a => (total key xs (key a), a) := by
  induction xs using List.reverseRecOn with
  | nil => rfl
  | append_singleton xs x ih =>
    obtain ⟨w, b⟩ := x
    have hstep : fuse key (xs ++ [(w, b)]) = credit key (fuse key xs) (w, b) := by
      unfold fuse
      rw [List.foldl_append]
      rfl
    rw [hstep, ih, credit_map (total key xs) (firsts_nodup key _) w b, List.map_append,
      List.map_singleton]
    simp only [total_concat]
    rw [firsts_concat]
    by_cases hex : ∃ a ∈ xs.map Prod.snd, key a = key b
    · rw [if_pos (exists_mem_firsts.2 hex), if_pos hex]
    · rw [if_neg (fun h => hex (exists_mem_firsts.1 h)), if_neg hex, List.map_append, List.map_singleton,
        if_pos rfl, total_of_not_mem hex, zero_add]
      -- the entries that are there have other keys
      refine congrArg (· ++ _) (List.map_congr_left fun a ha => ?_)
      have hne : key b ≠ key a := by
        intro heq
        exact hex ⟨a, (firsts_sublist key _).subset ha, heq.symm⟩
      rw [if_neg hne, add_zero]

/-- Without duplicate keys there is nothing to fuse. -/
theorem fuse_of_nodup (h : (xs.map fun x => key x.2).Nodup) : fuse key xs = xs := by
  have hkeys : ((xs.map Prod.snd).map key).Nodup := by
    rw [List.map_map]
    exact h
  rw [fuse_eq, firsts_of_nodup hkeys, List.map_map]
  conv_rhs => rw [← List.map_id xs]
  refine List.map_congr_left fun x hx => ?_
  exact Prod.ext (total_of_nodup h hx) rfl

end AddMonoid

end Rank
