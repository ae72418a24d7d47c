import Auxlry.Sys.Run

/-!
# Progress

From a state a run may lead to another one by actions of a certain kind alone. A measure
that such runs make smaller, as long as some goal is not reached, leads to the goal.

* `Can.inv`: what the steps keep.
* `exists_can`: **the progress rule**.
-/

namespace Sys

variable {σ α : Type*} {step : σ → α → Option σ} {E : α → Prop} {s t u : σ}

/-- A run of actions that `E` allows leads from `s` to `t`. -/
def Can (step : σ → α → Option σ) (E : α → Prop) (s t : σ) : Prop :=
  ∃ as, (∀ a ∈ as, E a) ∧ run step s as = some t

theorem Can.refl (s : σ) : Can step E s s := ⟨[], fun _ ha => absurd ha List.not_mem_nil, rfl⟩

theorem Can.cons {a : α} (ha : E a) (h : step s a = some t) (ht : Can step E t u) : Can step E s u := by
  obtain ⟨as, has, hrun⟩ := ht
  refine ⟨a :: as, fun b hb => ?_, (run_cons_some h as).trans hrun⟩
  rcases List.mem_cons.1 hb with rfl | hb
  · exact ha
  · exact has b hb

theorem Can.single {a : α} (ha : E a) (h : step s a = some t) : Can step E s t := .cons ha h (.refl t)

theorem Can.trans (hst : Can step E s t) (htu : Can step E t u) : Can step E s u := by
  obtain ⟨as, has, hrun⟩ := hst
  obtain ⟨bs, hbs, hrun'⟩ := htu
  refine ⟨as ++ bs, fun a ha => (List.mem_append.1 ha).elim (has a) (hbs a), ?_⟩
  rw [run_append, hrun]
  exact hrun'

theorem Can.inv {P : σ → Prop} (h : Can step E s t)
    (hstep : ∀ s a t, P s → E a → step s a = some t → P t) (hs : P s) : P t := by
  obtain ⟨as, has, hrun⟩ := h
  induction as generalizing s with
  | nil => exact Option.some.inj hrun ▸ hs
  | cons a as ih =>
    obtain ⟨s', hs', hrun⟩ := Option.bind_eq_some_iff.1 (run_cons s a as ▸ hrun)
    exact ih (hstep s a s' hs (has a List.mem_cons_self) hs') (fun b hb => has b (List.mem_cons_of_mem _ hb)) hrun

/-- **The progress rule.** If some run makes the measure smaller wherever `J` holds and
the goal `G` does not, and keeps `J`, then a run leads to the goal. -/
theorem exists_can {J G : σ → Prop} (μ : σ → ℕ)
    (hprogress : ∀ s, J s → ¬ G s → ∃ t, Can step E s t ∧ J t ∧ μ t < μ s) (hs : J s) :
    ∃ t, Can step E s t ∧ J t ∧ G t := by
  induction hn : μ s using Nat.strongRecOn generalizing s with
  | ind n ih =>
    by_cases hgoal : G s
    · exact ⟨s, .refl s, hs, hgoal⟩
    · obtain ⟨t, hst, ht, hlt⟩ := hprogress s hs hgoal
      obtain ⟨u, htu, hu, hgoal⟩ := ih (μ t) (hn ▸ hlt) ht rfl
      exact ⟨u, hst.trans htu, hu, hgoal⟩

end Sys
