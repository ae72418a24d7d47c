import Auxlry.Sys.Run

/-!
# Simulations

One system simulates another through a relation between their states, if it can follow each
step of the other by steps of its own, of which there may be none.

* `Reaches.simulate`: **the simulation rule**. What one reaches, the other reaches a match of.
-/

namespace Sys

variable {σ τ α β : Type*} {step : σ → α → Option σ} {step' : τ → β → Option τ}

theorem Reaches.refl (s : σ) : Reaches step s s := ⟨[], rfl⟩

theorem Reaches.single {s t : σ} {a : α} (h : step s a = some t) : Reaches step s t :=
  ⟨[a], by rw [run_cons_some h, run_nil]⟩

theorem Reaches.trans {s t u : σ} (hst : Reaches step s t) (htu : Reaches step t u) : Reaches step s u := by
  obtain ⟨as, has⟩ := hst
  obtain ⟨bs, hbs⟩ := htu
  refine ⟨as ++ bs, ?_⟩
  rw [run_append, has]
  exact hbs

/-- The system of `step'` follows the steps of `step` through `R`. -/
def Follows (step : σ → α → Option σ) (step' : τ → β → Option τ) (R : σ → τ → Prop) : Prop :=
  ∀ s t a s', R s t → step s a = some s' → ∃ t', Reaches step' t t' ∧ R s' t'

/-- **The simulation rule.** -/
theorem Reaches.simulate {R : σ → τ → Prop} (hfollows : Follows step step' R) {s s' : σ} {t : τ}
    (h : Reaches step s s') (hR : R s t) : ∃ t', Reaches step' t t' ∧ R s' t' := by
  refine h.inv (P := fun u => ∃ t', Reaches step' t t' ∧ R u t') ?_ ⟨t, .refl t, hR⟩
  rintro u a u' ⟨t', htt', hR'⟩ hstep
  obtain ⟨t'', ht't'', hR''⟩ := hfollows u t' a u' hR' hstep
  exact ⟨t'', htt'.trans ht't'', hR''⟩

end Sys
