import Mathlib.Data.List.Infix

/-!
# Runs of a step function

A system is a partial step function `step : σ → α → Option σ` on states and
actions; nondeterminism is in the actions. `run` takes a list of actions, `Visits`
and `Takes` name the states and the steps of a run, and `Reaches` the states that
some run ends in.

* `Visits.inv`, `Reaches.inv`: an inductive invariant holds along every run; `Visits.inv_of`,
  along every run whose steps meet an assumption.
* `visits_iff_takes`: **exact guards**. If a step from a good state leads to a good
  state exactly when its guard holds, then a run stays good throughout exactly when
  every step it takes meets its guard.
-/

namespace Sys

variable {σ α : Type*} {step : σ → α → Option σ}

/-- Run a list of actions; `none` when one of them is not enabled. -/
def run (step : σ → α → Option σ) : σ → List α → Option σ
  | s, [] => some s
  | s, a :: as => (step s a).bind (run step · as)

/-- The run `as` from `s` visits `t`: an initial part of it ends in `t`. -/
def Visits (step : σ → α → Option σ) (s : σ) (as : List α) (t : σ) : Prop :=
  ∃ bs, bs <+: as ∧ run step s bs = some t

/-- The run `as` from `s` takes the enabled action `a` in `t`. -/
def Takes (step : σ → α → Option σ) (s : σ) (as : List α) (t : σ) (a : α) : Prop :=
  ∃ bs, bs ++ [a] <+: as ∧ run step s bs = some t ∧ (step t a).isSome

/-- Some run from `s` ends in `t`. -/
def Reaches (step : σ → α → Option σ) (s t : σ) : Prop := ∃ as, run step s as = some t

/-! ## Runs -/

@[simp] theorem run_nil (s : σ) : run step s [] = some s := rfl

theorem run_cons (s : σ) (a : α) (as : List α) :
    run step s (a :: as) = (step s a).bind (run step · as) := rfl

theorem run_cons_some {s s' : σ} {a : α} (h : step s a = some s') (as : List α) :
    run step s (a :: as) = run step s' as := by rw [run_cons, h]; rfl

theorem run_append (s : σ) (as bs : List α) :
    run step s (as ++ bs) = (run step s as).bind (run step · bs) := by
  induction as generalizing s with
  | nil => rfl
  | cons a as ih =>
    rw [List.cons_append, run_cons, run_cons]
    cases step s a with
    | none => rfl
    | some s' => exact ih s'

theorem visits_nil {s t : σ} : Visits step s [] t ↔ t = s := by
  constructor
  · rintro ⟨bs, hbs, h⟩
    rw [List.prefix_nil.1 hbs, run_nil] at h
    exact (Option.some.inj h).symm
  · rintro rfl; exact ⟨[], List.nil_prefix, rfl⟩

theorem visits_cons {s t : σ} {a : α} {as : List α} :
    Visits step s (a :: as) t ↔ t = s ∨ ∃ s', step s a = some s' ∧ Visits step s' as t := by
  constructor
  · rintro ⟨_ | ⟨b, bs⟩, hbs, h⟩
    · left; exact (Option.some.inj h).symm
    · obtain ⟨rfl, hpre⟩ := List.cons_prefix_cons.1 hbs
      rw [run_cons] at h
      obtain ⟨s', hs', h⟩ := Option.bind_eq_some_iff.1 h
      exact .inr ⟨s', hs', bs, hpre, h⟩
  · rintro (rfl | ⟨s', hs', bs, hbs, h⟩)
    · exact ⟨[], List.nil_prefix, rfl⟩
    · exact ⟨a :: bs, List.cons_prefix_cons.2 ⟨rfl, hbs⟩, by rw [run_cons_some hs', h]⟩

theorem not_takes_nil {s t : σ} {a : α} : ¬ Takes step s [] t a := by
  rintro ⟨bs, hbs, -⟩
  simpa using List.prefix_nil.1 hbs

theorem takes_cons {s t : σ} {a b : α} {as : List α} :
    Takes step s (a :: as) t b ↔
      (t = s ∧ b = a ∧ (step s a).isSome) ∨ ∃ s', step s a = some s' ∧ Takes step s' as t b := by
  constructor
  · rintro ⟨_ | ⟨c, bs⟩, hbs, h, hb⟩
    · obtain ⟨rfl, -⟩ := List.cons_prefix_cons.1 hbs
      obtain rfl := Option.some.inj h
      exact .inl ⟨rfl, rfl, hb⟩
    · obtain ⟨rfl, hpre⟩ := List.cons_prefix_cons.1 hbs
      rw [run_cons] at h
      obtain ⟨s', hs', h⟩ := Option.bind_eq_some_iff.1 h
      exact .inr ⟨s', hs', bs, hpre, h, hb⟩
  · rintro (⟨rfl, rfl, hb⟩ | ⟨s', hs', bs, hbs, h, hb⟩)
    · exact ⟨[], List.cons_prefix_cons.2 ⟨rfl, List.nil_prefix⟩, rfl, hb⟩
    · exact ⟨a :: bs, List.cons_prefix_cons.2 ⟨rfl, hbs⟩, by rw [run_cons_some hs', h], hb⟩

/-- A run takes its first step, and those of the rest. -/
theorem forall_takes_cons {ok : σ → α → Prop} {s s' : σ} {a : α} {as : List α} (h : step s a = some s') :
    (∀ t b, Takes step s (a :: as) t b → ok t b) ↔ ok s a ∧ ∀ t b, Takes step s' as t b → ok t b := by
  constructor
  · intro hall
    exact ⟨hall s a (takes_cons.2 (.inl ⟨rfl, rfl, by rw [h]; rfl⟩)),
      fun t b hb => hall t b (takes_cons.2 (.inr ⟨s', h, hb⟩))⟩
  · rintro ⟨hfirst, hrest⟩ t b hb
    rcases takes_cons.1 hb with ⟨rfl, rfl, -⟩ | ⟨u, hu, hb⟩
    · exact hfirst
    · rw [h] at hu; obtain rfl := Option.some.inj hu; exact hrest t b hb

/-- A run visits its start, and what the rest visits. -/
theorem forall_visits_cons {P : σ → Prop} {s s' : σ} {a : α} {as : List α} (h : step s a = some s') :
    (∀ t, Visits step s (a :: as) t → P t) ↔ P s ∧ ∀ t, Visits step s' as t → P t := by
  constructor
  · intro hall
    exact ⟨hall s (visits_cons.2 (.inl rfl)), fun t ht => hall t (visits_cons.2 (.inr ⟨s', h, ht⟩))⟩
  · rintro ⟨hfirst, hrest⟩ t ht
    rcases visits_cons.1 ht with rfl | ⟨u, hu, ht⟩
    · exact hfirst
    · rw [h] at hu; obtain rfl := Option.some.inj hu; exact hrest t ht

/-! ## Invariants -/

theorem inv_of_run {P : σ → Prop} (hstep : ∀ t a t', P t → step t a = some t' → P t') :
    ∀ {as : List α} {s t : σ}, P s → run step s as = some t → P t := by
  intro as
  induction as with
  | nil => intro s t hs h; exact Option.some.inj h ▸ hs
  | cons a as ih =>
    intro s t hs h
    obtain ⟨s', hs', h⟩ := Option.bind_eq_some_iff.1 (run_cons s a as ▸ h)
    exact ih (hstep s a s' hs hs') h

theorem Visits.inv {P : σ → Prop} {s t : σ} {as : List α} (h : Visits step s as t)
    (hstep : ∀ t a t', P t → step t a = some t' → P t') (hs : P s) : P t := by
  obtain ⟨bs, -, h⟩ := h
  exact inv_of_run hstep hs h

/-- **The induction rule** for reachable states. -/
theorem Reaches.inv {P : σ → Prop} {s t : σ} (h : Reaches step s t)
    (hstep : ∀ t a t', P t → step t a = some t' → P t') (hs : P s) : P t := by
  obtain ⟨as, h⟩ := h
  exact inv_of_run hstep hs h

/-! ## Exact guards -/

/-- **Exact guards, under an assumption on the environment.** `J` is what the good
steps keep besides `P`, `E` what is assumed of every step taken. If a step from a
state with `J` and `P` leads to `P` exactly when its guard `ok` holds, then a run has
`P` throughout exactly when each step it takes meets its guard. -/
theorem visits_iff_takes_of {J P : σ → Prop} {ok E : σ → α → Prop}
    (hJ : ∀ t a t', J t → P t → E t a → ok t a → step t a = some t' → J t')
    (hok : ∀ t a t', J t → P t → E t a → step t a = some t' → (P t' ↔ ok t a)) :
    ∀ (as : List α) {s : σ}, J s → P s → (∀ t a, Takes step s as t a → E t a) →
      ((∀ t, Visits step s as t → P t) ↔ ∀ t a, Takes step s as t a → ok t a) := by
  intro as
  induction as with
  | nil =>
    intro s _ hP _
    exact ⟨fun _ t a h => absurd h not_takes_nil, fun _ t h => visits_nil.1 h ▸ hP⟩
  | cons a as ih =>
    intro s hJs hP henv
    cases hs : step s a with
    | none =>
      -- the first action is not enabled: nothing is taken, and only `s` visited
      constructor
      · rintro - t b h
        rcases takes_cons.1 h with ⟨-, -, h⟩ | ⟨s', h, -⟩ <;> simp [hs] at h
      · rintro - t h
        rcases visits_cons.1 h with rfl | ⟨s', h, -⟩
        · exact hP
        · simp [hs] at h
    | some s' =>
      -- both sides split into the first step and the run from `s'`
      rw [forall_takes_cons hs] at henv
      rw [forall_takes_cons hs, forall_visits_cons hs]
      obtain ⟨hE, hE'⟩ := henv
      have hnow := hok s a s' hJs hP hE hs
      constructor
      · rintro ⟨-, hall⟩
        have hP' := hall s' ⟨[], List.nil_prefix, rfl⟩
        have hka := hnow.1 hP'
        exact ⟨hka, (ih (hJ s a s' hJs hP hE hka hs) hP' hE').1 hall⟩
      · rintro ⟨hka, hall⟩
        exact ⟨hP, (ih (hJ s a s' hJs hP hE hka hs) (hnow.2 hka) hE').2 hall⟩

/-- **Exact guards**, with nothing assumed of the environment. -/
theorem visits_iff_takes {J P : σ → Prop} {ok : σ → α → Prop}
    (hJ : ∀ t a t', J t → P t → ok t a → step t a = some t' → J t')
    (hok : ∀ t a t', J t → P t → step t a = some t' → (P t' ↔ ok t a))
    (as : List α) {s : σ} (hJs : J s) (hP : P s) :
    (∀ t, Visits step s as t → P t) ↔ ∀ t a, Takes step s as t a → ok t a :=
  visits_iff_takes_of (E := fun _ _ => True) (fun t a t' hJt hPt _ => hJ t a t' hJt hPt)
    (fun t a t' hJt hPt _ => hok t a t' hJt hPt) as hJs hP fun _ _ _ => trivial

/-- **Invariants under an assumption**: what the steps keep that meet `E` holds in every
state of a run that takes no others. -/
theorem Visits.inv_of {P : σ → Prop} {E : σ → α → Prop} {s t : σ} {as : List α} (h : Visits step s as t)
    (henv : ∀ t a, Takes step s as t a → E t a) (hstep : ∀ t a t', P t → E t a → step t a = some t' → P t')
    (hs : P s) : P t := by
  have hexact : (∀ t, Visits step s as t → P t) ↔ ∀ t a, Takes step s as t a → True :=
    visits_iff_takes_of (J := fun _ => True) (fun _ _ _ _ _ _ _ _ => trivial)
      (fun t a t' _ hP hE h => iff_of_true (hstep t a t' hP hE h) trivial) as trivial hs henv
  exact hexact.2 (fun _ _ _ => trivial) t h

end Sys
