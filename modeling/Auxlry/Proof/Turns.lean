import Auxlry.Proof.Agents

/-!
# The step limit

A run should make no more completion calls than its step limit. Each prompt is limited
by `remainingTurns`, which `run_inner` computes when it starts over after a steer, and
not when it tries again after a transient error. What one prompt has left and what the
run has used should add up to no more than the limit (`Budget`).

* `budget_iff`: **the exact guards** under which they do.
* `turnsUsed_le`: in the runs that keep to them, the limit is never exceeded.
* `retry_exceeds_limit`: a second attempt gets all the turns of the first again.
-/

namespace Auxlry

namespace Agent

variable {a a' : Agent} {b : Step} {n : ℕ}

/-- A prompt makes at most as many completion calls as it was set up with; it has made `n`. -/
def Allowed (a : Agent) (n : ℕ) : Step → Prop
  | .check false _ => n < a.remainingTurns
  | _ => True

instance (a : Agent) (n : ℕ) (b : Step) : Decidable (a.Allowed n b) := by
  unfold Allowed; split <;> infer_instance

/-- The completion calls of the current prompt, after the step `b` to `a'`. -/
def callsAfter (b : Step) (a' : Agent) (n : ℕ) : ℕ :=
  match a'.phase, b with
  | .prompting _, _ => 0
  | _, .check false _ => n + 1
  | _, _ => n

/-- What the run has used, and what its prompt has left, are within the limit. -/
def Budget (a : Agent) (n : ℕ) : Prop := a.turnsUsed + (a.remainingTurns - n) ≤ a.maxTurns

/-- What keeps the budget: a prompt is tried again only if all its turns are left to the
run, and the run starts over after a steer only if it has a turn left. -/
def KeepsBudget (a : Agent) : Step → Prop
  | .promptEnds e => ∀ attempt, checkedAttempt false a.phase = some attempt →
      afterPrompt attempt e = .prompting (attempt + 1) → a.turnsUsed + a.remainingTurns ≤ a.maxTurns
  | .reset => a.turnsUsed < a.maxTurns
  | _ => True

/-- A run that has not been prompted has used no turns. -/
def Fresh (a : Agent) : Prop :=
  a.phase = .absent ∨ a.phase = .started ∨ a.phase = .registered → a.turnsUsed = 0

theorem Fresh.move (hJ : a.Fresh) (h : Move a b a') : a'.Fresh := by
  cases h with
  | start phase => intro _; rfl
  | register phase => exact fun _ => hJ (.inr (.inl phase))
  | @promptEnds attempt e phase =>
    intro h
    rcases afterPrompt_cases attempt e with hp | ⟨_, hp⟩ <;> simp [hp] at h
  | _ => intro h; simp [leave] at h

/-- A step keeps the budget exactly if it meets its guard. -/
theorem budget_move (hJ : a.Fresh) (hP : a.Budget n) (hb : a.Allowed n b) (h : Move a b a') :
    a'.Budget (callsAfter b a' n) ↔ a.KeepsBudget b := by
  unfold Budget at hP ⊢
  cases h with
  | start phase =>
    refine iff_of_true ?_ trivial
    show 0 + (0 - _) ≤ _
    omega
  | prepare phase =>
    have hzero := hJ (.inr (.inr phase))
    refine iff_of_true ?_ trivial
    show a.turnsUsed + (a.maxTurns - 0) ≤ a.maxTurns
    omega
  | @passed tool lastText attempt phase slot | @wrappedUp tool lastText attempt phase slot
  | @steered tool lastText msg attempt phase slot =>
    refine iff_of_true ?_ trivial
    cases tool with
    | true => exact hP
    | false =>
      have hlt : n < a.remainingTurns := hb
      show a.turnsUsed + 1 + (a.remainingTurns - (n + 1)) ≤ a.maxTurns
      omega
  | @promptEnds attempt e phase =>
    -- a second attempt gets all turns again
    by_cases hretry : afterPrompt attempt e = .prompting (attempt + 1)
    · have hcalls : callsAfter (.promptEnds e) { a with phase := afterPrompt attempt e } n = 0 := by
        simp only [callsAfter, hretry]
      rw [hcalls]
      constructor
      · intro hall attempt' hattempt _
        exact hall
      · intro hg
        exact hg attempt phase hretry
    · have hended : ∃ e', afterPrompt attempt e = .ended e' := by
        rcases afterPrompt_cases attempt e with hp | hp
        · exact absurd hp hretry
        · exact hp
      obtain ⟨e', hp⟩ := hended
      have hcalls : callsAfter (.promptEnds e) { a with phase := afterPrompt attempt e } n = n := by
        simp only [callsAfter, hp]
      rw [hcalls]
      refine iff_of_true hP fun attempt' hattempt hcontra => ?_
      rw [phase] at hattempt
      cases hattempt
      exact absurd hcontra hretry
  | reset phase =>
    show a.turnsUsed + ((if a.maxTurns - a.turnsUsed = 0 then 1 else a.maxTurns - a.turnsUsed) - 0) ≤
      a.maxTurns ↔ a.turnsUsed < a.maxTurns
    split <;> omega
  | register | unprepared | call | steer | conclude | deregister => exact iff_of_true hP trivial

end Agent

/-- All agents, with the completion calls that their current prompts have made. -/
structure Metered where
  agents : ActiveAgents
  calls : String → ℕ

namespace Metered

variable {s s' : Metered} {action : ActiveAgents.Action}

def init : Metered := ⟨ActiveAgents.init, fun _ => 0⟩

/-- The prompts keep to their turns. -/
def Allowed (s : Metered) : ActiveAgents.Action → Prop
  | .run id b => (s.agents id).Allowed (s.calls id) b
  | _ => True

instance (s : Metered) (action : ActiveAgents.Action) : Decidable (s.Allowed action) := by
  unfold Allowed; split <;> infer_instance

/-- The completion calls of the current prompts, after a step to `agents`. -/
def callsAfter (s : Metered) (agents : ActiveAgents) : ActiveAgents.Action → String → ℕ
  | .run id b => Function.update s.calls id (Agent.callsAfter b (agents id) (s.calls id))
  | _ => s.calls

/-- A step of the agents, with prompts that keep to their turns. -/
def step (s : Metered) (action : ActiveAgents.Action) : Option Metered :=
  if s.Allowed action then
    (s.agents.step action).map fun agents => ⟨agents, s.callsAfter agents action⟩
  else none

/-- The guard of the agent that takes a step. -/
def KeepsBudget (s : Metered) : ActiveAgents.Action → Prop
  | .run id b => (s.agents id).KeepsBudget b
  | _ => True

/-- No agent has used turns before its first prompt. -/
def AllFresh (s : Metered) : Prop := ∀ id, (s.agents id).Fresh

/-- The runs and their prompts are within their limits. -/
def AllBudget (s : Metered) : Prop := ∀ id, (s.agents id).Budget (s.calls id)

/-- **A step changes one agent**: a step of its run, or a signal, which leaves its counts
alone. -/
theorem step_cases (h : s.step action = some s') :
    (∃ id b a', action = .run id b ∧ (s.agents id).Allowed (s.calls id) b ∧ (s.agents id).Move b a' ∧
        s' = ⟨Function.update s.agents id a',
          Function.update s.calls id (Agent.callsAfter b a' (s.calls id))⟩) ∨
      ∃ id sig, s.KeepsBudget action ∧ s' = ⟨Function.update s.agents id { s.agents id with
        slot := sig, seen := false, accepted := (s.agents id).accepted ++ [sig] }, s.calls⟩ := by
  unfold step at h
  split at h
  · rename_i hallowed
    obtain ⟨agents, hagents, rfl⟩ := Option.map_eq_some_iff.1 h
    obtain ⟨a', hchange, rfl⟩ := ActiveAgents.step_local hagents
    cases action with
    | run id b =>
      cases hchange with
      | run move =>
        refine .inl ⟨id, b, a', rfl, hallowed, move, ?_⟩
        simp only [callsAfter, ActiveAgents.Action.id, Function.update_self]
    | signal id sig =>
      cases hchange with
      | accept => exact .inr ⟨id, sig, trivial, rfl⟩
    | signalChannel interface channel sig first =>
      cases hchange with
      | accept => exact .inr ⟨first, sig, trivial, rfl⟩
  · cases h

theorem AllFresh.step (hJ : s.AllFresh) (h : s.step action = some s') : s'.AllFresh := by
  rcases step_cases h with ⟨id, b, a', rfl, -, move, rfl⟩ | ⟨id, sig, -, rfl⟩
  · exact (ActiveAgents.forall_update_iff hJ).2 ((hJ id).move move)
  · exact (ActiveAgents.forall_update_iff hJ).2 (hJ id)

/-- A step keeps all budgets exactly if it meets its guard. -/
theorem allBudget_step (hJ : s.AllFresh) (hP : s.AllBudget) (h : s.step action = some s') :
    s'.AllBudget ↔ s.KeepsBudget action := by
  rcases step_cases h with ⟨id, b, a', rfl, hallowed, move, rfl⟩ | ⟨id, sig, hg, rfl⟩
  · have hmove := Agent.budget_move (hJ id) (hP id) hallowed move
    constructor
    · intro hall
      have hid := hall id
      simp only [Function.update_self] at hid
      exact hmove.1 hid
    · intro hg i
      by_cases hi : i = id
      · subst hi
        simp only [Function.update_self]
        exact hmove.2 hg
      · simp only [Function.update_of_ne hi]
        exact hP i
  · refine iff_of_true (fun i => ?_) hg
    by_cases hi : i = id
    · subst hi
      simp only [Function.update_self]
      exact hP i
    · simp only [Function.update_of_ne hi]
      exact hP i

/-- **The exact guards** under which the runs stay within their limits with all that their
prompts have left. -/
theorem budget_iff (as : List ActiveAgents.Action) :
    (∀ s, Sys.Visits step init as s → s.AllBudget) ↔
      ∀ s action, Sys.Takes step init as s action → s.KeepsBudget action :=
  Sys.visits_iff_takes (J := AllFresh) (P := AllBudget) (fun _ _ _ hJ _ _ h => hJ.step h)
    (fun _ _ _ hJ hP h => allBudget_step hJ hP h) as (fun _ _ => rfl) (fun _ => Nat.le_refl 0)

/-- **The step limit is never exceeded** in a run that retries a prompt only with all its
turns left, and starts over only with a turn left. -/
theorem turnsUsed_le (as : List ActiveAgents.Action)
    (h : ∀ s action, Sys.Takes step init as s action → s.KeepsBudget action) :
    ∀ s, Sys.Visits step init as s → ∀ id, (s.agents id).turnsUsed ≤ (s.agents id).maxTurns := by
  intro s hs id
  have hbudget := (budget_iff as).2 h s hs id
  unfold Agent.Budget at hbudget
  omega

/-- A prompt of two turns, steered after its first. -/
def steered : List ActiveAgents.Action :=
  [.run "x" (.start .operator "task" none none 2), .run "x" .register, .run "x" (.prepare none),
    .run "x" (.check false ""), .run "x" .call, .signal "x" (.steer "a"), .run "x" (.check true ""),
    .run "x" .steer, .run "x" .reset, .run "x" (.check false "")]

/-- The run uses its two turns. -/
theorem turnsUsed_le_steered : ∃ s, Sys.run step init steered = some s ∧
    (s.agents "x").turnsUsed = 2 ∧ (s.agents "x").turnsUsed ≤ (s.agents "x").maxTurns := by
  have hrun : Sys.run step init steered = some _ := rfl
  have hkeeps : ∀ s action, Sys.Takes step init steered s action → s.KeepsBudget action := by
    have hreset : (1 : ℕ) < 2 := by decide
    refine (Sys.forall_takes_cons rfl).2 ⟨trivial, ?_⟩
    refine (Sys.forall_takes_cons rfl).2 ⟨trivial, ?_⟩
    refine (Sys.forall_takes_cons rfl).2 ⟨trivial, ?_⟩
    refine (Sys.forall_takes_cons rfl).2 ⟨trivial, ?_⟩
    refine (Sys.forall_takes_cons rfl).2 ⟨trivial, ?_⟩
    refine (Sys.forall_takes_cons rfl).2 ⟨trivial, ?_⟩
    refine (Sys.forall_takes_cons rfl).2 ⟨trivial, ?_⟩
    refine (Sys.forall_takes_cons rfl).2 ⟨trivial, ?_⟩
    refine (Sys.forall_takes_cons rfl).2 ⟨hreset, ?_⟩
    refine (Sys.forall_takes_cons rfl).2 ⟨trivial, ?_⟩
    intro t b h
    exact absurd h Sys.not_takes_nil
  exact ⟨_, hrun, rfl, turnsUsed_le steered hkeeps _ ⟨_, List.prefix_rfl, hrun⟩ "x"⟩

/-- A prompt of one turn that meets a transient error after its completion call. -/
def retried : List ActiveAgents.Action :=
  [.run "x" (.start .synapse "task" none none 1), .run "x" .register, .run "x" (.prepare none),
    .run "x" (.check false ""), .run "x" .call, .run "x" (.promptEnds (.error "JsonError")),
    .run "x" (.check false "")]

/-- **A second attempt exceeds the limit**: it gets all turns of the first one again. -/
theorem retry_exceeds_limit : ∃ s, Sys.run step init retried = some s ∧
    (s.agents "x").maxTurns = 1 ∧ (s.agents "x").turnsUsed = 2 := by
  have h : Sys.run step init retried = some _ := rfl
  exact ⟨_, h, rfl, rfl⟩

end Metered

end Auxlry
