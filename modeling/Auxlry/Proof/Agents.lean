import Auxlry.Spec.Agent
import Auxlry.Sys.Run

/-!
# What a step of an agent does

`step_move` lists the steps of a run with the phase each is taken in, and `step_local`
says that a step of the whole system changes one agent, by a step of its run or by a
signal it accepts. Results about all agents are proved for one, and lifted with
`forall_agents_iff`.
-/

namespace Auxlry

/-- The run has come to its own end: it has completed or failed. -/
def AgentEvent.ownEnd : AgentEvent → Bool
  | .completed _ | .failed _ => true
  | _ => false

/-- An event that ends a run. -/
def AgentEvent.isEnd : AgentEvent → Bool
  | .interrupted _ => true
  | e => e.ownEnd

namespace Agent

variable {a a' : Agent} {b : Step} {sig : AgentSignal}

theorem isEnd_of_ownEnd {e : AgentEvent} (h : e.ownEnd = true) : e.isEnd = true := by
  cases e <;> first | rfl | exact h

/-- `run_inner` has not returned. -/
def Running (a : Agent) : Prop := a.phase ≠ .returned ∧ a.phase ≠ .gone

/-- `run_inner` returns, and `e` is the event it publishes: the prompt has ended, or was
cancelled for a reason that is no steer. -/
def Concludes (a : Agent) (e : AgentEvent) : Prop :=
  ((∃ pe, a.phase = .ended pe) ∧ e.ownEnd = true) ∨
    ∃ reason lastText, a.phase = .cancelled reason lastText ∧ steerMessage a.phase = none ∧
      if reason = "wrap-up" then ∃ result, e = .interrupted result else e.ownEnd = true

theorem Concludes.running {e : AgentEvent} (h : a.Concludes e) : a.Running := by
  rcases h with ⟨⟨pe, hp⟩, -⟩ | ⟨reason, lastText, hp, -⟩ <;> simp [Running, hp]

theorem running_of_receives (h : a.receives = true) : a.Running := by
  unfold receives inRegistry at h
  constructor <;> intro hp <;> simp [hp] at h

theorem steerMessage_wrapUp (lastText : String) :
    steerMessage (.cancelled "wrap-up" lastText) = none := by
  rw [steerMessage, if_pos rfl]

/-- Only one of the two starts with `steer:`. -/
theorem steerReason_ne (msg : String) : "steer:" ++ msg ≠ "wrap-up" :=
  append_ne_of_stripPrefix (by decide) msg

theorem steerMessage_steer (msg lastText : String) :
    steerMessage (.cancelled ("steer:" ++ msg) lastText) = some msg := by
  rw [steerMessage, if_neg (steerReason_ne msg), stripPrefix_append]

theorem running_of_steerMessage {msg : String} (h : steerMessage a.phase = some msg) : a.Running := by
  constructor <;> intro hp <;> simp [hp, steerMessage] at h

theorem afterPrompt_cases (attempt : ℕ) (e : PromptEnd) :
    afterPrompt attempt e = .prompting (attempt + 1) ∨ ∃ e', afterPrompt attempt e = .ended e' := by
  unfold afterPrompt
  split
  · split
    · exact .inl rfl
    · exact .inr ⟨_, rfl⟩
  · exact .inr ⟨_, rfl⟩

theorem checkedAttempt_some {tool : Bool} {p : AgentPhase} {attempt : ℕ}
    (h : checkedAttempt tool p = some attempt) : p = .prompting attempt ∨ p = .called attempt := by
  unfold checkedAttempt at h
  split at h
  · split at h <;> cases h
    exact .inl rfl
  · cases h
    exact .inr rfl
  · cases h

theorem running_of_checked {tool : Bool} {attempt : ℕ} (h : checkedAttempt tool a.phase = some attempt) :
    a.Running := by
  rcases checkedAttempt_some h with hp | hp <;> simp [Running, hp]

/-- The steps of a run. -/
inductive Move (a : Agent) : Step → Agent → Prop
  | start {kind : AgentKind} {task : String} {interface channel : Option String} {maxTurns : ℕ}
      (phase : a.phase = .absent) : Move a (.start kind task interface channel maxTurns) { init with
        kind := kind, task := task, interface := interface, channel := channel, maxTurns := maxTurns
        phase := .started, events := [.started task] }
  | register (phase : a.phase = .started) : Move a .register { a with phase := .registered }
  | prepare (phase : a.phase = .registered) : Move a (.prepare none) { a with
      phase := .prompting 0, remainingTurns := a.maxTurns, currentPrompt := a.task }
  | unprepared {e : String} (phase : a.phase = .registered) :
      Move a (.prepare (some e)) { a with phase := .returned, result := some (.error e) }
  | passed {tool : Bool} {lastText : String} {attempt : ℕ}
      (phase : checkedAttempt tool a.phase = some attempt) (slot : a.slot = .none) :
      Move a (.check tool lastText) { a with
        turnsUsed := if tool then a.turnsUsed else a.turnsUsed + 1
        checked := a.checked || a.accepted.contains .wrapUp
        phase := .calling attempt }
  | wrappedUp {tool : Bool} {lastText : String} {attempt : ℕ}
      (phase : checkedAttempt tool a.phase = some attempt) (slot : a.slot = .wrapUp) :
      Move a (.check tool lastText) { a with
        turnsUsed := if tool then a.turnsUsed else a.turnsUsed + 1
        checked := a.checked || a.accepted.contains .wrapUp
        phase := .cancelled "wrap-up" lastText, seen := true }
  | steered {tool : Bool} {lastText msg : String} {attempt : ℕ}
      (phase : checkedAttempt tool a.phase = some attempt) (slot : a.slot = .steer msg) :
      Move a (.check tool lastText) { a with
        turnsUsed := if tool then a.turnsUsed else a.turnsUsed + 1
        checked := a.checked || a.accepted.contains .wrapUp
        phase := .cancelled ("steer:" ++ msg) lastText, seen := true }
  | call {attempt : ℕ} (phase : a.phase = .calling attempt) : Move a .call { a with
      phase := .called attempt, lateCalls := if a.checked then a.lateCalls + 1 else a.lateCalls }
  | promptEnds {attempt : ℕ} {e : PromptEnd} (phase : checkedAttempt false a.phase = some attempt) :
      Move a (.promptEnds e) { a with phase := afterPrompt attempt e }
  | steer {msg : String} (phase : steerMessage a.phase = some msg) : Move a .steer
      { a with phase := .steering msg, events := a.events ++ [.steered msg] }
  | reset {msg : String} (phase : a.phase = .steering msg) : Move a .reset { a with
      slot := .none, seen := false, phase := .prompting 0
      remainingTurns := if a.maxTurns - a.turnsUsed = 0 then 1 else a.maxTurns - a.turnsUsed
      currentPrompt := msg, delivered := a.delivered ++ [msg] }
  | conclude {e : AgentEvent} {result : Except String String} (phase : a.Concludes e) :
      Move a .conclude (a.leave e result)
  | deregister (phase : a.phase = .returned) : Move a .deregister { a with phase := .gone }

/-- What the hook does with each signal. -/
theorem check_move {tool : Bool} {attempt : ℕ} (hp : checkedAttempt tool a.phase = some attempt)
    (lastText : String) : Move a (.check tool lastText) (a.check attempt tool lastText) := by
  cases hs : a.slot with
  | none =>
    have hc : checkSignal a.slot = .continue := by rw [hs]; rfl
    simp only [Agent.check, hc]
    exact .passed hp hs
  | wrapUp =>
    have hc : checkSignal a.slot = .terminate "wrap-up" := by rw [hs]; rfl
    simp only [Agent.check, hc]
    exact .wrappedUp hp hs
  | steer msg =>
    have hc : checkSignal a.slot = .terminate ("steer:" ++ msg) := by rw [hs]; rfl
    simp only [Agent.check, hc]
    exact .steered hp hs

theorem conclude_move (h : a.conclude = some a') : Move a .conclude a' := by
  unfold Agent.conclude at h
  split at h
  · rename_i hp; cases h; exact .conclude (.inl ⟨⟨_, hp⟩, rfl⟩)
  · rename_i hp; cases h; exact .conclude (.inl ⟨⟨_, hp⟩, rfl⟩)
  · rename_i hp; cases h; exact .conclude (.inl ⟨⟨_, hp⟩, rfl⟩)
  · -- a cancelled prompt: wrapped up, steered, or for a reason `run_inner` does not know
    rename_i reason lastText hp
    split at h
    · rename_i hr
      cases h
      refine .conclude (.inr ⟨reason, lastText, hp, ?_, ?_⟩)
      · rw [hp, steerMessage, if_pos hr]
      · rw [if_pos hr]
        exact ⟨_, rfl⟩
    · rename_i hr
      split at h
      · cases h
      · rename_i hs
        cases h
        refine .conclude (.inr ⟨reason, lastText, hp, ?_, ?_⟩)
        · rw [hp, steerMessage, if_neg hr]
          simpa using hs
        · rw [if_neg hr]
          rfl
  · cases h

/-- **The steps of a run**, each with the phase it is taken in. -/
theorem step_move (h : a.step b = some a') : Move a b a' := by
  cases b with
  | start kind task interface channel maxTurns =>
    simp only [step] at h
    split at h <;> cases h
    rename_i hp
    exact .start hp
  | register =>
    simp only [step] at h
    split at h <;> cases h
    rename_i hp
    exact .register hp
  | prepare error =>
    simp only [step] at h
    split at h
    · rename_i hp
      split at h <;> cases h
      · exact .prepare hp
      · exact .unprepared hp
    · cases h
  | check tool lastText =>
    obtain ⟨attempt, hp, rfl⟩ := Option.map_eq_some_iff.1 h
    exact check_move hp lastText
  | call =>
    simp only [step] at h
    split at h <;> cases h
    rename_i hp
    exact .call hp
  | promptEnds e =>
    simp only [step] at h
    split at h <;> cases h
    all_goals
      rename_i hp
      exact .promptEnds (by rw [hp]; rfl)
  | steer =>
    obtain ⟨msg, hp, rfl⟩ := Option.map_eq_some_iff.1 h
    exact .steer hp
  | reset =>
    simp only [step] at h
    split at h <;> cases h
    rename_i msg hp
    -- the receiver is alive, so the signal is reset
    have hsend : a.send .none = some { a with slot := .none, seen := false } := by
      unfold send receives inRegistry
      rw [hp]; rfl
    rw [hsend]
    exact .reset hp
  | conclude => exact conclude_move h
  | deregister =>
    simp only [step] at h
    split at h <;> cases h
    rename_i hp
    exact .deregister hp

/-- A signal is accepted before `run_inner` has returned. -/
theorem receive_some (h : a.receive sig = some a') :
    a.receives = true ∧ a' = { a with slot := sig, seen := false, accepted := a.accepted ++ [sig] } := by
  unfold receive send at h
  split at h
  · rename_i hr
    cases h; exact ⟨hr, rfl⟩
  · cases h

/-- What happens to an agent: a step of its run, or a signal from outside. -/
inductive Act
  | run (step : Step)
  | accept (sig : AgentSignal)

/-- What it does to the agent. -/
inductive Change (a : Agent) : Act → Agent → Prop
  | run {b : Step} {a' : Agent} (move : Move a b a') : Change a (.run b) a'
  | accept {sig : AgentSignal} (sent : sig ≠ .none) (receives : a.receives = true) :
      Change a (.accept sig) { a with slot := sig, seen := false, accepted := a.accepted ++ [sig] }

end Agent

namespace ActiveAgents

variable {s s' : ActiveAgents} {action : Action}

/-- The agent that an action is about. -/
def Action.id : Action → String
  | .run id _ | .signal id _ | .signalChannel _ _ _ id => id

/-- What the action does there. -/
def Action.act : Action → Agent.Act
  | .run _ step => .run step
  | .signal _ sig | .signalChannel _ _ sig _ => .accept sig

/-- **A step changes one agent.** -/
theorem step_local (h : s.step action = some s') :
    ∃ a', (s action.id).Change action.act a' ∧ s' = Function.update s action.id a' := by
  cases action with
  | run id b =>
    obtain ⟨a', ha, rfl⟩ := Option.map_eq_some_iff.1 h
    exact ⟨a', .run (Agent.step_move ha), rfl⟩
  | signal id sig =>
    simp only [step] at h
    split at h
    · cases h
    · rename_i hsig
      unfold ActiveAgents.signal at h
      split at h
      · split at h
        · rename_i a' ha
          cases h
          obtain ⟨hr, rfl⟩ := Agent.receive_some ha
          exact ⟨_, .accept hsig hr, rfl⟩
        · cases h
      · cases h
  | signalChannel interface channel sig first =>
    simp only [step] at h
    split at h
    · cases h
    · rename_i hsig
      unfold ActiveAgents.signalChannel at h
      split at h
      · split at h
        · rename_i a' ha
          cases h
          obtain ⟨hr, rfl⟩ := Agent.receive_some ha
          exact ⟨_, .accept hsig hr, rfl⟩
        · cases h
      · cases h

/-- A property of every agent, after a change of one. -/
theorem forall_update_iff {p : Agent → Prop} {id : String} {a' : Agent} (h : ∀ i, p (s i)) :
    (∀ i, p (Function.update s id a' i)) ↔ p a' := by
  constructor
  · intro hall
    have := hall id
    rwa [Function.update_self] at this
  · intro ha i
    by_cases hi : i = id
    · subst hi
      rwa [Function.update_self]
    · rw [Function.update_of_ne hi]
      exact h i

/-- **From one agent to all.** If a change of an agent leads to `P` exactly when it meets
its guard `ok`, then all agents have `P` throughout a run exactly when each of its steps
meets its guard. -/
theorem forall_agents_iff {J P : Agent → Prop} {ok : Agent → Agent.Act → Prop}
    (hJ : ∀ a b a', J a → a.Change b a' → J a')
    (hok : ∀ a b a', J a → P a → a.Change b a' → (P a' ↔ ok a b))
    (hJ₀ : J .init) (hP₀ : P .init) (as : List Action) :
    (∀ s, Sys.Visits ActiveAgents.step init as s → ∀ id, P (s id)) ↔
      ∀ s action, Sys.Takes ActiveAgents.step init as s action → ok (s action.id) action.act := by
  refine Sys.visits_iff_takes (J := fun s : ActiveAgents => ∀ id, J (s id)) (P := fun s : ActiveAgents => ∀ id, P (s id))
    ?_ ?_ as (fun _ => hJ₀) (fun _ => hP₀)
  · intro s action s' hJs _ _ h
    obtain ⟨a', hc, rfl⟩ := step_local h
    exact (forall_update_iff hJs).2 (hJ _ _ _ (hJs _) hc)
  · intro s action s' hJs hPs h
    obtain ⟨a', hc, rfl⟩ := step_local h
    rw [forall_update_iff hPs]
    exact hok _ _ _ (hJs _) (hPs _) hc

end ActiveAgents

end Auxlry
