import Auxlry.Proof.Agents

/-!
# Steering messages

A steering message that is accepted should become the prompt, once. The watch cell holds
one value, so a message is lost when another signal takes its place before the hook has
read it, when `run_inner` resets the signal, or when `run_inner` returns.

* `steered_iff`: **messages are kept exactly in the runs without these three steps.**
* `steer_overwritten`: two messages accepted before one check, of which the first is lost.
-/

namespace Auxlry

/-- The steering messages among signals. -/
def steers (sigs : List AgentSignal) : List String :=
  sigs.filterMap fun
    | .steer msg => some msg
    | _ => none

/-- The hook has cancelled the prompt, and has not been asked again. -/
def AgentPhase.pastCheck : AgentPhase → Bool
  | .cancelled .. | .steering _ | .returned | .gone => true
  | _ => false

theorem pastCheck_of_checked {tool : Bool} {p : AgentPhase} {attempt : ℕ}
    (h : Agent.checkedAttempt tool p = some attempt) : p.pastCheck = false := by
  rcases Agent.checkedAttempt_some h with rfl | rfl <;> rfl

namespace Agent

variable {a a' : Agent}

/-- A steering message in the watch cell that the hook has not read. -/
def unread (a : Agent) : Option String :=
  match a.slot with
  | .steer msg => if a.seen then none else some msg
  | _ => none

/-- The steering message that the hook has read, until it is the prompt. -/
def taken (a : Agent) : Option String :=
  match a.phase with
  | .steering msg => some msg
  | phase => steerMessage phase

/-- The steering messages that can still become the prompt: none after the return. -/
def carried (a : Agent) : List String :=
  match a.phase with
  | .returned | .gone => []
  | _ => a.taken.toList ++ a.unread.toList

/-- Every steering message that was accepted has become the prompt, once and in order, or
still can. -/
def SteersKept (a : Agent) : Prop := steers a.accepted = a.delivered ++ a.carried

/-- The hook has read the cell only if it has cancelled the prompt. -/
def SeenPast (a : Agent) : Prop := a.seen = true → a.phase.pastCheck = true

/-- What must not meet an unread steering message: another signal, the reset, and the
return of `run_inner`. -/
def KeepsSteers (a : Agent) : Act → Prop
  | .run .reset | .run .conclude | .run (.prepare (some _)) | .accept _ => a.unread = none
  | _ => True

instance (a : Agent) (act : Act) : Decidable (a.KeepsSteers act) := by
  unfold KeepsSteers; split <;> infer_instance

theorem SeenPast.change {act : Act} (hJ : a.SeenPast) (h : a.Change act a') : a'.SeenPast := by
  cases h with
  | accept => intro h; cases h
  | run move =>
    cases move with
    | start | reset => intro h; cases h
    | register phase | prepare phase | call phase =>
      intro h
      have hpast := hJ h
      rw [phase] at hpast; cases hpast
    | passed phase | promptEnds phase =>
      intro h
      have hpast := hJ h
      rw [pastCheck_of_checked phase] at hpast; cases hpast
    | unprepared | conclude | deregister | steer | wrappedUp | steered => intro _; rfl

/-! ## What is carried -/

theorem carried_eq (h : a.Running) : a.carried = a.taken.toList ++ a.unread.toList := by
  unfold carried
  split
  · rename_i hp; exact absurd hp h.1
  · rename_i hp; exact absurd hp h.2
  · rfl

theorem taken_of_concludes {e : AgentEvent} (h : a.Concludes e) : a.taken = none := by
  rcases h with ⟨⟨pe, hp⟩, -⟩ | ⟨reason, lastText, hp, hm, -⟩
  · simp [taken, steerMessage, hp]
  · rw [hp] at hm
    simp [taken, hp, hm]

theorem taken_of_steerMessage {msg : String} (h : steerMessage a.phase = some msg) :
    a.taken = some msg := by
  unfold taken
  split
  · rename_i hp
    rw [hp] at h; cases h
  · exact h

/-- Before a check nothing is taken, and what is in the cell is unread. -/
theorem carried_of_checked {tool : Bool} {attempt : ℕ} (hJ : a.SeenPast)
    (h : checkedAttempt tool a.phase = some attempt) :
    a.carried = (steers [a.slot]) := by
  have hseen : a.seen = false := by
    by_contra hs
    have hpast := hJ (by simpa using hs)
    rw [pastCheck_of_checked h] at hpast; cases hpast
  have hcarried : a.carried = a.unread.toList := by
    rcases checkedAttempt_some h with hp | hp <;> simp [carried, taken, steerMessage, hp]
  rw [hcarried, unread, hseen]
  cases a.slot <;> rfl

theorem carried_afterPrompt {attempt : ℕ} {e : PromptEnd} (h : a.phase = afterPrompt attempt e) :
    a.carried = a.unread.toList := by
  rcases afterPrompt_cases attempt e with hp | ⟨e', hp⟩ <;>
    simp [carried, taken, steerMessage, h, hp]

/-- An agent whose messages are kept, and that carries the same as before. -/
theorem SteersKept.congr (hP : a.SteersKept) (hacc : a'.accepted = a.accepted)
    (hdel : a'.delivered = a.delivered) (hc : a'.carried = a.carried) : a'.SteersKept := by
  unfold SteersKept
  rw [hacc, hdel, hc]
  exact hP

/-- A return of `run_inner` drops an unread message. -/
theorem steersKept_return (hP : a.SteersKept) (hrun : a.Running) (htaken : a.taken = none)
    (hacc : a'.accepted = a.accepted) (hdel : a'.delivered = a.delivered)
    (hret : a'.phase = .returned) : a'.SteersKept ↔ a.unread = none := by
  have hc' : a'.carried = [] := by simp [carried, hret]
  unfold SteersKept at hP ⊢
  rw [hacc, hdel, hP, hc', carried_eq hrun, htaken]
  simp

/-- An accepted signal takes the place of what is in the cell. -/
theorem steersKept_accept (hP : a.SteersKept) (hr : a.receives = true) (sig : AgentSignal) :
    SteersKept { a with slot := sig, seen := false, accepted := a.accepted ++ [sig] } ↔
      a.unread = none := by
  have hrun := running_of_receives hr
  -- what was in the cell is carried no more, and what is accepted is
  set a' : Agent := { a with slot := sig, seen := false, accepted := a.accepted ++ [sig] } with ha'
  have hdel : a'.delivered = a.delivered := rfl
  have hc' : a'.carried = a.taken.toList ++ a'.unread.toList := carried_eq hrun
  have hnew : steers a'.accepted = steers a.accepted ++ a'.unread.toList := by
    rw [ha', steers, List.filterMap_append]
    cases sig <;> rfl
  unfold SteersKept at hP ⊢
  rw [hnew, hdel, hc', hP, carried_eq hrun]
  simp

/-- The reset drops what came after the message that it makes the prompt. -/
theorem steersKept_reset {msg : String} {turns : ℕ} (hP : a.SteersKept) (hp : a.phase = .steering msg) :
    SteersKept { a with
      slot := .none, seen := false, phase := .prompting 0, remainingTurns := turns
      currentPrompt := msg, delivered := a.delivered ++ [msg] } ↔ a.unread = none := by
  have hrun : a.Running := by simp [Running, hp]
  have htaken : a.taken = some msg := by simp [taken, hp]
  unfold SteersKept at hP ⊢
  rw [hP, carried_eq hrun, htaken]
  simp [carried, taken, steerMessage, unread]

/-- **One change of an agent** keeps the messages exactly when it meets its guard. -/
theorem steersKept_change {act : Act} (hJ : a.SeenPast) (hP : a.SteersKept) (h : a.Change act a') :
    a'.SteersKept ↔ a.KeepsSteers act := by
  cases h with
  | accept _ receives => exact steersKept_accept hP receives _
  | run move =>
    cases move with
    | start phase => exact iff_of_true rfl trivial
    | register phase | prepare phase | call phase =>
      refine iff_of_true (hP.congr rfl rfl ?_) trivial
      simp [carried, taken, steerMessage, phase, unread]
    | unprepared phase =>
      have htaken : a.taken = none := by simp [taken, steerMessage, phase]
      exact steersKept_return hP (by simp [Running, phase]) htaken rfl rfl rfl
    -- a check takes what is unread
    | passed phase slot =>
      refine iff_of_true (hP.congr rfl rfl ?_) trivial
      rw [carried_of_checked hJ phase, slot]
      simp [carried, taken, steerMessage, unread, steers]
    | wrappedUp phase slot =>
      refine iff_of_true (hP.congr rfl rfl ?_) trivial
      rw [carried_of_checked hJ phase, slot]
      simp [carried, taken, steerMessage, unread, steers]
    | steered phase slot =>
      refine iff_of_true (hP.congr rfl rfl ?_) trivial
      rw [carried_of_checked hJ phase, slot]
      simp [carried, taken, steerMessage_steer, unread, steers]
    | promptEnds phase =>
      refine iff_of_true (hP.congr rfl rfl ?_) trivial
      rw [carried_afterPrompt rfl]
      rcases checkedAttempt_some phase with hp | hp <;> simp [carried, taken, steerMessage, hp, unread]
    | steer phase =>
      refine iff_of_true (hP.congr rfl rfl ?_) trivial
      have hrun := running_of_steerMessage phase
      rw [carried_eq hrun, taken_of_steerMessage phase]
      rfl
    | reset phase => exact steersKept_reset hP phase
    | conclude phase =>
      exact steersKept_return hP phase.running (taken_of_concludes phase) rfl rfl rfl
    | deregister phase =>
      refine iff_of_true (hP.congr rfl rfl ?_) trivial
      simp [carried, phase]

end Agent

namespace ActiveAgents

/-- **Messages are kept** in a run exactly when no signal is accepted, no prompt reset and
no run left while the cell of the agent holds a message that its hook has not read. -/
theorem steered_iff (as : List Action) :
    (∀ s, Sys.Visits ActiveAgents.step init as s → ∀ id, (s id).SteersKept) ↔
      ∀ s action, Sys.Takes ActiveAgents.step init as s action →
        (s action.id).KeepsSteers action.act :=
  forall_agents_iff (fun _ _ _ => Agent.SeenPast.change) (fun _ _ _ => Agent.steersKept_change)
    nofun rfl as

/-- Two steering messages before one check, and a run to its end. -/
def twoSteers : List Action :=
  [.run "x" (.start .synapse "task" none none 10), .run "x" .register, .run "x" (.prepare none),
    .signal "x" (.steer "a"), .signal "x" (.steer "b"), .run "x" (.check false ""), .run "x" .steer,
    .run "x" .reset, .run "x" (.check false ""), .run "x" .call,
    .run "x" (.promptEnds (.response "done")), .run "x" .conclude, .run "x" .deregister]

/-- The first of them never becomes the prompt. -/
theorem steer_overwritten : ∃ s, Sys.run ActiveAgents.step init twoSteers = some s ∧
    (s "x").phase = .gone ∧ (s "x").accepted = [.steer "a", .steer "b"] ∧
    (s "x").delivered = ["b"] ∧ ¬ (s "x").SteersKept := by
  have h : Sys.run ActiveAgents.step init twoSteers = some _ := rfl
  refine ⟨_, h, rfl, rfl, rfl, ?_⟩
  intro hkept
  have hlost : ["a", "b"] = ["b"] := hkept
  simp at hlost

end ActiveAgents

end Auxlry
