import Auxlry.Proof.Agents

/-!
# Wrapping up

An accepted wrap-up should stop the agent: the next hook check cancels the prompt and the
run ends as interrupted, unless it came to its own end before that check. The wrap-up
stands in the cell that steering messages and the reset of `run_inner` write to as well.

* `wrapUp_iff`: **wrap-ups are kept exactly in the runs where neither replaces one.**
* `wrapUp_reset`: a wrap-up that the reset after a steer erases; the agent goes on.
-/

namespace Auxlry

namespace Agent

variable {a a' : Agent} {act : Act}

/-- The agent ends, or has ended, through the wrap-up branch. -/
def WrapsUp (a : Agent) : Prop :=
  (∃ lastText, a.phase = .cancelled "wrap-up" lastText) ∨
    ¬ a.Running ∧ ∃ result, .interrupted result ∈ a.events

/-- The prompt has ended by itself, or the run has. -/
def EndsAlone (a : Agent) : Prop :=
  (∃ e, a.phase = .ended e) ∨ ¬ a.Running ∧ ∃ e ∈ a.events, e.ownEnd = true

/-- A wrap-up that was accepted is honoured: no call follows the first hook check after
it, and from that check on the agent wraps up. Until then it stands in the cell, unless the
run has come to its own end. -/
def WrapUpKept (a : Agent) : Prop := .wrapUp ∈ a.accepted →
  a.lateCalls = 0 ∧ (a.checked = true → a.WrapsUp) ∧
    (a.checked = false → (a.slot = .wrapUp ∧ a.Running) ∨ a.EndsAlone)

/-- What must not meet a wrap-up in the cell: a steering message, unless the prompt has
ended or is cancelled by it, the reset, and a prompt that cannot be set up. -/
def KeepsWrapUp (a : Agent) : Act → Prop
  | .accept (.steer _) => a.slot = .wrapUp →
      (∃ e, a.phase = .ended e) ∨ ∃ lastText, a.phase = .cancelled "wrap-up" lastText
  | .run .reset | .run (.prepare (some _)) => a.slot ≠ .wrapUp
  | _ => True

structure WrapUpInv (a : Agent) : Prop where
  slot : a.slot = .wrapUp → .wrapUp ∈ a.accepted
  checked : a.checked = true → .wrapUp ∈ a.accepted
  late : a.lateCalls ≠ 0 → a.checked = true
  cancelled : ∀ lastText, a.phase = .cancelled "wrap-up" lastText → a.checked = true
  running : a.Running → ∀ e ∈ a.events, e.isEnd = false

theorem WrapUpInv.init : WrapUpInv .init where
  slot := nofun
  checked := nofun
  late := nofun
  cancelled := nofun
  running := nofun

/-- The invariant, where only the phase changes, and to no `wrap-up`. -/
theorem WrapUpInv.moved (hJ : a.WrapUpInv) (hslot : a'.slot = .wrapUp → a.slot = .wrapUp)
    (hacc : a'.accepted = a.accepted) (hchecked : a'.checked = a.checked)
    (hlate : a'.lateCalls ≠ 0 → a.checked = true)
    (hcancelled : ∀ lastText, a'.phase ≠ .cancelled "wrap-up" lastText)
    (hrunning : a'.Running → ∀ e ∈ a'.events, e.isEnd = false) : a'.WrapUpInv where
  slot := fun h => hacc ▸ hJ.slot (hslot h)
  checked := fun h => hacc ▸ hJ.checked (hchecked ▸ h)
  late := fun h => hchecked ▸ hlate h
  cancelled := fun lastText h => absurd h (hcancelled lastText)
  running := hrunning

theorem WrapUpInv.checked_iff (hJ : a.WrapUpInv) :
    (a.checked || a.accepted.contains .wrapUp) = true ↔ .wrapUp ∈ a.accepted := by
  rw [Bool.or_eq_true, List.contains_iff_mem]
  constructor
  · intro h
    rcases h with h | h
    · exact hJ.checked h
    · exact h
  · exact .inr

/-- The invariant after a hook check, which leads to the phase `p`. -/
theorem WrapUpInv.check (hJ : a.WrapUpInv) (hrun : a.Running) {turns : ℕ} {seen : Bool} {p : AgentPhase}
    (hp : ∀ lastText, p = .cancelled "wrap-up" lastText → .wrapUp ∈ a.accepted) :
    WrapUpInv { a with
      turnsUsed := turns, checked := a.checked || a.accepted.contains .wrapUp, phase := p, seen := seen } where
  slot := hJ.slot
  checked := hJ.checked_iff.1
  late := fun h => Bool.or_eq_true_iff.2 (.inl (hJ.late h))
  cancelled := fun lastText h => hJ.checked_iff.2 (hp lastText h)
  running := fun _ => hJ.running hrun

theorem WrapUpInv.change (hJ : a.WrapUpInv) (h : a.Change act a') : a'.WrapUpInv := by
  cases h with
  | accept sent receives =>
    refine { hJ with slot := fun h => ?_, checked := fun h => ?_ }
    · exact List.mem_append_right _ (by simpa using h.symm)
    · exact List.mem_append_left _ (hJ.checked h)
  | run move =>
    cases move with
    | start phase =>
      have hevents : ∀ task, ∀ e ∈ [AgentEvent.started task], e.isEnd = false := by
        intro task e he
        rw [List.mem_singleton.1 he]; rfl
      exact { WrapUpInv.init with cancelled := by simp, running := fun _ => hevents _ }
    | register phase | prepare phase =>
      have hrun : a.Running := by simp [Running, phase]
      exact hJ.moved id rfl rfl hJ.late (by simp) fun _ => hJ.running hrun
    | @promptEnds attempt e phase =>
      have hrun := running_of_checked phase
      refine hJ.moved id rfl rfl hJ.late ?_ fun _ => hJ.running hrun
      rcases afterPrompt_cases attempt e with hp | ⟨_, hp⟩ <;> simp [hp]
    | call phase =>
      have hrun : a.Running := by simp [Running, phase]
      refine hJ.moved id rfl rfl (fun h => ?_) (by simp) fun _ => hJ.running hrun
      -- a call counts as late only if the cell has been checked
      by_contra hc
      have hlate : a.lateCalls = 0 := by
        by_contra hl
        exact hc (hJ.late hl)
      simp [hc, hlate] at h
    | unprepared phase | conclude phase =>
      exact hJ.moved id rfl rfl hJ.late (by simp [leave]) fun h => absurd rfl h.1
    | deregister phase => exact hJ.moved id rfl rfl hJ.late (by simp) fun h => absurd rfl h.2
    | reset phase =>
      have hrun : a.Running := by simp [Running, phase]
      exact hJ.moved (by simp) rfl rfl hJ.late (by simp) fun _ => hJ.running hrun
    | steer phase =>
      refine hJ.moved id rfl rfl hJ.late (by simp) fun _ e he => ?_
      rcases List.mem_append.1 he with he | he
      · exact hJ.running (running_of_steerMessage phase) e he
      · rw [List.mem_singleton.1 he]; rfl
    | passed phase slot => exact hJ.check (running_of_checked phase) (by simp)
    | wrappedUp phase slot => exact hJ.check (running_of_checked phase) fun _ _ => hJ.slot slot
    | steered phase slot =>
      refine hJ.check (running_of_checked phase) fun _ h => ?_
      exact absurd (AgentPhase.cancelled.inj h).1 (steerReason_ne _)

/-! ## One change -/

/-- Between the end of one prompt and the hook check of the next, an accepted wrap-up
stands in the cell. -/
theorem WrapUpKept.waiting (hP : a.WrapUpKept) (hacc : .wrapUp ∈ a.accepted) (hrun : a.Running)
    (hended : ∀ e, a.phase ≠ .ended e) (hcancelled : ∀ lastText, a.phase ≠ .cancelled "wrap-up" lastText) :
    a.lateCalls = 0 ∧ a.checked = false ∧ a.slot = .wrapUp := by
  obtain ⟨hlate, hwraps, hwaits⟩ := hP hacc
  have hchecked : a.checked = false := by
    by_contra hc
    rcases hwraps (by simpa using hc) with ⟨t, ht⟩ | ⟨hn, -⟩
    · exact hcancelled t ht
    · exact hn hrun
  refine ⟨hlate, hchecked, ?_⟩
  rcases hwaits hchecked with ⟨hs, -⟩ | ⟨e, he⟩ | ⟨hn, -⟩
  · exact hs
  · exact absurd he (hended e)
  · exact absurd hrun hn

theorem WrapUpKept.waiting_check {tool : Bool} {attempt : ℕ} (hP : a.WrapUpKept)
    (hacc : .wrapUp ∈ a.accepted) (h : checkedAttempt tool a.phase = some attempt) :
    a.lateCalls = 0 ∧ a.checked = false ∧ a.slot = .wrapUp := by
  rcases checkedAttempt_some h with hp | hp <;>
    exact hP.waiting hacc (running_of_checked h) (by simp [hp]) (by simp [hp])

theorem wrapUpKept_of_waiting (hlate : a.lateCalls = 0) (hchecked : a.checked = false)
    (hslot : a.slot = .wrapUp) (hrun : a.Running) : a.WrapUpKept := by
  intro _
  refine ⟨hlate, fun hc => ?_, fun _ => .inl ⟨hslot, hrun⟩⟩
  rw [hchecked] at hc; cases hc

/-- `run_inner` returns through the wrap-up branch once the hook has seen the wrap-up. -/
theorem WrapUpKept.conclude {e : AgentEvent} {result : Except String String} (hJ : a.WrapUpInv)
    (hP : a.WrapUpKept) (hc : a.Concludes e) : (a.leave e result).WrapUpKept := by
  intro hacc
  obtain ⟨hlate, hwraps, -⟩ := hP hacc
  have hmem : e ∈ (a.leave e result).events := List.mem_append_right _ (List.mem_singleton_self e)
  refine ⟨hlate, fun h => ?_, fun h => ?_⟩
  · -- the hook has seen the wrap-up, and the prompt is cancelled by it
    obtain ⟨t, ht⟩ : ∃ t, a.phase = .cancelled "wrap-up" t := by
      rcases hwraps h with ht | ⟨hn, -⟩
      · exact ht
      · exact absurd hc.running hn
    rcases hc with ⟨⟨pe, hp⟩, -⟩ | ⟨reason, lastText, hp, -, he⟩
    · rw [ht] at hp; cases hp
    · rw [ht] at hp; cases hp
      obtain ⟨r, rfl⟩ := he
      exact .inr ⟨fun h => h.1 rfl, r, hmem⟩
  · -- it has not, so the run ends by itself
    have hchecked : a.checked ≠ true := by
      have h' : a.checked = false := h
      simp [h']
    refine .inr (.inr ⟨fun h => h.1 rfl, e, hmem, ?_⟩)
    rcases hc with ⟨-, he⟩ | ⟨reason, lastText, hp, -, he⟩
    · exact he
    · by_cases hr : reason = "wrap-up"
      · subst hr
        exact absurd (hJ.cancelled _ hp) hchecked
      · rwa [if_neg hr] at he

/-- A second wrap-up changes nothing. -/
theorem WrapUpKept.accept_wrapUp (hJ : a.WrapUpInv) (hP : a.WrapUpKept) (hr : a.receives = true) :
    WrapUpKept { a with slot := .wrapUp, seen := false, accepted := a.accepted ++ [.wrapUp] } := by
  intro _
  have hlate : a.lateCalls = 0 := by
    by_contra hl
    exact hl (hP (hJ.checked (hJ.late hl))).1
  exact ⟨hlate, fun hc => (hP (hJ.checked hc)).2.1 hc, fun _ => .inl ⟨rfl, running_of_receives hr⟩⟩

/-- A steering message spares a wrap-up that the agent is past waiting for. -/
theorem WrapUpKept.accept_steer {msg : String} (hJ : a.WrapUpInv) (hP : a.WrapUpKept)
    (hg : a.KeepsWrapUp (.accept (.steer msg))) :
    WrapUpKept { a with slot := .steer msg, seen := false, accepted := a.accepted ++ [.steer msg] } := by
  intro hacc
  have hold : .wrapUp ∈ a.accepted := by
    rcases List.mem_append.1 hacc with h | h
    · exact h
    · simp at h
  obtain ⟨hlate, hwraps, hwaits⟩ := hP hold
  refine ⟨hlate, hwraps, fun hc => .inr ?_⟩
  rcases hwaits hc with ⟨hs, -⟩ | halone
  · rcases hg hs with he | ⟨t, ht⟩
    · exact .inl he
    · have hchecked := hJ.cancelled t ht
      rw [show a.checked = false from hc] at hchecked; cases hchecked
  · exact halone

/-- **A change that meets its guard** keeps the wrap-up. -/
theorem WrapUpKept.change (hJ : a.WrapUpInv) (hP : a.WrapUpKept) (h : a.Change act a')
    (hg : a.KeepsWrapUp act) : a'.WrapUpKept := by
  cases h with
  | @accept sig sent receives =>
    cases sig with
    | none => exact absurd rfl sent
    | wrapUp => exact hP.accept_wrapUp hJ receives
    | steer msg => exact hP.accept_steer hJ hg
  | run move =>
    intro hacc
    cases move with
    | start phase => cases hacc
    | register phase | prepare phase =>
      obtain ⟨hlate, hchecked, hslot⟩ :=
        hP.waiting hacc (by simp [Running, phase]) (by simp [phase]) (by simp [phase])
      exact wrapUpKept_of_waiting hlate hchecked hslot (by simp [Running]) hacc
    | unprepared phase | reset phase =>
      -- the guard keeps these from a wrap-up that waits
      obtain ⟨-, -, hslot⟩ :=
        hP.waiting hacc (by simp [Running, phase]) (by simp [phase]) (by simp [phase])
      exact absurd hslot hg
    | call phase =>
      obtain ⟨hlate, hchecked, hslot⟩ :=
        hP.waiting hacc (by simp [Running, phase]) (by simp [phase]) (by simp [phase])
      exact wrapUpKept_of_waiting (by simp [hlate, hchecked]) hchecked hslot (by simp [Running]) hacc
    | @promptEnds attempt e phase =>
      obtain ⟨hlate, hchecked, hslot⟩ := hP.waiting_check hacc phase
      refine wrapUpKept_of_waiting hlate hchecked hslot ?_ hacc
      rcases afterPrompt_cases attempt e with hp | ⟨_, hp⟩ <;> simp [Running, hp]
    | steer phase =>
      have hrun := running_of_steerMessage phase
      obtain ⟨hlate, hchecked, hslot⟩ := hP.waiting hacc hrun
        (fun e he => by rw [he] at phase; cases phase)
        (fun t ht => by rw [ht, steerMessage_wrapUp] at phase; cases phase)
      exact wrapUpKept_of_waiting hlate hchecked hslot (by simp [Running]) hacc
    | passed phase slot | steered phase slot =>
      -- the hook reads the wrap-up that waits, and nothing else
      obtain ⟨-, -, hslot⟩ := hP.waiting_check hacc phase
      rw [slot] at hslot; cases hslot
    | @wrappedUp tool lastText attempt phase slot =>
      obtain ⟨hlate, -, -⟩ := hP.waiting_check hacc phase
      have hchecked := hJ.checked_iff.2 hacc
      exact ⟨hlate, fun _ => .inl ⟨lastText, rfl⟩, fun h => absurd (hchecked.symm.trans h) (by simp)⟩
    | conclude phase => exact hP.conclude hJ phase hacc
    | deregister phase =>
      obtain ⟨hlate, hwraps, hwaits⟩ := hP hacc
      have hgone : ¬ Running { a with phase := .gone } := fun h => h.2 rfl
      refine ⟨hlate, fun hc => ?_, fun hc => ?_⟩
      · rcases hwraps hc with ⟨t, ht⟩ | ⟨-, hint⟩
        · rw [phase] at ht; cases ht
        · exact .inr ⟨hgone, hint⟩
      · rcases hwaits hc with ⟨-, hrun⟩ | ⟨e, he⟩ | ⟨-, hend⟩
        · exact absurd phase hrun.1
        · rw [phase] at he; cases he
        · exact .inr (.inr ⟨hgone, hend⟩)

/-- An accepted wrap-up is lost when it is neither in the cell nor being carried out, in a
run that has not come to an end. -/
theorem lost_wrapUp (hacc : .wrapUp ∈ a.accepted) (hslot : ¬ (a.slot = .wrapUp ∧ a.Running))
    (hend : ∀ e ∈ a.events, e.isEnd = false) (hended : ∀ e, a.phase ≠ .ended e)
    (hcancelled : ∀ lastText, a.phase ≠ .cancelled "wrap-up" lastText) : ¬ a.WrapUpKept := by
  intro hP
  obtain ⟨-, hwraps, hwaits⟩ := hP hacc
  cases hc : a.checked with
  | false =>
    rcases hwaits hc with hs | ⟨e, he⟩ | ⟨-, e, he, howned⟩
    · exact hslot hs
    · exact hended e he
    · have hno := hend e he
      rw [isEnd_of_ownEnd howned] at hno; cases hno
  | true =>
    rcases hwraps hc with ⟨t, ht⟩ | ⟨-, r, hr⟩
    · exact hcancelled t ht
    · exact absurd (hend _ hr) nofun

/-- What meets a wrap-up in the cell against the guard loses it. -/
theorem keepsWrapUp_of_kept (hJ : a.WrapUpInv) (h : a.Change act a') (hP' : a'.WrapUpKept) :
    a.KeepsWrapUp act := by
  cases h with
  | @accept sig sent receives =>
    cases sig with
    | none | wrapUp => trivial
    | steer msg =>
      intro hslot
      have hrun := running_of_receives receives
      obtain ⟨-, hwraps, hwaits⟩ := hP' (List.mem_append_left _ (hJ.slot hslot))
      cases hc : a.checked with
      | false =>
        rcases hwaits hc with ⟨hs, -⟩ | he | ⟨hn, -⟩
        · cases hs
        · exact .inl he
        · exact absurd hrun hn
      | true =>
        rcases hwraps hc with ht | ⟨hn, -⟩
        · exact .inr ht
        · exact absurd hrun hn
  | run move =>
    cases move with
    | start | register | prepare | passed | wrappedUp | steered | call | promptEnds | steer
    | conclude | deregister => trivial
    | unprepared phase =>
      intro hslot
      refine absurd hP' (lost_wrapUp (hJ.slot hslot) (fun h => h.2.1 rfl) ?_ (by simp) (by simp))
      exact hJ.running (by simp [Running, phase])
    | reset phase =>
      intro hslot
      refine absurd hP' (lost_wrapUp (hJ.slot hslot) (by simp) ?_ (by simp) (by simp))
      exact hJ.running (by simp [Running, phase])

theorem wrapUpKept_change (hJ : a.WrapUpInv) (hP : a.WrapUpKept) (h : a.Change act a') :
    a'.WrapUpKept ↔ a.KeepsWrapUp act :=
  ⟨keepsWrapUp_of_kept hJ h, hP.change hJ h⟩

end Agent

namespace ActiveAgents

/-- **Wrap-ups are kept** in a run exactly when none that is in the cell of an agent meets
a steering message, the reset, or a prompt that cannot be set up. -/
theorem wrapUp_iff (as : List Action) :
    (∀ s, Sys.Visits ActiveAgents.step init as s → ∀ id, (s id).WrapUpKept) ↔
      ∀ s action, Sys.Takes ActiveAgents.step init as s action →
        (s action.id).KeepsWrapUp action.act :=
  forall_agents_iff (fun _ _ _ => Agent.WrapUpInv.change) (fun _ _ _ => Agent.wrapUpKept_change)
    .init nofun as

/-- A wrap-up that comes while the agent is steered. -/
def wrapUpWhileSteered : List Action :=
  [.run "x" (.start .operator "task" none none 10), .run "x" .register, .run "x" (.prepare none),
    .signal "x" (.steer "a"), .run "x" (.check false ""), .signal "x" .wrapUp, .run "x" .steer,
    .run "x" .reset, .run "x" (.check false ""), .run "x" .call,
    .run "x" (.promptEnds (.response "done")), .run "x" .conclude]

/-- The reset erases it: another call is made, and the run completes. -/
theorem wrapUp_reset : ∃ s, Sys.run ActiveAgents.step init wrapUpWhileSteered = some s ∧
    .wrapUp ∈ (s "x").accepted ∧ (s "x").checked = true ∧ (s "x").lateCalls = 1 ∧
    (s "x").events = [.started "task", .steered "a", .completed "done"] ∧ ¬ (s "x").WrapUpKept := by
  have h : Sys.run ActiveAgents.step init wrapUpWhileSteered = some _ := rfl
  have hacc : AgentSignal.wrapUp ∈ [.steer "a", AgentSignal.wrapUp] := by decide
  exact ⟨_, h, hacc, rfl, rfl, rfl, fun hkept => nomatch (hkept hacc).1⟩

end ActiveAgents

end Auxlry
