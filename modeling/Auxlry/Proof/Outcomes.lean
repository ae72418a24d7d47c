import Auxlry.Proof.Agents
import Auxlry.Spec.ActiveAgents

/-!
# How runs end

A run announces its start, and should announce its end once: as completed, failed or
interrupted, after everything else. It should be in the registry from its registration
until it is removed, once.

* `step_agents`: the registry **refines** the phases of the runs: signals find exactly the
  runs that have registered and not deregistered.
* `accounted_iff`: runs **end as announced** exactly if none fails to set up its prompt.
* `unprepared_silent`: a run whose client cannot be created ends without a word.
-/

namespace Auxlry

namespace Agent

variable {a a' : Agent} {b : Step}

/-- A running agent has announced no end, and one that has returned exactly one, as its
last event. -/
structure Announced (a : Agent) : Prop where
  running : a.Running → ∀ e ∈ a.events, e.isEnd = false
  returned : ¬ a.Running → ∃ es e, a.events = es ++ [e] ∧ e.isEnd = true ∧ ∀ e' ∈ es, e'.isEnd = false

theorem Announced.ofRunning (hrun : a.Running) (h : ∀ e ∈ a.events, e.isEnd = false) : a.Announced where
  running := fun _ => h
  returned := fun hn => absurd hrun hn

/-- A change that keeps the events, and does not return. -/
theorem Announced.congr (hP : a.Announced) (hrun : a'.Running ↔ a.Running) (hevents : a'.events = a.events) :
    a'.Announced where
  running := fun h => hevents ▸ hP.running (hrun.1 h)
  returned := fun h => hevents ▸ hP.returned fun hr => h (hrun.2 hr)

theorem Concludes.isEnd {e : AgentEvent} (h : a.Concludes e) : e.isEnd = true := by
  rcases h with ⟨-, he⟩ | ⟨reason, lastText, -, -, he⟩
  · exact isEnd_of_ownEnd he
  · by_cases hr : reason = "wrap-up"
    · rw [if_pos hr] at he
      obtain ⟨result, rfl⟩ := he
      rfl
    · rw [if_neg hr] at he
      exact isEnd_of_ownEnd he

/-- A step keeps to the announcements unless it fails to set up the prompt. -/
theorem announced_move (hP : a.Announced) (h : Move a b a') :
    a'.Announced ↔ ∀ e, b ≠ .prepare (some e) := by
  cases h with
  | @start kind task =>
    refine iff_of_true (.ofRunning (by simp [Running]) fun e he => ?_) (by simp)
    rw [List.mem_singleton.1 he]; rfl
  | register phase | prepare phase | call phase =>
    exact iff_of_true (hP.congr (by simp [Running, phase]) rfl) (by simp)
  | passed phase | wrappedUp phase | steered phase =>
    have hrun := running_of_checked phase
    exact iff_of_true (hP.congr (iff_of_true (by simp [Running]) hrun) rfl) (by simp)
  | @promptEnds attempt e phase =>
    have hrun := running_of_checked phase
    refine iff_of_true (hP.congr (iff_of_true ?_ hrun) rfl) (by simp)
    rcases afterPrompt_cases attempt e with hp | ⟨_, hp⟩ <;> simp [Running, hp]
  | reset phase => exact iff_of_true (hP.congr (by simp [Running, phase]) rfl) (by simp)
  | steer phase =>
    refine iff_of_true (.ofRunning (by simp [Running]) fun e he => ?_) (by simp)
    rcases List.mem_append.1 he with he | he
    · exact hP.running (running_of_steerMessage phase) e he
    · rw [List.mem_singleton.1 he]; rfl
  | @unprepared e phase =>
    -- the run returns, and no event says so
    refine iff_of_false (fun hP' => ?_) (by simp)
    obtain ⟨es, e', hevents, he', -⟩ := hP'.returned fun hr => hr.1 rfl
    have hmem : e' ∈ a.events := by
      rw [show a.events = es ++ [e'] from hevents]
      exact List.mem_append_right _ (List.mem_singleton_self _)
    have hno := hP.running (by simp [Running, phase]) e' hmem
    rw [he'] at hno; cases hno
  | @conclude e result hc =>
    refine iff_of_true ⟨fun hr => absurd rfl hr.1, fun _ => ?_⟩ (by simp)
    exact ⟨a.events, e, rfl, hc.isEnd, hP.running hc.running⟩
  | deregister phase =>
    refine iff_of_true (hP.congr (iff_of_false (fun hr => hr.2 rfl) fun hr => hr.1 phase) rfl) (by simp)

/-- The agent is as much in the registry as before, with the same entry. -/
structure SameEntry (a a' : Agent) : Prop where
  inRegistry : a'.inRegistry = a.inRegistry
  entry : a.inRegistry = true → a'.entry = a.entry
  gone : a'.phase = .gone ↔ a.phase = .gone

/-- Only two steps change what the registry should hold. -/
theorem sameEntry_move (h : Move a b a') (hr : b ≠ .register) (hd : b ≠ .deregister) : SameEntry a a' := by
  cases h with
  | start phase => exact ⟨by simp [inRegistry, phase], by simp [inRegistry, phase], by simp [phase]⟩
  | register | deregister => contradiction
  | prepare phase | unprepared phase | call phase | reset phase =>
    exact ⟨by simp [inRegistry, phase], fun _ => rfl, by simp [phase]⟩
  | passed phase | wrappedUp phase | steered phase =>
    rcases checkedAttempt_some phase with hp | hp <;>
      exact ⟨by simp [inRegistry, hp], fun _ => rfl, by simp [hp]⟩
  | @promptEnds attempt e phase =>
    have hrun := running_of_checked phase
    rcases checkedAttempt_some phase with hp | hp <;> rcases afterPrompt_cases attempt e with he | ⟨_, he⟩ <;>
      exact ⟨by simp [inRegistry, hp, he], fun _ => rfl, by simp [hp, he]⟩
  | steer phase =>
    refine ⟨?_, fun _ => rfl, ?_⟩
    · unfold steerMessage at phase
      split at phase
      · rename_i hp; simp [inRegistry, hp]
      · cases phase
    · exact iff_of_false (by simp) (running_of_steerMessage phase).2
  | conclude hc =>
    have hin : a.inRegistry = true := by
      rcases hc with ⟨⟨pe, hp⟩, -⟩ | ⟨reason, lastText, hp, -⟩ <;> simp [inRegistry, hp]
    exact ⟨by rw [hin]; rfl, fun _ => rfl, iff_of_false (by simp [leave]) hc.running.2⟩

/-- What happens to an agent from outside: a signal, or the end of a prompt for a reason
that the hook did not give. -/
inductive Interference (a : Agent) : Agent → Prop
  | accept {sig : AgentSignal} :
      Interference a { a with slot := sig, seen := false, accepted := a.accepted ++ [sig] }
  | cancel {attempt : ℕ} {reason lastText : String} (phase : checkedAttempt false a.phase = some attempt) :
      Interference a { a with phase := .cancelled reason lastText }

theorem Interference.sameEntry (h : a.Interference a') : SameEntry a a' := by
  cases h with
  | accept => exact ⟨rfl, fun _ => rfl, .rfl⟩
  | cancel phase =>
    refine ⟨?_, fun _ => rfl, iff_of_false (by simp) (running_of_checked phase).2⟩
    rcases checkedAttempt_some phase with hp | hp <;> simp [inRegistry, hp]

theorem Interference.running (h : a.Interference a') : a'.Running ↔ a.Running := by
  cases h with
  | accept => exact .rfl
  | cancel phase => exact iff_of_true (by simp [Running]) (running_of_checked phase)

theorem Interference.events (h : a.Interference a') : a'.events = a.events := by cases h <;> rfl

end Agent

namespace AgentRegistry

variable {s s' : AgentRegistry} {action : Action}

/-- The registry holds the runs that have registered and not deregistered, and each run that
is gone was removed once. -/
structure Tracks (s : AgentRegistry) : Prop where
  inner : ∀ id, s.inner id = if (s.agents id).inRegistry then some (s.agents id).entry else none
  removals : ∀ id, s.removals id = if (s.agents id).phase = .gone then 1 else 0

theorem Tracks.update (hJ : s.Tracks) {id : String} {a' : Agent} {s₀ : AgentRegistry}
    (hinner : ∀ i, i ≠ id → s₀.inner i = s.inner i) (hremovals : ∀ i, i ≠ id → s₀.removals i = s.removals i)
    (hid : s₀.inner id = if a'.inRegistry then some a'.entry else none)
    (hgone : s₀.removals id = if a'.phase = .gone then 1 else 0) :
    Tracks { s₀ with agents := Function.update s.agents id a' } where
  inner := by
    intro i
    by_cases hi : i = id
    · subst hi
      simp only [Function.update_self]
      exact hid
    · simp only [Function.update_of_ne hi]
      rw [hinner i hi]
      exact hJ.inner i
  removals := by
    intro i
    by_cases hi : i = id
    · subst hi
      simp only [Function.update_self]
      exact hgone
    · simp only [Function.update_of_ne hi]
      rw [hremovals i hi]
      exact hJ.removals i

/-- A change of an agent that is as much in the registry as before. -/
theorem Tracks.same (hJ : s.Tracks) {id : String} {a' : Agent} (h : (s.agents id).SameEntry a') :
    Tracks { s with agents := Function.update s.agents id a' } := by
  refine hJ.update (fun _ _ => rfl) (fun _ _ => rfl) ?_ ?_
  · rw [hJ.inner id, h.inRegistry]
    split
    · rename_i hin
      rw [h.entry hin]
    · rfl
  · rw [hJ.removals id]
    simp only [h.gone]

theorem Tracks.run (hJ : s.Tracks) {id : String} {b : Agent.Step} {a' : Agent}
    (h : (s.agents id).Move b a') :
    Tracks { s.track id b with agents := Function.update s.agents id a' } := by
  by_cases hr : b = .register
  · subst hr
    cases h with
    | register phase =>
      refine hJ.update (fun i hi => Function.update_of_ne hi ..) (fun _ _ => rfl) (Function.update_self ..) ?_
      rw [show (s.track id .register).removals id = s.removals id from rfl, hJ.removals id, phase]
      rfl
  by_cases hd : b = .deregister
  · subst hd
    cases h with
    | deregister phase =>
      -- the entry is there, so it is removed now
      have hsome : (s.inner id).isSome = true := by
        rw [hJ.inner id]
        simp [Agent.inRegistry, phase]
      have hremovals : (s.track id .deregister).removals = Function.update s.removals id (s.removals id + 1) := by
        simp only [track, deregister, hsome, if_true]
      refine hJ.update (fun i hi => Function.update_of_ne hi ..) (fun i hi => ?_) (Function.update_self ..) ?_
      · rw [hremovals, Function.update_of_ne hi]
      · rw [hremovals, Function.update_self, hJ.removals id, phase]
        rfl
  have htrack : s.track id b = s := by
    unfold track
    split <;> first | contradiction | rfl
  rw [htrack]
  exact hJ.same (Agent.sameEntry_move h hr hd)

/-- **The registry refines the phases**: a step of the runs and their senders does to the
runs what it does when a signal looks at their phases. -/
theorem step_agents (hJ : s.Tracks) (action : ActiveAgents.Action) :
    (s.step (.agents action)).map AgentRegistry.agents = s.agents.step action := by
  have hsend : ∀ id sig, ((s.send id sig).toOption).map AgentRegistry.agents =
      ((s.agents id).receive sig).map (Function.update s.agents id) := by
    intro id sig
    unfold send
    cases (s.agents id).receive sig <;> rfl
  cases action with
  | run id b =>
    simp only [step, ActiveAgents.step, Option.map_map]
    rfl
  | signal id sig =>
    by_cases hsig : sig = .none
    · simp only [step, ActiveAgents.step, hsig, if_true, Option.map_none]
    simp only [step, ActiveAgents.step, if_neg hsig, signal, ActiveAgents.signal, hJ.inner id]
    by_cases hin : (s.agents id).inRegistry = true
    · simp only [hin, if_true]
      rw [hsend]
      cases (s.agents id).receive sig <;> rfl
    · simp only [if_neg hin]
      rfl
  | signalChannel interface channel sig first =>
    by_cases hsig : sig = .none
    · simp only [step, ActiveAgents.step, hsig, if_true, Option.map_none]
    simp only [step, ActiveAgents.step, if_neg hsig, signalChannel, ActiveAgents.signalChannel,
      hJ.inner first]
    by_cases hin : (s.agents first).inRegistry = true
    · simp only [hin, if_true, true_and, Agent.entry]
      by_cases hmatch : (s.agents first).interface = some interface ∧ (s.agents first).channel = some channel
      · simp only [if_pos hmatch]
        rw [hsend]
        cases (s.agents first).receive sig <;> rfl
      · simp only [if_neg hmatch]
        rfl
    · simp only [hin]
      rfl

/-- What a step does: a step of one run, or something to one run from outside. -/
theorem step_cases (h : s.step action = some s') :
    (∃ id b a', action = .agents (.run id b) ∧ (s.agents id).Move b a' ∧
        s' = { s.track id b with agents := Function.update s.agents id a' }) ∨
      ∃ id a', (∀ i b, action ≠ .agents (.run i b)) ∧ (s.agents id).Interference a' ∧
        s' = { s with agents := Function.update s.agents id a' } := by
  have hsend : ∀ {id sig}, (s.send id sig).toOption = some s' → ∃ a', (s.agents id).Interference a' ∧
      s' = { s with agents := Function.update s.agents id a' } := by
    intro id sig h
    unfold send at h
    split at h <;> cases h
    rename_i a' ha
    obtain ⟨-, rfl⟩ := Agent.receive_some ha
    exact ⟨_, .accept, rfl⟩
  match action with
  | .agents (.run id b) =>
    obtain ⟨a', ha, rfl⟩ := Option.map_eq_some_iff.1 h
    exact .inl ⟨id, b, a', rfl, Agent.step_move ha, rfl⟩
  | .agents (.signal id sig) =>
    simp only [step, signal] at h
    split at h
    · cases h
    split at h
    · obtain ⟨a', ha⟩ := hsend h
      exact .inr ⟨id, a', by simp, ha⟩
    · cases h
  | .agents (.signalChannel interface channel sig first) =>
    simp only [step, signalChannel] at h
    split at h
    · cases h
    split at h
    · split at h
      · obtain ⟨a', ha⟩ := hsend h
        exact .inr ⟨first, a', by simp, ha⟩
      · cases h
    · cases h
  | .cancel id reason lastText =>
    obtain ⟨attempt, hp, rfl⟩ := Option.map_eq_some_iff.1 h
    exact .inr ⟨id, _, by simp, .cancel hp, rfl⟩

theorem Tracks.step (hJ : s.Tracks) (h : s.step action = some s') : s'.Tracks := by
  rcases step_cases h with ⟨id, b, a', rfl, move, rfl⟩ | ⟨id, a', -, hout, rfl⟩
  · exact hJ.run move
  · exact hJ.same hout.sameEntry

/-! ## Whole runs -/

/-- What one expects of the run of `id`: its announcements, and its entry in the registry
from its registration to its only removal. -/
structure Accounted (s : AgentRegistry) (id : String) : Prop where
  announced : (s.agents id).Announced
  registered : (s.agents id).inRegistry = true → (s.inner id).isSome ∧ s.removals id = 0
  before : (s.agents id).phase = .absent ∨ (s.agents id).phase = .started →
    s.inner id = none ∧ s.removals id = 0
  after : (s.agents id).phase = .gone → s.inner id = none ∧ s.removals id = 1

theorem Tracks.accounted_iff_announced (hJ : s.Tracks) (id : String) : s.Accounted id ↔ (s.agents id).Announced := by
  refine ⟨Accounted.announced, fun h => ⟨h, fun hin => ?_, fun hp => ?_, fun hp => ?_⟩⟩
  · rw [hJ.inner, hJ.removals, if_pos hin, if_neg]
    · exact ⟨rfl, rfl⟩
    · intro hp
      simp [Agent.inRegistry, hp] at hin
  · rw [hJ.inner, hJ.removals]
    rcases hp with hp | hp <;> simp [Agent.inRegistry, hp]
  · rw [hJ.inner, hJ.removals]
    simp [Agent.inRegistry, hp]

theorem announced_step (hP : ∀ id, (s.agents id).Announced) (h : s.step action = some s') :
    (∀ id, (s'.agents id).Announced) ↔ ∀ id e, action ≠ .agents (.run id (.prepare (some e))) := by
  rcases step_cases h with ⟨id, b, a', rfl, move, rfl⟩ | ⟨id, a', hquiet, hout, rfl⟩
  · refine (ActiveAgents.forall_update_iff hP).trans ((Agent.announced_move (hP id) move).trans ?_)
    constructor
    · intro hg i e he
      injection he with he
      injection he with _ hb
      exact hg e hb
    · rintro hg e rfl
      exact hg id e rfl
  · refine iff_of_true ((ActiveAgents.forall_update_iff hP).2 ((hP id).congr hout.running hout.events)) ?_
    exact fun i e => hquiet i _

/-- **Runs end as announced**, and are in the registry until they are removed once,
exactly if no run fails to set up its prompt. -/
theorem accounted_iff (as : List Action) :
    (∀ s, Sys.Visits step init as s → ∀ id, s.Accounted id) ↔
      ∀ s action, Sys.Takes step init as s action → ∀ id e, action ≠ .agents (.run id (.prepare (some e))) := by
  have hinit : Tracks init := ⟨fun _ => rfl, fun _ => rfl⟩
  have hannounced : ∀ id, (init.agents id).Announced :=
    fun _ => .ofRunning (by simp [Agent.Running, init, ActiveAgents.init, Agent.init]) nofun
  have htracks : ∀ s, Sys.Visits step init as s → s.Tracks :=
    fun s hs => hs.inv (fun _ _ _ hJ h => hJ.step h) hinit
  rw [← Sys.visits_iff_takes (J := Tracks) (P := fun s : AgentRegistry => ∀ id, (s.agents id).Announced)
    (fun _ _ _ hJ _ _ h => hJ.step h) (fun _ _ _ _ hP h => announced_step hP h) as hinit hannounced]
  exact forall₂_congr fun s hs => forall_congr' fun id => (htracks s hs).accounted_iff_announced id

/-- A run whose client cannot be created. -/
def noClient : List Action :=
  [.agents (.run "x" (.start .synapse "task" none none 10)), .agents (.run "x" .register),
    .agents (.run "x" (.prepare (some "failed to create OpenRouter client"))),
    .agents (.run "x" .deregister)]

/-- **It ends without a word**: started, and gone. -/
theorem unprepared_silent : ∃ s, Sys.run step init noClient = some s ∧
    (s.agents "x").phase = .gone ∧ (s.agents "x").events = [.started "task"] ∧ ¬ s.Accounted "x" := by
  have h : Sys.run step init noClient = some _ := rfl
  refine ⟨_, h, rfl, rfl, fun hacc => ?_⟩
  obtain ⟨es, e, hevents, he, -⟩ := hacc.announced.returned fun hr => hr.2 rfl
  have hmem : e ∈ [AgentEvent.started "task"] := by
    rw [show [AgentEvent.started "task"] = es ++ [e] from hevents]
    exact List.mem_append_right _ (List.mem_singleton_self _)
  rw [List.mem_singleton.1 hmem] at he
  cases he

end AgentRegistry

end Auxlry
