import Auxlry.Proof.Answers
import Auxlry.Proof.Permits
import Auxlry.Spec.Conversation
import Auxlry.Sys.Simulation

/-!
# Agents belong to the batch in hand

An agent runs below a tool call of the prompt of a batch, or below the synapse of one, and both
wait for it. So no agent outlives the batch it was started for, and a message that is handed over
while a batch is processed goes to an agent that works on that batch.

* `Conversation.step_change`: what a step does, once for all that follows.
* `Conversation.agents_belong`: **what is registered**, in every reachable state.
-/

namespace Auxlry

variable {K : Type}

section

variable [Zero K]

/-- How a tool call gathers what it needs. -/
inductive ToolRun.Goes (adapters : List String) (r : Received) (run : ToolRun) : List (BatchEffect K) → ToolPhase → Prop
  | ackSynapse {task ack : String} (phase : run.phase = .acking) (call : run.call = .delegateSynapse task ack) :
      Goes adapters r run (sendAck adapters r.batch.interface r.batch.channel ack) .searching
  | ackOperator {task ack : String} {node : Option String} (phase : run.phase = .acking)
      (call : run.call = .delegateOperator task ack node) :
      Goes adapters r run (sendAck adapters r.batch.interface r.batch.channel ack) (.running none none)
  | noMemory (phase : run.phase = .searching) : Goes adapters r run [] (.reading none)
  | search {memory : Option String} (phase : run.phase = .searching) :
      Goes adapters r run [.hybridSearch run.call.task ⟨5, none, .finite 0, 1⟩] (.reading memory)
  | read {memory conversation : Option String} (phase : run.phase = .reading memory) :
      Goes adapters r run [.getRecentMessages r.batch.interface r.batch.channel 20] (.running memory conversation)

namespace Conversation

variable {s s' : Conversation K} {a : Action K} {r : Received} {adapters : List String}

/-- **What a step does.** -/
inductive Change (s : Conversation K) : Conversation K → Prop
  | next {i : InterfaceAgent} (step : s.interface.step .next = some i) :
      Change s { s with interface := i, batch := .preparing }
  | interface {b : InterfaceAgent.Action} {i : InterfaceAgent} (step : s.interface.step b = some i)
      (other : b ≠ .next ∧ (∀ action, b ≠ .agents action) ∧ ∀ result, b ≠ .complete result) :
      Change s { s with interface := i }
  | unprepared {r : Received} {e : String} (phase : s.interface.phase = .processing r)
      (batch : s.batch = .preparing) : Change s { s with batch := .ended (.error e) }
  | prepare {r : Received} {setup : BatchSetup} (phase : s.interface.phase = .processing r)
      (batch : s.batch = .preparing) :
      Change s { s.does r [.getRecentMessages r.batch.interface r.batch.channel historyLimit] with
        batch := .ready setup 0 }
  | prompt {r : Received} {setup : BatchSetup} {attempt : ℕ} (phase : s.interface.phase = .processing r)
      (batch : s.batch = .ready setup attempt) :
      Change s { s.does r (promptEffects r setup attempt) with batch := .prompting setup attempt }
  | tool {r : Received} {id : String} {call : ToolCall} (phase : s.interface.phase = .processing r)
      (calls : s.calls call = true) (fresh : s.run id = none) (absent : (s.interface.agents id).phase = .absent) :
      Change s { s with runs := s.runs ++ [⟨id, call, firstPhase call⟩] }
  | goes {r : Received} {id : String} {run : ToolRun} {effects : List (BatchEffect K)} {next : ToolPhase}
      (phase : s.interface.phase = .processing r) (found : s.run id = some run)
      (goes : run.Goes s.interface.adapters r effects next) : Change s ((s.does r effects).setRun id next)
  | agents {r : Received} {action : ActiveAgents.Action} {agents : ActiveAgents}
      (phase : s.interface.phase = .processing r) (admitted : s.admits r.pair action = true)
      (step : s.interface.agents.step action = some agents) :
      Change s { s with interface := { s.interface with agents := agents } }
  | returns {r : Received} {id : String} {run : ToolRun} (phase : s.interface.phase = .processing r)
      (found : s.run id = some run)
      (ended : (s.interface.agents id).phase = .gone ∨ (s.interface.agents id).phase = .absent) :
      Change s { s with runs := s.runs.filter (·.id ≠ id) }
  | promptEnds {r : Received} {setup : BatchSetup} {attempt : ℕ} {e : PromptEnd}
      (phase : s.interface.phase = .processing r) (batch : s.batch = .prompting setup attempt)
      (runs : s.runs = []) : Change s { s.does r [.promptEnded e] with batch := afterPrompt setup attempt e }
  | complete {r : Received} {result : Except String String} (phase : s.interface.phase = .processing r)
      (batch : s.batch = .ended result) :
      Change s { s with interface := { s.interface with phase := .draining r result } }
  | signal {id : String} {sig : AgentSignal} {agents : ActiveAgents}
      (step : s.interface.agents.step (.signal id sig) = some agents) :
      Change s { s with interface := { s.interface with agents := agents } }

theorem agents_step {i : InterfaceAgent} {action : ActiveAgents.Action} {t : InterfaceAgent}
    (h : i.step (.agents action) = some t) :
    ∃ agents, i.agents.step action = some agents ∧ t = { i with agents := agents } := by
  simp only [InterfaceAgent.step] at h
  obtain ⟨agents, hagents, rfl⟩ := Option.map_eq_some_iff.1 h
  exact ⟨agents, hagents, rfl⟩

theorem interfaceStep_change {b : InterfaceAgent.Action} (h : s.interfaceStep b = some s') : Change s s' := by
  cases b with
  | agents action => cases h
  | complete result => cases h
  | next =>
    obtain ⟨i, hi, rfl⟩ := Option.map_eq_some_iff.1 h
    exact .next hi
  | deliver | close | additional | drain | respond =>
    simp only [interfaceStep] at h
    obtain ⟨i, hi, rfl⟩ := Option.map_eq_some_iff.1 h
    refine .interface hi ⟨?_, ?_, ?_⟩
    · intro hb; cases hb
    · intro _ hb; cases hb
    · intro _ hb; cases hb

theorem work_change (phase : s.interface.phase = .processing r) (h : s.work r a = some s') : Change s s' := by
  cases a with
  | interface action => cases h
  | prepare preamble stored =>
    simp only [work] at h
    split at h
    · rename_i hbatch
      split at h <;> cases h
      · exact .unprepared phase hbatch
      · exact .prepare phase hbatch
    · cases h
  | prompt =>
    simp only [work] at h
    split at h <;> cases h
    rename_i hbatch
    exact .prompt phase hbatch
  | tool id call =>
    simp only [work] at h
    split at h <;> cases h
    rename_i hc
    exact .tool phase hc.1 (Option.isNone_iff_eq_none.1 hc.2.1) hc.2.2
  | ack id =>
    simp only [work] at h
    obtain ⟨run, hrun, h⟩ := Option.bind_eq_some_iff.1 h
    split at h <;> cases h
    · rename_i hphase hcall
      exact .goes phase hrun (.ackSynapse hphase hcall)
    · rename_i hphase hcall
      exact .goes phase hrun (.ackOperator hphase hcall)
  | search id results =>
    simp only [work] at h
    obtain ⟨run, hrun, h⟩ := Option.bind_eq_some_iff.1 h
    split at h <;> cases h
    · rename_i hphase
      have hnone : s.does r [] = s := by
        unfold does
        rw [List.map_nil, List.append_nil]
      have hgoes := Change.goes phase hrun (.noMemory hphase)
      rw [hnone] at hgoes
      exact hgoes
    · rename_i hphase
      exact .goes phase hrun (.search hphase)
  | read id stored =>
    simp only [work] at h
    obtain ⟨run, hrun, h⟩ := Option.bind_eq_some_iff.1 h
    split at h <;> cases h
    rename_i hphase
    exact .goes phase hrun (.read hphase)
  | agents action =>
    simp only [work] at h
    split at h
    · rename_i hadmits
      obtain ⟨i, hi, rfl⟩ := Option.map_eq_some_iff.1 h
      obtain ⟨agents, hagents, rfl⟩ := agents_step hi
      exact .agents phase hadmits hagents
    · cases h
  | returns id =>
    simp only [work] at h
    obtain ⟨run, hrun, h⟩ := Option.bind_eq_some_iff.1 h
    split at h <;> cases h
    · rename_i hgone
      exact .returns phase hrun (.inl hgone)
    · rename_i habsent
      exact .returns phase hrun (.inr habsent)
  | promptEnds e =>
    simp only [work] at h
    split at h
    · rename_i hbatch
      split at h <;> cases h
      rename_i hruns
      exact .promptEnds phase hbatch hruns
    · cases h
  | complete =>
    simp only [work] at h
    split at h
    · rename_i result hbatch
      obtain ⟨i, hi, rfl⟩ := Option.map_eq_some_iff.1 h
      simp only [InterfaceAgent.step, phase] at hi
      cases hi
      exact .complete phase hbatch
    · cases h

theorem step_change (h : s.step a = some s') : Change s s' := by
  unfold step at h
  split at h
  · exact interfaceStep_change h
  · rename_i r _ _ hphase
    exact work_change hphase h
  · obtain ⟨i, hi, rfl⟩ := Option.map_eq_some_iff.1 h
    obtain ⟨agents, hagents, rfl⟩ := agents_step hi
    exact .signal hagents
  · cases h

end Conversation

end

/-! ## Agents and their tool calls -/

/-- A step that does not start a run keeps what the agent was started with. -/
theorem Agent.Move.entry {a a' : Agent} {b : Agent.Step} (h : a.Move b a')
    (hb : ∀ kind task interface channel maxTurns, b ≠ .start kind task interface channel maxTurns) :
    a'.entry = a.entry := by
  cases h with
  | start => exact absurd rfl (hb _ _ _ _ _)
  | register | prepare | unprepared | passed | wrappedUp | steered | call | promptEnds | steer | reset | conclude
  | deregister => rfl

/-- No agent has moved. -/
def ActiveAgents.Alike (f g : ActiveAgents) : Prop :=
  ∀ id, (g id).phase = (f id).phase ∧ (g id).entry = (f id).entry

theorem ActiveAgents.alike_accept {f : ActiveAgents} {id : String} {sig : AgentSignal} {a' : Agent}
    (h : (f id).Change (.accept sig) a') : f.Alike (Function.update f id a') := by
  intro i
  by_cases hi : i = id
  · subst hi
    rw [Function.update_self]
    cases h
    exact ⟨rfl, rfl⟩
  · rw [Function.update_of_ne hi]
    exact ⟨rfl, rfl⟩

theorem ActiveAgents.signal_alike {f g : ActiveAgents} {id : String} {sig : AgentSignal}
    (h : f.step (.signal id sig) = some g) : f.Alike g := by
  obtain ⟨a', hchange, rfl⟩ := ActiveAgents.step_local h
  exact ActiveAgents.alike_accept hchange

/-- A step of the interface agent moves no agent, and does not end processing. -/
theorem InterfaceAgent.other_step {s i : InterfaceAgent} {b : InterfaceAgent.Action} (h : s.step b = some i)
    (other : b ≠ .next ∧ (∀ action, b ≠ .agents action) ∧ ∀ result, b ≠ .complete result) :
    s.agents.Alike i.agents ∧ ∀ r, s.phase = .processing r → i.phase = .processing r := by
  obtain ⟨hnext, hagents, hcomplete⟩ := other
  have hrefl : s.agents.Alike s.agents := fun _ => ⟨rfl, rfl⟩
  cases step_change h with
  | deliver | close | defer => exact ⟨hrefl, fun _ hr => hr⟩
  | agents action => exact absurd rfl (hagents action)
  | pop | take | stop => exact absurd rfl hnext
  | complete => exact absurd rfl (hcomplete _)
  | @steer current r rest first agents phase queue number pair signal =>
    refine ⟨?_, fun _ hr => hr⟩
    have hstep : s.agents.step (.signalChannel current.pair.1 current.pair.2 (.steer r.batch.combined) first) =
        some agents := by
      simp only [ActiveAgents.step, signal]
      rfl
    obtain ⟨a', hchange, rfl⟩ := ActiveAgents.step_local hstep
    exact ActiveAgents.alike_accept hchange
  | drain phase =>
    refine ⟨hrefl, fun _ hr => ?_⟩
    rw [phase] at hr
    cases hr
  | drained phase | respond phase =>
    refine ⟨hrefl, fun _ hr => ?_⟩
    rw [phase] at hr
    cases hr

theorem InterfaceAgent.next_step {s i : InterfaceAgent} (h : s.step .next = some i) :
    s.phase = .idle ∧ i.agents = s.agents := by
  cases step_change h with
  | pop idle | take idle | stop idle => exact ⟨idle, rfl⟩

/-- The agent is run for the tool call. -/
structure ToolRun.Fits (run : ToolRun) (pair : String × String) (a : Agent) : Prop where
  kind : a.kind = run.call.kind
  task : a.task = run.call.task
  interface : a.interface = (run.call.origin pair).map Prod.fst
  channel : a.channel = (run.call.origin pair).map Prod.snd

theorem ToolRun.Fits.of_entry {run : ToolRun} {pair : String × String} {a a' : Agent} (h : run.Fits pair a)
    (ha : a'.entry = a.entry) : run.Fits pair a' := by
  obtain ⟨hkind, htask, hinterface, hchannel⟩ := h
  injection ha with h₁ h₂ h₃ h₄
  exact ⟨h₁.trans hkind, h₂.trans htask, h₃.trans hinterface, h₄.trans hchannel⟩

namespace Conversation

variable {s s' : Conversation K}

/-- The run of the agent has begun and has not ended. -/
def Alive (a : Agent) : Prop := a.phase ≠ .absent ∧ a.phase ≠ .gone

/-- **Who works for whom**: tool calls belong to the prompt of the batch in hand, agents to tool
calls, and operators to synapses that wait for them. -/
structure Belong (s : Conversation K) : Prop where
  once : (s.runs.map (·.id)).Nodup
  hand : s.runs ≠ [] → ∃ r setup attempt, s.interface.phase = .processing r ∧ s.batch = .prompting setup attempt
  agents : ∀ id, Alive (s.interface.agents id) → ∃ r, s.interface.phase = .processing r ∧
    ∃ run ∈ s.runs, run.id = id ∧ (∃ memory conversation, run.phase = .running memory conversation) ∧
      run.Fits r.pair (s.interface.agents id)
  below : ∀ run ∈ s.runs, ∀ synapse, run.call.synapse = some synapse →
    Delegation.calling (s.interface.agents synapse).phase = true ∧
      ∃ run' ∈ s.runs, run'.id = synapse ∧ run'.call.kind = .synapse

theorem belong_init (adapters : List String) : Belong (init adapters : Conversation K) where
  once := List.nodup_nil
  hand h := absurd rfl h
  agents id h := absurd rfl h.1
  below run hrun := by cases hrun

/-- Without a tool call there is no agent. -/
theorem Belong.dead (hB : s.Belong) (hruns : s.runs = []) (id : String) : ¬ Alive (s.interface.agents id) := by
  intro h
  obtain ⟨-, -, run, hrun, -⟩ := hB.agents id h
  rw [hruns] at hrun
  cases hrun

theorem belong_empty (hruns : s.runs = []) (hdead : ∀ id, ¬ Alive (s.interface.agents id)) : s.Belong where
  once := by rw [hruns]; exact List.nodup_nil
  hand h := absurd hruns h
  agents id h := absurd h (hdead id)
  below run hrun := by rw [hruns] at hrun; cases hrun

/-- The tool calls are the same, and no agent has moved. -/
theorem Belong.congr (hB : s.Belong) (hruns : s'.runs = s.runs)
    (hagents : s.interface.agents.Alike s'.interface.agents)
    (hphase : ∀ r, s.interface.phase = .processing r → s'.interface.phase = .processing r)
    (hbatch : s.runs ≠ [] → s'.batch = s.batch) : s'.Belong where
  once := by rw [hruns]; exact hB.once
  hand h := by
    rw [hruns] at h
    obtain ⟨r, setup, attempt, hr, hb⟩ := hB.hand h
    exact ⟨r, setup, attempt, hphase r hr, (hbatch h).trans hb⟩
  agents id h := by
    obtain ⟨hsame, hentry⟩ := hagents id
    unfold Alive at h
    rw [hsame] at h
    obtain ⟨r, hr, run, hrun, hid, hrunning, hfits⟩ := hB.agents id h
    exact ⟨r, hphase r hr, run, by rw [hruns]; exact hrun, hid, hrunning, hfits.of_entry hentry⟩
  below run hrun synapse hsynapse := by
    rw [hruns] at hrun ⊢
    rw [(hagents synapse).1]
    exact hB.below run hrun synapse hsynapse

theorem mem_of_run {id : String} {run : ToolRun} (h : s.run id = some run) : run ∈ s.runs ∧ run.id = id := by
  refine ⟨List.mem_of_find?_eq_some h, ?_⟩
  have hid := List.find?_some h
  exact of_decide_eq_true hid

/-- The model calls a tool. -/
theorem Belong.tool (hB : s.Belong) {id : String} {call : ToolCall} (calls : s.calls call = true)
    (fresh : s.run id = none) (r : Received) (phase : s.interface.phase = .processing r) :
    Belong { s with runs := s.runs ++ [⟨id, call, firstPhase call⟩] } where
  once := by
    rw [List.map_append, List.nodup_append]
    refine ⟨hB.once, List.nodup_singleton _, ?_⟩
    intro a ha b hb hab
    obtain ⟨run, hrun, rfl⟩ := List.mem_map.1 ha
    cases List.mem_singleton.1 hb
    have hne := List.find?_eq_none.1 fresh run hrun
    exact hne (decide_eq_true hab)
  hand _ := by
    cases call with
    | delegateSynapse task ack | delegateOperator task ack node =>
      simp only [Conversation.calls] at calls
      cases hbatch : s.batch with
      | prompting setup attempt => exact ⟨r, setup, attempt, phase, rfl⟩
      | preparing | ready | ended =>
        rw [hbatch] at calls
        cases calls
    | synapseOperator synapse task node =>
      simp only [Conversation.calls, Bool.and_eq_true, List.any_eq_true] at calls
      obtain ⟨⟨run, hrun, -⟩, -⟩ := calls
      exact hB.hand (List.ne_nil_of_mem hrun)
  agents i hi := by
    obtain ⟨r', hr, run, hrun, hid, hrunning, hfits⟩ := hB.agents i hi
    exact ⟨r', hr, run, List.mem_append_left _ hrun, hid, hrunning, hfits⟩
  below run hrun synapse hsynapse := by
    rcases List.mem_append.1 hrun with hrun | hrun
    · obtain ⟨hcalling, run', hrun', hid, hkind⟩ := hB.below run hrun synapse hsynapse
      exact ⟨hcalling, run', List.mem_append_left _ hrun', hid, hkind⟩
    · cases List.mem_singleton.1 hrun
      cases call with
      | delegateSynapse task ack | delegateOperator task ack node => cases hsynapse
      | synapseOperator synapse' task node =>
        cases hsynapse
        simp only [Conversation.calls, Bool.and_eq_true, List.any_eq_true, decide_eq_true_eq] at calls
        obtain ⟨⟨run', hrun', hid, hkind⟩, hcalling⟩ := calls
        exact ⟨hcalling, run', List.mem_append_left _ hrun', hid, hkind⟩

theorem mem_setRun {id : String} {next : ToolPhase} {run : ToolRun} :
    run ∈ (s.setRun id next).runs ↔
      ∃ old ∈ s.runs, run = if old.id = id then { old with phase := next } else old := by
  unfold setRun
  constructor
  · intro h
    obtain ⟨old, hold, rfl⟩ := List.mem_map.1 h
    exact ⟨old, hold, rfl⟩
  · rintro ⟨old, hold, rfl⟩
    exact List.mem_map.2 ⟨old, hold, rfl⟩

/-- A tool call goes on, before its agent runs. -/
theorem Belong.setRun (hB : s.Belong) {id : String} {run : ToolRun} (found : s.run id = some run)
    (before : ∀ memory conversation, run.phase ≠ .running memory conversation) (next : ToolPhase) :
    (s.setRun id next).Belong := by
  have hids : ((s.setRun id next).runs.map (·.id)) = s.runs.map (·.id) := by
    unfold Conversation.setRun
    rw [List.map_map]
    refine List.map_congr_left fun old _ => ?_
    dsimp only [Function.comp_apply]
    split <;> rfl
  have hsame : ∀ old ∈ s.runs, ∃ new ∈ (s.setRun id next).runs, new.id = old.id ∧ new.call = old.call := by
    intro old hold
    refine ⟨_, mem_setRun.2 ⟨old, hold, rfl⟩, ?_⟩
    split <;> exact ⟨rfl, rfl⟩
  refine ⟨?_, fun h => ?_, fun i hi => ?_, fun new hnew synapse hsynapse => ?_⟩
  · rw [hids]
    exact hB.once
  · refine hB.hand fun hnil => h ?_
    unfold Conversation.setRun
    rw [hnil]
    rfl
  · obtain ⟨r, hr, old, hold, hid, hrunning, hfits⟩ := hB.agents i hi
    refine ⟨r, hr, old, mem_setRun.2 ⟨old, hold, ?_⟩, hid, hrunning, hfits⟩
    rw [if_neg]
    intro hold'
    -- the tool call that goes on runs no agent yet
    obtain ⟨hrun, hrunid⟩ := mem_of_run found
    have hsame : old = run := List.inj_on_of_nodup_map hB.once hold hrun (hold'.trans hrunid.symm)
    obtain ⟨memory, conversation, hphase⟩ := hrunning
    exact before memory conversation (hsame ▸ hphase)
  · obtain ⟨old, hold, rfl⟩ := mem_setRun.1 hnew
    have hcall : (if old.id = id then { old with phase := next } else old).call = old.call := by
      split <;> rfl
    rw [hcall] at hsynapse
    obtain ⟨hcalling, run', hrun', hid, hkind⟩ := hB.below old hold synapse hsynapse
    obtain ⟨new', hnew', hid', hcall'⟩ := hsame run' hrun'
    exact ⟨hcalling, new', hnew', hid'.trans hid, hcall' ▸ hkind⟩

/-- A tool call returns. -/
theorem Belong.returns (hB : s.Belong) {id : String}
    (ended : (s.interface.agents id).phase = .gone ∨ (s.interface.agents id).phase = .absent) :
    Belong { s with runs := s.runs.filter (·.id ≠ id) } where
  once := hB.once.sublist (List.Sublist.map _ List.filter_sublist)
  hand h := by
    refine hB.hand fun hnil => h ?_
    rw [hnil]
    rfl
  agents i hi := by
    obtain ⟨r, hr, run, hrun, hid, hrunning, hfits⟩ := hB.agents i hi
    refine ⟨r, hr, run, List.mem_filter.2 ⟨hrun, decide_eq_true ?_⟩, hid, hrunning, hfits⟩
    rintro rfl
    rw [hid] at ended
    rcases ended with hgone | habsent
    · exact hi.2 hgone
    · exact hi.1 habsent
  below run hrun synapse hsynapse := by
    obtain ⟨hcalling, run', hrun', hid, hkind⟩ := hB.below run (List.mem_of_mem_filter hrun) synapse hsynapse
    refine ⟨hcalling, run', List.mem_filter.2 ⟨hrun', decide_eq_true ?_⟩, hid, hkind⟩
    rintro rfl
    rw [hid] at ended
    rcases ended with hgone | habsent
    · rw [hgone] at hcalling
      cases hcalling
    · rw [habsent] at hcalling
      cases hcalling

/-- An agent takes a step, or a signal. -/
theorem Belong.agents_step (hB : s.Belong) {r : Received} {action : ActiveAgents.Action} {agents : ActiveAgents}
    (phase : s.interface.phase = .processing r) (admitted : s.admits r.pair action = true)
    (step : s.interface.agents.step action = some agents) :
    Belong { s with interface := { s.interface with agents := agents } } := by
  obtain ⟨a', hchange, rfl⟩ := ActiveAgents.step_local step
  cases action with
  | signal | signalChannel =>
    exact hB.congr rfl (ActiveAgents.alike_accept hchange) (fun _ h => h) (fun _ => rfl)
  | run id b =>
    cases hchange with
    | run move =>
    dsimp only [ActiveAgents.Action.id] at move ⊢
    -- in both cases the agent has a tool call, and no synapse that waits is moved
    have hown : ∃ run ∈ s.runs, run.id = id ∧ (∃ memory conversation, run.phase = .running memory conversation) ∧
        run.Fits r.pair a' := by
      by_cases hstart : ∃ kind task interface channel maxTurns, b = .start kind task interface channel maxTurns
      · obtain ⟨kind, task, interface, channel, maxTurns, rfl⟩ := hstart
        simp only [admits, List.any_eq_true, Bool.and_eq_true, decide_eq_true_eq] at admitted
        obtain ⟨run, hrun, ⟨⟨⟨⟨hid, hkind⟩, htask⟩, hinterface⟩, hchannel⟩, hrunning⟩ := admitted
        cases move
        refine ⟨run, hrun, hid, ?_, hkind.symm, htask.symm, hinterface.symm, hchannel.symm⟩
        split at hrunning
        · rename_i memory conversation hphase
          exact ⟨memory, conversation, hphase⟩
        · cases hrunning
      · have hb : ∀ kind task interface channel maxTurns, b ≠ .start kind task interface channel maxTurns :=
          fun kind task interface channel maxTurns h => hstart ⟨kind, task, interface, channel, maxTurns, h⟩
        obtain ⟨habsent, hgone, -, -⟩ := move.underWay hb
        obtain ⟨r', hr, run, hrun, hid, hrunning, hfits⟩ := hB.agents id ⟨habsent, hgone⟩
        rw [phase] at hr
        cases hr
        exact ⟨run, hrun, hid, hrunning, hfits.of_entry (move.entry hb)⟩
    have hwaits : ∀ run ∈ s.runs, run.call.synapse ≠ some id := by
      intro run hrun hsynapse
      obtain ⟨hcalling, -⟩ := hB.below run hrun id hsynapse
      have hb : ∀ kind task interface channel maxTurns, b ≠ .start kind task interface channel maxTurns := by
        rintro kind task interface channel maxTurns rfl
        cases move with
        | start habsent =>
          rw [habsent] at hcalling
          cases hcalling
      obtain ⟨-, -, -, hcall⟩ := move.underWay hb
      obtain rfl := hcall hcalling
      have hnone := List.all_eq_true.1 admitted run hrun
      exact of_decide_eq_true hnone hsynapse
    refine ⟨hB.once, hB.hand, fun i hi => ?_, fun run hrun synapse hsynapse => ?_⟩
    · by_cases hid : i = id
      · subst hid
        dsimp only
        rw [Function.update_self]
        exact ⟨r, phase, hown⟩
      · dsimp only at hi ⊢
        rw [Function.update_of_ne hid] at hi ⊢
        exact hB.agents i hi
    · dsimp only
      rw [Function.update_of_ne]
      · exact hB.below run hrun synapse hsynapse
      · rintro rfl
        exact hwaits run hrun hsynapse

theorem Belong.step [Zero K] {a : Action K} (hB : s.Belong) (h : s.step a = some s') : s'.Belong := by
  have hprompting : ∀ {batch : BatchPhase}, s.batch = batch → (∀ setup attempt, batch ≠ .prompting setup attempt) →
      s.runs = [] := by
    intro batch hbatch hne
    by_contra hruns
    obtain ⟨-, setup, attempt, -, hb⟩ := hB.hand hruns
    exact hne setup attempt (hbatch.symm.trans hb)
  cases step_change h with
  | next step =>
    obtain ⟨hidle, hagents⟩ := InterfaceAgent.next_step step
    have hruns : s.runs = [] := by
      by_contra hne
      obtain ⟨r, -, -, hr, -⟩ := hB.hand hne
      rw [hidle] at hr
      cases hr
    refine belong_empty hruns fun id => ?_
    dsimp only
    rw [hagents]
    exact hB.dead hruns id
  | interface step other =>
    obtain ⟨halike, hphase⟩ := InterfaceAgent.other_step step other
    exact hB.congr rfl halike hphase fun _ => rfl
  | unprepared phase batch =>
    exact hB.congr rfl (fun _ => ⟨rfl, rfl⟩) (fun _ h => h) fun hne =>
      absurd (hprompting batch (by intro _ _ hb; cases hb)) hne
  | prepare phase batch =>
    exact hB.congr rfl (fun _ => ⟨rfl, rfl⟩) (fun _ h => h) fun hne =>
      absurd (hprompting batch (by intro _ _ hb; cases hb)) hne
  | prompt phase batch =>
    exact hB.congr rfl (fun _ => ⟨rfl, rfl⟩) (fun _ h => h) fun hne =>
      absurd (hprompting batch (by intro _ _ hb; cases hb)) hne
  | tool phase calls fresh absent => exact hB.tool calls fresh _ phase
  | @goes r id run effects next phase found goes =>
    have hdoes : (s.does r effects).Belong := hB.congr rfl (fun _ => ⟨rfl, rfl⟩) (fun _ h => h) fun _ => rfl
    refine hdoes.setRun found (fun memory conversation hrunning => ?_) next
    cases goes with
    | ackSynapse hphase | ackOperator hphase | noMemory hphase | search hphase | read hphase =>
      rw [hphase] at hrunning
      cases hrunning
  | agents phase admitted step => exact hB.agents_step phase admitted step
  | returns phase found ended => exact hB.returns ended
  | promptEnds phase batch runs =>
    exact hB.congr rfl (fun _ => ⟨rfl, rfl⟩) (fun _ h => h) fun hne => absurd runs hne
  | complete phase batch =>
    have hruns : s.runs = [] := hprompting batch (by intro _ _ hb; cases hb)
    exact belong_empty hruns (hB.dead hruns)
  | signal step =>
    exact hB.congr rfl (ActiveAgents.signal_alike step) (fun _ h => h) fun _ => rfl

/-- What the interface agent does is a run of it. -/
theorem reaches_interface [Zero K] {adapters : List String}
    (h : Sys.Reaches step (init adapters : Conversation K) s) :
    Sys.Reaches InterfaceAgent.step (.init adapters) s.interface := by
  have hfollows : Sys.Follows (step (K := K)) InterfaceAgent.step (fun s i => i = s.interface) := by
    rintro s _ a s' rfl hstep
    refine ⟨_, ?_, rfl⟩
    cases step_change hstep with
    | next step => exact .single step
    | interface step => exact .single step
    | @agents r action agents _ _ step =>
      have hi : s.interface.step (.agents action) = some { s.interface with agents := agents } := by
        simp only [InterfaceAgent.step, step]
        rfl
      exact .single hi
    | @complete r result phase =>
      have hi : s.interface.step (.complete result) = some { s.interface with phase := .draining r result } := by
        simp only [InterfaceAgent.step, phase]
      exact .single hi
    | @signal id sig agents step =>
      have hi : s.interface.step (.agents (.signal id sig)) = some { s.interface with agents := agents } := by
        simp only [InterfaceAgent.step, step]
        rfl
      exact .single hi
    | unprepared | prepare | prompt | tool | goes | returns | promptEnds => exact .refl _
  obtain ⟨i, hi, rfl⟩ := h.simulate hfollows rfl
  exact hi

/-- **Every agent belongs to the batch in hand**, in every reachable state: it is run by a tool call
of the prompt of that batch, for the interface and the channel of the batch, or by one of a
synapse that waits for it. So a signal for a channel is accepted only while a batch of that
channel is processed, and by an agent that the prompt of this batch has asked for. -/
theorem agents_belong [Zero K] {adapters : List String} (h : Sys.Reaches step (init adapters : Conversation K) s) :
    Sys.Reaches InterfaceAgent.step (.init adapters) s.interface ∧
      (∀ id, Alive (s.interface.agents id) → ∃ r, s.interface.phase = .processing r ∧
        ∃ run ∈ s.runs, run.id = id ∧ run.Fits r.pair (s.interface.agents id) ∧
          ∀ synapse, run.call.synapse = some synapse →
            Delegation.calling (s.interface.agents synapse).phase = true ∧
              ∃ run' ∈ s.runs, run'.id = synapse ∧ run'.call.kind = .synapse) ∧
      ∀ interface channel sig id agents,
        s.interface.agents.signalChannel interface channel sig id = .ok agents →
          ∃ r, s.interface.phase = .processing r ∧ r.pair = (interface, channel) ∧
            ∃ run ∈ s.runs, run.id = id ∧ run.call.synapse = none := by
  have hB : s.Belong := h.inv (fun _ _ _ hB hstep => Belong.step hB hstep) (belong_init adapters)
  refine ⟨reaches_interface h, fun id hid => ?_, fun interface channel sig id agents hsignal => ?_⟩
  · obtain ⟨r, hr, run, hrun, hrunid, -, hfits⟩ := hB.agents id hid
    exact ⟨r, hr, run, hrun, hrunid, hfits, hB.below run hrun⟩
  · unfold ActiveAgents.signalChannel at hsignal
    split at hsignal
    · rename_i hc
      obtain ⟨hregistry, hinterface, hchannel⟩ := hc
      have halive : Alive (s.interface.agents id) := by
        unfold Agent.inRegistry at hregistry
        constructor
        · intro hp
          rw [hp] at hregistry
          cases hregistry
        · intro hp
          rw [hp] at hregistry
          cases hregistry
      obtain ⟨r, hr, run, hrun, hrunid, -, hfits⟩ := hB.agents id halive
      have hfst := hfits.interface.symm.trans hinterface
      have hsnd := hfits.channel.symm.trans hchannel
      unfold ToolCall.origin at hfst hsnd
      cases hsynapse : run.call.synapse with
      | some synapse =>
        rw [hsynapse] at hfst
        cases hfst
      | none =>
        rw [hsynapse] at hfst hsnd
        exact ⟨r, hr, Prod.ext (Option.some.inj hfst) (Option.some.inj hsnd), run, hrun, hrunid, hsynapse⟩
    · cases hsignal

/-- A synapse that waits for an operator, and a second message of the channel meanwhile. -/
def delegated : List (Action ℕ) :=
  let synapse : List Agent.Step :=
    [.start .synapse "think" (some "discord") (some "1") 10, .register, .prepare none, .check false ""]
  let operator : List Agent.Step := [.start .operator "look" none none 10, .register]
  [.interface (.deliver (InterfaceAgent.oneMessage "1" "hello")), .interface .next, .prepare (.ok "") (.ok []),
      .prompt, .tool "s" (.delegateSynapse "think" ""), .ack "s", .search "s" none, .read "s" (.ok [])] ++
    synapse.map (fun b => .agents (.run "s" b)) ++ .tool "o" (.synapseOperator "s" "look" none) ::
    operator.map (fun b => .agents (.run "o" b)) ++
    [.interface (.deliver (InterfaceAgent.oneMessage "1" "again")), .interface (.additional (some "s"))]

/-- The second message is handed to the synapse. -/
theorem agents_belong_delegated : ∃ s, Sys.run step (init ["discord"]) delegated = some s ∧
    s.interface.steered.map (·.number) = [1] ∧ (s.interface.agents "o").phase = .registered ∧
    ∃ r, s.interface.phase = .processing r ∧ r.pair = ("discord", "1") ∧
      ∃ run ∈ s.runs, run.id = "s" ∧ run.call.synapse = none := by
  have h : Sys.run step (init ["discord"]) delegated = some _ := rfl
  obtain ⟨-, -, hsignal⟩ := agents_belong ⟨_, h⟩
  exact ⟨_, h, rfl, rfl, hsignal "discord" "1" .wrapUp "s" _ rfl⟩

end Conversation

end Auxlry
