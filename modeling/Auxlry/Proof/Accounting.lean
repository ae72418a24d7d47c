import Auxlry.Proof.Deferred
import Mathlib.Data.List.Perm.Basic

/-!
# Every batch, once

A batch is received at the head of the loop, during the processing of another, or when the
queue is drained. From there it goes to `process_batch`, to an agent, or onto the deferred
list, from where it is taken again. `delivered` and `handed` are bookkeeping: the batches
that were put in the channel, and the signals with a batch that were accepted.

* `Flow`: a step keeps the batches that were received, or receives one.
* `accounted_of_visits`: **every batch that was received is processed or handed over or
  waits, and only one of these, once**; none waits when the loop has ended.
* `loop_steps_le`, `exists_step`: which it does after a bounded number of steps, once the
  channel is closed.
-/

namespace Auxlry

namespace InterfaceAgent

/-- What a step puts in the channel. -/
def Action.delivered : Action → List BatchedInput
  | .deliver b => [b]
  | _ => []

/-- The batches that were received: processed, handed over or deferred. -/
def held (s : InterfaceAgent) : List Received := s.processed ++ s.steered ++ s.deferred

/-- The account of the batches. -/
structure Accounts (s : InterfaceAgent) (delivered : List BatchedInput) : Prop where
  /-- every number that was given belongs to one batch, in one place -/
  once : (s.held.map (·.number)).Perm (List.range s.received)
  /-- which is the batch that was delivered -/
  batch : ∀ r ∈ s.held, delivered[r.number]? = some r.batch
  /-- the channel holds the others -/
  queue : s.queue = delivered.drop s.received
  current : ∀ r, s.phase = .processing r → r ∈ s.processed
  stopped : s.phase = .stopped → s.closed = true ∧ s.queue = [] ∧ s.deferred = []

/-- Whether a step receives a batch. -/
inductive Flow (s s' : InterfaceAgent) (a : Action) : Prop
  /-- none is received, and what is held may change its place -/
  | kept (received : s'.received = s.received) (queue : s'.queue = s.queue ++ a.delivered)
      (held : s'.held.Perm s.held)
  | took (r : Received) (delivered : a.delivered = []) (number : r.number = s.received)
      (received : s'.received = s.received + 1) (queue : s.queue = r.batch :: s'.queue)
      (held : s'.held.Perm (s.held ++ [r]))

variable {s s' t : InterfaceAgent} {a : Action} {r : Received} {delivered : List BatchedInput}

/-! ## One step -/

/-- A batch that was received at the end of one of the three lists. -/
theorem perm_held (ps qs ds : List Received) (r : Received) :
    (ps ++ [r] ++ qs ++ ds).Perm (ps ++ qs ++ ds ++ [r]) ∧
      (ps ++ (qs ++ [r]) ++ ds).Perm (ps ++ qs ++ ds ++ [r]) := by
  constructor
  · have hmove : ([r] ++ (qs ++ ds)).Perm (qs ++ ds ++ [r]) := List.perm_append_comm
    simpa using hmove.append_left ps
  · have hmove : ([r] ++ ds).Perm (ds ++ [r]) := List.perm_append_comm
    simpa using (hmove.append_left qs).append_left ps

theorem step_flow (h : s.step a = some s') : Flow s s' a := by
  cases step_change h with
  | deliver b => exact .kept rfl rfl (List.Perm.refl _)
  | close | agents | stop | complete | drained | respond =>
    exact .kept rfl (List.append_nil _).symm (List.Perm.refl _)
  | @pop ds r _ deferred =>
    refine .kept rfl (List.append_nil _).symm ?_
    have hperm := (perm_held s.processed s.steered ds r).1
    simpa [held, process, deferred] using hperm
  | @take r rest _ _ queue number => exact .took r rfl number rfl queue (perm_held _ _ _ r).1
  | @steer current r rest first agents _ queue number =>
    exact .took r rfl number rfl queue (perm_held _ _ _ r).2
  | @defer current r rest first _ queue number | @drain current r result rest _ queue number =>
    exact .took r rfl number rfl queue (by simp [held, afterRecv, InterfaceAgent.defer])

/-! ## The account -/

theorem accounts_init (adapters : List String) : (init adapters).Accounts [] where
  once := List.Perm.refl _
  batch r hr := by cases hr
  queue := rfl
  current r hr := by cases hr
  stopped hs := by cases hs

/-- What was received was delivered. -/
theorem Accounts.received_le (hs : s.Accounts delivered) : s.received ≤ delivered.length := by
  by_contra hlt
  obtain ⟨n, hn⟩ : ∃ n, s.received = n + 1 := ⟨s.received - 1, by omega⟩
  have hmem : n ∈ s.held.map (·.number) := hs.once.symm.subset (List.mem_range.2 (by omega))
  obtain ⟨r, hr, hnumber⟩ := List.mem_map.1 hmem
  obtain ⟨hbound, -⟩ := List.getElem?_eq_some_iff.1 (hs.batch r hr)
  omega

/-- The batches are accounted for after a step. -/
theorem Accounts.flow (hs : s.Accounts delivered) (h : Flow s s' a) :
    (s'.held.map (·.number)).Perm (List.range s'.received) ∧
      (∀ r ∈ s'.held, (delivered ++ a.delivered)[r.number]? = some r.batch) ∧
      s'.queue = (delivered ++ a.delivered).drop s'.received := by
  have hold : ∀ r ∈ s.held, (delivered ++ a.delivered)[r.number]? = some r.batch := by
    intro r hr
    have hbatch := hs.batch r hr
    obtain ⟨hbound, -⟩ := List.getElem?_eq_some_iff.1 hbatch
    rw [List.getElem?_append_left hbound]
    exact hbatch
  cases h with
  | kept received queue held =>
    refine ⟨received ▸ (held.map _).trans hs.once, fun r hr => hold r (held.subset hr), ?_⟩
    rw [queue, received, hs.queue, List.drop_append_of_le_length hs.received_le]
  | took r none number received queue held =>
    rw [none, List.append_nil] at hold ⊢
    have hdrop : delivered.drop s.received = r.batch :: s'.queue := hs.queue ▸ queue
    refine ⟨?_, fun q hq => ?_, ?_⟩
    · rw [received, List.range_succ, ← number]
      exact (held.map _).trans (by simpa [number] using hs.once.append_right [s.received])
    · rcases List.mem_append.1 (held.subset hq) with hq | hq
      · exact hold q hq
      · rw [List.mem_singleton.1 hq, number, ← List.head?_drop, hdrop]
        rfl
    · rw [received, ← List.tail_drop, hdrop]
      rfl

/-- A batch in process is one of the processed ones. -/
theorem current_step (hcurrent : ∀ r, s.phase = .processing r → r ∈ s.processed) (h : s.step a = some s') :
    ∀ r, s'.phase = .processing r → r ∈ s'.processed := by
  intro q hq
  cases step_change h with
  | deliver | close | agents | steer | defer => exact hcurrent q hq
  | pop | take =>
    cases hq
    exact List.mem_append_right _ (List.mem_singleton_self _)
  | stop | complete | drained | respond => cases hq
  | drain phase => exact hcurrent q hq

/-- The loop ends with nothing left, and stays so. -/
theorem stopped_step (hstopped : s.phase = .stopped → s.closed = true ∧ s.queue = [] ∧ s.deferred = [])
    (h : s.step a = some s') : s'.phase = .stopped → s'.closed = true ∧ s'.queue = [] ∧ s'.deferred = [] := by
  intro hs
  cases step_change h with
  | deliver b opened =>
    obtain ⟨hclosed, -⟩ := hstopped hs
    rw [opened] at hclosed
    cases hclosed
  | close => exact ⟨rfl, (hstopped hs).2⟩
  | agents => exact hstopped hs
  | stop _ deferred queue closed => exact ⟨closed, queue, deferred⟩
  | steer phase | defer phase | drain phase =>
    have hphase := phase.symm.trans hs
    cases hphase
  | pop | take | complete | drained | respond => cases hs

theorem Accounts.step (hs : s.Accounts delivered) (h : s.step a = some s') :
    s'.Accounts (delivered ++ a.delivered) := by
  obtain ⟨once, batch, queue⟩ := hs.flow (step_flow h)
  exact ⟨once, batch, queue, current_step hs.current h, stopped_step hs.stopped h⟩

/-! ## The loop ends -/

/-- A step of the loop itself. -/
def Action.ofLoop : Action → Bool
  | .deliver _ | .close | .agents _ => false
  | _ => true

/-- How many steps the loop has at most before it waits for input: a batch is received, deferred,
taken, processed and answered. -/
def rank (s : InterfaceAgent) : ℕ :=
  5 * s.queue.length + 4 * s.deferred.length +
    match s.phase with
    | .stopped => 0
    | .idle => 1
    | .responding .. => 2
    | .draining .. => 3
    | .processing _ => 4

/-- Every step of the loop gets it further. -/
theorem rank_step (h : s.step a = some s') :
    s'.rank + (if a.ofLoop then 1 else 0) ≤ s.rank + 5 * a.delivered.length := by
  cases step_change h with
  | deliver b =>
    simp only [rank, Action.ofLoop, Action.delivered, List.length_append, List.length_singleton, Bool.false_eq_true,
      if_false]
    omega
  | close | agents =>
    simp only [rank, Action.ofLoop, Action.delivered, List.length_nil, Bool.false_eq_true, if_false]
    omega
  | pop idle deferred =>
    simp only [rank, Action.ofLoop, Action.delivered, process, idle, deferred, List.length_append,
      List.length_singleton, List.length_nil, if_true]
    omega
  | take idle deferred queue =>
    simp only [rank, Action.ofLoop, Action.delivered, process, afterRecv, idle, deferred, queue, List.length_cons,
      List.length_nil, if_true]
    omega
  | stop idle deferred queue =>
    simp only [rank, Action.ofLoop, Action.delivered, idle, deferred, queue, List.length_nil, if_true]
    omega
  | steer phase queue =>
    simp only [rank, Action.ofLoop, Action.delivered, afterRecv, phase, queue, List.length_cons, List.length_nil,
      if_true]
    omega
  | defer phase queue | drain phase queue =>
    simp only [rank, Action.ofLoop, Action.delivered, afterRecv, InterfaceAgent.defer, phase, queue,
      List.length_append, List.length_cons, List.length_nil, if_true]
    omega
  | complete phase | drained phase =>
    simp only [rank, Action.ofLoop, Action.delivered, phase, List.length_nil, if_true]
    omega
  | respond phase =>
    simp only [rank, Action.ofLoop, Action.delivered, InterfaceAgent.respond, phase, List.length_nil, if_true]
    omega

/-- **The loop takes no more than five steps for each batch**, and one to end. -/
theorem loop_steps_le {adapters : List String} {as : List Action} (h : Sys.run step (init adapters) as = some s) :
    (as.filter (·.ofLoop)).length ≤ 5 * (as.flatMap (·.delivered)).length + 1 := by
  have hle : ∀ (as : List Action) (s t : InterfaceAgent), Sys.run step s as = some t →
      (as.filter (·.ofLoop)).length + t.rank ≤ 5 * (as.flatMap (·.delivered)).length + s.rank := by
    intro as
    induction as with
    | nil =>
      intro s t h
      cases h
      simp
    | cons a as ih =>
      intro s t h
      obtain ⟨s', hs', h⟩ := Option.bind_eq_some_iff.1 h
      have hrest := ih s' t h
      have hstep := rank_step hs'
      rw [List.flatMap_cons, List.length_append, List.filter_cons]
      split at hstep
      · rename_i hloop
        rw [if_pos hloop, List.length_cons]
        omega
      · rename_i hloop
        rw [if_neg hloop]
        omega
  have hrun := hle as _ s h
  have hrank : (init adapters).rank = 1 := rfl
  omega

/-- Once its channel is closed, the loop never waits before it has ended. -/
theorem exists_step (hclosed : s.closed = true) (hphase : s.phase ≠ .stopped) :
    ∃ a, a.ofLoop = true ∧ (s.step a).isSome := by
  cases hp : s.phase with
  | idle =>
    refine ⟨.next, rfl, ?_⟩
    simp only [step, hp, InterfaceAgent.next]
    split
    · rfl
    · split
      · rfl
      · rw [if_pos hclosed]
        rfl
  | processing r =>
    refine ⟨.complete (.ok ""), rfl, ?_⟩
    simp only [step, hp]
    rfl
  | draining r result =>
    refine ⟨.drain, rfl, ?_⟩
    simp only [step, hp]
    split <;> rfl
  | responding r result =>
    refine ⟨.respond, rfl, ?_⟩
    simp only [step, hp]
    rfl
  | stopped => exact absurd hp hphase

end InterfaceAgent

/-! ## What is handed over -/

/-- A call of `signal_channel` with a batch: the agents at that time, and the one it finds. -/
structure Handover where
  received : Received
  agents : ActiveAgents
  first : String

/-- The call succeeds on the interface and the channel that the batch came from. -/
def Handover.Succeeds (h : Handover) : Prop :=
  ∃ agents, h.agents.signalChannel h.received.batch.interface h.received.batch.channel
    (.steer h.received.batch.combined) h.first = .ok agents

/-- The interface agent, with the batches that were put in its channel and those that it
handed over. -/
structure Ledger where
  agent : InterfaceAgent
  delivered : List BatchedInput
  handed : List Handover

namespace Ledger

def init (adapters : List String) : Ledger := ⟨.init adapters, [], []⟩

/-- The call that a step makes with success. -/
def handover (s : InterfaceAgent) : InterfaceAgent.Action → List Handover
  | .additional (some first) =>
    match s.phase, s.recv with
    | .processing current, some (r, _) =>
      if r.pair = current.pair then
        match s.agents.signalChannel current.pair.1 current.pair.2 (.steer r.batch.combined) first with
        | .ok _ => [⟨r, s.agents, first⟩]
        | .error _ => []
      else []
    | _, _ => []
  | _ => []

/-- A step of the interface agent. -/
def step (s : Ledger) (a : InterfaceAgent.Action) : Option Ledger :=
  (s.agent.step a).map fun agent => ⟨agent, s.delivered ++ a.delivered, s.handed ++ handover s.agent a⟩

/-- What is expected of the batches: each has its place, and the steered ones were handed
over with success. -/
structure Accounted (s : Ledger) : Prop where
  accounts : s.agent.Accounts s.delivered
  steered : s.handed.map (·.received) = s.agent.steered
  succeeds : ∀ h ∈ s.handed, h.Succeeds

variable {s s' : Ledger} {a : InterfaceAgent.Action} {agent agent' : InterfaceAgent} {h : Handover}

theorem handover_succeeds (hh : h ∈ handover agent a) : h.Succeeds := by
  unfold handover at hh
  split at hh
  · split at hh
    · split at hh
      · rename_i hpair
        split at hh
        · rename_i hok
          rw [List.mem_singleton.1 hh]
          rw [← hpair] at hok
          exact ⟨_, hok⟩
        · cases hh
      · cases hh
    · cases hh
  · cases hh

/-- A batch is steered in the steps that hand one over. -/
theorem steered_step (hstep : agent.step a = some agent') :
    agent'.steered = agent.steered ++ (handover agent a).map (·.received) := by
  cases InterfaceAgent.step_change hstep with
  | deliver | close | agents | pop | take | stop | complete | drain | drained | respond =>
    exact (List.append_nil _).symm
  | @steer current r rest first agents phase queue number pair signal =>
    simp only [handover, phase, InterfaceAgent.recv_of_queue queue number, if_pos pair, signal]
    rfl
  | @defer current r rest first phase queue number refused =>
    have hnone : handover agent (.additional first) = [] := by
      cases first with
      | none => rfl
      | some id =>
        simp only [handover, phase, InterfaceAgent.recv_of_queue queue number]
        by_cases hpair : r.pair = current.pair
        · rw [if_pos hpair]
          cases hsignal : agent.agents.signalChannel current.pair.1 current.pair.2 (.steer r.batch.combined) id with
          | ok agents => exact absurd hsignal (refused hpair id rfl agents)
          | error => rfl
        · rw [if_neg hpair]
    rw [hnone]
    exact (List.append_nil _).symm

theorem Accounted.step (hs : s.Accounted) (h : s.step a = some s') : s'.Accounted := by
  obtain ⟨agent, hstep, rfl⟩ := Option.map_eq_some_iff.1 h
  refine ⟨hs.accounts.step hstep, ?_, fun q hq => ?_⟩
  · rw [List.map_append, hs.steered, steered_step hstep]
  · rcases List.mem_append.1 hq with hq | hq
    · exact hs.succeeds q hq
    · exact handover_succeeds hq

/-- When the loop has ended, every batch that was delivered is processed or handed over. -/
theorem Accounted.ended (hs : s.Accounted) (hstop : s.agent.phase = .stopped) :
    ((s.agent.processed ++ s.handed.map (·.received)).map (·.number)).Perm (List.range s.delivered.length) := by
  obtain ⟨-, hqueue, hdeferred⟩ := hs.accounts.stopped hstop
  have honce := hs.accounts.once
  have hdrop := hs.accounts.queue
  rw [hqueue] at hdrop
  have hlength : s.delivered.length ≤ s.agent.received := List.drop_eq_nil_iff.1 hdrop.symm
  rw [hs.steered]
  rw [InterfaceAgent.held, hdeferred, List.append_nil] at honce
  rwa [hs.accounts.received_le.antisymm hlength] at honce

/-- **Every batch that was received has one place**, in every state of every run: it was
processed, or handed over to an agent of its interface and channel, or waits. In the end
none waits. -/
theorem accounted_of_visits (adapters : List String) (as : List InterfaceAgent.Action) (s : Ledger)
    (h : Sys.Visits step (init adapters) as s) :
    s.Accounted ∧ (s.agent.phase = .stopped → s.agent.deferred = [] ∧
      ((s.agent.processed ++ s.handed.map (·.received)).map (·.number)).Perm (List.range s.delivered.length)) := by
  have hs : s.Accounted := h.inv (fun _ _ _ hs h => Accounted.step hs h)
    ⟨InterfaceAgent.accounts_init adapters, rfl, by simp [init]⟩
  exact ⟨hs, fun hstop => ⟨(hs.accounts.stopped hstop).2.2, hs.ended hstop⟩⟩

/-- A batch that steers an agent, a deferred one, and a channel that closes meanwhile. -/
def closedEarly : List InterfaceAgent.Action :=
  [.agents (.run "a" (.start .synapse "task" (some "discord") (some "1") 5)), .agents (.run "a" .register),
    .deliver (InterfaceAgent.oneMessage "1" "hi"), .next, .deliver (InterfaceAgent.oneMessage "1" "more"),
    .deliver (InterfaceAgent.oneMessage "2" "other"), .close, .additional (some "a"), .additional none,
    .complete (.ok "hello"), .drain, .respond, .next, .complete (.error "no"), .drain, .respond, .next]

theorem accounted_closedEarly : ∃ s, Sys.run step (init ["discord"]) closedEarly = some s ∧
    s.agent.phase = .stopped ∧ s.agent.processed.map (·.number) = [0, 2] ∧
    s.handed.map (·.received.number) = [1] ∧ s.Accounted := by
  have h : Sys.run step (init ["discord"]) closedEarly = some _ := rfl
  exact ⟨_, h, rfl, rfl, rfl, (accounted_of_visits ["discord"] closedEarly _ ⟨_, List.prefix_rfl, h⟩).1⟩

end Ledger

end Auxlry
