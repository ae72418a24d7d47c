import Auxlry.Spec.Interface
import Auxlry.Sys.Run

/-!
# What a step of the interface agent does

`Change` has one case for each way a batch can go, with what the state was before. Results
about batches are read off it, and none looks at `step` again.
-/

namespace Auxlry.InterfaceAgent

variable {s s' t : InterfaceAgent} {a : Action} {r : Received}

theorem recv_eq (h : s.recv = some (r, t)) :
    ∃ rest, s.queue = r.batch :: rest ∧ r.number = s.received ∧
      t = { s with queue := rest, received := s.received + 1 } := by
  unfold recv at h
  split at h
  · rename_i b rest hqueue
    cases h
    exact ⟨rest, hqueue, rfl, rfl⟩
  · cases h

theorem recv_none (h : s.recv = none) : s.queue = [] := by
  unfold recv at h
  split at h
  · cases h
  · assumption

theorem pop_some (h : s.pop = some (r, t)) :
    ∃ ds, s.deferred = ds ++ [r] ∧ t = { s with deferred := ds } := by
  obtain ⟨r', hr, he⟩ := Option.map_eq_some_iff.1 h
  cases he
  have hne : s.deferred ≠ [] := by
    intro hd
    rw [hd] at hr; cases hr
  have hlast : s.deferred.getLast hne = r := by
    rw [List.getLast?_eq_getLast_of_ne_nil hne] at hr
    exact Option.some.inj hr
  exact ⟨s.deferred.dropLast, by rw [← hlast, List.dropLast_append_getLast hne], rfl⟩

theorem pop_none (h : s.pop = none) : s.deferred = [] := by
  have hlast : s.deferred.getLast? = none := Option.map_eq_none_iff.1 h
  exact List.getLast?_eq_none_iff.1 hlast

/-- The state after a batch was taken off the channel. -/
def afterRecv (s : InterfaceAgent) (rest : List BatchedInput) : InterfaceAgent :=
  { s with queue := rest, received := s.received + 1 }

theorem recv_of_queue {rest : List BatchedInput} (queue : s.queue = r.batch :: rest)
    (number : r.number = s.received) : s.recv = some (r, s.afterRecv rest) := by
  obtain ⟨batch, n⟩ := r
  obtain rfl : n = s.received := number
  unfold recv
  rw [queue]
  rfl

/-- **What a step does.** -/
inductive Change (s : InterfaceAgent) : Action → InterfaceAgent → Prop
  | deliver (b : BatchedInput) (opened : s.closed = false) : Change s (.deliver b) { s with queue := s.queue ++ [b] }
  | close : Change s .close { s with closed := true }
  | agents (action : ActiveAgents.Action) (agents : ActiveAgents) :
      Change s (.agents action) { s with agents := agents }
  | pop {ds : List Received} {r : Received} (idle : s.phase = .idle) (deferred : s.deferred = ds ++ [r]) :
      Change s .next ({ s with deferred := ds }.process r)
  | take {r : Received} {rest : List BatchedInput} (idle : s.phase = .idle) (deferred : s.deferred = [])
      (queue : s.queue = r.batch :: rest) (number : r.number = s.received) :
      Change s .next ((s.afterRecv rest).process r)
  | stop (idle : s.phase = .idle) (deferred : s.deferred = []) (queue : s.queue = []) (closed : s.closed = true) :
      Change s .next { s with phase := .stopped }
  /-- a batch is handed over -/
  | steer {current r : Received} {rest : List BatchedInput} {first : String} {agents : ActiveAgents}
      (phase : s.phase = .processing current) (queue : s.queue = r.batch :: rest) (number : r.number = s.received)
      (pair : r.pair = current.pair)
      (signal : s.agents.signalChannel current.pair.1 current.pair.2 (.steer r.batch.combined) first = .ok agents) :
      Change s (.additional (some first)) { s.afterRecv rest with agents := agents, steered := s.steered ++ [r] }
  /-- a batch of another channel, or one that finds no agent -/
  | defer {current r : Received} {rest : List BatchedInput} {first : Option String}
      (phase : s.phase = .processing current) (queue : s.queue = r.batch :: rest) (number : r.number = s.received)
      (refused : r.pair = current.pair → ∀ id, first = some id → ∀ agents,
        s.agents.signalChannel current.pair.1 current.pair.2 (.steer r.batch.combined) id ≠ .ok agents) :
      Change s (.additional first) ((s.afterRecv rest).defer r)
  | complete {r : Received} {result : Except String String} (phase : s.phase = .processing r) :
      Change s (.complete result) { s with phase := .draining r result }
  | drain {current r : Received} {result : Except String String} {rest : List BatchedInput}
      (phase : s.phase = .draining current result) (queue : s.queue = r.batch :: rest)
      (number : r.number = s.received) : Change s .drain ((s.afterRecv rest).defer r)
  | drained {r : Received} {result : Except String String} (phase : s.phase = .draining r result)
      (queue : s.queue = []) : Change s .drain { s with phase := .responding r result }
  | respond {r : Received} {result : Except String String} (phase : s.phase = .responding r result) :
      Change s .respond (s.respond r result)

theorem next_change (idle : s.phase = .idle) (h : s.next = some s') : Change s .next s' := by
  unfold InterfaceAgent.next at h
  split at h
  · rename_i r t hpop
    cases h
    obtain ⟨ds, hd, rfl⟩ := pop_some hpop
    exact .pop idle hd
  · rename_i hpop
    have hdeferred := pop_none hpop
    split at h
    · rename_i r t hrecv
      cases h
      obtain ⟨rest, hqueue, hnumber, rfl⟩ := recv_eq hrecv
      exact .take idle hdeferred hqueue hnumber
    · rename_i hrecv
      have hqueue := recv_none hrecv
      split at h <;> cases h
      rename_i hclosed
      exact .stop idle hdeferred hqueue hclosed

theorem additional_change {current : Received} {first : Option String} (phase : s.phase = .processing current)
    (h : s.recv = some (r, t)) : Change s (.additional first) (t.additional current.pair r first) := by
  obtain ⟨rest, hqueue, hnumber, rfl⟩ := recv_eq h
  unfold InterfaceAgent.additional
  split
  · rename_i hpair
    split
    · rename_i agents hsignal
      obtain ⟨id, rfl, hok⟩ := Option.map_eq_some_iff.1 hsignal
      exact .steer phase hqueue hnumber hpair hok
    · rename_i hrefused
      refine .defer phase hqueue hnumber fun _ id hid agents hok => hrefused agents ?_
      rw [hid, Option.map_some, ← hok]
  · rename_i hpair
    exact .defer phase hqueue hnumber fun he => absurd he hpair

theorem step_change (h : s.step a = some s') : Change s a s' := by
  cases a with
  | deliver b =>
    simp only [step] at h
    split at h <;> cases h
    rename_i hroom
    exact .deliver b hroom.2
  | close =>
    cases h
    exact .close
  | agents action =>
    obtain ⟨agents, -, rfl⟩ := Option.map_eq_some_iff.1 h
    exact .agents action agents
  | next =>
    simp only [step] at h
    split at h
    · rename_i idle
      exact next_change idle h
    · cases h
  | additional first =>
    simp only [step] at h
    split at h
    · rename_i current phase
      obtain ⟨⟨r, t⟩, hrecv, rfl⟩ := Option.map_eq_some_iff.1 h
      exact additional_change phase hrecv
    · cases h
  | complete result =>
    simp only [step] at h
    split at h <;> cases h
    rename_i phase
    exact .complete phase
  | drain =>
    simp only [step] at h
    split at h
    · rename_i phase
      split at h
      · rename_i r t hrecv
        cases h
        obtain ⟨rest, hqueue, hnumber, rfl⟩ := recv_eq hrecv
        exact .drain phase hqueue hnumber
      · rename_i hrecv
        have hqueue := recv_none hrecv
        cases h
        exact .drained phase hqueue
    · cases h
  | respond =>
    simp only [step] at h
    split at h <;> cases h
    rename_i phase
    exact .respond phase

end Auxlry.InterfaceAgent
