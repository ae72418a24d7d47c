import Auxlry.Proof.Batches

/-!
# The order of batches

Batches of one interface and channel should be processed in the order they were
received in. The deferred list is pushed and popped at the same end, so of two batches of
one channel on it the later one is processed first.

* `ordered_iff`: **batches are in order exactly in the runs where none is taken off the
  list past another of its channel.**
* `deferred_reversed`: two batches that arrive while a third is processed change places.
-/

namespace Auxlry.InterfaceAgent

/-- `r` may come before `q`: an earlier batch, or one of another channel. -/
def Before (r q : Received) : Prop := r.pair = q.pair → r.number < q.number

/-- Of each interface and channel, the processed batches are in the order they were
received in, and none of them was received after one that still waits. -/
def Ordered (s : InterfaceAgent) : Prop := (s.processed ++ s.deferred).Pairwise Before

/-- The batch that `pop` takes is the only one of its channel on the list. -/
def PopsAlone (s : InterfaceAgent) : Action → Prop
  | .next => ∀ ds r, s.deferred = ds ++ [r] → ∀ d ∈ ds, d.pair ≠ r.pair
  | _ => True

/-- The numbers given so far. -/
def Numbered (s : InterfaceAgent) : Prop := ∀ r ∈ s.processed ++ s.deferred, r.number < s.received

/-- What a step does to the batches. -/
inductive Move (s s' : InterfaceAgent) : Action → Prop
  | other {a : Action} (next : a = .next → s.deferred = []) (received : s.received ≤ s'.received)
      (deferred : s'.deferred = s.deferred) (processed : s'.processed = s.processed) : Move s s' a
  | popped {ds : List Received} {r : Received} (deferred : s.deferred = ds ++ [r])
      (received : s'.received = s.received) (rest : s'.deferred = ds)
      (processed : s'.processed = s.processed ++ [r]) : Move s s' .next
  | fresh {r : Received} (deferred : s.deferred = []) (number : r.number = s.received)
      (received : s'.received = s.received + 1) (rest : s'.deferred = [])
      (processed : s'.processed = s.processed ++ [r]) : Move s s' .next
  | defer {a : Action} {r : Received} (other : a ≠ .next) (number : r.number = s.received)
      (received : s'.received = s.received + 1) (deferred : s'.deferred = s.deferred ++ [r])
      (processed : s'.processed = s.processed) : Move s s' a

variable {s s' : InterfaceAgent} {a : Action} {r : Received}

/-- **What a step does to the batches.** -/
theorem step_move (h : s.step a = some s') : Move s s' a := by
  cases step_change h with
  | deliver | close | agents | complete | drained | respond => exact .other nofun le_rfl rfl rfl
  | stop _ deferred => exact .other (fun _ => deferred) le_rfl rfl rfl
  | steer => exact .other nofun (Nat.le_succ _) rfl rfl
  | pop _ deferred => exact .popped deferred rfl rfl rfl
  | take _ deferred _ number => exact .fresh deferred number rfl deferred rfl
  | defer _ _ number | drain _ _ number => exact .defer nofun number rfl rfl rfl

theorem Numbered.step (hJ : s.Numbered) (h : s.step a = some s') : s'.Numbered := by
  intro q hq
  cases step_move h with
  | other _ received deferred processed =>
    rw [deferred, processed] at hq
    exact (hJ q hq).trans_le received
  | @popped ds r deferred received rest processed =>
    have hold : q ∈ s.processed ++ s.deferred := by
      rw [rest, processed] at hq
      rw [deferred]
      simp only [List.mem_append] at hq ⊢
      tauto
    exact received ▸ hJ q hold
  | @fresh r deferred number received rest processed =>
    rw [rest, processed, List.append_nil] at hq
    rcases List.mem_append.1 hq with hq | hq
    · have := hJ q (List.mem_append_left _ hq)
      omega
    · rw [List.mem_singleton.1 hq]
      omega
  | @defer a r _ number received deferred processed =>
    rw [deferred, processed, ← List.append_assoc] at hq
    rcases List.mem_append.1 hq with hq | hq
    · have := hJ q hq
      omega
    · rw [List.mem_singleton.1 hq]
      omega

/-- A batch that was just received is the last. -/
theorem before_snoc {l : List Received} (hl : l.Pairwise Before) (hnew : ∀ q ∈ l, q.number < r.number) :
    (l ++ [r]).Pairwise Before := by
  refine List.pairwise_append.2 ⟨hl, List.pairwise_singleton .., fun q hq r' hr' _ => ?_⟩
  rw [List.mem_singleton.1 hr']
  exact hnew q hq

/-- The last of a list, moved to its front. -/
theorem pairwise_popped_iff {ps ds : List Received} (h : (ps ++ (ds ++ [r])).Pairwise Before) :
    ((ps ++ [r]) ++ ds).Pairwise Before ↔ ∀ d ∈ ds, d.pair ≠ r.pair := by
  have hold : ∀ d ∈ ds, Before d r := fun d hd =>
    (List.pairwise_append.1 (List.pairwise_append.1 h).2.1).2.2 d hd r (List.mem_singleton_self r)
  constructor
  · intro hnew d hd hpair
    have hr : Before r d :=
      (List.pairwise_append.1 hnew).2.2 r (List.mem_append_right _ (List.mem_singleton_self r)) d hd
    have h₁ := hr hpair.symm
    have h₂ := hold d hd hpair
    omega
  · intro hne
    obtain ⟨hps, hds, hcross⟩ := List.pairwise_append.1 h
    have hpr : (ps ++ [r]).Pairwise Before := by
      refine List.pairwise_append.2 ⟨hps, List.pairwise_singleton .., fun p hp r' hr' => ?_⟩
      exact hcross p hp r' (List.mem_append_right _ hr')
    refine List.pairwise_append.2 ⟨hpr, (List.pairwise_append.1 hds).1, fun p hp d hd => ?_⟩
    rcases List.mem_append.1 hp with hp | hp
    · exact hcross p hp d (List.mem_append_left _ hd)
    · -- `r` is of another channel than what it passes
      intro hpair
      rw [List.mem_singleton.1 hp] at hpair
      exact absurd hpair.symm (hne d hd)

/-- **One step** keeps the order exactly when it meets its guard. -/
theorem ordered_step (hJ : s.Numbered) (hP : s.Ordered) (h : s.step a = some s') :
    s'.Ordered ↔ s.PopsAlone a := by
  unfold Ordered at hP ⊢
  cases step_move h with
  | other next received deferred processed =>
    rw [deferred, processed]
    refine iff_of_true hP ?_
    unfold PopsAlone
    split
    · intro ds r hds
      rw [next rfl] at hds
      simp at hds
    · trivial
  | @popped ds r deferred received rest processed =>
    -- only here can a batch pass another
    rw [deferred] at hP
    rw [rest, processed, pairwise_popped_iff hP]
    constructor
    · intro hne ds' r' hds'
      obtain ⟨rfl, hr⟩ := List.append_inj' (deferred.symm.trans hds') rfl
      cases hr
      exact hne
    · intro hg
      exact hg ds r deferred
  | @fresh r deferred number received rest processed =>
    have hnew : ∀ q ∈ s.processed ++ s.deferred, q.number < r.number := fun q hq => number ▸ hJ q hq
    rw [deferred, List.append_nil] at hP hnew
    rw [rest, processed, List.append_nil]
    refine iff_of_true (before_snoc hP hnew) fun ds r' hds => ?_
    rw [deferred] at hds
    simp at hds
  | @defer a r other number received deferred processed =>
    have hnew : ∀ q ∈ s.processed ++ s.deferred, q.number < r.number := fun q hq => number ▸ hJ q hq
    rw [deferred, processed, ← List.append_assoc]
    refine iff_of_true (before_snoc hP hnew) ?_
    unfold PopsAlone
    split
    · exact absurd rfl other
    · trivial

/-- **Batches are in order** in a run exactly when none is popped past another of its
interface and channel. -/
theorem ordered_iff (adapters : List String) (as : List Action) :
    (∀ s, Sys.Visits InterfaceAgent.step (init adapters) as s → s.Ordered) ↔
      ∀ s a, Sys.Takes InterfaceAgent.step (init adapters) as s a → s.PopsAlone a :=
  Sys.visits_iff_takes (fun _ _ _ hJ _ _ => Numbered.step hJ) (fun _ _ _ => ordered_step) as
    nofun .nil

/-- One message on a channel of Discord. -/
def oneMessage (channel content : String) : BatchedInput := ⟨"discord", channel, [⟨"ann", content, 0⟩]⟩

/-- Two batches of a channel, while a batch of another is processed. -/
def twoDeferred : List Action :=
  [.deliver (oneMessage "1" "hi"), .next, .deliver (oneMessage "2" "first"), .deliver (oneMessage "2" "second"),
    .additional none, .additional none, .complete (.ok "hello"), .drain, .respond,
    .next, .complete (.ok "to the second"), .drain, .respond, .next]

/-- The later of the two is processed, and answered, first. -/
theorem deferred_reversed : ∃ s, Sys.run InterfaceAgent.step (init ["discord"]) twoDeferred = some s ∧
    s.processed = [⟨oneMessage "1" "hi", 0⟩, ⟨oneMessage "2" "second", 2⟩, ⟨oneMessage "2" "first", 1⟩] ∧
    ¬ s.Ordered := by
  have h : Sys.run InterfaceAgent.step (init ["discord"]) twoDeferred = some _ := rfl
  refine ⟨_, h, rfl, ?_⟩
  intro hord
  have hlater := List.rel_of_pairwise_cons (List.pairwise_cons.1 hord).2 (List.mem_singleton_self _) rfl
  exact absurd hlater (by decide)

end Auxlry.InterfaceAgent
