import Auxlry.Proof.Accounting

/-!
# Every batch is answered once

An answer is sent when processing has returned, with what it has returned, and before the
next batch is taken. So the answers of a run are read off the batches that were processed
and the results, in order.

* `Answered.run`: each action of a run keeps the account of the answers.
* `answered_in_order`: **the answers are those to the processed batches, in their order**, and
  in the end to all that were not handed over to an agent.
-/

namespace Auxlry

/-- The batch that is processed or answered. -/
def InterfacePhase.current : InterfacePhase → Option Received
  | .idle | .stopped => none
  | .processing r | .draining r _ | .responding r _ => some r

/-- The result that is not answered yet. -/
def InterfacePhase.result : InterfacePhase → Option (Except String String)
  | .idle | .stopped | .processing _ => none
  | .draining _ result | .responding _ result => some result

namespace InterfaceAgent

/-- The answer to a batch, through the adapters of its interface. -/
def answer (adapters : List String) (r : Received) (result : Except String String) : List Output :=
  let deliver (text : String) : List Output :=
    (adapters.filter (· = r.batch.interface)).map (.sentMessage · r.batch.channel text)
  match result with
  | .ok response =>
    .stored r.batch.interface r.batch.channel "auxlry" response "outbound" ::
      .published r.batch.interface r.batch.channel response :: deliver response
  | .error _ => deliver "Sorry, I ran into an issue. Want me to try again?"

variable {s s' t : InterfaceAgent} {a : Action} {as : List Action} {r : Received}
  {results : List (Except String String)} {answered : List Received}

theorem respond_outputs (s : InterfaceAgent) (r : Received) (result : Except String String) :
    (s.respond r result).outputs = s.outputs ++ answer s.adapters r result := by
  cases result with
  | ok response => rfl
  | error e => rfl

/-- What an action makes processing return. -/
def Action.result : Action → List (Except String String)
  | .complete result => [result]
  | _ => []

/-- The account of the answers: those to the batches that were processed, but for the one in
hand, each with its result. -/
structure Answered (s : InterfaceAgent) (answered : List Received) (results : List (Except String String)) :
    Prop where
  processed : s.processed = answered ++ s.phase.current.toList
  results : ∃ rs, rs.length = answered.length ∧ results = rs ++ s.phase.result.toList ∧
    s.outputs = (List.zipWith (answer s.adapters) answered rs).flatten

theorem answered_init (adapters : List String) : (init adapters).Answered [] [] :=
  ⟨rfl, [], rfl, rfl, rfl⟩

/-- A step that leaves the phase and the answers alone. -/
theorem Answered.keep (hs : s.Answered answered results) (adapters : s'.adapters = s.adapters)
    (processed : s'.processed = s.processed) (outputs : s'.outputs = s.outputs)
    (current : s'.phase.current = s.phase.current) (result : s'.phase.result = s.phase.result) :
    s'.Answered answered results := by
  obtain ⟨hprocessed, rs, hlength, hresults, houtputs⟩ := hs
  refine ⟨by rw [processed, current, hprocessed], rs, hlength, by rw [result, hresults], ?_⟩
  rw [adapters, outputs, houtputs]

/-- A batch is taken when there is none in hand. -/
theorem Answered.take (hs : s.Answered answered results) (idle : s.phase = .idle) (adapters : t.adapters = s.adapters)
    (processed : t.processed = s.processed) (outputs : t.outputs = s.outputs) :
    (t.process r).Answered answered results := by
  obtain ⟨hprocessed, rs, hlength, hresults, houtputs⟩ := hs
  rw [idle] at hprocessed hresults
  refine ⟨?_, rs, hlength, hresults, ?_⟩
  · show t.processed ++ [r] = answered ++ [r]
    rw [processed, hprocessed]
    simp [InterfacePhase.current]
  · show t.outputs = (List.zipWith (answer t.adapters) answered rs).flatten
    rw [adapters, outputs, houtputs]

/-- **Every step keeps the account**; a batch is answered in the step that responds. -/
theorem Answered.step (hs : s.Answered answered results) (h : s.step a = some s') :
    ∃ answered', s'.Answered answered' (results ++ a.result) := by
  cases step_change h with
  | deliver | close | agents | steer | defer | drain =>
    refine ⟨answered, ?_⟩
    rw [show Action.result _ = [] from rfl, List.append_nil]
    exact hs.keep rfl rfl rfl rfl rfl
  | pop idle | take idle =>
    refine ⟨answered, ?_⟩
    rw [show Action.result _ = [] from rfl, List.append_nil]
    exact hs.take idle rfl rfl rfl
  | stop idle =>
    refine ⟨answered, ?_⟩
    rw [show Action.result _ = [] from rfl, List.append_nil]
    exact hs.keep rfl rfl rfl (by rw [idle]; rfl) (by rw [idle]; rfl)
  | @complete r result phase =>
    obtain ⟨hprocessed, rs, hlength, hresults, houtputs⟩ := hs
    rw [phase] at hprocessed hresults
    refine ⟨answered, hprocessed, rs, hlength, ?_, houtputs⟩
    rw [hresults]
    simp [Action.result, InterfacePhase.result]
  | drained phase =>
    refine ⟨answered, ?_⟩
    rw [show Action.result _ = [] from rfl, List.append_nil]
    exact hs.keep rfl rfl rfl (by rw [phase]; rfl) (by rw [phase]; rfl)
  | @respond r result phase =>
    obtain ⟨hprocessed, rs, hlength, hresults, houtputs⟩ := hs
    rw [phase] at hprocessed hresults
    refine ⟨answered ++ [r], ?_, rs ++ [result], ?_, ?_, ?_⟩
    · show s.processed = answered ++ [r] ++ []
      rw [hprocessed, List.append_nil]
      rfl
    · rw [List.length_append, List.length_append, hlength]
      rfl
    · rw [hresults]
      simp [Action.result, InterfacePhase.result, InterfaceAgent.respond]
    · show (s.respond r result).outputs = (List.zipWith (answer s.adapters) _ _).flatten
      rw [respond_outputs, houtputs, List.zipWith_append hlength.symm, List.flatten_append]
      simp

theorem Answered.run (hs : s.Answered answered results) (h : Sys.run InterfaceAgent.step s as = some s') :
    ∃ answered', s'.Answered answered' (results ++ as.flatMap (·.result)) := by
  induction as generalizing s answered results with
  | nil =>
    cases h
    refine ⟨answered, ?_⟩
    rw [List.flatMap_nil, List.append_nil]
    exact hs
  | cons a as ih =>
    obtain ⟨t, ht, h⟩ := Option.bind_eq_some_iff.1 h
    obtain ⟨answered', hanswered⟩ := hs.step ht
    rw [List.flatMap_cons, ← List.append_assoc]
    exact ih hanswered h

theorem Accounts.run {delivered : List BatchedInput} (hs : s.Accounts delivered)
    (h : Sys.run InterfaceAgent.step s as = some s') : s'.Accounts (delivered ++ as.flatMap (·.delivered)) := by
  induction as generalizing s delivered with
  | nil =>
    cases h
    rw [List.flatMap_nil, List.append_nil]
    exact hs
  | cons a as ih =>
    obtain ⟨t, ht, h⟩ := Option.bind_eq_some_iff.1 h
    rw [List.flatMap_cons, ← List.append_assoc]
    exact ih (hs.step ht) h

theorem adapters_step (h : s.step a = some s') : s'.adapters = s.adapters := by
  cases step_change h with
  | deliver | close | agents | pop | take | stop | steer | defer | complete | drain | drained | respond => rfl

/-- Results beyond the batches that are answered add nothing. -/
theorem zipWith_append_right {α β γ : Type} (f : α → β → γ) {xs : List α} {ys : List β}
    (h : ys.length = xs.length) (zs : List β) : List.zipWith f xs (ys ++ zs) = List.zipWith f xs ys := by
  induction xs generalizing ys with
  | nil =>
    obtain rfl := List.length_eq_zero_iff.1 h
    rfl
  | cons x xs ih =>
    cases ys with
    | nil => cases h
    | cons y ys =>
      rw [List.cons_append, List.zipWith_cons_cons, List.zipWith_cons_cons, ih (Nat.succ.inj h)]

/-- **Every batch is answered once**, in every run: what was sent is the answer to each batch
that was processed, but for the one in hand, with the result of its own processing, in
their order. When the loop has ended these are all that were delivered and not handed over. -/
theorem answered_in_order {adapters : List String} (h : Sys.run step (init adapters) as = some s) :
    ∃ answered, s.processed = answered ++ s.phase.current.toList ∧
      s.outputs = (List.zipWith (answer adapters) answered (as.flatMap (·.result))).flatten ∧
      as.flatMap (·.result) = (as.flatMap (·.result)).take answered.length ++ s.phase.result.toList ∧
      (∀ r ∈ answered, (as.flatMap (·.delivered))[r.number]? = some r.batch) ∧
      (s.phase = .stopped → ((answered ++ s.steered).map (·.number)).Perm
        (List.range (as.flatMap (·.delivered)).length)) := by
  obtain ⟨answered, hprocessed, rs, hlength, hresults, houtputs⟩ := (answered_init adapters).run h
  have haccounts := (accounts_init adapters).run h
  have hadapters : s.adapters = adapters := Sys.inv_of_run (P := fun t => t.adapters = adapters)
    (fun _ _ _ ht hstep => (adapters_step hstep).trans ht) rfl h
  rw [List.nil_append] at hresults haccounts
  refine ⟨answered, hprocessed, ?_, ?_, fun r hr => ?_, fun hstop => ?_⟩
  · rw [houtputs, hresults, zipWith_append_right _ hlength, hadapters]
  · rw [hresults, ← hlength, List.take_left]
  · refine haccounts.batch r (List.mem_append_left _ (List.mem_append_left _ ?_))
    rw [hprocessed]
    exact List.mem_append_left _ hr
  · -- nothing is left in the channel, on the deferred list or in hand
    obtain ⟨-, hqueue, hdeferred⟩ := haccounts.stopped hstop
    rw [hstop] at hprocessed
    have hall : s.held = answered ++ s.steered := by
      rw [held, hdeferred, hprocessed]
      simp [InterfacePhase.current]
    have hdrop := haccounts.queue
    rw [hqueue] at hdrop
    have hle : (as.flatMap (·.delivered)).length ≤ s.received := List.drop_eq_nil_iff.1 hdrop.symm
    rw [← hall, hle.antisymm haccounts.received_le]
    exact haccounts.once

theorem answered_in_order_closedEarly :
    ∃ s, Sys.run step (init ["discord"]) Ledger.closedEarly = some s ∧ s.phase = .stopped ∧
      s.outputs = [.stored "discord" "1" "auxlry" "hello" "outbound", .published "discord" "1" "hello",
        .sentMessage "discord" "1" "hello",
        .sentMessage "discord" "2" "Sorry, I ran into an issue. Want me to try again?"] ∧
      ∃ answered, s.processed = answered ++ s.phase.current.toList ∧
        s.outputs = (List.zipWith (answer ["discord"]) answered [.ok "hello", .error "no"]).flatten := by
  have h : Sys.run step (init ["discord"]) Ledger.closedEarly = some _ := rfl
  obtain ⟨answered, hprocessed, houtputs, -⟩ := answered_in_order h
  exact ⟨_, h, rfl, rfl, answered, hprocessed, houtputs⟩

end InterfaceAgent

end Auxlry
