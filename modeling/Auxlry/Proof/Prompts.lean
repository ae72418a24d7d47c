import Auxlry.Proof.Conversation

/-!
# What a batch is told to the model

The prompts of a batch are all alike: the same preamble and history, and the batch. One follows
another after a transient error and a pause, and there are three at most. The answer is what the
last one said.

* `Transcript`: the prompts up to where `process_batch` stands.
* `Conversation.answered_from_prompts`: **what is answered is what the model has said**, in every
  reachable state, and what else is done for a batch.
-/

namespace Auxlry

variable {K : Type}

/-- The end of a prompt after which there may be another. -/
def PromptEnd.transient : PromptEnd → Bool
  | .error message => isTransient message
  | _ => false

/-- What belongs to a prompt itself, and not to a tool. -/
def BatchEffect.ofPrompt : BatchEffect K → Bool
  | .sleep _ | .prompt .. | .promptEnded _ => true
  | _ => false

/-- What an effect may be, for a batch. -/
def BatchEffect.For (adapters : List String) (r : Received) : BatchEffect K → Prop
  | .prompt _ _ input _ => input = r.batch.combined
  | .sendMessage adapter channel text =>
    adapter ∈ adapters ∧ (adapter, channel) = r.pair ∧ text ≠ "" ∧ ∃ ack, text = trim ack
  | .getRecentMessages interface channel _ => (interface, channel) = r.pair
  | _ => True

namespace Conversation

/-- Prompts that have ended. -/
def talk (r : Received) (setup : BatchSetup) (ends : List PromptEnd) : List (BatchEffect K) :=
  ends.zipIdx.flatMap fun x => promptEffects r setup x.2 ++ [.promptEnded x.1]

theorem talk_snoc (r : Received) (setup : BatchSetup) (ends : List PromptEnd) (e : PromptEnd) :
    (talk r setup (ends ++ [e]) : List (BatchEffect K)) =
      talk r setup ends ++ (promptEffects r setup ends.length ++ [.promptEnded e]) := by
  unfold talk
  rw [List.zipIdx_append, List.flatMap_append]
  simp

/-- The prompts of a batch, up to where `process_batch` stands. -/
inductive Transcript (r : Received) : BatchPhase → List (BatchEffect K) → Prop
  | preparing : Transcript r .preparing []
  | unprepared (e : String) : Transcript r (.ended (.error e)) []
  | ready {setup : BatchSetup} {ends : List PromptEnd} (transient : ∀ e ∈ ends, e.transient = true)
      (few : ends.length ≤ maxRetries) : Transcript r (.ready setup ends.length) (talk r setup ends)
  | prompting {setup : BatchSetup} {ends : List PromptEnd} (transient : ∀ e ∈ ends, e.transient = true)
      (few : ends.length ≤ maxRetries) :
      Transcript r (.prompting setup ends.length) (talk r setup ends ++ promptEffects r setup ends.length)
  | ended {setup : BatchSetup} {ends : List PromptEnd} {last : PromptEnd} {result : Except String String}
      (transient : ∀ e ∈ ends, e.transient = true) (few : ends.length ≤ maxRetries)
      (outcome : afterPrompt setup ends.length last = .ended result) :
      Transcript r (.ended result) (talk r setup (ends ++ [last]))

theorem Transcript.of_preparing {r : Received} {told : List (BatchEffect K)} (h : Transcript r .preparing told) :
    told = [] := by
  cases h
  rfl

/-- What is ready is prompted. -/
theorem Transcript.prompt {r : Received} {setup : BatchSetup} {attempt : ℕ} {told : List (BatchEffect K)}
    (h : Transcript r (.ready setup attempt) told) :
    Transcript r (.prompting setup attempt) (told ++ promptEffects r setup attempt) := by
  cases h with
  | ready transient few => exact .prompting transient few

/-- A prompt is the last one, or another may follow. -/
theorem afterPrompt_cases (setup : BatchSetup) (attempt : ℕ) (e : PromptEnd) :
    (∃ result, afterPrompt setup attempt e = .ended result) ∨
      e.transient = true ∧ attempt < maxRetries ∧ afterPrompt setup attempt e = .ready setup (attempt + 1) := by
  cases e with
  | response text => exact .inl ⟨_, rfl⟩
  | maxTurns => exact .inl ⟨_, rfl⟩
  | error message =>
    simp only [afterPrompt, PromptEnd.transient]
    by_cases htransient : isTransient message = true
    · by_cases hfew : attempt < maxRetries
      · rw [if_pos htransient, if_pos hfew]
        exact .inr ⟨htransient, hfew, rfl⟩
      · rw [if_pos htransient, if_neg hfew]
        exact .inl ⟨_, rfl⟩
    · rw [if_neg htransient]
      exact .inl ⟨_, rfl⟩

/-- A prompt ends. -/
theorem Transcript.promptEnds {r : Received} {setup : BatchSetup} {attempt : ℕ} {told : List (BatchEffect K)}
    (h : Transcript r (.prompting setup attempt) told) (e : PromptEnd) :
    Transcript r (afterPrompt setup attempt e) (told ++ [.promptEnded e]) := by
  cases h with
  | @prompting _ ends transient few =>
    rw [List.append_assoc, ← talk_snoc]
    rcases afterPrompt_cases setup ends.length e with ⟨result, hafter⟩ | ⟨he, hlt, hafter⟩
    · rw [hafter]
      exact .ended transient few hafter
    · have hlength : (ends ++ [e]).length = ends.length + 1 := List.length_append
      rw [hafter, ← hlength]
      refine .ready (fun x hx => ?_) (hlength ▸ hlt)
      rcases List.mem_append.1 hx with hx | hx
      · exact transient x hx
      · rwa [List.mem_singleton.1 hx]

section

variable {r : Received} {adapters : List String}

/-- A result is the response to the last prompt; the others ended in transient errors. -/
theorem Transcript.response {text : String} {told : List (BatchEffect K)} (h : Transcript r (.ended (.ok text)) told) :
    ∃ setup ends, (∀ e ∈ ends, e.transient = true) ∧ ends.length ≤ maxRetries ∧
      told = talk r setup (ends ++ [.response text]) := by
  cases h with
  | @ended setup ends last _ transient few outcome =>
    refine ⟨setup, ends, transient, few, ?_⟩
    cases last with
    | response text' =>
      cases outcome
      rfl
    | maxTurns => cases outcome
    | error message =>
      simp only [afterPrompt] at outcome
      split at outcome
      · split at outcome <;> cases outcome
      · cases outcome

/-- An acknowledgement is sent to the adapters of the interface, on the channel of the batch. -/
theorem mem_sendAck {interface channel ack : String} {e : BatchEffect K}
    (h : e ∈ sendAck adapters interface channel ack) :
    trim ack ≠ "" ∧ interface ∈ adapters ∧ e = .sendMessage interface channel (trim ack) := by
  unfold sendAck at h
  split at h
  · cases h
  · rename_i hack
    obtain ⟨adapter, hadapter, rfl⟩ := List.mem_map.1 h
    obtain ⟨hmem, hname⟩ := List.mem_filter.1 hadapter
    obtain rfl := of_decide_eq_true hname
    exact ⟨hack, hmem, rfl⟩

/-- What a tool call does is for its batch, -/
theorem for_of_goes [Zero K] {run : ToolRun} {effects : List (BatchEffect K)} {next : ToolPhase}
    (h : run.Goes adapters r effects next) : ∀ e ∈ effects, e.For adapters r := by
  intro e he
  have hack : ∀ ack, e ∈ sendAck adapters r.batch.interface r.batch.channel ack → e.For adapters r := by
    intro ack hmem
    obtain ⟨hne, hname, rfl⟩ := mem_sendAck hmem
    exact ⟨hname, rfl, hne, ack, rfl⟩
  cases h with
  | ackSynapse | ackOperator => exact hack _ he
  | noMemory => cases he
  | search =>
    rw [List.mem_singleton.1 he]
    trivial
  | read =>
    rw [List.mem_singleton.1 he]
    exact rfl

/-- and is none of its prompts. -/
theorem no_prompt_of_goes [Zero K] {run : ToolRun} {effects : List (BatchEffect K)} {next : ToolPhase}
    (h : run.Goes adapters r effects next) : effects.filter BatchEffect.ofPrompt = [] := by
  have hack : ∀ ack, (sendAck adapters r.batch.interface r.batch.channel ack : List (BatchEffect K)).filter
      BatchEffect.ofPrompt = [] := by
    intro ack
    refine List.filter_eq_nil_iff.2 fun e he => ?_
    obtain ⟨-, -, rfl⟩ := mem_sendAck he
    exact Bool.false_ne_true
  cases h with
  | ackSynapse | ackOperator => exact hack _
  | noMemory | search | read => rfl

end

/-! ## What was done for a batch -/

/-- The prompts of a batch, and their ends. -/
def told (s : Conversation K) (r : Received) : List (BatchEffect K) :=
  (s.effects.filter fun x => x.1 = r && x.2.ofPrompt).map Prod.snd

variable {s s' : Conversation K} {r r' : Received} {adapters : List String}

theorem told_does_self (effects : List (BatchEffect K)) :
    (s.does r effects).told r = s.told r ++ effects.filter BatchEffect.ofPrompt := by
  unfold told does
  rw [List.filter_append, List.map_append, List.filter_map, List.map_map]
  simp [Function.comp_def]

theorem told_does_ne (hr : r' ≠ r) (effects : List (BatchEffect K)) : (s.does r effects).told r' = s.told r' := by
  unfold told does
  rw [List.filter_append, List.map_append, List.filter_map]
  simp [Function.comp_def, hr.symm]

theorem filter_promptEffects (r : Received) (setup : BatchSetup) (attempt : ℕ) :
    (promptEffects r setup attempt : List (BatchEffect K)).filter BatchEffect.ofPrompt = promptEffects r setup attempt := by
  unfold promptEffects
  split <;> rfl

/-! ## Every batch, in every state -/

/-- No batch is processed twice. -/
theorem processed_nodup {i : InterfaceAgent} {delivered : List BatchedInput} (h : i.Accounts delivered) :
    i.processed.Nodup := by
  have hnodup : (i.held.map (·.number)).Nodup := h.once.nodup_iff.2 List.nodup_range
  refine List.Nodup.of_map (·.number) (hnodup.sublist (List.Sublist.map _ ?_))
  unfold InterfaceAgent.held
  rw [List.append_assoc]
  exact List.sublist_append_left ..

/-- Batches without a result add nothing. -/
theorem zip_append_left {α β : Type} {xs : List α} {ys : List β} (h : xs.length = ys.length) (zs : List α) :
    (xs ++ zs).zip ys = xs.zip ys := by
  have hzip : (xs ++ zs).zip (ys ++ []) = xs.zip ys ++ zs.zip [] := List.zip_append h
  rw [List.append_nil, List.zip_nil_right, List.append_nil] at hzip
  exact hzip

/-- While no result waits for its answer, the results are those of the answered batches. -/
theorem zip_results {i : InterfaceAgent} {answered : List Received} {results : List (Except String String)}
    (h : i.Answered answered results) (hresult : i.phase.result = none) :
    results.length = answered.length ∧ i.processed.zip results = answered.zip results := by
  obtain ⟨hprocessed, rs, hlength, hresults, -⟩ := h
  rw [hresult] at hresults
  obtain rfl : results = rs := hresults.trans (List.append_nil rs)
  refine ⟨hlength, ?_⟩
  rw [hprocessed]
  exact zip_append_left hlength.symm _

/-- **What holds of the effects**: they are for batches that were taken up, the prompts of the
batch in hand are those up to where it stands, and those of the others ended in their result. -/
structure Tells (adapters : List String) (s : Conversation K) : Prop where
  accounts : ∃ delivered, s.interface.Accounts delivered
  same : s.interface.adapters = adapters
  effects : ∀ x ∈ s.effects, x.1 ∈ s.interface.processed ∧ x.2.For adapters x.1
  current : ∀ r, s.interface.phase = .processing r → Transcript r s.batch (s.told r)
  answered : ∃ answered results, s.interface.Answered answered results ∧
    ∀ x ∈ s.interface.processed.zip results, Transcript x.1 (.ended x.2) (s.told x.1)

theorem tells_init (adapters : List String) : Tells adapters (init adapters : Conversation K) where
  accounts := ⟨[], InterfaceAgent.accounts_init adapters⟩
  same := rfl
  effects x hx := by cases hx
  current r hr := by cases hr
  answered := ⟨[], [], InterfaceAgent.answered_init adapters, by intro x hx; cases hx⟩

/-- A step of the interface agent in which processing neither begins nor ends. -/
theorem Tells.interface (hT : Tells adapters s) {b : InterfaceAgent.Action}
    (step : s.interface.step b = some s'.interface) (heffects : s'.effects = s.effects)
    (hprocessed : s'.interface.processed = s.interface.processed) (hresult : b.result = [])
    (hphase : ∀ r, s'.interface.phase = .processing r → s.interface.phase = .processing r ∧ s'.batch = s.batch) :
    Tells adapters s' := by
  obtain ⟨delivered, haccounts⟩ := hT.accounts
  obtain ⟨answered, results, hanswered, htold⟩ := hT.answered
  have hsame : ∀ r, s'.told r = s.told r := by
    intro r
    unfold told
    rw [heffects]
  obtain ⟨answered', hanswered'⟩ := hanswered.step step
  rw [hresult, List.append_nil] at hanswered'
  refine ⟨⟨_, haccounts.step step⟩, (InterfaceAgent.adapters_step step).trans hT.same, fun x hx => ?_,
    fun r hr => ?_, answered', results, hanswered', fun x hx => ?_⟩
  · rw [heffects] at hx
    rw [hprocessed]
    exact hT.effects x hx
  · obtain ⟨hr, hbatch⟩ := hphase r hr
    rw [hbatch, hsame]
    exact hT.current r hr
  · rw [hprocessed] at hx
    rw [hsame]
    exact htold x hx

/-- Something is done for the batch in hand. -/
theorem Tells.work (hT : Tells adapters s) (phase : s.interface.phase = .processing r)
    (hinterface : s'.interface = s.interface) {effects : List (BatchEffect K)}
    (heffects : s'.effects = (s.does r effects).effects) (hfor : ∀ e ∈ effects, e.For adapters r)
    (hnext : Transcript r s.batch (s.told r) →
      Transcript r s'.batch (s.told r ++ effects.filter BatchEffect.ofPrompt)) : Tells adapters s' := by
  obtain ⟨delivered, haccounts⟩ := hT.accounts
  obtain ⟨answered, results, hanswered, htold⟩ := hT.answered
  have hsame : ∀ q, s'.told q = (s.does r effects).told q := by
    intro q
    unfold told
    rw [heffects]
  refine ⟨⟨delivered, by rw [hinterface]; exact haccounts⟩, by rw [hinterface]; exact hT.same,
    fun x hx => ?_, fun q hq => ?_, answered, results, by rw [hinterface]; exact hanswered, fun x hx => ?_⟩
  · rw [heffects] at hx
    rw [hinterface]
    rcases List.mem_append.1 hx with hx | hx
    · exact hT.effects x hx
    · obtain ⟨e, he, rfl⟩ := List.mem_map.1 hx
      exact ⟨haccounts.current r phase, hfor e he⟩
  · rw [hinterface, phase] at hq
    cases hq
    rw [hsame, told_does_self]
    exact hnext (hT.current r phase)
  · rw [hinterface] at hx
    -- the batch in hand has no result yet
    have hne : x.1 ≠ r := by
      have hresult : s.interface.phase.result = none := by rw [phase]; rfl
      rw [(zip_results hanswered hresult).2] at hx
      have hnodup := processed_nodup haccounts
      rw [hanswered.processed, phase] at hnodup
      rintro rfl
      exact (List.nodup_append.1 hnodup).2.2 _ (List.of_mem_zip hx).1 _ (List.mem_singleton_self _) rfl
    rw [hsame, told_does_ne hne]
    exact htold x hx

/-- Nothing is done for the batch in hand, though its processing goes on. -/
theorem Tells.quiet (hT : Tells adapters s) (phase : s.interface.phase = .processing r)
    (hinterface : s'.interface = s.interface) (heffects : s'.effects = s.effects)
    (hnext : ∀ told : List (BatchEffect K), Transcript r s.batch told → Transcript r s'.batch told) :
    Tells adapters s' := by
  have hnone : s'.effects = (s.does r []).effects := by
    rw [heffects]
    exact (List.append_nil _).symm
  refine hT.work phase hinterface hnone (fun e he => ?_) fun htold => ?_
  · cases he
  · rw [List.filter_nil, List.append_nil]
    exact hnext _ htold

/-- A batch is taken up, and nothing was done for it before. -/
theorem Tells.take (hT : Tells adapters s) (step : s.interface.step .next = some s'.interface)
    (heffects : s'.effects = s.effects) (hbatch : s'.batch = .preparing) (idle : s.interface.phase = .idle)
    (hprocessed : s'.interface.processed = s.interface.processed ++ [r])
    (hphase : s'.interface.phase = .processing r) : Tells adapters s' := by
  obtain ⟨delivered, haccounts⟩ := hT.accounts
  obtain ⟨answered, results, hanswered, htold⟩ := hT.answered
  have haccounts' := haccounts.step step
  have hsame : ∀ q, s'.told q = s.told q := by
    intro q
    unfold told
    rw [heffects]
  have hfresh : r ∉ s.interface.processed := by
    have hnodup := processed_nodup haccounts'
    rw [hprocessed] at hnodup
    intro hr
    exact (List.nodup_append.1 hnodup).2.2 r hr r (List.mem_singleton_self r) rfl
  have hnone : s.told r = [] := by
    unfold told
    rw [List.filter_eq_nil_iff.2, List.map_nil]
    intro x hx h
    have hxr : x.1 = r := of_decide_eq_true (Bool.and_eq_true_iff.1 h).1
    exact hfresh (hxr ▸ (hT.effects x hx).1)
  obtain ⟨answered', hanswered'⟩ := hanswered.step step
  have hresults : results ++ InterfaceAgent.Action.next.result = results := List.append_nil results
  rw [hresults] at hanswered'
  refine ⟨⟨_, haccounts'⟩, (InterfaceAgent.adapters_step step).trans hT.same, fun x hx => ?_,
    fun q hq => ?_, answered', results, hanswered', fun x hx => ?_⟩
  · rw [heffects] at hx
    rw [hprocessed]
    obtain ⟨hmem, hfor⟩ := hT.effects x hx
    exact ⟨List.mem_append_left _ hmem, hfor⟩
  · rw [hphase] at hq
    cases hq
    rw [hbatch, hsame, hnone]
    exact .preparing
  · have hlength : s.interface.processed.length = results.length := by
      have hresult : s.interface.phase.result = none := by rw [idle]; rfl
      have hcurrent : s.interface.phase.current.toList = [] := by rw [idle]; rfl
      rw [(zip_results hanswered hresult).1, hanswered.processed, hcurrent, List.append_nil]
    rw [hprocessed, zip_append_left hlength] at hx
    rw [hsame]
    exact htold x hx

/-- Processing ends. -/
theorem Tells.complete (hT : Tells adapters s) {result : Except String String}
    (phase : s.interface.phase = .processing r) (batch : s.batch = .ended result) :
    Tells adapters { s with interface := { s.interface with phase := .draining r result } } := by
  obtain ⟨delivered, haccounts⟩ := hT.accounts
  obtain ⟨answered, results, hanswered, htold⟩ := hT.answered
  have step : s.interface.step (.complete result) = some { s.interface with phase := .draining r result } := by
    simp only [InterfaceAgent.step, phase]
  obtain ⟨answered', hanswered'⟩ := hanswered.step step
  refine ⟨⟨_, haccounts.step step⟩, hT.same, hT.effects, fun q hq => ?_, answered', _, hanswered', fun x hx => ?_⟩
  · cases hq
  · have hresult : s.interface.phase.result = none := by rw [phase]; rfl
    obtain ⟨hlength, hzip⟩ := zip_results hanswered hresult
    have hprocessed : s.interface.processed = answered ++ [r] := by
      rw [hanswered.processed, phase]
      rfl
    have hsplit : s.interface.processed.zip (results ++ [result]) =
        s.interface.processed.zip results ++ [(r, result)] := by
      rw [hzip, hprocessed, List.zip_append hlength.symm]
      rfl
    have hmem : x ∈ s.interface.processed.zip results ++ [(r, result)] := hsplit ▸ hx
    rcases List.mem_append.1 hmem with hx | hx
    · exact htold x hx
    · cases List.mem_singleton.1 hx
      have hcurrent := hT.current r phase
      rw [batch] at hcurrent
      exact hcurrent

theorem Tells.step [Zero K] {a : Action K} (hT : Tells adapters s) (h : s.step a = some s') :
    Tells adapters s' := by
  cases step_change h with
  | next step =>
    cases InterfaceAgent.step_change step with
    | pop idle | take idle => exact hT.take step rfl rfl idle rfl rfl
    | stop => exact hT.interface step rfl rfl rfl (by intro r hr; cases hr)
  | interface step other =>
    cases InterfaceAgent.step_change step with
    | deliver | close | agents | steer | defer => exact hT.interface step rfl rfl rfl fun _ hr => ⟨hr, rfl⟩
    | pop | take | stop => exact absurd rfl other.1
    | complete => exact absurd rfl (other.2.2 _)
    | drain phase => exact hT.interface step rfl rfl rfl fun _ hr => ⟨hr, rfl⟩
    | drained | respond => exact hT.interface step rfl rfl rfl (by intro r hr; cases hr)
  | unprepared phase batch =>
    refine hT.quiet phase rfl rfl fun told htold => ?_
    rw [batch] at htold
    rw [htold.of_preparing]
    exact .unprepared _
  | @prepare r setup phase batch =>
    refine hT.work phase rfl rfl (fun e he => ?_) fun htold => ?_
    · rw [List.mem_singleton.1 he]
      exact rfl
    · rw [batch] at htold
      rw [htold.of_preparing]
      have hnone : ∀ e ∈ ([] : List PromptEnd), e.transient = true := by
        intro e he
        cases he
      exact .ready hnone (Nat.zero_le _)
  | @prompt r setup attempt phase batch =>
    refine hT.work phase rfl rfl (fun e he => ?_) fun htold => ?_
    · unfold promptEffects at he
      rcases List.mem_append.1 he with he | he
      · split at he
        · rw [List.mem_singleton.1 he]
          trivial
        · cases he
      · rw [List.mem_singleton.1 he]
        exact rfl
    · rw [batch] at htold
      rw [filter_promptEffects]
      exact htold.prompt
  | tool phase calls fresh absent => exact hT.quiet phase rfl rfl fun _ htold => htold
  | @goes r id run effects next phase found goes =>
    have heffects : (∀ e ∈ effects, e.For adapters r) ∧ effects.filter BatchEffect.ofPrompt = [] := by
      rw [← hT.same]
      exact ⟨for_of_goes goes, no_prompt_of_goes goes⟩
    refine hT.work phase rfl rfl heffects.1 fun htold => ?_
    rw [heffects.2, List.append_nil]
    exact htold
  | @agents r action agents phase admitted step =>
    have hi : s.interface.step (.agents action) = some { s.interface with agents := agents } := by
      simp only [InterfaceAgent.step, step]
      rfl
    exact hT.interface hi rfl rfl rfl fun _ hr => ⟨hr, rfl⟩
  | returns phase found ended => exact hT.quiet phase rfl rfl fun _ htold => htold
  | @promptEnds r setup attempt e phase batch runs =>
    refine hT.work phase rfl rfl (fun e he => ?_) fun htold => ?_
    · rw [List.mem_singleton.1 he]
      trivial
    · rw [batch] at htold
      exact htold.promptEnds e
  | complete phase batch => exact hT.complete phase batch
  | @signal id sig agents step =>
    have hi : s.interface.step (.agents (.signal id sig)) = some { s.interface with agents := agents } := by
      simp only [InterfaceAgent.step, step]
      rfl
    exact hT.interface hi rfl rfl rfl fun _ hr => ⟨hr, rfl⟩

/-- **What is answered is what the model has said**, in every reachable state: the answers sent are
those to the batches that were processed, but for the one in hand, in their order. The prompts of
each are those of the batch, one after another while they end in transient errors, three at most,
and a text that is answered is the response to the last. All that is done meanwhile is for the
batch: its acknowledgements go to its channel, and only that channel is read. -/
theorem answered_from_prompts [Zero K] (h : Sys.Reaches step (init adapters : Conversation K) s) :
    ∃ answered results, s.interface.processed = answered ++ s.interface.phase.current.toList ∧
      results.length = answered.length ∧
      s.interface.outputs = (List.zipWith (InterfaceAgent.answer adapters) answered results).flatten ∧
      (∀ x ∈ answered.zip results, Transcript x.1 (.ended x.2) (s.told x.1) ∧
        ∀ text, x.2 = .ok text → ∃ setup ends, (∀ e ∈ ends, e.transient = true) ∧ ends.length ≤ maxRetries ∧
          s.told x.1 = talk x.1 setup (ends ++ [.response text])) ∧
      (∀ r, s.interface.phase = .processing r → Transcript r s.batch (s.told r)) ∧
      ∀ x ∈ s.effects, x.1 ∈ s.interface.processed ∧ x.2.For adapters x.1 := by
  have hT : Tells adapters s := h.inv (fun _ _ _ hT hstep => Tells.step hT hstep) (tells_init adapters)
  obtain ⟨answered, results, ⟨hprocessed, rs, hlength, hresults, houtputs⟩, htold⟩ := hT.answered
  rw [hT.same] at houtputs
  refine ⟨answered, rs, hprocessed, hlength, houtputs, fun x hx => ?_, hT.current, hT.effects⟩
  have hmem : x ∈ s.interface.processed.zip results := by
    rw [hprocessed, hresults, List.zip_append hlength.symm]
    exact List.mem_append_left _ hx
  have hended := htold x hmem
  refine ⟨hended, ?_⟩
  rintro text htext
  rw [htext] at hended
  exact hended.response

/-- A prompt that fails and is made again, after an acknowledgement. -/
def retried : List (Action ℕ) :=
  [.interface (.deliver (InterfaceAgent.oneMessage "1" "hello")), .interface .next, .prepare (.ok "") (.ok []),
    .prompt, .tool "o" (.delegateOperator "look" " one moment " none), .ack "o", .returns "o",
    .promptEnds (.error "JsonError"), .prompt, .promptEnds (.response "hi"), .complete, .interface .drain,
    .interface .respond]

/-- The second response is answered. -/
theorem answered_from_prompts_retried : ∃ s, Sys.run step (init ["discord"]) retried = some s ∧
    s.interface.outputs = [.stored "discord" "1" "auxlry" "hi" "outbound", .published "discord" "1" "hi",
      .sentMessage "discord" "1" "hi"] ∧
    ∀ x ∈ s.effects, x.1 ∈ s.interface.processed ∧ x.2.For ["discord"] x.1 := by
  have h : Sys.run step (init ["discord"]) retried = some _ := rfl
  obtain ⟨-, -, -, -, -, -, -, heffects⟩ := answered_from_prompts ⟨_, h⟩
  exact ⟨_, h, rfl, heffects⟩

end Conversation

end Auxlry
