import Auxlry.Proof.Answers
import Auxlry.Spec.Typing

/-!
# Typing indicators are sparse, and end with the answer

A task sees a dropped handle only when it looks at the flag, so an indicator may still be
sent after the answer, but no second one. Between two of them there are sixteen sleeps.

* `TypingTask.Inv.step`: what a task keeps, whether or not its handle is dropped.
* `typing_bounded`: **the indicators of a batch are eight seconds apart, in its channel, and
  one is late at most**.
-/

namespace Auxlry

/-- How far two indicators are apart, at least. -/
def typingGap : ℕ := typingSleepMs * typingSleeps

/-- Times in a span that are apart by `d` are not many. -/
theorem length_mul_le {d start stop : ℕ} {times : List ℕ} (hapart : times.Pairwise fun a b => a + d ≤ b)
    (hspan : ∀ a ∈ times, start ≤ a ∧ a ≤ stop) (hle : start ≤ stop) :
    times.length * d ≤ stop - start + d := by
  induction times generalizing start with
  | nil => simp
  | cons a times ih =>
    obtain ⟨hfirst, hrest⟩ := List.pairwise_cons.1 hapart
    obtain ⟨hstart, hstop⟩ := hspan a List.mem_cons_self
    rw [List.length_cons, Nat.add_mul, Nat.one_mul]
    rcases Nat.lt_or_ge stop (a + d) with hlt | hge
    · -- no other one has room
      have hnone : times = [] := by
        refine List.eq_nil_iff_forall_not_mem.2 fun b hb => ?_
        have hlate := hfirst b hb
        have hearly := (hspan b (List.mem_cons_of_mem _ hb)).2
        omega
      rw [hnone]
      simp
    · have hbound := ih hrest (fun b hb => ⟨hfirst b hb, (hspan b (List.mem_cons_of_mem _ hb)).2⟩) hge
      omega

namespace TypingTask

/-- The times of the indicators. -/
def times (t : TypingTask) : List ℕ := t.sent.map (·.1)

/-- The indicators that were sent when the handle was dropped already. -/
def late (t : TypingTask) : List (ℕ × Bool) := t.sent.filter (!·.2)

/-- How long ago the last indicator was, by where the task is. -/
def Rested (now : ℕ) (times : List ℕ) : TypingPhase → Prop
  | .loop | .send => ∀ a ∈ times, a + typingGap ≤ now
  | .sending => ∀ a ∈ times, a ≤ now
  | .slept n => n ≤ typingSleeps ∧ ∀ a ∈ times, a + typingSleepMs * n ≤ now
  | .asleep n wakeAt => n < typingSleeps ∧ ∀ a ∈ times, a + typingSleepMs * (n + 1) ≤ wakeAt
  | .ended => True

structure Inv (now : ℕ) (t : TypingTask) : Prop where
  apart : t.times.Pairwise fun a b => a + typingGap ≤ b
  rested : Rested now t.times t.phase
  span : ∀ a ∈ t.sent, t.startedAt ≤ a.1 ∧ a.1 ≤ now
  started : t.startedAt ≤ now
  held : t.active = true → t.droppedAt = none ∧ t.late = []
  dropped : t.active = false → ∃ d, t.droppedAt = some d ∧ t.startedAt ≤ d ∧ d ≤ now ∧
    ∀ a ∈ t.sent, a.2 = true → a.1 ≤ d
  late : t.late.length ≤ 1
  /-- an indicator that is about to be sent is the only late one -/
  sending : t.phase = .send → t.late = []

variable {t t' : TypingTask} {now : ℕ}

theorem Rested.mono {times : List ℕ} {p : TypingPhase} (h : Rested now times p) (ms : ℕ) :
    Rested (now + ms) times p := by
  cases p with
  | loop | send | sending => exact fun a ha => (h a ha).trans (Nat.le_add_right _ _)
  | slept n => exact ⟨h.1, fun a ha => (h.2 a ha).trans (Nat.le_add_right _ _)⟩
  | asleep n wakeAt => exact h
  | ended => trivial

theorem inv_start (adapters : List String) (interface channel : String) (now : ℕ) :
    (start adapters interface channel now).Inv now := by
  refine ⟨.nil, ?_, fun a ha => (by cases ha), Nat.le_refl _, fun _ => ⟨rfl, rfl⟩, fun h => (by cases h),
    Nat.zero_le _, fun _ => rfl⟩
  unfold start
  dsimp only
  split
  · exact fun a ha => by cases ha
  · trivial

theorem Inv.elapse (h : t.Inv now) (ms : ℕ) : t.Inv (now + ms) := by
  refine { h with rested := h.rested.mono ms, span := ?_, started := h.started.trans (Nat.le_add_right _ _),
                  dropped := fun hd => ?_ }
  · intro a ha
    exact ⟨(h.span a ha).1, (h.span a ha).2.trans (Nat.le_add_right _ _)⟩
  · obtain ⟨d, hdrop, hle, hnow, htimes⟩ := h.dropped hd
    exact ⟨d, hdrop, hle, hnow.trans (Nat.le_add_right _ _), htimes⟩

theorem Inv.drop (h : t.Inv now) (hactive : t.active = true) : (t.drop now).Inv now := by
  obtain ⟨-, hlate⟩ := h.held hactive
  refine { h with held := fun hd => (by cases hd), dropped := fun _ => ?_, late := ?_, sending := fun _ => hlate }
  · exact ⟨now, rfl, h.started, Nat.le_refl _, fun a ha _ => (h.span a ha).2⟩
  · show t.late.length ≤ 1
    rw [hlate]
    exact Nat.zero_le _

/-- A step that sends nothing and leaves the flag alone. -/
theorem Inv.keep (h : t.Inv now) {p : TypingPhase} (rested : Rested now t.times p)
    (sending : p = .send → t.active = true) : Inv now { t with phase := p } :=
  { h with rested := rested, sending := fun hp => (h.held (sending hp)).2 }

/-- An indicator is sent. -/
theorem Inv.send (h : t.Inv now) (hphase : t.phase = .send) :
    Inv now { t with phase := .sending, sent := t.sent ++ [(now, t.active)] } := by
  have hrested : ∀ a ∈ t.times, a + typingGap ≤ now := by
    have hrested := h.rested
    rw [hphase] at hrested
    exact hrested
  have hnone := h.sending hphase
  have hlate : (t.sent ++ [(now, t.active)]).filter (!·.2) = if t.active then [] else [(now, false)] := by
    have hold : t.sent.filter (!·.2) = [] := hnone
    rw [List.filter_append, hold, List.nil_append]
    cases t.active <;> rfl
  refine ⟨?_, ?_, fun a ha => ?_, h.started, fun hactive => ?_, fun hactive => ?_, ?_, fun hp => (by cases hp)⟩
  · show ((t.sent ++ [(now, t.active)]).map (·.1)).Pairwise _
    rw [List.map_append, List.pairwise_append]
    refine ⟨h.apart, List.pairwise_singleton _ _, fun a ha b hb => ?_⟩
    rw [List.mem_singleton.1 hb]
    exact hrested a ha
  · show ∀ a ∈ (t.sent ++ [(now, t.active)]).map (·.1), a ≤ now
    intro a ha
    rw [List.map_append] at ha
    rcases List.mem_append.1 ha with ha | ha
    · exact (Nat.le_add_right _ _).trans (hrested a ha)
    · rw [List.mem_singleton.1 ha]
  · rcases List.mem_append.1 ha with ha | ha
    · exact h.span a ha
    · rw [List.mem_singleton.1 ha]
      exact ⟨h.started, Nat.le_refl _⟩
  · have hactive : t.active = true := hactive
    refine ⟨(h.held hactive).1, ?_⟩
    show (t.sent ++ [(now, t.active)]).filter (!·.2) = []
    rw [hlate, if_pos hactive]
  · obtain ⟨d, hdrop, hle, hnow, htimes⟩ := h.dropped hactive
    have hactive : t.active = false := hactive
    refine ⟨d, hdrop, hle, hnow, fun a ha ht => ?_⟩
    rcases List.mem_append.1 ha with ha | ha
    · exact htimes a ha ht
    · rw [List.mem_singleton.1 ha, hactive] at ht
      cases ht
  · show ((t.sent ++ [(now, t.active)]).filter (!·.2)).length ≤ 1
    rw [hlate]
    split
    · exact Nat.zero_le _
    · exact Nat.le_refl _

/-- **Every step of a task keeps what is known of it.** -/
theorem Inv.step (h : t.Inv now) (hstep : t.step now = some t') : t'.Inv now := by
  have hrested := h.rested
  unfold TypingTask.step at hstep
  cases hphase : t.phase with
  | loop =>
    rw [hphase] at hstep hrested
    cases hstep
    by_cases hactive : t.active = true
    · rw [if_pos hactive]
      exact h.keep hrested fun _ => hactive
    · rw [if_neg hactive]
      exact h.keep (p := .ended) trivial fun hp => by cases hp
  | send =>
    rw [hphase] at hstep
    cases hstep
    exact h.send hphase
  | sending =>
    rw [hphase] at hstep hrested
    cases hstep
    exact h.keep ⟨Nat.zero_le _, hrested⟩ fun hp => by cases hp
  | slept n =>
    rw [hphase] at hstep hrested
    obtain ⟨hle, htimes⟩ := hrested
    dsimp only at hstep
    split at hstep
    · rename_i hn
      cases hstep
      rw [hn] at htimes
      exact h.keep htimes fun hp => by cases hp
    · rename_i hn
      cases hstep
      by_cases hactive : t.active = true
      · rw [if_pos hactive]
        refine h.keep (p := .asleep n (now + typingSleepMs)) ⟨Nat.lt_of_le_of_ne hle hn, fun a ha => ?_⟩
          fun hp => by cases hp
        have hslept := htimes a ha
        rw [Nat.mul_add, Nat.mul_one]
        omega
      · rw [if_neg hactive]
        exact h.keep (p := .ended) trivial fun hp => by cases hp
  | asleep n wakeAt =>
    rw [hphase] at hstep hrested
    obtain ⟨hlt, htimes⟩ := hrested
    dsimp only at hstep
    split at hstep
    · rename_i hwake
      cases hstep
      exact h.keep ⟨hlt, fun a ha => (htimes a ha).trans hwake⟩ fun hp => by cases hp
    · cases hstep
  | ended =>
    rw [hphase] at hstep
    cases hstep

def source (t : TypingTask) : String × String := (t.interface, t.channel)

theorem step_kept (h : t.step now = some t') : t'.source = t.source ∧ t'.active = t.active := by
  unfold TypingTask.step at h
  split at h
  · cases h
    exact ⟨rfl, rfl⟩
  · cases h
    exact ⟨rfl, rfl⟩
  · cases h
    exact ⟨rfl, rfl⟩
  · split at h <;> cases h <;> exact ⟨rfl, rfl⟩
  · split at h <;> cases h
    exact ⟨rfl, rfl⟩
  · cases h

/-- When the handle was dropped, or else now. -/
def heldUntil (t : TypingTask) (now : ℕ) : ℕ := t.droppedAt.getD now

/-- A handle has an indicator for each gap that it was held for, and two more at most. -/
theorem Inv.length_le (h : t.Inv now) :
    t.startedAt ≤ t.heldUntil now ∧ t.sent.length * typingGap ≤ t.heldUntil now - t.startedAt + 2 * typingGap := by
  obtain ⟨hle, hspan⟩ : t.startedAt ≤ t.heldUntil now ∧ ∀ a ∈ t.sent, a.2 = true → a.1 ≤ t.heldUntil now := by
    unfold heldUntil
    cases hactive : t.active with
    | true =>
      rw [(h.held hactive).1]
      exact ⟨h.started, fun a ha _ => (h.span a ha).2⟩
    | false =>
      obtain ⟨d, hdrop, hle, -, htimes⟩ := h.dropped hactive
      rw [hdrop]
      exact ⟨hle, htimes⟩
  refine ⟨hle, ?_⟩
  have hapart : ((t.sent.filter (·.2)).map (·.1)).Pairwise fun a b => a + typingGap ≤ b :=
    h.apart.sublist (List.filter_sublist.map _)
  have hbetween : ∀ a ∈ (t.sent.filter (·.2)).map (·.1), t.startedAt ≤ a ∧ a ≤ t.heldUntil now := by
    intro a ha
    obtain ⟨x, hx, rfl⟩ := List.mem_map.1 ha
    obtain ⟨hx, ht⟩ := List.mem_filter.1 hx
    exact ⟨(h.span x hx).1, hspan x hx ht⟩
  have hontime := length_mul_le hapart hbetween hle
  rw [List.length_map] at hontime
  have hsplit : t.sent.length = (t.sent.filter (·.2)).length + t.late.length :=
    List.length_eq_length_filter_add fun x : ℕ × Bool => x.2
  have hlate := h.late
  rw [hsplit, Nat.add_mul]
  have hone : t.late.length * typingGap ≤ 1 * typingGap := Nat.mul_le_mul_right _ hlate
  omega

end TypingTask

/-! ## Beside the interface agent -/

namespace Typing

variable {s s' : Typing} {a : Action} {agent : InterfaceAgent}

/-- The handles are those of the batches, and the flag of the one in hand is set. -/
structure Handled (s : Typing) : Prop where
  tasks : ∀ t ∈ s.tasks, t.Inv s.now
  sources : s.tasks.map (·.source) = s.agent.processed.map (·.pair)
  active : ∀ i t, s.tasks[i]? = some t →
    (t.active = true ↔ i + 1 = s.tasks.length ∧ s.agent.phase.current.isSome = true)

theorem handles_of_phase (h : agent.phase = s.agent.phase) : s.handles agent = s.tasks := by
  unfold handles
  rw [h]
  cases s.agent.phase with
  | idle | processing | draining | responding | stopped => rfl

/-- A step that makes and drops no handle. -/
theorem Handled.keep (hH : s.Handled) (handles : s.handles agent = s.tasks)
    (processed : agent.processed = s.agent.processed)
    (current : agent.phase.current.isSome = s.agent.phase.current.isSome) :
    Handled { s with agent := agent, tasks := s.handles agent } := by
  rw [handles]
  refine ⟨hH.tasks, ?_, ?_⟩
  · rw [processed]
    exact hH.sources
  · rw [current]
    exact hH.active

/-- A batch is taken, with a handle. -/
theorem Handled.take (hH : s.Handled) {r : Received} (idle : s.agent.phase = .idle)
    (phase : agent.phase = .processing r) (processed : agent.processed = s.agent.processed ++ [r]) :
    Handled { s with agent := agent, tasks := s.handles agent } := by
  have hhandles : s.handles agent =
      s.tasks ++ [.start s.agent.adapters r.batch.interface r.batch.channel s.now] := by
    unfold handles
    rw [idle, phase]
  rw [hhandles]
  refine ⟨fun t ht => ?_, ?_, fun i t ht => ?_⟩
  · rcases List.mem_append.1 ht with ht | ht
    · exact hH.tasks t ht
    · rw [List.mem_singleton.1 ht]
      exact TypingTask.inv_start _ _ _ _
  · rw [List.map_append, hH.sources, processed, List.map_append]
    rfl
  · rw [phase]
    rw [List.length_append, List.length_singleton]
    rcases Nat.lt_or_ge i s.tasks.length with hlt | hge
    · -- the older handles were dropped
      rw [List.getElem?_append_left hlt] at ht
      have hold := hH.active i t ht
      rw [idle] at hold
      constructor
      · intro hactive
        cases (hold.1 hactive).2
      · rintro ⟨hi, -⟩
        omega
    · rw [List.getElem?_append_right hge] at ht
      obtain ⟨hi, hnew⟩ := List.getElem?_eq_some_iff.1 ht
      have hzero : i - s.tasks.length = 0 := by
        rw [List.length_singleton] at hi
        omega
      have hactive : t.active = true := by
        rw [← hnew]
        simp [hzero, TypingTask.start]
      exact iff_of_true hactive ⟨by omega, rfl⟩

/-- A batch is answered, and its handle dropped. -/
theorem Handled.respond (hH : s.Handled) {r : Received} {result : Except String String}
    (responding : s.agent.phase = .responding r result) (phase : agent.phase = .idle)
    (processed : agent.processed = s.agent.processed) :
    Handled { s with agent := agent, tasks := s.handles agent } := by
  have hhandles : s.handles agent = s.tasks.modify (s.tasks.length - 1) (·.drop s.now) := by
    unfold handles
    rw [responding, phase]
  have hget : ∀ i t, (s.tasks.modify (s.tasks.length - 1) (·.drop s.now))[i]? = some t →
      ∃ u, s.tasks[i]? = some u ∧ if s.tasks.length - 1 = i then t = u.drop s.now else t = u := by
    intro i t ht
    rw [List.getElem?_modify] at ht
    obtain ⟨u, hu, rfl⟩ := Option.map_eq_some_iff.1 ht
    refine ⟨u, hu, ?_⟩
    split <;> rfl
  have hcurrent : s.agent.phase.current.isSome = true := by
    rw [responding]
    rfl
  rw [hhandles]
  refine ⟨fun t ht => ?_, ?_, fun i t ht => ?_⟩
  · obtain ⟨i, hi⟩ := List.mem_iff_getElem?.1 ht
    obtain ⟨u, hu, heq⟩ := hget i t hi
    have hinv := hH.tasks u (List.mem_of_getElem? hu)
    split at heq
    · rename_i hlast
      obtain ⟨hlt, -⟩ := List.getElem?_eq_some_iff.1 hu
      rw [heq]
      exact hinv.drop ((hH.active i u hu).2 ⟨by omega, hcurrent⟩)
    · rw [heq]
      exact hinv
  · show (s.tasks.modify _ _).map (·.source) = agent.processed.map (·.pair)
    rw [processed, ← hH.sources]
    refine List.ext_getElem? fun i => ?_
    rw [List.getElem?_map, List.getElem?_map, List.getElem?_modify]
    cases s.tasks[i]? with
    | none => rfl
    | some u =>
      show some (TypingTask.source (if s.tasks.length - 1 = i then u.drop s.now else u)) = some u.source
      split <;> rfl
  · rw [phase]
    refine iff_of_false (fun hactive => ?_) fun h => by cases h.2
    obtain ⟨u, hu, heq⟩ := hget i t ht
    split at heq
    · rw [heq] at hactive
      cases hactive
    · rename_i hnot
      rw [heq] at hactive
      obtain ⟨hlast, -⟩ := (hH.active i u hu).1 hactive
      omega

theorem Handled.agent_step (hH : s.Handled) {action : InterfaceAgent.Action} (h : s.agent.step action = some agent) :
    Handled { s with agent := agent, tasks := s.handles agent } := by
  cases InterfaceAgent.step_change h with
  | deliver | close | agents | steer | defer => exact hH.keep (handles_of_phase rfl) rfl rfl
  | drain => exact hH.keep (handles_of_phase rfl) rfl rfl
  | pop idle | take idle => exact hH.take idle rfl rfl
  | stop idle =>
    refine hH.keep ?_ rfl (by rw [idle]; rfl)
    unfold handles
    rw [idle]
  | complete phase | drained phase =>
    refine hH.keep ?_ rfl (by rw [phase]; rfl)
    unfold handles
    rw [phase]
  | respond phase => exact hH.respond phase rfl rfl

theorem Handled.step (hH : s.Handled) (h : s.step a = some s') : s'.Handled := by
  cases a with
  | elapse ms =>
    cases h
    exact { hH with tasks := fun t ht => (hH.tasks t ht).elapse ms }
  | agent action =>
    obtain ⟨agent, hagent, rfl⟩ := Option.map_eq_some_iff.1 h
    exact hH.agent_step hagent
  | task i =>
    obtain ⟨t', ht', rfl⟩ := Option.map_eq_some_iff.1 h
    obtain ⟨t, ht, hstep⟩ := Option.bind_eq_some_iff.1 ht'
    obtain ⟨hi, hti⟩ := List.getElem?_eq_some_iff.1 ht
    obtain ⟨hsource, hactive⟩ := TypingTask.step_kept hstep
    refine ⟨fun u hu => ?_, ?_, fun j u hu => ?_⟩
    · rcases List.mem_or_eq_of_mem_set hu with hu | rfl
      · exact hH.tasks u hu
      · exact (hH.tasks t (List.mem_of_getElem? ht)).step hstep
    · rw [← hH.sources, List.map_set, hsource, ← hti]
      refine List.ext_getElem? fun j => ?_
      rw [List.getElem?_set]
      split
      · rename_i hij
        subst hij
        rw [List.length_map, if_pos hi, List.getElem?_map, ht, ← hti]
        rfl
      · rfl
    · have hlength : (s.tasks.set i t').length = s.tasks.length := List.length_set
      rw [hlength]
      have hu : (s.tasks.set i t')[j]? = some u := hu
      rw [List.getElem?_set] at hu
      split at hu
      · rename_i hij
        cases hu
        rw [hactive]
        exact hH.active j t (hij ▸ ht)
      · exact hH.active j u hu

/-- **Typing indicators are bounded**, in every state of every run: each batch that is processed has
one handle, whose flag is set while the batch is in hand; the indicators of a handle go to the
channel of the batch, are eight seconds apart at least, and one of them at most is sent when
the handle was dropped, so that there are two more than the gaps it was held for, at most. -/
theorem typing_bounded {adapters : List String} {now : ℕ} (h : Sys.Reaches Typing.step (init adapters now) s) :
    s.tasks.map (·.source) = s.agent.processed.map (·.pair) ∧
      (∀ i t, s.tasks[i]? = some t →
        (t.active = true ↔ i + 1 = s.tasks.length ∧ s.agent.phase.current.isSome = true)) ∧
      ∀ t ∈ s.tasks, (t.times.Pairwise fun a b => a + 8000 ≤ b) ∧ t.late.length ≤ 1 ∧
        t.sent.length * 8000 ≤ t.heldUntil s.now - t.startedAt + 2 * 8000 := by
  have hH : s.Handled := by
    refine h.inv (fun _ _ _ ht hstep => ht.step hstep) ⟨fun t ht => (by cases ht), rfl, fun i t ht => ?_⟩
    cases i <;> cases ht
  refine ⟨hH.sources, hH.active, fun t ht => ?_⟩
  have hinv := hH.tasks t ht
  exact ⟨hinv.apart, hinv.late, hinv.length_le.2⟩

/-- A batch that is answered while an indicator is about to be sent. -/
def lateIndicator : List Action :=
  [.agent (.deliver (InterfaceAgent.oneMessage "1" "hi")), .agent .next, .task 0, .elapse 3,
    .agent (.complete (.ok "hello")), .agent .drain, .agent .respond, .elapse 1, .task 0, .task 0, .task 0]

theorem typing_bounded_lateIndicator : ∃ s t, Sys.run Typing.step (init ["discord"] 0) lateIndicator = some s ∧
    s.tasks = [t] ∧ t.sent = [(4, false)] ∧ t.phase = .ended ∧ t.droppedAt = some 3 ∧
    t.sent.length * 8000 ≤ t.heldUntil s.now - t.startedAt + 2 * 8000 := by
  have h : Sys.run Typing.step (init ["discord"] 0) lateIndicator = some _ := rfl
  exact ⟨_, _, h, rfl, rfl, rfl, rfl, ((typing_bounded ⟨_, h⟩).2.2 _ (List.mem_singleton_self _)).2.2⟩

end Typing

end Auxlry
