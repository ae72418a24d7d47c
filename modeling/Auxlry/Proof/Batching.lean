import Auxlry.Spec.Session
import Auxlry.Sys.Run
import Mathlib.Logic.ExistsUnique

/-!
# Batches lose nothing

A debounce task is spawned by the first message of a batch and ends when it sends the
batch. So a channel has a task exactly while it has a session (`Inv.timer`,
`Inv.owned`, `Inv.unique`), and what was sent and what is pending make up what was
added.

* `Inv.step`: every step keeps the invariant.
* `run_ledger`: the bookkeeping of a run is what its actions add and put in the channel.
* `batching`: **every message is in one batch**, in order, and a batch is sent only after
  its channel has been quiet.
-/

namespace Auxlry.SessionManager

/-- The messages waiting under a key. -/
def pending (m : SessionManager) (key : String) : List PendingMessage :=
  (m.sessions key).elim [] (·.pending)

/-- The messages added under a key. -/
def addedTo (m : SessionManager) (key : String) : List PendingMessage :=
  (m.added.filter (·.key = key)).map (·.msg)

/-- The messages sent in batches for a key. -/
def sentFor (m : SessionManager) (key : String) : List PendingMessage :=
  (m.sent.filter (·.key = key)).flatMap (·.messages)

structure Inv (m : SessionManager) : Prop where
  fresh : ∀ i, m.nextTask ≤ i → m.tasks i = none
  nonempty : ∀ key s, m.sessions key = some s → s.pending ≠ []
  timer : ∀ key s, m.sessions key = some s → ∃ i t, m.tasks i = some t ∧ t.key = key
  owned : ∀ i t, m.tasks i = some t → ∃ s, m.sessions t.key = some s
  unique : ∀ i j t u, m.tasks i = some t → m.tasks j = some u → t.key = u.key → i = j
  delivered : ∀ key, m.sentFor key ++ m.pending key = m.addedTo key
  past : ∀ e ∈ m.added, e.addedAt ≤ m.now
  last : ∀ key s, m.sessions key = some s → ∀ e ∈ m.added, e.key = key → e.addedAt ≤ s.lastReceived

/-! ## What a run adds and sends -/

/-- The clock after an action. -/
def after (now : ℕ) : Action → ℕ
  | .tick => now + 1
  | _ => now

/-- The message that an action adds, at the time `now`. -/
def adds (now : ℕ) : Action → List AddedMessage
  | .addMessage interface channel author content receivedAt =>
    [⟨sessionKey interface channel, ⟨author, content, receivedAt⟩, now⟩]
  | _ => []

/-- The batches that a step puts in the channel to the interface agent. -/
def puts (m : SessionManager) (a : Action) (m' : SessionManager) : List BatchedInput :=
  match a with
  | .recv => m'.batches.drop (m.batches.length - 1)
  | _ => m'.batches.drop m.batches.length

/-- The clock after a run. -/
def clock (now : ℕ) (as : List Action) : ℕ := as.foldl after now

/-- The messages that a run adds, in order. -/
def additions (now : ℕ) : List Action → List AddedMessage
  | [] => []
  | a :: as => adds now a ++ additions (after now a) as

/-- The batches that a run puts in the channel, in order. -/
def sends (m : SessionManager) : List Action → List BatchedInput
  | [] => []
  | a :: as => (m.step a).elim [] fun m' => puts m a m' ++ sends m' as

/-- What a step does. -/
inductive Move (m : SessionManager) : Action → SessionManager → Prop
  | tick : Move m .tick { m with now := m.now + 1 }
  | add (interface channel author content : String) (receivedAt : ℕ) :
      Move m (.addMessage interface channel author content receivedAt)
        (m.addMessage interface channel ⟨author, content, receivedAt⟩)
  | flush {i : ℕ} {t : DebounceTask} {s : ChannelSession} (task : m.tasks i = some t)
      (session : m.sessions t.key = some s) (quiet : s.lastReceived + m.debounce ≤ m.now) :
      Move m (.wake i) (m.flush i t s)
  | sleep {i : ℕ} {t : DebounceTask} (task : m.tasks i = some t) (wakeAt : ℕ) :
      Move m (.wake i) { m with tasks := Function.update m.tasks i (some { t with wakeAt := wakeAt }) }
  | stop {i : ℕ} {t : DebounceTask} (task : m.tasks i = some t) (session : m.sessions t.key = none) :
      Move m (.wake i) { m with tasks := Function.update m.tasks i none }
  | recv {b : BatchedInput} {rest : List BatchedInput} (batches : m.batches = b :: rest) :
      Move m .recv { m with batches := rest }

variable {m m' : SessionManager} {a : Action} {key interface channel : String} {msg : PendingMessage}
  {i : ℕ} {t : DebounceTask} {s : ChannelSession}

theorem step_move (h : m.step a = some m') : Move m a m' := by
  cases a with
  | tick => cases h; exact .tick
  | addMessage interface channel author content receivedAt =>
    simp only [step] at h
    split at h <;> cases h
    exact .add ..
  | wake i =>
    simp only [step] at h
    split at h
    · rename_i t ht
      split at h
      · unfold wake at h
        split at h
        · rename_i s hs
          split at h
          · rename_i hq
            split at h <;> cases h
            exact .flush ht hs hq
          · cases h; exact .sleep ht _
        · rename_i hs
          cases h; exact .stop ht hs
      · cases h
    · cases h
  | recv =>
    simp only [step] at h
    split at h
    · cases h
    · rename_i b rest hbatches
      cases h; exact .recv hbatches

/-- What an updated map holds: the new value at its place, and the old ones elsewhere. -/
theorem of_update {α β : Type} [DecidableEq α] {f : α → Option β} {x y : α} {o : Option β} {b : β}
    (h : Function.update f x o y = some b) : (y = x ∧ o = some b) ∨ (y ≠ x ∧ f y = some b) := by
  by_cases he : y = x
  · subst he
    rw [Function.update_self] at h
    exact .inl ⟨rfl, h⟩
  · rw [Function.update_of_ne he] at h
    exact .inr ⟨he, h⟩

/-! ## Adding a message -/

@[simp] theorem push_sessions_self (m : SessionManager) (key : String) (msg : PendingMessage) :
    (m.push key msg).sessions key = some ⟨m.pending key ++ [msg], m.now⟩ := Function.update_self ..

theorem push_sessions_ne {key' : String} (h : key' ≠ key) :
    (m.push key msg).sessions key' = m.sessions key' := Function.update_of_ne h ..

@[simp] theorem spawn_tasks_self (m : SessionManager) (t : DebounceTask) :
    (m.spawn t).tasks m.nextTask = some t := Function.update_self ..

theorem spawn_tasks_ne (h : i ≠ m.nextTask) : (m.spawn t).tasks i = m.tasks i :=
  Function.update_of_ne h ..

theorem pending_push (m : SessionManager) (key : String) (msg : PendingMessage) :
    (m.push key msg).pending key = m.pending key ++ [msg] := by
  rw [pending, push_sessions_self]; rfl

theorem pending_push_ne {key' : String} (h : key' ≠ key) :
    (m.push key msg).pending key' = m.pending key' := by
  rw [pending, push_sessions_ne h]; rfl

theorem addMessage_kept (m : SessionManager) (interface channel : String) (msg : PendingMessage) :
    (m.addMessage interface channel msg).pending = Function.update m.pending (sessionKey interface channel)
        (m.pending (sessionKey interface channel) ++ [msg]) ∧
      (m.addMessage interface channel msg).added = m.added ++ [⟨sessionKey interface channel, msg, m.now⟩] ∧
      (m.addMessage interface channel msg).batches = m.batches := by
  have hpush : (m.push (sessionKey interface channel) msg).pending =
      Function.update m.pending (sessionKey interface channel)
        (m.pending (sessionKey interface channel) ++ [msg]) := by
    funext key
    by_cases hkey : key = sessionKey interface channel
    · rw [hkey, pending_push, Function.update_self]
    · rw [pending_push_ne hkey, Function.update_of_ne hkey]
  unfold addMessage
  dsimp only
  split <;> exact ⟨hpush, rfl, rfl⟩

theorem addedTo_push (m : SessionManager) (key : String) (msg : PendingMessage) :
    (m.push key msg).addedTo key = m.addedTo key ++ [msg] := by
  unfold addedTo push; simp

theorem addedTo_push_ne {key' : String} (h : key' ≠ key) :
    (m.push key msg).addedTo key' = m.addedTo key' := by
  unfold addedTo push; simp [Ne.symm h]

theorem addMessage_of_some (hs : m.sessions (sessionKey interface channel) = some s)
    (hne : s.pending ≠ []) :
    m.addMessage interface channel msg = m.push (sessionKey interface channel) msg := by
  have hlen : ((m.push (sessionKey interface channel) msg).pending (sessionKey interface channel)).length
      ≠ 1 := by
    rw [pending_push, pending, hs, Option.elim_some, List.length_append]
    have := List.length_pos_iff.2 hne
    simp; omega
  exact if_neg hlen

theorem addMessage_of_none (hs : m.sessions (sessionKey interface channel) = none) :
    m.addMessage interface channel msg =
      (m.push (sessionKey interface channel) msg).spawn ⟨interface, channel, m.now + m.debounce⟩ := by
  have hlen : ((m.push (sessionKey interface channel) msg).pending (sessionKey interface channel)).length
      = 1 := by rw [pending_push, pending, hs]; rfl
  exact if_pos hlen

/-- The session a message is put in. -/
theorem push_sessions {s' : ChannelSession} {key' : String}
    (h : (m.push key msg).sessions key' = some s') :
    (key' = key ∧ s' = ⟨m.pending key ++ [msg], m.now⟩) ∨ (key' ≠ key ∧ m.sessions key' = some s') := by
  rcases of_update h with ⟨he, hs⟩ | ⟨he, hs⟩
  · exact .inl ⟨he, (Option.some.inj hs).symm⟩
  · exact .inr ⟨he, hs⟩

theorem spawn_tasks {u : DebounceTask} (h : (m.spawn t).tasks i = some u) :
    (i = m.nextTask ∧ u = t) ∨ (i ≠ m.nextTask ∧ m.tasks i = some u) := by
  rcases of_update h with ⟨he, ht⟩ | ⟨he, ht⟩
  · exact .inl ⟨he, (Option.some.inj ht).symm⟩
  · exact .inr ⟨he, ht⟩

theorem push_delivered (h : ∀ key, m.sentFor key ++ m.pending key = m.addedTo key) (key' : String) :
    (m.push key msg).sentFor key' ++ (m.push key msg).pending key' = (m.push key msg).addedTo key' := by
  have hsent : (m.push key msg).sentFor key' = m.sentFor key' := rfl
  by_cases he : key' = key
  · subst he
    rw [hsent, pending_push, addedTo_push, ← List.append_assoc, h]
  · rw [hsent, pending_push_ne he, addedTo_push_ne he, h]

theorem push_past (h : ∀ e ∈ m.added, e.addedAt ≤ m.now) :
    ∀ e ∈ (m.push key msg).added, e.addedAt ≤ m.now := by
  intro e he
  rcases List.mem_append.1 he with he | he
  · exact h e he
  · rw [List.mem_singleton.1 he]

theorem push_last (hI : m.Inv) (key' : String) (s' : ChannelSession)
    (h : (m.push key msg).sessions key' = some s') :
    ∀ e ∈ (m.push key msg).added, e.key = key' → e.addedAt ≤ s'.lastReceived := by
  intro e he hk
  rcases push_sessions h with ⟨rfl, rfl⟩ | ⟨hne, hs'⟩
  · exact push_past hI.past e he
  · rcases List.mem_append.1 he with he | he
    · exact hI.last key' s' hs' e he hk
    · rw [List.mem_singleton.1 he] at hk
      exact absurd hk.symm hne

/-- A session stays, with more in it. -/
theorem push_owned {key' : String} {s' : ChannelSession} (h : m.sessions key' = some s') :
    ∃ s', (m.push key msg).sessions key' = some s' := by
  by_cases he : key' = key
  · subst he; exact ⟨_, push_sessions_self ..⟩
  · exact ⟨s', (push_sessions_ne he).trans h⟩

/-- A message for a channel that has a session joins it. -/
theorem Inv.push (hI : m.Inv) (hs : m.sessions key = some s) : (m.push key msg).Inv where
  fresh := hI.fresh
  nonempty := by
    intro key' s' h
    rcases push_sessions h with ⟨-, rfl⟩ | ⟨-, h⟩
    · simp
    · exact hI.nonempty key' s' h
  timer := by
    intro key' s' h
    rcases push_sessions h with ⟨rfl, -⟩ | ⟨-, h⟩
    · exact hI.timer key' s hs
    · exact hI.timer key' s' h
  owned := by
    intro i t ht
    obtain ⟨s', hs'⟩ := hI.owned i t ht
    exact push_owned hs'
  unique := hI.unique
  delivered := push_delivered hI.delivered
  past := push_past hI.past
  last := push_last hI

/-- The first message of a batch opens a session and spawns its task. -/
theorem Inv.open (hI : m.Inv) (hkey : t.key = key) (hs : m.sessions key = none) :
    ((m.push key msg).spawn t).Inv where
  fresh := by
    intro i hi
    have hi' : m.nextTask + 1 ≤ i := hi
    have hne : i ≠ (m.push key msg).nextTask := fun he => by
      have : i = m.nextTask := he
      omega
    rw [spawn_tasks_ne hne]
    exact hI.fresh i (by omega)
  nonempty := by
    intro key' s' h
    rcases push_sessions h with ⟨-, rfl⟩ | ⟨-, h⟩
    · simp
    · exact hI.nonempty key' s' h
  timer := by
    intro key' s' h
    rcases push_sessions h with ⟨rfl, -⟩ | ⟨-, h⟩
    · exact ⟨m.nextTask, t, spawn_tasks_self .., hkey⟩
    · -- an older task has an older index
      obtain ⟨i, u, hu, hk⟩ := hI.timer key' s' h
      have hi : i ≠ (m.push key msg).nextTask := by
        rintro rfl
        rw [show m.tasks (m.push key msg).nextTask = none from hI.fresh _ (Nat.le_refl _)] at hu; cases hu
      exact ⟨i, u, (spawn_tasks_ne hi).trans hu, hk⟩
  owned := by
    intro i u hu
    rcases spawn_tasks hu with ⟨-, rfl⟩ | ⟨-, hu⟩
    · exact ⟨_, by rw [hkey]; exact push_sessions_self ..⟩
    · obtain ⟨s', hs'⟩ := hI.owned i u hu
      exact push_owned hs'
  unique := by
    -- no older task has the key
    have hold : ∀ i u, m.tasks i = some u → u.key ≠ t.key := by
      intro i u hu he
      obtain ⟨s', hs'⟩ := hI.owned i u hu
      rw [he, hkey, hs] at hs'; cases hs'
    intro i j u v hu hv hk
    rcases spawn_tasks hu with ⟨hi, hut⟩ | ⟨-, hu'⟩ <;> rcases spawn_tasks hv with ⟨hj, hvt⟩ | ⟨-, hv'⟩
    · rw [hi, hj]
    · exact absurd (hut ▸ hk.symm) (hold j v hv')
    · exact absurd (hvt ▸ hk) (hold i u hu')
    · exact hI.unique i j u v hu' hv' hk
  delivered := push_delivered hI.delivered
  past := push_past hI.past
  last := push_last hI

theorem Inv.addMessage (hI : m.Inv) : (m.addMessage interface channel msg).Inv := by
  cases hs : m.sessions (sessionKey interface channel) with
  | some s => rw [addMessage_of_some hs (hI.nonempty _ s hs)]; exact hI.push hs
  | none => rw [addMessage_of_none hs]; exact hI.open rfl hs

/-! ## Waking up -/

/-- A task that wakes up flushes its session, or leaves the messages alone. -/
theorem wake_cases (h : m.step (.wake i) = some m') :
    (m'.sessions = m.sessions ∧ m'.added = m.added ∧ m'.batches = m.batches ∧ m'.sent = m.sent ∧
        ∀ j u, m'.tasks j = some u →
          ∃ v, m.tasks j = some v ∧ v.interface = u.interface ∧ v.channel = u.channel) ∨
      ∃ t session, m.tasks i = some t ∧ m.sessions t.key = some session ∧ m' = m.flush i t session := by
  simp only [step] at h
  split at h
  · rename_i t ht
    split at h
    · unfold wake at h
      split at h
      · rename_i session hsession
        split at h
        · split at h <;> cases h
          exact .inr ⟨t, session, ht, hsession, rfl⟩
        · cases h
          refine .inl ⟨rfl, rfl, rfl, rfl, fun j u hu => ?_⟩
          rcases of_update hu with ⟨rfl, ht'⟩ | ⟨-, hu⟩
          · cases ht'
            exact ⟨t, ht, rfl, rfl⟩
          · exact ⟨u, hu, rfl, rfl⟩
      · cases h
        refine .inl ⟨rfl, rfl, rfl, rfl, fun j u hu => ?_⟩
        rcases of_update hu with ⟨-, hu⟩ | ⟨-, hu⟩
        · cases hu
        · exact ⟨u, hu, rfl, rfl⟩
    · cases h
  · cases h

theorem flush_pending (m : SessionManager) (i : ℕ) (t : DebounceTask) (session : ChannelSession) :
    (m.flush i t session).pending = Function.update m.pending t.key [] := by
  have hsessions : (m.flush i t session).sessions = Function.update m.sessions t.key none := rfl
  funext key
  rw [pending, hsessions]
  by_cases hkey : key = t.key
  · rw [hkey, Function.update_self, Function.update_self]
    rfl
  · rw [Function.update_of_ne hkey, Function.update_of_ne hkey]
    rfl

theorem flush_sessions {s' : ChannelSession} (h : (m.flush i t s).sessions key = some s') :
    key ≠ t.key ∧ m.sessions key = some s' := by
  rcases of_update h with ⟨-, hs⟩ | hs
  · cases hs
  · exact hs

theorem flush_tasks {j : ℕ} {u : DebounceTask} (h : (m.flush i t s).tasks j = some u) :
    j ≠ i ∧ m.tasks j = some u := by
  rcases of_update h with ⟨-, ht⟩ | ht
  · cases ht
  · exact ht

theorem flush_delivered (hs : m.sessions t.key = some s) :
    (m.flush i t s).sentFor key ++ (m.flush i t s).pending key = m.sentFor key ++ m.pending key := by
  unfold sentFor pending SessionManager.flush
  dsimp only
  by_cases he : key = t.key
  · have hb : BatchedInput.key ⟨t.interface, t.channel, s.pending⟩ = key := he.symm
    subst he
    rw [List.filter_append, List.filter_singleton, hb, hs, Function.update_self]
    simp
  · have hb : BatchedInput.key ⟨t.interface, t.channel, s.pending⟩ ≠ key := Ne.symm he
    rw [List.filter_append, List.filter_singleton, Function.update_of_ne he]
    simp [hb]

/-- A flushed session is gone, and so is its task. -/
theorem Inv.flush (hI : m.Inv) (ht : m.tasks i = some t) (hs : m.sessions t.key = some s) :
    (m.flush i t s).Inv where
  fresh := by
    intro j hj
    have hne : j ≠ i := by rintro rfl; rw [hI.fresh j hj] at ht; cases ht
    exact (Function.update_of_ne hne ..).trans (hI.fresh j hj)
  nonempty := fun key s' h => hI.nonempty key s' (flush_sessions h).2
  timer := by
    intro key s' h
    -- the task of another session is another task
    obtain ⟨hne, hs'⟩ := flush_sessions h
    obtain ⟨j, u, hu, rfl⟩ := hI.timer key s' hs'
    have hj : j ≠ i := by rintro rfl; rw [ht] at hu; cases hu; exact hne rfl
    exact ⟨j, u, (Function.update_of_ne hj ..).trans hu, rfl⟩
  owned := by
    intro j u hu
    obtain ⟨hne, hu⟩ := flush_tasks hu
    obtain ⟨s', hs'⟩ := hI.owned j u hu
    have hk : u.key ≠ t.key := fun he => hne (hI.unique j i u t hu ht he)
    exact ⟨s', (Function.update_of_ne hk ..).trans hs'⟩
  unique := fun j k u v hu hv => hI.unique j k u v (flush_tasks hu).2 (flush_tasks hv).2
  delivered := fun key => (flush_delivered hs).trans (hI.delivered key)
  past := hI.past
  last := fun key s' h => hI.last key s' (flush_sessions h).2

/-- A task that sleeps on keeps its key. -/
theorem Inv.sleep (hI : m.Inv) (ht : m.tasks i = some t) (wakeAt : ℕ) :
    Inv { m with tasks := Function.update m.tasks i (some { t with wakeAt := wakeAt }) } := by
  -- every task was there before, under the same key
  have hback : ∀ j u, Function.update m.tasks i (some { t with wakeAt := wakeAt }) j = some u →
      ∃ v, m.tasks j = some v ∧ v.key = u.key := by
    intro j u hu
    rcases of_update hu with ⟨rfl, ht'⟩ | ⟨-, hu⟩
    · obtain rfl := Option.some.inj ht'
      exact ⟨t, ht, rfl⟩
    · exact ⟨u, hu, rfl⟩
  refine { hI with fresh := ?_, timer := ?_, owned := ?_, unique := ?_ }
  · intro j hj
    have hne : j ≠ i := by rintro rfl; rw [hI.fresh j hj] at ht; cases ht
    exact (Function.update_of_ne hne ..).trans (hI.fresh j hj)
  · intro key s' h
    obtain ⟨j, u, hu, rfl⟩ := hI.timer key s' h
    by_cases he : j = i
    · subst he
      rw [ht] at hu; cases hu
      exact ⟨j, _, Function.update_self .., rfl⟩
    · exact ⟨j, u, (Function.update_of_ne he ..).trans hu, rfl⟩
  · intro j u hu
    obtain ⟨v, hv, hk⟩ := hback j u hu
    exact hk ▸ hI.owned j v hv
  · intro j k u v hu hv hk
    obtain ⟨u', hu', hku⟩ := hback j u hu
    obtain ⟨v', hv', hkv⟩ := hback k v hv
    exact hI.unique j k u' v' hu' hv' (hku.trans (hk.trans hkv.symm))

theorem Inv.init (debounce now : ℕ) : (new debounce now).Inv where
  fresh := fun _ _ => rfl
  nonempty := nofun
  timer := nofun
  owned := nofun
  unique := nofun
  delivered := fun _ => rfl
  past := nofun
  last := nofun

/-- **Every step keeps the invariant.** -/
theorem Inv.step (hI : m.Inv) (h : m.step a = some m') : m'.Inv := by
  cases step_move h with
  | tick => exact { hI with past := fun e he => Nat.le_succ_of_le (hI.past e he) }
  | add => exact hI.addMessage
  | flush task session _ => exact hI.flush task session
  | sleep task wakeAt => exact hI.sleep task wakeAt
  | stop task session =>
    -- a task without a session does not exist
    obtain ⟨s, hs⟩ := hI.owned _ _ task
    rw [session] at hs; cases hs
  | recv => exact { hI with }

/-! ## The ledger -/

/-- **What a step adds and puts**, beside what it keeps. -/
theorem step_ledger (h : m.step a = some m') :
    m'.added = m.added ++ adds m.now a ∧ m'.sent = m.sent ++ puts m a m' ∧ m'.debounce = m.debounce ∧
      m'.now = after m.now a := by
  have hnone : m.batches.drop m.batches.length = [] := List.drop_length ..
  have hsent : m.sent ++ m.batches.drop m.batches.length = m.sent := by rw [hnone, List.append_nil]
  cases step_move h with
  | tick => exact ⟨(List.append_nil _).symm, hsent.symm, rfl, rfl⟩
  | add interface channel author content receivedAt =>
    obtain ⟨-, hadded, hbatches⟩ := addMessage_kept m interface channel ⟨author, content, receivedAt⟩
    have hputs : puts m (.addMessage interface channel author content receivedAt)
        (m.addMessage interface channel ⟨author, content, receivedAt⟩) = [] := by
      unfold puts
      rw [hbatches, hnone]
    refine ⟨hadded, ?_⟩
    rw [hputs, List.append_nil]
    unfold SessionManager.addMessage
    dsimp only
    split <;> exact ⟨rfl, rfl, rfl⟩
  | @flush i t session =>
    have hputs : puts m (.wake i) (m.flush i t session) = [⟨t.interface, t.channel, session.pending⟩] :=
      List.drop_left
    refine ⟨(List.append_nil _).symm, ?_, rfl, rfl⟩
    rw [hputs]; rfl
  | sleep => exact ⟨(List.append_nil _).symm, hsent.symm, rfl, rfl⟩
  | stop => exact ⟨(List.append_nil _).symm, hsent.symm, rfl, rfl⟩
  | @recv b rest hbatches =>
    have hputs : puts m .recv { m with batches := rest } = [] := by
      unfold puts
      rw [hbatches, List.length_cons, Nat.add_sub_cancel]
      exact List.drop_length ..
    refine ⟨(List.append_nil _).symm, ?_, rfl, rfl⟩
    rw [hputs, List.append_nil]

/-- **The bookkeeping of a run** is what its actions add and put. -/
theorem run_ledger {as : List Action} (h : Sys.run SessionManager.step m as = some m') :
    m'.added = m.added ++ additions m.now as ∧ m'.sent = m.sent ++ sends m as ∧ m'.debounce = m.debounce ∧
      m'.now = clock m.now as := by
  induction as generalizing m with
  | nil =>
    cases h
    exact ⟨(List.append_nil _).symm, (List.append_nil _).symm, rfl, rfl⟩
  | cons a as ih =>
    rw [Sys.run_cons] at h
    obtain ⟨m₁, hstep, hrest⟩ := Option.bind_eq_some_iff.1 h
    obtain ⟨hadded, hsent, hdebounce, hnow⟩ := step_ledger hstep
    obtain ⟨iadded, isent, idebounce, inow⟩ := ih hrest
    have hsends : sends m (a :: as) = puts m a m₁ ++ sends m₁ as := by
      rw [sends, hstep]; rfl
    refine ⟨?_, ?_, idebounce.trans hdebounce, ?_⟩
    · rw [iadded, hadded, hnow, List.append_assoc]; rfl
    · rw [isent, hsent, hsends, List.append_assoc]
    · rw [inow, hnow]; rfl

/-! ## Batches -/

/-- A step puts a batch in the channel only when nothing was added under its key for `debounce`. -/
theorem puts_quiet (hI : m.Inv) (h : m.step a = some m') :
    puts m a m' = [] ∨ ∃ b, puts m a m' = [b] ∧ b.messages = m.pending b.key ∧
      ∀ e ∈ m.added, e.key = b.key → e.addedAt + m.debounce ≤ m.now := by
  -- only a flush lets the bookkeeping grow
  have hput : m'.sent = m.sent → puts m a m' = [] := by
    intro hsame
    have hsent := (step_ledger h).2.1
    rw [hsame] at hsent
    exact List.append_right_eq_self.1 hsent.symm
  cases step_move h with
  | tick | sleep | stop | recv => exact .inl (hput rfl)
  | add interface channel author content receivedAt =>
    refine .inl (hput ?_)
    unfold SessionManager.addMessage
    dsimp only
    split <;> rfl
  | @flush i t s task session quiet =>
    refine .inr ⟨⟨t.interface, t.channel, s.pending⟩, List.drop_left, ?_, fun e he hk => ?_⟩
    · have hp : m.pending t.key = s.pending := by rw [pending, session]; rfl
      exact hp.symm
    · have := hI.last t.key s session e he hk
      omega

/-- **Every message is in one batch.** In the state after every run, and at every step from
it: the messages are those that the actions of the run have added, the batches those that
its steps have put in the channel, and the wait is that of `new`. -/
theorem batching {debounce now : ℕ} {as : List Action}
    (h : Sys.run SessionManager.step (new debounce now) as = some m) :
    (∀ key, (m.sessions key ≠ none ↔ m.pending key ≠ []) ∧
      (m.sessions key ≠ none → ∃! i, ∃ t, m.tasks i = some t ∧ t.key = key) ∧
      (m.sessions key = none → ∀ i t, m.tasks i = some t → t.key ≠ key) ∧
      ((sends (new debounce now) as).filter (·.key = key)).flatMap (·.messages) ++ m.pending key =
        ((additions now as).filter (·.key = key)).map (·.msg)) ∧
    m.debounce = debounce ∧
    ∀ a m', m.step a = some m' →
      puts m a m' = [] ∨ ∃ b, puts m a m' = [b] ∧ b.messages = m.pending b.key ∧
        ∀ e ∈ additions now as, e.key = b.key → e.addedAt + debounce ≤ clock now as := by
  have hI : m.Inv := Sys.Reaches.inv ⟨as, h⟩ (fun _ _ _ => Inv.step) (Inv.init debounce now)
  obtain ⟨hadded, hsent, hdebounce, hnow⟩ := run_ledger h
  change m.added = additions now as at hadded
  change m.sent = sends (new debounce now) as at hsent
  change m.debounce = debounce at hdebounce
  change m.now = clock now as at hnow
  refine ⟨fun key => ⟨?_, ?_, ?_, ?_⟩, hdebounce, fun a m' hstep => ?_⟩
  · -- a session is never empty
    unfold pending
    cases hs : m.sessions key with
    | none => simp
    | some s => simpa using hI.nonempty key s hs
  · intro hs
    obtain ⟨s, hs⟩ := Option.ne_none_iff_exists'.1 hs
    obtain ⟨i, t, ht, rfl⟩ := hI.timer key s hs
    refine ⟨i, ⟨t, ht, rfl⟩, ?_⟩
    rintro j ⟨u, hu, hk⟩
    exact hI.unique j i u t hu ht hk
  · rintro hs i t ht rfl
    obtain ⟨s, hs'⟩ := hI.owned i t ht
    rw [hs] at hs'; cases hs'
  · rw [← hsent, ← hadded]
    exact hI.delivered key
  · rw [← hadded, ← hdebounce, ← hnow]
    exact puts_quiet hI hstep

/-- Two messages of one channel, and the timer of the first. -/
def twoMessages : List Action :=
  [.addMessage "discord" "7" "ann" "hi" 0, .tick, .addMessage "discord" "7" "ann" "there" 1, .tick, .wake 0]

/-- The two of them in one batch. -/
theorem batching_twoMessages : ∃ m, Sys.run SessionManager.step (new 1 0) twoMessages = some m ∧
    sends (new 1 0) twoMessages = [⟨"discord", "7", [⟨"ann", "hi", 0⟩, ⟨"ann", "there", 1⟩]⟩] ∧
    m.debounce = 1 ∧
    ((sends (new 1 0) twoMessages).filter (·.key = "discord:7")).flatMap (·.messages) ++ m.pending "discord:7" =
      ((additions 0 twoMessages).filter (·.key = "discord:7")).map (·.msg) := by
  have h : Sys.run SessionManager.step (new 1 0) twoMessages = some _ := rfl
  exact ⟨_, h, rfl, (batching h).2.1, ((batching h).1 "discord:7").2.2.2⟩

end Auxlry.SessionManager
