import Auxlry.Proof.Batching
import Mathlib.Data.List.Forall2

/-!
# Sessions of different channels

A session is found by the text `interface:channel`, and two pairs of names may have one
text. Their messages then wait in one session, and go out under the names of the first.

* `isolated_iff`: **no batch and no session mixes channels, exactly in the runs where a message
  finds none of another channel waiting under its key.**
* `isolated_of_no_colon`: so it is when no channel has a colon in its name.
* `colon_shares_session`: two channels that share a session.
-/

namespace Auxlry

/-- A message with the names it was added under. -/
structure Posted where
  interface : String
  channel : String
  msg : PendingMessage
  deriving DecidableEq, Repr

def Posted.source (p : Posted) : String × String := (p.interface, p.channel)

def BatchedInput.source (b : BatchedInput) : String × String := (b.interface, b.channel)

def DebounceTask.source (t : DebounceTask) : String × String := (t.interface, t.channel)

/-- The session manager, with the names of the messages that wait under each key and of
those in each batch. -/
structure Posts where
  manager : SessionManager
  waiting : String → List Posted
  sent : List (List Posted)

namespace Posts

open SessionManager (Action)

def new (debounce now : ℕ) : Posts where
  manager := .new debounce now
  waiting := fun _ => []
  sent := []

/-- The names go with the messages. -/
def step (s : Posts) (a : Action) : Option Posts :=
  (s.manager.step a).map fun manager =>
    match a with
    | .addMessage interface channel author content receivedAt =>
      let key := sessionKey interface channel
      let posted : Posted := ⟨interface, channel, ⟨author, content, receivedAt⟩⟩
      { s with manager := manager, waiting := Function.update s.waiting key (s.waiting key ++ [posted]) }
    | .wake i =>
      match s.manager.tasks i with
      | some t =>
        if manager.sent = s.manager.sent then { s with manager := manager }
        else
          { manager := manager
            waiting := Function.update s.waiting t.key []
            sent := s.sent ++ [s.waiting t.key] }
      | none => { s with manager := manager }
    | _ => { s with manager := manager }

/-- Every batch holds messages of its own channel, and every session those of one. -/
structure Isolated (s : Posts) : Prop where
  batches : List.Forall₂ (fun b ps => b.messages = ps.map Posted.msg ∧ ∀ p ∈ ps, p.source = b.source)
    s.manager.sent s.sent
  sessions : ∀ key, ∀ p ∈ s.waiting key, ∀ q ∈ s.waiting key, p.source = q.source

/-- The message that is added finds none of another channel waiting. -/
def NoStranger (s : Posts) : Action → Prop
  | .addMessage interface channel _ _ _ =>
    ∀ p ∈ s.waiting (sessionKey interface channel), p.source = (interface, channel)
  | _ => True

/-- The names follow the messages, and a task has those of the first one. -/
structure Traced (s : Posts) : Prop where
  inv : s.manager.Inv
  waiting : ∀ key, s.manager.pending key = (s.waiting key).map Posted.msg
  first : ∀ i t, s.manager.tasks i = some t → ∃ p ∈ s.waiting t.key, p.source = t.source

/-- What a step does to the messages. -/
inductive Change (s s' : Posts) (a : Action) : Prop
  | quiet (known : s.NoStranger a) (pending : s'.manager.pending = s.manager.pending)
      (msgs : s'.waiting = s.waiting) (batches : s'.manager.sent = s.manager.sent) (sent : s'.sent = s.sent)
      (tasks : ∀ i t, s'.manager.tasks i = some t → ∃ j u, s.manager.tasks j = some u ∧
        u.key = t.key ∧ u.source = t.source)
  | posted (p : Posted) (action : a = .addMessage p.interface p.channel p.msg.author p.msg.content p.msg.receivedAt)
      (pending : s'.manager.pending = Function.update s.manager.pending (sessionKey p.interface p.channel)
        (s.manager.pending (sessionKey p.interface p.channel) ++ [p.msg]))
      (msgs : s'.waiting = Function.update s.waiting (sessionKey p.interface p.channel)
        (s.waiting (sessionKey p.interface p.channel) ++ [p]))
      (batches : s'.manager.sent = s.manager.sent) (sent : s'.sent = s.sent)
      (tasks : ∀ i t, s'.manager.tasks i = some t →
        s.manager.tasks i = some t ∨ t.key = sessionKey p.interface p.channel ∧ t.source = p.source)
  | flushed (i : ℕ) (t : DebounceTask) (task : s.manager.tasks i = some t) (known : s.NoStranger a)
      (pending : s'.manager.pending = Function.update s.manager.pending t.key [])
      (msgs : s'.waiting = Function.update s.waiting t.key [])
      (batches : s'.manager.sent = s.manager.sent ++ [⟨t.interface, t.channel, s.manager.pending t.key⟩])
      (sent : s'.sent = s.sent ++ [s.waiting t.key])
      (tasks : ∀ j u, s'.manager.tasks j = some u → j ≠ i ∧ s.manager.tasks j = some u)

variable {s s' : Posts} {a : Action}

theorem step_change (h : s.step a = some s') : Change s s' a := by
  obtain ⟨m, hm, rfl⟩ := Option.map_eq_some_iff.1 h
  cases a with
  | tick =>
    cases hm
    exact .quiet trivial rfl rfl rfl rfl fun i t ht => ⟨i, t, ht, rfl, rfl⟩
  | recv =>
    simp only [SessionManager.step] at hm
    split at hm <;> cases hm
    exact .quiet trivial rfl rfl rfl rfl fun i t ht => ⟨i, t, ht, rfl, rfl⟩
  | addMessage interface channel author content receivedAt =>
    simp only [SessionManager.step] at hm
    split at hm <;> cases hm
    obtain ⟨hpending, -, -⟩ :=
      SessionManager.addMessage_kept s.manager interface channel ⟨author, content, receivedAt⟩
    refine .posted ⟨interface, channel, ⟨author, content, receivedAt⟩⟩ rfl hpending rfl ?_ rfl ?_
    · unfold SessionManager.addMessage
      dsimp only
      split <;> rfl
    · intro i t ht
      unfold SessionManager.addMessage at ht
      dsimp only at ht
      split at ht
      · rcases SessionManager.spawn_tasks ht with ⟨-, rfl⟩ | ⟨-, ht⟩
        · exact .inr ⟨rfl, rfl⟩
        · exact .inl ht
      · exact .inl ht
  | wake i =>
    rcases SessionManager.wake_cases hm with ⟨sessions, -, -, sent, tasks⟩ | ⟨t, session, task, hsession, rfl⟩
    · have hpending : m.pending = s.manager.pending := by
        funext key; rw [SessionManager.pending, sessions]; rfl
      have htasks : ∀ j u, m.tasks j = some u → ∃ k v, s.manager.tasks k = some v ∧
          v.key = u.key ∧ v.source = u.source := by
        intro j u hu
        obtain ⟨v, hv, hi, hc⟩ := tasks j u hu
        exact ⟨j, v, hv, by unfold DebounceTask.key; rw [hi, hc], by unfold DebounceTask.source; rw [hi, hc]⟩
      dsimp only
      split
      · rw [if_pos sent]
        exact .quiet trivial hpending rfl sent rfl htasks
      · exact .quiet trivial hpending rfl sent rfl htasks
    · have hsent : (s.manager.flush i t session).sent =
          s.manager.sent ++ [⟨t.interface, t.channel, s.manager.pending t.key⟩] := by
        rw [SessionManager.pending, hsession]; rfl
      have hne : (s.manager.flush i t session).sent ≠ s.manager.sent := by
        rw [hsent]
        exact fun h => by simpa using congrArg List.length h
      dsimp only
      rw [task]
      dsimp only
      rw [if_neg hne]
      exact .flushed i t task trivial (SessionManager.flush_pending ..) rfl hsent rfl
        fun j u hu => SessionManager.flush_tasks hu

theorem traced_new (debounce now : ℕ) : (new debounce now).Traced where
  inv := .init debounce now
  waiting := fun _ => rfl
  first := fun _ _ h => by cases h

theorem isolated_new (debounce now : ℕ) : (new debounce now).Isolated where
  batches := .nil
  sessions := fun _ _ h => absurd h List.not_mem_nil

/-- **The names keep up** with the messages, whoever they are from. -/
theorem Traced.step (hT : s.Traced) (h : s.step a = some s') : s'.Traced := by
  obtain ⟨m, hm, hs'⟩ := Option.map_eq_some_iff.1 h
  have hinv : s'.manager.Inv := by
    have : s'.manager = m := by
      subst hs'
      cases a with
      | wake i =>
        dsimp only
        split
        · split <;> rfl
        · rfl
      | tick | addMessage | recv => rfl
    exact this ▸ hT.inv.step hm
  cases step_change h with
  | quiet known pending msgs batches sent tasks =>
    refine ⟨hinv, fun key => by rw [pending, msgs, hT.waiting], fun i t ht => ?_⟩
    obtain ⟨j, u, hu, hkey, hsource⟩ := tasks i t ht
    rw [msgs, ← hkey, ← hsource]
    exact hT.first j u hu
  | posted p action pending msgs batches sent tasks =>
    refine ⟨hinv, fun key => ?_, fun i t ht => ?_⟩
    · rw [pending, msgs]
      by_cases hkey : key = sessionKey p.interface p.channel
      · rw [hkey, Function.update_self, Function.update_self, List.map_append, hT.waiting]; rfl
      · rw [Function.update_of_ne hkey, Function.update_of_ne hkey, hT.waiting]
    · rw [msgs]
      rcases tasks i t ht with ht | ⟨hkey, hsource⟩
      · obtain ⟨q, hq, hsource⟩ := hT.first i t ht
        refine ⟨q, ?_, hsource⟩
        by_cases hkey : t.key = sessionKey p.interface p.channel
        · rw [hkey, Function.update_self]
          exact List.mem_append_left _ (hkey ▸ hq)
        · rwa [Function.update_of_ne hkey]
      · refine ⟨p, ?_, hsource.symm⟩
        rw [hkey, Function.update_self]
        exact List.mem_append_right _ (List.mem_singleton_self _)
  | flushed i t task known pending msgs batches sent tasks =>
    refine ⟨hinv, fun key => ?_, fun j u hu => ?_⟩
    · rw [pending, msgs]
      by_cases hkey : key = t.key
      · rw [hkey, Function.update_self, Function.update_self]; rfl
      · rw [Function.update_of_ne hkey, Function.update_of_ne hkey, hT.waiting]
    · -- the other tasks have other keys
      obtain ⟨hne, hu⟩ := tasks j u hu
      have hkey : u.key ≠ t.key := fun hkey => hne (hT.inv.unique j i u t hu task hkey)
      rw [msgs, Function.update_of_ne hkey]
      exact hT.first j u hu

/-- **A step keeps channels apart** exactly when its message meets no stranger. -/
theorem isolated_step (hT : s.Traced) (hI : s.Isolated) (h : s.step a = some s') :
    s'.Isolated ↔ s.NoStranger a := by
  cases step_change h with
  | quiet known pending msgs batches sent tasks =>
    refine iff_of_true ⟨?_, ?_⟩ known
    · rw [batches, sent]; exact hI.batches
    · rw [msgs]; exact hI.sessions
  | posted p action pending msgs batches sent tasks =>
    rw [show s.NoStranger a ↔ ∀ q ∈ s.waiting (sessionKey p.interface p.channel), q.source = p.source from
      action ▸ Iff.rfl]
    constructor
    · intro hI' q hq
      refine hI'.sessions (sessionKey p.interface p.channel) q ?_ p ?_ <;> rw [msgs, Function.update_self]
      · exact List.mem_append_left _ hq
      · exact List.mem_append_right _ (List.mem_singleton_self _)
    · intro hall
      refine ⟨by rw [batches, sent]; exact hI.batches, fun key => ?_⟩
      rw [msgs]
      by_cases hkey : key = sessionKey p.interface p.channel
      · -- all that waits has the names of the new message
        have hsame : ∀ q ∈ s.waiting key ++ [p], q.source = p.source := by
          intro q hq
          rcases List.mem_append.1 hq with hq | hq
          · exact hall q (hkey ▸ hq)
          · rw [List.mem_singleton.1 hq]
        rw [← hkey, Function.update_self]
        intro q hq r hr
        rw [hsame q hq, hsame r hr]
      · rw [Function.update_of_ne hkey]
        exact hI.sessions key
  | flushed i t task known pending msgs batches sent tasks =>
    refine iff_of_true ⟨?_, fun key => ?_⟩ known
    · rw [batches, sent]
      refine List.rel_append hI.batches (.cons ⟨hT.waiting t.key, fun p hp => ?_⟩ .nil)
      obtain ⟨q, hq, hsource⟩ := hT.first i t task
      rw [hI.sessions t.key p hp q hq, hsource]; rfl
    · rw [msgs]
      by_cases hkey : key = t.key
      · rw [hkey, Function.update_self]
        exact fun _ h => absurd h List.not_mem_nil
      · rw [Function.update_of_ne hkey]
        exact hI.sessions key

/-- **The exact condition** for sessions to be kept apart, in every state of every run. -/
theorem isolated_iff (debounce now : ℕ) (acts : List Action) :
    (∀ s, Sys.Visits Posts.step (new debounce now) acts s → s.Isolated) ↔
      ∀ s a, Sys.Takes Posts.step (new debounce now) acts s a → s.NoStranger a :=
  Sys.visits_iff_takes (J := Traced) (fun _ _ _ hT _ _ h => hT.step h)
    (fun _ _ _ hT hI h => isolated_step hT hI h) acts (traced_new debounce now) (isolated_new debounce now)

/-! ## Names without a colon -/

/-- The last colon of a key is the one between the names. -/
theorem sessionKey_inj {i i' c c' : String} (hc : ':' ∉ c.toList) (hc' : ':' ∉ c'.toList)
    (h : sessionKey i c = sessionKey i' c') : i = i' ∧ c = c' := by
  have hlist : i.toList ++ ':' :: c.toList = i'.toList ++ ':' :: c'.toList := by
    have := congrArg String.toList h
    simp only [sessionKey, String.toList_append, List.append_assoc] at this
    exact this
  have hsplit : i.toList = i'.toList ∧ ':' :: c.toList = ':' :: c'.toList := by
    rcases List.append_eq_append_iff.1 hlist with ⟨xs, hi, hx⟩ | ⟨xs, hi, hx⟩
    · rcases xs with _ | ⟨x, xs⟩
      · exact ⟨by rw [hi, List.append_nil], hx⟩
      · rw [(List.cons.inj hx).2] at hc
        exact absurd (List.mem_append_right _ (.head _)) hc
    · rcases xs with _ | ⟨x, xs⟩
      · exact ⟨by rw [hi, List.append_nil], hx.symm⟩
      · rw [(List.cons.inj hx).2] at hc'
        exact absurd (List.mem_append_right _ (.head _)) hc'
  exact ⟨String.toList_inj.1 hsplit.1, String.toList_inj.1 (List.cons.inj hsplit.2).2⟩

/-- The channel of a message has no colon in its name, as the ids of Discord have none. -/
def Plain (_ : Posts) : Action → Prop
  | .addMessage _ channel _ _ _ => ':' ∉ channel.toList
  | _ => True

/-- What waits under a key has names that make up the key. -/
def Keyed (s : Posts) : Prop :=
  ∀ key, ∀ p ∈ s.waiting key, sessionKey p.interface p.channel = key ∧ ':' ∉ p.channel.toList

theorem Keyed.step (hK : s.Keyed) (hplain : s.Plain a) (h : s.step a = some s') : s'.Keyed := by
  cases step_change h with
  | quiet known pending msgs => exact fun key => msgs ▸ hK key
  | posted p action pending msgs =>
    subst action
    intro key q hq
    rw [msgs] at hq
    by_cases hkey : key = sessionKey p.interface p.channel
    · rw [hkey, Function.update_self] at hq
      rcases List.mem_append.1 hq with hq | hq
      · exact hkey ▸ hK _ q hq
      · rw [List.mem_singleton.1 hq]
        exact ⟨hkey.symm, hplain⟩
    · rw [Function.update_of_ne hkey] at hq
      exact hK key q hq
  | flushed i t task known pending msgs =>
    intro key q hq
    rw [msgs] at hq
    by_cases hkey : key = t.key
    · rw [hkey, Function.update_self] at hq
      exact absurd hq List.not_mem_nil
    · rw [Function.update_of_ne hkey] at hq
      exact hK key q hq

theorem Keyed.noStranger (hK : s.Keyed) (hplain : s.Plain a) : s.NoStranger a := by
  cases a with
  | addMessage interface channel author content receivedAt =>
    intro p hp
    obtain ⟨hkey, hcolon⟩ := hK _ p hp
    obtain ⟨hi, hc⟩ := sessionKey_inj hcolon hplain hkey
    exact Prod.ext hi hc
  | tick | wake | recv => trivial

/-- **Channels without a colon** never share a session. -/
theorem isolated_of_no_colon {debounce now : ℕ} {acts : List Action}
    (hplain : ∀ s a, Sys.Takes Posts.step (new debounce now) acts s a → s.Plain a)
    (h : Sys.Visits Posts.step (new debounce now) acts s) : s.Isolated := by
  have hall : s.Traced ∧ s.Isolated ∧ s.Keyed := by
    refine h.inv_of hplain (P := fun s => s.Traced ∧ s.Isolated ∧ s.Keyed) ?_
      ⟨traced_new debounce now, isolated_new debounce now, fun _ _ hp => absurd hp List.not_mem_nil⟩
    rintro t b t' ⟨hT, hI, hK⟩ hb hstep
    exact ⟨hT.step hstep, (isolated_step hT hI hstep).2 (hK.noStranger hb), hK.step hb hstep⟩
  exact hall.2.1

/-! ## Two channels in one session -/

/-- A message for one channel, and one for another before the timer is up. -/
def colons : List Action :=
  [.addMessage "a:b" "c" "ann" "hi" 0, .addMessage "a" "b:c" "bob" "hello" 0, .tick, .wake 0]

/-- **The message of one channel goes out as one of the other.** -/
theorem colon_shares_session : ∃ s, Sys.run Posts.step (new 1 0) colons = some s ∧
    s.manager.sent = [⟨"a:b", "c", [⟨"ann", "hi", 0⟩, ⟨"bob", "hello", 0⟩]⟩] ∧
    s.sent = [[⟨"a:b", "c", ⟨"ann", "hi", 0⟩⟩, ⟨"a", "b:c", ⟨"bob", "hello", 0⟩⟩]] ∧ ¬ s.Isolated := by
  have h : Sys.run Posts.step (new 1 0) colons = some _ := rfl
  refine ⟨_, h, rfl, rfl, fun hI => ?_⟩
  cases hI.batches with
  | cons hfirst _ => exact absurd (hfirst.2 _ (List.mem_cons_of_mem _ (List.mem_singleton_self _))) (by decide)

end Posts

end Auxlry
