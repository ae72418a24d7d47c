import Auxlry.Proof.Accounting
import Auxlry.Proof.Batching
import Auxlry.Spec.Daemon
import Mathlib.Data.List.Forall2
import Mathlib.Data.List.Nodup

/-!
# What the model is given

A message takes two ways to the model: through its session into a batch, and through the
messages table into the history that is loaded when the batch is processed. It should
arrive once. Through the batch it always does (`Tracked`): the numbers of the messages
follow them through sessions, batches, the queue and the deferred list. So it arrives
twice as soon as its row is loaded as well.

* `row_number_iff`: the rows with numbers are the inbound ones, and have their message's.
* `onceEach_iff`: **each message of a batch is in its context once, exactly in the runs where
  no history is loaded with a row of its own batch.**
* `first_message_twice`: one message that is persisted before its batch is flushed.
-/

namespace Auxlry

/-- Each message of the batch is in the context once: in the history or in the prompt. -/
def Context.Once (c : Context) (added : List AddedMessage) : Prop :=
  List.Forall₂ (fun n m => (c.earlier ++ c.own).count n = 1 ∧ added[n]?.map (·.msg) = some m)
    c.own c.received.batch.messages

/-- The numbers of messages: they were added as these, and none is there twice. -/
def Numbers (added : List AddedMessage) (ns : List ℕ) (ms : List PendingMessage) : Prop :=
  List.Forall₂ (fun n m => added[n]?.map (·.msg) = some m) ns ms ∧ ns.Nodup

theorem named_append {added : List AddedMessage} {n : ℕ} {m : PendingMessage}
    (h : added[n]?.map (·.msg) = some m) (e : AddedMessage) : (added ++ [e])[n]?.map (·.msg) = some m := by
  obtain ⟨e', he, hm⟩ := Option.map_eq_some_iff.1 h
  obtain ⟨hlt, -⟩ := List.getElem?_eq_some_iff.1 he
  rw [List.getElem?_append_left hlt, he, Option.map_some, hm]

namespace Numbers

variable {added : List AddedMessage} {ns : List ℕ} {ms : List PendingMessage}

theorem nil : Numbers added [] [] := ⟨.nil, List.nodup_nil⟩

theorem mono (h : Numbers added ns ms) (e : AddedMessage) : Numbers (added ++ [e]) ns ms :=
  ⟨h.1.imp fun _ _ hn => named_append hn e, h.2⟩

theorem lt (h : Numbers added ns ms) {n : ℕ} (hn : n ∈ ns) : n < added.length := by
  obtain ⟨hall, -⟩ := h
  induction hall with
  | nil => cases hn
  | cons hfirst _ ih =>
    rcases List.mem_cons.1 hn with rfl | hn
    · obtain ⟨e, he, -⟩ := Option.map_eq_some_iff.1 hfirst
      exact (List.getElem?_eq_some_iff.1 he).1
    · exact ih hn

/-- One more message, with the next number. -/
theorem snoc (h : Numbers added ns ms) (e : AddedMessage) :
    Numbers (added ++ [e]) (ns ++ [added.length]) (ms ++ [e.msg]) := by
  constructor
  · have hlast : (added ++ [e])[added.length]?.map (·.msg) = some e.msg := by
      rw [List.getElem?_concat_length, Option.map_some]
    exact List.rel_append (h.mono e).1 (.cons hlast .nil)
  · refine List.nodup_append.2 ⟨h.2, List.nodup_singleton _, fun n hn k hk => ?_⟩
    rw [List.mem_singleton.1 hk]
    exact (h.lt hn).ne

/-- A context of a batch whose messages have these numbers. -/
theorem once_iff {c : Context} (h : Numbers added c.own c.received.batch.messages) :
    c.Once added ↔ ∀ n ∈ c.own, n ∉ c.earlier := by
  have hcount : ∀ n ∈ c.own, ((c.earlier ++ c.own).count n = 1 ↔ n ∉ c.earlier) := by
    intro n hn
    rw [List.count_append, List.count_eq_one_of_mem h.2 hn, Nat.add_eq_right, List.count_eq_zero]
  unfold Context.Once
  rw [List.forall₂_and_left]
  constructor
  · rintro ⟨hall, -⟩ n hn
    exact (hcount n hn).1 (hall n hn)
  · intro hnone
    exact ⟨fun n hn => (hcount n hn).2 (hnone n hn), h.1⟩

end Numbers

theorem Context.Once.mono {c : Context} {added : List AddedMessage} (h : c.Once added) (e : AddedMessage) :
    c.Once (added ++ [e]) :=
  h.imp fun _ _ hn => ⟨hn.1, named_append hn.2 e⟩

namespace Daemon

/-- Each message of a batch is in its context once. -/
def OnceEach (s : Daemon) : Prop := ∀ c ∈ s.contexts, c.Once s.manager.added

/-- The rows that are loaded are of no message of the batch: those were not persisted yet,
or failed to be, or newer rows come before them. -/
def Unseen (s : Daemon) : Action → Prop
  | .prompt (some order) => ∀ r, s.interface.phase = .processing r →
      ∀ row ∈ order.take historyLimit, ∀ n ∈ s.numbers r, s.rowNumber row.id ≠ some n
  | _ => True

/-- The numbers follow the messages. -/
structure Tracked (s : Daemon) : Prop where
  batches : s.manager.batches = []
  pending : ∀ key, Numbers s.manager.added (s.pending key) (s.manager.pending key)
  delivered : ∀ d ∈ s.delivered, Numbers s.manager.added d.2 d.1.messages
  accounts : s.interface.Accounts (s.delivered.map (·.1))

/-- What a step does to the messages. -/
inductive Change (s s' : Daemon) (a : Action) : Prop
  | quiet (unseen : s.Unseen a) (sessions : s'.manager.sessions = s.manager.sessions)
      (added : s'.manager.added = s.manager.added) (batches : s'.manager.batches = s.manager.batches)
      (pending : s'.pending = s.pending) (delivered : s'.delivered = s.delivered)
      (contexts : s'.contexts = s.contexts)
      (accounts : ∀ ds, s.interface.Accounts ds → s'.interface.Accounts ds)
  | added (unseen : s.Unseen a) (key : String) (e : AddedMessage)
      (sessions : s'.manager.pending = Function.update s.manager.pending key (s.manager.pending key ++ [e.msg]))
      (added : s'.manager.added = s.manager.added ++ [e]) (batches : s'.manager.batches = s.manager.batches)
      (pending : s'.pending = Function.update s.pending key (s.pending key ++ [s.manager.added.length]))
      (delivered : s'.delivered = s.delivered) (contexts : s'.contexts = s.contexts)
      (interface : s'.interface = s.interface)
  | flushed (unseen : s.Unseen a) (b : BatchedInput)
      (messages : b.messages = s.manager.pending b.key)
      (sessions : s'.manager.pending = Function.update s.manager.pending b.key [])
      (added : s'.manager.added = s.manager.added) (batches : s'.manager.batches = [])
      (pending : s'.pending = Function.update s.pending b.key [])
      (delivered : s'.delivered = s.delivered ++ [(b, s.pending b.key)]) (contexts : s'.contexts = s.contexts)
      (interface : s.interface.step (.deliver b) = some s'.interface)
  | asked (r : Received) (rows : List MessageRow) (processing : s.interface.phase = .processing r)
      (unseen : s.Unseen a ↔ ∀ row ∈ rows, ∀ n ∈ s.numbers r, s.rowNumber row.id ≠ some n)
      (asked : s' = s.ask r rows)

variable {s s' : Daemon} {a : Action} {key : String}

/-! ## What a step does -/

theorem wake_change (hbatches : s.manager.batches = []) {task : ℕ} (h : s.wake task = some s') :
    Change s s' (.wake task) := by
  obtain ⟨m, hm, h⟩ := Option.bind_eq_some_iff.1 h
  rcases SessionManager.wake_cases hm with ⟨sessions, added, batches, -⟩ | ⟨t, session, -, hsession, rfl⟩
  · rw [hbatches] at batches
    rw [batches] at h
    cases h
    exact .quiet trivial sessions added (batches.trans hbatches.symm) rfl rfl rfl fun _ hds => hds
  · have hflushed : (s.manager.flush task t session).batches = [⟨t.interface, t.channel, session.pending⟩] := by
      unfold SessionManager.flush
      rw [hbatches]
      rfl
    rw [hflushed] at h
    obtain ⟨interface, hstep, rfl⟩ := Option.map_eq_some_iff.1 h
    refine .flushed trivial ⟨t.interface, t.channel, session.pending⟩ ?_
      (SessionManager.flush_pending s.manager task t session) rfl rfl rfl rfl rfl hstep
    show session.pending = s.manager.pending t.key
    rw [SessionManager.pending, hsession]
    rfl

/-- A step of the interface agent alone. -/
theorem Change.of_interface {interface : InterfaceAgent} {action : InterfaceAgent.Action}
    (hstep : s.interface.step action = some interface) (hnone : action.delivered = [])
    (unseen : s.Unseen a) (hsame : s'.manager = s.manager ∧ s'.pending = s.pending ∧ s'.delivered = s.delivered ∧
      s'.contexts = s.contexts ∧ s'.interface = interface) : Change s s' a := by
  obtain ⟨manager, pending, delivered, contexts, rfl⟩ := hsame
  refine .quiet unseen (manager ▸ rfl) (manager ▸ rfl) (manager ▸ rfl) pending delivered contexts fun ds hds => ?_
  have haccounts := hds.step hstep
  rwa [hnone, List.append_nil] at haccounts

theorem interface_change {action : InterfaceAgent.Action} (h : s.interfaceStep action = some s') :
    Change s s' (.interface action) := by
  unfold interfaceStep at h
  split at h
  · cases h
  · cases h
  · obtain ⟨interface, hstep, rfl⟩ := Option.map_eq_some_iff.1 h
    exact .of_interface hstep rfl trivial ⟨rfl, rfl, rfl, rfl, rfl⟩
  · split at h
    · obtain ⟨interface, hstep, rfl⟩ := Option.map_eq_some_iff.1 h
      exact .of_interface hstep rfl trivial ⟨rfl, rfl, rfl, rfl, rfl⟩
    · cases h
  · rename_i hdeliver _ _ _
    obtain ⟨interface, hstep, rfl⟩ := Option.map_eq_some_iff.1 h
    have hnone : action.delivered = [] := by
      cases action with
      | deliver b => exact absurd rfl (hdeliver b)
      | close | agents | next | additional | complete | drain | respond => rfl
    exact .of_interface hstep hnone trivial ⟨rfl, rfl, rfl, rfl, rfl⟩

theorem respond_change {now : ℕ} {queryOk : Bool} (h : s.respond now queryOk = some s') :
    Change s s' (.respond now queryOk) := by
  unfold respond at h
  split at h
  · rename_i r result _
    obtain ⟨interface, hstep, rfl⟩ := Option.map_eq_some_iff.1 h
    cases result with
    | ok response => exact .of_interface hstep rfl trivial ⟨rfl, rfl, rfl, rfl, rfl⟩
    | error e => exact .of_interface hstep rfl trivial ⟨rfl, rfl, rfl, rfl, rfl⟩
  · cases h

/-- **What a step does to the messages.** -/
theorem step_change (hbatches : s.manager.batches = []) (h : s.step a = some s') : Change s s' a := by
  cases a with
  | elapse ms | publish event =>
    cases h
    exact .quiet trivial rfl rfl rfl rfl rfl rfl fun _ hds => hds
  | recv =>
    simp only [step] at h
    split at h <;> cases h
    exact .quiet trivial rfl rfl rfl rfl rfl rfl fun _ hds => hds
  | add =>
    simp only [step] at h
    split at h
    · rename_i m receivedAt _
      obtain ⟨manager, hstep, rfl⟩ := Option.map_eq_some_iff.1 h
      simp only [SessionManager.step] at hstep
      split at hstep <;> cases hstep
      obtain ⟨sessions, added, batches⟩ :=
        SessionManager.addMessage_kept s.manager m.interface m.channel ⟨m.author, m.content, receivedAt⟩
      exact .added trivial _ _ sessions added batches rfl rfl rfl rfl
    · cases h
  | insert now queryOk =>
    simp only [step] at h
    split at h <;> cases h
    unfold insert
    split <;> exact .quiet trivial rfl rfl rfl rfl rfl rfl fun _ hds => hds
  | wake task => exact wake_change hbatches h
  | interface action => exact interface_change h
  | prompt order =>
    simp only [step] at h
    split at h
    · rename_i r hphase _
      split at h
      · cases h
        refine .asked r [] hphase ?_ rfl
        exact iff_of_true trivial fun row hrow => by cases hrow
      · rename_i order
        split at h <;> cases h
        refine .asked r _ hphase ?_ rfl
        constructor
        · intro hunseen
          exact hunseen r hphase
        · intro hunseen q hq
          rw [hphase] at hq
          cases hq
          exact hunseen
    · cases h
  | respond now queryOk => exact respond_change h

/-! ## The numbers of rows -/

/-- The row was inserted for this message. -/
def RowOf (row : MessageRow) (e : AddedMessage) : Prop :=
  row.direction = "inbound" ∧ e.key = sessionKey row.interface row.channel ∧ e.msg.author = row.author ∧
    e.msg.content = row.content

/-- The rows with ids after `start` that are inbound have numbers, and no others have. -/
structure RowsNumbered (start : ℕ) (s : Daemon) : Prop where
  start_le : start ≤ s.messages.seq
  ids : ∀ row ∈ s.messages.rows, row.id ≤ s.messages.seq
  fresh : ∀ id, s.messages.seq < id → s.rowNumber id = none
  rowOf : ∀ row ∈ s.messages.rows, ∀ n, s.rowNumber row.id = some n →
    ∃ e, s.manager.added[n]? = some e ∧ RowOf row e
  inbound : ∀ row ∈ s.messages.rows, start < row.id → row.direction = "inbound" →
    (s.rowNumber row.id).isSome
  inserting : ∀ m, s.bridge = .inserting m → ∃ e, s.manager.added.getLast? = some e ∧
    e.key = sessionKey m.interface m.channel ∧ e.msg.author = m.author ∧ e.msg.content = m.content

theorem insertMessage_some {t t' : MessageTable} {m : InsertCall} (h : t.insertMessage m = .ok t') :
    t' = ⟨t.rows ++ [⟨t.seq + 1, m.interface, m.channel, m.author, m.content, m.direction, m.now⟩], t.seq + 1⟩ := by
  unfold MessageTable.insertMessage at h
  split at h <;> cases h
  rfl

variable {start : ℕ}

/-- A step that leaves the table, the bridge and the messages alone. -/
theorem RowsNumbered.keep (hR : s.RowsNumbered start) (messages : s'.messages = s.messages)
    (rowNumber : s'.rowNumber = s.rowNumber) (added : s'.manager.added = s.manager.added)
    (bridge : s'.bridge = s.bridge ∨ ∀ m, s'.bridge ≠ .inserting m) : s'.RowsNumbered start := by
  refine ⟨messages ▸ hR.start_le, messages ▸ hR.ids, ?_, ?_, ?_, fun m hm => ?_⟩
  · rw [messages, rowNumber]
    exact hR.fresh
  · rw [messages, rowNumber, added]
    exact hR.rowOf
  · rw [messages, rowNumber]
    exact hR.inbound
  · rcases bridge with bridge | bridge
    · rw [added]
      exact hR.inserting m (bridge ▸ hm)
    · exact absurd hm (bridge m)

theorem RowsNumbered.add (hR : s.RowsNumbered start) {m : InboundMessage} {receivedAt : ℕ}
    (h : s.add m receivedAt = some s') : s'.RowsNumbered start := by
  obtain ⟨manager, hstep, rfl⟩ := Option.map_eq_some_iff.1 h
  simp only [SessionManager.step] at hstep
  split at hstep <;> cases hstep
  obtain ⟨-, hadded, -⟩ :=
    SessionManager.addMessage_kept s.manager m.interface m.channel ⟨m.author, m.content, receivedAt⟩
  refine ⟨hR.start_le, hR.ids, hR.fresh, fun row hrow n hn => ?_, hR.inbound, fun q hq => ?_⟩
  · obtain ⟨e, he, hof⟩ := hR.rowOf row hrow n hn
    obtain ⟨hlt, -⟩ := List.getElem?_eq_some_iff.1 he
    refine ⟨e, ?_, hof⟩
    rw [hadded, List.getElem?_append_left hlt]
    exact he
  · cases hq
    exact ⟨_, by rw [hadded]; exact List.getLast?_concat, rfl, rfl, rfl⟩

/-- A row that is inserted has the number of the last message, or none. -/
theorem RowsNumbered.insert (hR : s.RowsNumbered start) {m : InsertCall} {t : MessageTable}
    (h : s.messages.insertMessage m = .ok t) {number : Option ℕ} (messages : s'.messages = t)
    (rowNumber : s'.rowNumber = Function.update s.rowNumber t.seq number)
    (added : s'.manager.added = s.manager.added) (bridge : s'.bridge = s.bridge ∨ ∀ m, s'.bridge ≠ .inserting m)
    (hnumber : number.isSome ↔ m.direction = "inbound")
    (hof : ∀ n id now, number = some n → ∃ e, s.manager.added[n]? = some e ∧
      RowOf ⟨id, m.interface, m.channel, m.author, m.content, m.direction, now⟩ e) : s'.RowsNumbered start := by
  have ht := insertMessage_some h
  subst ht
  rw [show (⟨_, s.messages.seq + 1⟩ : MessageTable).seq = s.messages.seq + 1 from rfl] at rowNumber
  have hold : ∀ row ∈ s.messages.rows, s'.rowNumber row.id = s.rowNumber row.id := by
    intro row hrow
    have hid := hR.ids row hrow
    rw [rowNumber, Function.update_of_ne (by omega)]
  have hnew : s'.rowNumber (s.messages.seq + 1) = number := by rw [rowNumber, Function.update_self]
  refine ⟨?_, fun row hrow => ?_, fun id hid => ?_, fun row hrow n hn => ?_, fun row hrow hid hin => ?_,
    fun q hq => ?_⟩
  · rw [messages]
    exact hR.start_le.trans (Nat.le_succ _)
  · rw [messages] at hrow ⊢
    rcases List.mem_append.1 hrow with hrow | hrow
    · exact (hR.ids row hrow).trans (Nat.le_succ _)
    · rw [List.mem_singleton.1 hrow]
  · rw [messages] at hid
    have hid' : s.messages.seq + 1 < id := hid
    rw [rowNumber, Function.update_of_ne (by omega)]
    exact hR.fresh id (by omega)
  · rw [messages] at hrow
    rw [added]
    rcases List.mem_append.1 hrow with hrow | hrow
    · exact hR.rowOf row hrow n (hold row hrow ▸ hn)
    · rw [List.mem_singleton.1 hrow] at hn ⊢
      exact hof n _ _ (hnew ▸ hn)
  · rw [messages] at hrow
    rcases List.mem_append.1 hrow with hrow | hrow
    · rw [hold row hrow]
      exact hR.inbound row hrow hid hin
    · rw [List.mem_singleton.1 hrow] at hin ⊢
      rw [hnew]
      exact hnumber.2 hin
  · rcases bridge with bridge | bridge
    · rw [added]
      exact hR.inserting q (bridge ▸ hq)
    · exact absurd hq (bridge q)

theorem RowsNumbered.insertInbound (hR : s.RowsNumbered start) {m : InboundMessage} {now : ℕ} {queryOk : Bool}
    (hbridge : s.bridge = .inserting m) : (s.insert m now queryOk).RowsNumbered start := by
  have hidle : ∀ q, BridgePhase.idle ≠ .inserting q := by
    intro q hq
    cases hq
  obtain ⟨e, hlast, hkey, hauthor, hcontent⟩ := hR.inserting m hbridge
  rw [List.getLast?_eq_getElem?] at hlast
  unfold Daemon.insert
  split
  · rename_i t ht
    have hnumber : (some (s.manager.added.length - 1)).isSome ↔ "inbound" = "inbound" := iff_of_true rfl rfl
    refine hR.insert ht rfl rfl rfl (.inr hidle) hnumber fun n id now hn => ?_
    cases hn
    exact ⟨e, hlast, rfl, hkey, hauthor, hcontent⟩
  · exact hR.keep rfl rfl rfl (.inr hidle)

theorem RowsNumbered.respond (hR : s.RowsNumbered start) {now : ℕ} {queryOk : Bool}
    (h : s.respond now queryOk = some s') : s'.RowsNumbered start := by
  unfold Daemon.respond at h
  split at h
  · rename_i r result _
    obtain ⟨interface, -, rfl⟩ := Option.map_eq_some_iff.1 h
    cases result with
    | error e => exact hR.keep rfl rfl rfl (.inl rfl)
    | ok response =>
      cases ht : s.messages.insertMessage
          ⟨r.batch.interface, r.batch.channel, "auxlry", response, "outbound", now, queryOk⟩ with
      | error e =>
        refine hR.keep ?_ rfl rfl (.inl rfl)
        show (s.messages.insertMessage _).toOption.getD s.messages = s.messages
        rw [ht]
        rfl
      | ok t =>
        -- the row has no number, as its id is new
        have hnone : s.rowNumber = Function.update s.rowNumber t.seq none := by
          refine (Function.update_eq_self_iff.2 ?_).symm
          rw [insertMessage_some ht]
          exact (hR.fresh _ (Nat.lt_succ_self _)).symm
        refine hR.insert ht ?_ hnone rfl (.inl rfl) (iff_of_false (by simp) (by simp)) fun n _ _ hn => ?_
        · show (s.messages.insertMessage _).toOption.getD s.messages = t
          rw [ht]
          rfl
        · cases hn
  · cases h

theorem RowsNumbered.wake (hR : s.RowsNumbered start) {task : ℕ} (h : s.wake task = some s') :
    s'.RowsNumbered start := by
  obtain ⟨m, hm, h⟩ := Option.bind_eq_some_iff.1 h
  have hadded : m.added = s.manager.added := by
    rcases SessionManager.wake_cases hm with ⟨-, hadded, -⟩ | ⟨t, session, -, -, rfl⟩
    · exact hadded
    · rfl
  split at h
  · cases h
    exact hR.keep rfl rfl hadded (.inl rfl)
  · obtain ⟨interface, -, rfl⟩ := Option.map_eq_some_iff.1 h
    exact hR.keep rfl rfl hadded (.inl rfl)

theorem RowsNumbered.interface (hR : s.RowsNumbered start) {action : InterfaceAgent.Action}
    (h : s.interfaceStep action = some s') : s'.RowsNumbered start := by
  unfold interfaceStep at h
  split at h
  · cases h
  · cases h
  · obtain ⟨interface, -, rfl⟩ := Option.map_eq_some_iff.1 h
    exact hR.keep rfl rfl rfl (.inl rfl)
  · split at h
    · obtain ⟨interface, -, rfl⟩ := Option.map_eq_some_iff.1 h
      exact hR.keep rfl rfl rfl (.inl rfl)
    · cases h
  · obtain ⟨interface, -, rfl⟩ := Option.map_eq_some_iff.1 h
    exact hR.keep rfl rfl rfl (.inl rfl)

theorem RowsNumbered.step (hR : s.RowsNumbered start) (h : s.step a = some s') : s'.RowsNumbered start := by
  cases a with
  | elapse ms | publish event =>
    cases h
    exact hR.keep rfl rfl rfl (.inl rfl)
  | recv =>
    simp only [Daemon.step] at h
    split at h <;> cases h
    refine hR.keep rfl rfl rfl (.inr fun m hm => ?_)
    revert hm
    unfold receive
    split <;> intro hm <;> cases hm
  | add =>
    simp only [Daemon.step] at h
    split at h
    · exact hR.add h
    · cases h
  | insert now queryOk =>
    simp only [Daemon.step] at h
    split at h
    · rename_i m hbridge
      cases h
      exact hR.insertInbound hbridge
    · cases h
  | wake task => exact hR.wake h
  | interface action => exact hR.interface h
  | prompt order =>
    simp only [Daemon.step] at h
    split at h
    · split at h
      · cases h
        exact hR.keep rfl rfl rfl (.inl rfl)
      · split at h <;> cases h
        exact hR.keep rfl rfl rfl (.inl rfl)
    · cases h
  | respond now queryOk => exact hR.respond h

theorem rowsNumbered_init (now : ℕ) (adapters : List String) {messages : MessageTable}
    (hids : ∀ row ∈ messages.rows, row.id ≤ messages.seq) :
    (init now adapters messages).RowsNumbered messages.seq where
  start_le := le_rfl
  ids := hids
  fresh _ _ := rfl
  rowOf _ _ _ hn := by cases hn
  inbound row hrow hid := absurd (hids row hrow) (not_le.2 hid)
  inserting _ hm := by cases hm

/-- **The numbers of rows**: what was inserted since the start is inbound exactly if it has a
number, and it is then the row of the message with that number. -/
theorem row_number_iff {now : ℕ} {adapters : List String} {messages : MessageTable} {as : List Action}
    (hids : ∀ row ∈ messages.rows, row.id ≤ messages.seq)
    (h : Sys.Visits Daemon.step (init now adapters messages) as s) {row : MessageRow}
    (hrow : row ∈ s.messages.rows) (hnew : messages.seq < row.id) : row.direction = "inbound" ↔
      ∃ n e, s.rowNumber row.id = some n ∧ s.manager.added[n]? = some e ∧ RowOf row e := by
  have hR : s.RowsNumbered messages.seq :=
    h.inv (fun _ _ _ hR h => RowsNumbered.step hR h) (rowsNumbered_init now adapters hids)
  constructor
  · intro hin
    obtain ⟨n, hn⟩ := Option.isSome_iff_exists.1 (hR.inbound row hrow hnew hin)
    obtain ⟨e, he, hof⟩ := hR.rowOf row hrow n hn
    exact ⟨n, e, hn, he, hof⟩
  · rintro ⟨n, e, -, -, hin, -⟩
    exact hin

/-! ## Runs -/

theorem tracked_init (now : ℕ) (adapters : List String) (messages : MessageTable) :
    (init now adapters messages).Tracked where
  batches := rfl
  pending _ := .nil
  delivered d hd := by cases hd
  accounts := InterfaceAgent.accounts_init adapters

theorem Tracked.change (hJ : s.Tracked) (h : Change s s' a) : s'.Tracked := by
  cases h with
  | quiet _ sessions added batches pending delivered _ accounts =>
    have hpending : s'.manager.pending = s.manager.pending := by
      unfold SessionManager.pending
      rw [sessions]
    refine ⟨batches.trans hJ.batches, fun key => ?_, fun d hd => ?_, delivered ▸ accounts _ hJ.accounts⟩
    · rw [hpending, added, pending]
      exact hJ.pending key
    · rw [added]
      exact hJ.delivered d (delivered ▸ hd)
  | added _ key e sessions added batches pending delivered _ interface =>
    refine ⟨batches.trans hJ.batches, fun key' => ?_, fun d hd => ?_, ?_⟩
    · rw [sessions, added, pending]
      by_cases hkey : key' = key
      · rw [hkey, Function.update_self, Function.update_self]
        exact (hJ.pending key).snoc e
      · rw [Function.update_of_ne hkey, Function.update_of_ne hkey]
        exact (hJ.pending key').mono e
    · rw [added]
      exact (hJ.delivered d (delivered ▸ hd)).mono e
    · rw [interface, delivered]
      exact hJ.accounts
  | flushed _ b messages sessions added batches pending delivered _ interface =>
    refine ⟨batches, fun key => ?_, fun d hd => ?_, ?_⟩
    · rw [sessions, added, pending]
      by_cases hkey : key = b.key
      · rw [hkey, Function.update_self, Function.update_self]
        exact .nil
      · rw [Function.update_of_ne hkey, Function.update_of_ne hkey]
        exact hJ.pending key
    · rw [added]
      rw [delivered] at hd
      rcases List.mem_append.1 hd with hd | hd
      · exact hJ.delivered d hd
      · rw [List.mem_singleton.1 hd, messages]
        exact hJ.pending b.key
    · rw [delivered, List.map_append]
      exact hJ.accounts.step interface
  | asked r rows _ _ asked =>
    subst asked
    exact ⟨hJ.batches, hJ.pending, hJ.delivered, hJ.accounts⟩

theorem Tracked.step (hJ : s.Tracked) (h : s.step a = some s') : s'.Tracked :=
  hJ.change (step_change hJ.batches h)

/-- A batch in process has the numbers of its messages. -/
theorem Tracked.numbers (hJ : s.Tracked) {r : Received} (h : s.interface.phase = .processing r) :
    Numbers s.manager.added (s.numbers r) r.batch.messages := by
  have hheld : r ∈ s.interface.held :=
    List.mem_append_left _ (List.mem_append_left _ (hJ.accounts.current r h))
  have hbatch := hJ.accounts.batch r hheld
  rw [List.getElem?_map] at hbatch
  obtain ⟨d, hd, hfirst⟩ := Option.map_eq_some_iff.1 hbatch
  have hown := hJ.delivered d (List.mem_of_getElem? hd)
  rw [Daemon.numbers, hd, ← hfirst]
  exact hown

/-- The inbound messages of the history are of the rows that were loaded. -/
theorem unseen_iff (r : Received) (rows : List MessageRow) :
    (∀ row ∈ rows, ∀ n ∈ s.numbers r, s.rowNumber row.id ≠ some n) ↔
      ∀ n ∈ s.numbers r, n ∉ rows.reverse.filterMap (s.rowNumber ·.id) := by
  simp only [List.mem_filterMap, List.mem_reverse, not_exists, not_and]
  exact ⟨fun h n hn row hrow => h row hrow n hn, fun h row hrow n hn => h n hn row hrow⟩

/-- **One step** keeps each message once exactly when it meets its guard. -/
theorem onceEach_step (hJ : s.Tracked) (hP : s.OnceEach) (h : s.step a = some s') :
    s'.OnceEach ↔ s.Unseen a := by
  unfold OnceEach at hP ⊢
  cases step_change hJ.batches h with
  | quiet unseen _ added _ _ _ contexts | flushed unseen _ _ _ added _ _ _ contexts =>
    rw [contexts, added]
    exact iff_of_true hP unseen
  | added unseen _ e _ added _ _ _ contexts =>
    rw [contexts, added]
    exact iff_of_true (fun c hc => (hP c hc).mono e) unseen
  | asked r rows processing unseen asked =>
    subst asked
    rw [unseen, unseen_iff]
    have hnew := Numbers.once_iff (c := ⟨r, (MessageTable.getRecentMessages rows).map StoredMessage.chat,
      r.batch.combined, rows.reverse.filterMap (s.rowNumber ·.id), s.numbers r⟩) (hJ.numbers processing)
    rw [← hnew]
    constructor
    · intro hall
      exact hall _ (List.mem_append_right _ (List.mem_singleton_self _))
    · intro hone c hc
      rcases List.mem_append.1 hc with hc | hc
      · exact hP c hc
      · rw [List.mem_singleton.1 hc]
        exact hone

/-- **Each message of a batch is in its context once**, in a run of the daemon, exactly when
no history is loaded with a row of its own batch. -/
theorem onceEach_iff (now : ℕ) (adapters : List String) (messages : MessageTable) (as : List Action) :
    (∀ s, Sys.Visits step (init now adapters messages) as s → s.OnceEach) ↔
      ∀ s a, Sys.Takes step (init now adapters messages) as s a → s.Unseen a :=
  Sys.visits_iff_takes (fun _ _ _ hJ _ _ => Tracked.step hJ) (fun _ _ _ => onceEach_step) as
    (tracked_init now adapters messages) (by simp [OnceEach, init])

/-- A message that is persisted at once, and processed when its channel has been quiet. -/
def firstMessage : List Action :=
  [.publish (.messageReceived "discord" "1" "ann" "hi"), .recv, .add, .insert 0 true, .elapse debounceMs,
    .wake 0, .interface .next, .prompt (some [⟨1, "discord", "1", "ann", "hi", "inbound", 0⟩])]

/-- The model is given the first message of all twice. -/
theorem first_message_twice :
    (∃ s c, Sys.run step (init 0 ["discord"] .empty) firstMessage = some s ∧ s.contexts = [c] ∧
      c.history = [.user "ann: hi"] ∧ c.prompt = "ann: hi" ∧ c.earlier ++ c.own = [0, 0]) ∧
    ¬ ∀ s, Sys.Visits step (init 0 ["discord"] .empty) firstMessage s → s.OnceEach := by
  have h : Sys.run step (init 0 ["discord"] .empty) firstMessage = some _ := rfl
  refine ⟨⟨_, _, h, rfl, rfl, rfl, rfl⟩, fun hall => ?_⟩
  have honce := hall _ ⟨_, List.prefix_rfl, h⟩ _ (List.mem_singleton_self _)
  cases honce with
  | cons hfirst _ => exact absurd hfirst.1 (by decide)

end Daemon

end Auxlry
