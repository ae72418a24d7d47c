import Auxlry.Proof.Answers
import Auxlry.Proof.Context
import Auxlry.Proof.DaemonSteps
import Auxlry.Proof.Isolation
import Auxlry.Spec.Adapters
import Auxlry.Spec.Discord

/-!
# Where messages come from

A message that the daemon works with was let through by an adapter, and keeps the names it
came under: through the bus, its session, the batch, the prompt of the model, and on to
where the answer is sent. `Sourced` is the invariant, for any notion `Came` of the messages
that have come; it needs that their channels have no colon in their names.

* `Sourced.step`: every step of the daemon keeps it.
* `confined`: **the model is asked, and answers are sent, only where an adapter let a message
  through**.
-/

namespace Auxlry

variable {Came Came' : InboundMessage → Prop}

/-! ## Sessions -/

/-- The messages that wait under a key came under names that make it up, and a task has
names that one came under. -/
structure SessionManager.Sourced (Came : InboundMessage → Prop) (m : SessionManager) : Prop where
  pending : ∀ key, ∀ p ∈ m.pending key, ∃ interface channel, key = sessionKey interface channel ∧
    Came ⟨interface, channel, p.author, p.content⟩
  tasks : ∀ i t, m.tasks i = some t → ∃ author content, Came ⟨t.interface, t.channel, author, content⟩

/-- A batch of messages that came under its names, one at least. -/
structure BatchedInput.Sourced (Came : InboundMessage → Prop) (b : BatchedInput) : Prop where
  some : ∃ author content, Came ⟨b.interface, b.channel, author, content⟩
  messages : ∀ p ∈ b.messages, Came ⟨b.interface, b.channel, p.author, p.content⟩

namespace SessionManager

variable {m m' : SessionManager} {interface channel author content : String} {i : ℕ}

theorem Sourced.addMessage (hm : m.Sourced Came) (hcame : Came ⟨interface, channel, author, content⟩)
    (receivedAt : ℕ) : (m.addMessage interface channel ⟨author, content, receivedAt⟩).Sourced Came := by
  obtain ⟨hpending, -, -⟩ := addMessage_kept m interface channel ⟨author, content, receivedAt⟩
  constructor
  · intro key p hp
    rw [hpending] at hp
    by_cases hkey : key = sessionKey interface channel
    · rw [hkey, Function.update_self] at hp
      rcases List.mem_append.1 hp with hp | hp
      · exact hm.pending key p (hkey ▸ hp)
      · rw [List.mem_singleton.1 hp]
        exact ⟨interface, channel, hkey, hcame⟩
    · rw [Function.update_of_ne hkey] at hp
      exact hm.pending key p hp
  · intro i t ht
    unfold SessionManager.addMessage at ht
    dsimp only at ht
    split at ht
    · rcases spawn_tasks ht with ⟨-, rfl⟩ | ⟨-, ht⟩
      · exact ⟨author, content, hcame⟩
      · exact hm.tasks i t ht
    · exact hm.tasks i t ht

/-- A task that wakes up leaves the batches alone, or appends one of messages that came. -/
theorem Sourced.wake (hm : m.Sourced Came) (hplain : ∀ q, Came q → ':' ∉ q.channel.toList)
    (h : m.step (.wake i) = some m') :
    m'.Sourced Came ∧ (m'.batches = m.batches ∨ ∃ b, b.Sourced Came ∧ m'.batches = m.batches ++ [b]) := by
  rcases wake_cases h with ⟨sessions, -, batches, -, tasks⟩ | ⟨t, session, ht, hsession, rfl⟩
  · refine ⟨⟨fun key p hp => hm.pending key p ?_, fun j u hu => ?_⟩, .inl batches⟩
    · unfold SessionManager.pending at hp ⊢
      rw [← sessions]
      exact hp
    · obtain ⟨v, hv, hi, hc⟩ := tasks j u hu
      rw [← hi, ← hc]
      exact hm.tasks j v hv
  · have hsource := hm.tasks i t ht
    have hbatch : BatchedInput.Sourced Came ⟨t.interface, t.channel, session.pending⟩ := by
      refine ⟨hsource, fun p hp => ?_⟩
      have hp : p ∈ m.pending t.key := by
        rw [SessionManager.pending, hsession]
        exact hp
      -- the names under which it came make up the key of the task, and so they are its names
      obtain ⟨interface, channel, hkey, hcame⟩ := hm.pending t.key p hp
      obtain ⟨author, content, htask⟩ := hsource
      obtain ⟨hi, hc⟩ : t.interface = interface ∧ t.channel = channel :=
        Posts.sessionKey_inj (hplain _ htask) (hplain _ hcame) hkey
      show Came ⟨t.interface, t.channel, p.author, p.content⟩
      rw [hi, hc]
      exact hcame
    refine ⟨⟨fun key p hp => ?_, fun j u hu => hm.tasks j u (flush_tasks hu).2⟩, .inr ⟨_, hbatch, rfl⟩⟩
    rw [flush_pending] at hp
    by_cases hkey : key = t.key
    · rw [hkey, Function.update_self] at hp
      cases hp
    · rw [Function.update_of_ne hkey] at hp
      exact hm.pending key p hp

end SessionManager

/-! ## The interface agent -/

/-- The interface and channel of an answer. -/
def Output.source : Output → String × String
  | .stored interface channel _ _ _ | .published interface channel _ | .sentMessage interface channel _ =>
    (interface, channel)

namespace InterfaceAgent

variable {P : BatchedInput → Prop} {s s' : InterfaceAgent} {a : Action}

/-- The batches that are held satisfy `P`, and each answer is to one that does. -/
structure Holds (P : BatchedInput → Prop) (s : InterfaceAgent) : Prop where
  queue : ∀ b ∈ s.queue, P b
  deferred : ∀ r ∈ s.deferred, P r.batch
  current : ∀ r, s.phase.current = some r → P r.batch
  outputs : ∀ o ∈ s.outputs, ∃ b, P b ∧ o.source = b.source

/-- The batch at the head of the channel, and the others. -/
theorem Holds.head (hs : s.Holds P) {r : Received} {rest : List BatchedInput} (hqueue : s.queue = r.batch :: rest) :
    P r.batch ∧ ∀ b ∈ rest, P b := by
  have hall := hs.queue
  rw [hqueue] at hall
  exact ⟨hall _ List.mem_cons_self, fun b hb => hall b (List.mem_cons_of_mem _ hb)⟩

/-- An answer goes where its batch came from. -/
theorem source_of_mem_answer {adapters : List String} {r : Received} {result : Except String String} {o : Output}
    (h : o ∈ answer adapters r result) : o.source = r.batch.source := by
  have hdeliver : ∀ text, ∀ o ∈ (adapters.filter (· = r.batch.interface)).map
      (Output.sentMessage · r.batch.channel text), o.source = r.batch.source := by
    intro text o ho
    obtain ⟨adapter, hadapter, rfl⟩ := List.mem_map.1 ho
    obtain ⟨-, hname⟩ := List.mem_filter.1 hadapter
    rw [of_decide_eq_true hname]
    rfl
  cases result with
  | ok response =>
    rcases List.mem_cons.1 h with rfl | h
    · rfl
    · rcases List.mem_cons.1 h with rfl | h
      · rfl
      · exact hdeliver _ o h
  | error e => exact hdeliver _ o h

theorem Holds.step (hs : s.Holds P) (hdelivered : ∀ b ∈ a.delivered, P b) (h : s.step a = some s') :
    s'.Holds P := by
  cases step_change h with
  | deliver b =>
    refine { hs with queue := fun c hc => ?_ }
    rcases List.mem_append.1 hc with hc | hc
    · exact hs.queue c hc
    · exact hdelivered c hc
  | close => exact { hs with }
  | agents action agents => exact { hs with }
  | @pop ds r _ hdeferred =>
    have hall := hs.deferred
    rw [hdeferred] at hall
    refine ⟨hs.queue, fun q hq => hall q (List.mem_append_left _ hq), fun q hq => ?_, hs.outputs⟩
    cases hq
    exact hall r (List.mem_append_right _ (List.mem_singleton_self r))
  | take _ _ hqueue =>
    obtain ⟨hr, hrest⟩ := hs.head hqueue
    refine ⟨hrest, hs.deferred, fun q hq => ?_, hs.outputs⟩
    cases hq
    exact hr
  | stop => exact ⟨hs.queue, hs.deferred, fun q hq => (by cases hq), hs.outputs⟩
  | steer _ hqueue =>
    obtain ⟨-, hrest⟩ := hs.head hqueue
    exact ⟨hrest, hs.deferred, hs.current, hs.outputs⟩
  | defer _ hqueue | drain _ hqueue =>
    obtain ⟨hr, hrest⟩ := hs.head hqueue
    refine ⟨hrest, fun q hq => ?_, hs.current, hs.outputs⟩
    rcases List.mem_append.1 hq with hq | hq
    · exact hs.deferred q hq
    · rw [List.mem_singleton.1 hq]
      exact hr
  | complete hphase | drained hphase =>
    refine ⟨hs.queue, hs.deferred, fun q hq => hs.current q ?_, hs.outputs⟩
    rw [hphase]
    exact hq
  | @respond r result hphase =>
    refine ⟨hs.queue, hs.deferred, fun q hq => (by cases hq), fun o ho => ?_⟩
    rw [respond_outputs] at ho
    rcases List.mem_append.1 ho with ho | ho
    · exact hs.outputs o ho
    · exact ⟨r.batch, hs.current r (by rw [hphase]; rfl), source_of_mem_answer ho⟩

theorem Holds.mono {Q : BatchedInput → Prop} (hs : s.Holds P) (h : ∀ b, P b → Q b) : s.Holds Q where
  queue b hb := h b (hs.queue b hb)
  deferred r hr := h _ (hs.deferred r hr)
  current r hr := h _ (hs.current r hr)
  outputs o ho := by
    obtain ⟨b, hb, hsource⟩ := hs.outputs o ho
    exact ⟨b, h b hb, hsource⟩

end InterfaceAgent

/-! ## The daemon -/

/-- The message that the bridge has in hand. -/
def BridgePhase.message : BridgePhase → Option InboundMessage
  | .idle => none
  | .adding m _ | .inserting m => some m

/-- A row of a channel that a message came from; an inbound one is such a message. -/
structure MessageRow.Sourced (Came : InboundMessage → Prop) (row : MessageRow) : Prop where
  some : ∃ author content, Came ⟨row.interface, row.channel, author, content⟩
  inbound : row.direction = "inbound" → Came ⟨row.interface, row.channel, row.author, row.content⟩

namespace Daemon

variable {d d' : Daemon} {a : Action} {old : List MessageRow}

/-- What the daemon works with has come. The rows of `old` were there before. -/
structure Sourced (Came : InboundMessage → Prop) (old : List MessageRow) (d : Daemon) : Prop where
  bus : ∀ event ∈ d.bus, ∀ m, event.message = some m → Came m
  bridge : ∀ m, d.bridge.message = some m → Came m
  manager : d.manager.Sourced Came
  batches : d.manager.batches = []
  interface : d.interface.Holds (BatchedInput.Sourced Came)
  contexts : ∀ c ∈ d.contexts, c.received.batch.Sourced Came
  rows : ∀ row ∈ d.messages.rows, row ∈ old ∨ row.Sourced Came

/-- More may have come. -/
theorem Sourced.mono (hd : d.Sourced Came old) (h : ∀ m, Came m → Came' m) : d.Sourced Came' old := by
  have hbatch : ∀ b : BatchedInput, b.Sourced Came → b.Sourced Came' := by
    rintro b ⟨⟨author, content, hcame⟩, hmessages⟩
    exact ⟨⟨author, content, h _ hcame⟩, fun p hp => h _ (hmessages p hp)⟩
  refine ⟨fun event he m hm => h m (hd.bus event he m hm), fun m hm => h m (hd.bridge m hm), ⟨fun key p hp => ?_,
    fun i t ht => ?_⟩, hd.batches, hd.interface.mono hbatch, fun c hc => hbatch _ (hd.contexts c hc),
    fun row hrow => ?_⟩
  · obtain ⟨interface, channel, hkey, hcame⟩ := hd.manager.pending key p hp
    exact ⟨interface, channel, hkey, h _ hcame⟩
  · obtain ⟨author, content, hcame⟩ := hd.manager.tasks i t ht
    exact ⟨author, content, h _ hcame⟩
  · rcases hd.rows row hrow with hrow | ⟨⟨author, content, hcame⟩, hinbound⟩
    · exact .inl hrow
    · exact .inr ⟨⟨author, content, h _ hcame⟩, fun hin => h _ (hinbound hin)⟩

theorem sourced_init (now : ℕ) (adapters : List String) (messages : MessageTable) :
    (init now adapters messages).Sourced Came messages.rows where
  bus event he := by cases he
  bridge m hm := by cases hm
  manager := ⟨fun _ _ hp => (by cases hp), fun _ _ ht => (by cases ht)⟩
  batches := rfl
  interface := ⟨fun _ hb => (by cases hb), fun _ hr => (by cases hr), fun _ hr => (by cases hr),
    fun _ ho => (by cases ho)⟩
  contexts c hc := by cases hc
  rows row hrow := .inl hrow

/-- An event is on the bus, or is the one that is published. -/
theorem mem_publish {bus : List EventPayload} {event e : EventPayload} (h : e ∈ publish bus event) :
    e ∈ bus ∨ e = event := by
  have hmem := List.mem_of_mem_drop h
  rcases List.mem_append.1 hmem with hmem | hmem
  · exact .inl hmem
  · exact .inr (List.mem_singleton.1 hmem)

/-- A row was in the table, or is that of the message, if the call succeeds. -/
theorem mem_insertMessage {t : MessageTable} {m : InsertCall} {row : MessageRow}
    (hrow : row ∈ ((t.insertMessage m).toOption.getD t).rows) :
    row ∈ t.rows ∨ ((row.interface = m.interface ∧ row.channel = m.channel) ∧ row.author = m.author ∧
      row.content = m.content ∧ row.direction = m.direction) := by
  cases h : t.insertMessage m with
  | error e =>
    rw [h] at hrow
    exact .inl hrow
  | ok t' =>
    rw [h, insertMessage_some h] at hrow
    rcases List.mem_append.1 hrow with hrow | hrow
    · exact .inl hrow
    · rw [List.mem_singleton.1 hrow]
      exact .inr ⟨⟨rfl, rfl⟩, rfl, rfl, rfl⟩

theorem Sourced.insert (hd : d.Sourced Came old) {m : InboundMessage} (hbridge : d.bridge = .inserting m)
    (now : ℕ) (queryOk : Bool) : (d.insert m now queryOk).Sourced Came old := by
  have hcame : Came m := hd.bridge m (by rw [hbridge]; rfl)
  unfold Daemon.insert
  split
  · rename_i t ht
    refine { hd with bridge := fun q hq => (by cases hq), rows := fun row hrow => ?_ }
    have hrow : row ∈ ((d.messages.insertMessage ⟨m.interface, m.channel, m.author, m.content, "inbound", now,
        queryOk⟩).toOption.getD d.messages).rows := by
      rw [ht]
      exact hrow
    rcases mem_insertMessage hrow with hrow | ⟨⟨hi, hc⟩, ha, ht, -⟩
    · exact hd.rows row hrow
    · refine .inr ⟨⟨m.author, m.content, ?_⟩, fun _ => ?_⟩
      · rw [hi, hc]
        exact hcame
      · rw [hi, hc, ha, ht]
        exact hcame
  · exact { hd with bridge := fun q hq => (by cases hq) }

theorem Sourced.ask (hd : d.Sourced Came old) {r : Received} (hphase : d.interface.phase = .processing r)
    (rows : List MessageRow) : (d.ask r rows).Sourced Came old := by
  refine { hd with contexts := fun c hc => ?_ }
  rcases List.mem_append.1 hc with hc | hc
  · exact hd.contexts c hc
  · rw [List.mem_singleton.1 hc]
    exact hd.interface.current r (by rw [hphase]; rfl)

/-- The row of an answer is outbound, in a channel that a message came from. -/
theorem Sourced.outbound (hd : d.Sourced Came old) {r : Received} (hbatch : r.batch.Sourced Came)
    {response : String} {now : ℕ} {queryOk : Bool} {row : MessageRow}
    (hrow : row ∈ ((d.messages.insertMessage ⟨r.batch.interface, r.batch.channel, "auxlry", response, "outbound",
      now, queryOk⟩).toOption.getD d.messages).rows) : row ∈ old ∨ row.Sourced Came := by
  obtain ⟨author, content, hcame⟩ := hbatch.some
  rcases mem_insertMessage hrow with hrow | ⟨⟨hi, hc⟩, -, -, hdirection⟩
  · exact hd.rows row hrow
  · refine .inr ⟨⟨author, content, by rw [hi, hc]; exact hcame⟩, fun hin => ?_⟩
    rw [hdirection] at hin
    exact absurd hin (by simp)

/-- **Every step keeps the invariant**, if what is published has come. -/
theorem Sourced.step (hd : d.Sourced Came old) (hplain : ∀ q, Came q → ':' ∉ q.channel.toList)
    (hpublish : ∀ event, a = .publish event → ∀ m, event.message = some m → Came m) (h : d.step a = some d') :
    d'.Sourced Came old := by
  cases step_did h with
  | elapse ms => exact { hd with manager := ⟨hd.manager.pending, hd.manager.tasks⟩ }
  | publish event =>
    refine { hd with bus := fun e he m hm => ?_ }
    dsimp only at he
    rcases mem_publish he with he | he
    · exact hd.bus e he m hm
    · exact hpublish event rfl m (he ▸ hm)
  | @recv event rest idle bus =>
    have hall := hd.bus
    rw [bus] at hall
    refine { hd with bus := fun e he => hall e (List.mem_cons_of_mem _ he), bridge := fun m hm => ?_ }
    refine hall event List.mem_cons_self m ?_
    cases event with
    | messageReceived interface channel author content => exact hm
    | interfaceReply | other => cases hm
  | @add m receivedAt adding =>
    have hcame : Came m := hd.bridge m (by rw [adding]; rfl)
    obtain ⟨-, -, hbatches⟩ :=
      SessionManager.addMessage_kept d.manager m.interface m.channel ⟨m.author, m.content, receivedAt⟩
    refine { hd with bridge := fun q hq => ?_, manager := ?_, batches := hbatches.trans hd.batches }
    · cases hq
      exact hcame
    · exact hd.manager.addMessage hcame receivedAt
  | insert now queryOk inserting => exact hd.insert inserting now queryOk
  | slept wake none =>
    obtain ⟨hmanager, -⟩ := hd.manager.wake hplain wake
    exact { hd with manager := hmanager, batches := none }
  | @flushed task manager b rest interface wake batches deliver =>
    obtain ⟨hmanager, hsent⟩ := hd.manager.wake hplain wake
    rw [hd.batches, batches] at hsent
    rcases hsent with hsent | ⟨c, hc, hsent⟩
    · cases hsent
    · obtain ⟨rfl, rfl⟩ := List.cons.inj hsent
      refine { hd with manager := ⟨hmanager.pending, hmanager.tasks⟩, batches := rfl, interface := ?_ }
      refine hd.interface.step (fun q hq => ?_) deliver
      rw [List.mem_singleton.1 hq]
      exact hc
  | next took => exact { hd with interface := hd.interface.step (fun b hb => by cases hb) took }
  | interface own delivered =>
    exact { hd with interface := hd.interface.step (fun b hb => by rw [delivered] at hb; cases hb) own }
  | prompt rows processing => exact hd.ask processing rows
  | @answer r response interface now queryOk responding respond =>
    have hbatch : r.batch.Sourced Came := hd.interface.current r (by rw [responding]; rfl)
    refine { hd with
      interface := hd.interface.step (fun b hb => by cases hb) respond
      bus := fun event he m hm => ?_
      rows := fun row hrow => hd.outbound hbatch hrow }
    dsimp only at he
    rcases mem_publish he with he | he
    · exact hd.bus event he m hm
    · rw [he] at hm
      cases hm
  | apology now queryOk responding respond =>
    exact { hd with interface := hd.interface.step (fun b hb => by cases hb) respond }

end Daemon

/-- A step of the daemon from its start on is a step of what runs, or leaves it as it is. -/
theorem Startup.daemon_cases {s s' : Startup} {act : Startup.Action} (h : s.step act = some s') :
    s'.daemon = s.daemon ∨ ∃ a, act = .daemon a ∧ s.daemon.step a = some s'.daemon := by
  cases act with
  | spawnAdapters | subscribe =>
    simp only [Startup.step] at h
    split at h <;> cases h
    exact .inl rfl
  | daemon a =>
    simp only [Startup.step] at h
    split at h
    · obtain ⟨d, hd, rfl⟩ := Option.map_eq_some_iff.1 h
      exact .inr ⟨a, rfl, hd⟩
    · split at h
      · obtain ⟨d, hd, rfl⟩ := Option.map_eq_some_iff.1 h
        exact .inr ⟨_, rfl, hd⟩
      · split at h <;> cases h
        exact .inl rfl
      · cases h

/-! ## Channels of Discord -/

namespace ChannelId

theorem isDigit_of_mem_text (c : ChannelId) {x : Char} (h : x ∈ c.text.toList) : x.isDigit = true := by
  have hlist : c.text.toList = Nat.toDigits 10 c.id := Nat.toList_repr
  rw [hlist] at h
  exact Nat.isDigit_of_mem_toDigits (by decide) (by decide) h

theorem colon_notMem_text (c : ChannelId) : ':' ∉ c.text.toList := by
  intro h
  have hdigit := c.isDigit_of_mem_text h
  cases hdigit

/-- The text of a channel is read back when an answer is sent. -/
theorem parseU64_text (c : ChannelId) : Discord.parseU64 c.text = some c.id := by
  have hlist : c.text.toList = Nat.toDigits 10 c.id := Nat.toList_repr
  have hall : (Nat.toDigits 10 c.id).all Char.isDigit = true :=
    List.all_eq_true.2 fun x hx => c.isDigit_of_mem_text (hlist ▸ hx)
  have hne : Nat.toDigits 10 c.id ≠ [] := Nat.toDigits_ne_nil
  have hvalue : (Nat.toDigits 10 c.id).foldl (fun n x => 10 * n + (x.toNat - 48)) 0 = c.id :=
    Nat.ofDigitChars_toDigits (by decide) (by decide)
  unfold Discord.parseU64
  rw [hlist]
  split
  · rename_i cs hcs
    -- a sign is no digit
    have hsign := c.isDigit_of_mem_text (hlist ▸ hcs ▸ List.mem_cons_self)
    cases hsign
  · simp [hall, hvalue, c.lt]

end ChannelId

/-! ## What adapters let through -/

namespace DiscordAdapter

variable {a : DiscordAdapter} {msg : DiscordMessage} {event : EventPayload}

theorem message_eq_some (h : a.message msg = some event) :
    msg.author.bot = false ∧ (a.channels = [] ∨ msg.channelId.text ∈ a.channels) ∧
      event = .messageReceived a.interfaceName msg.channelId.text msg.author.name msg.content := by
  unfold message at h
  split at h
  · cases h
  · rename_i hbot
    split at h <;> cases h
    rename_i hchannel
    refine ⟨by simpa using hbot, ?_, rfl⟩
    by_contra hnone
    obtain ⟨hne, hmem⟩ := not_or.1 hnone
    simp [hne, hmem] at hchannel

end DiscordAdapter

namespace Wired

/-- The messages that adapters have let through, as they are on the bus. -/
def Passed (arrived : List (DiscordAdapter × DiscordMessage)) (m : InboundMessage) : Prop :=
  ∃ p ∈ arrived, p.1.message p.2 = some (.messageReceived m.interface m.channel m.author m.content)

/-- Discord handed the message to the adapter, and it is of no bot, and of a channel that is
in the list, if there is one. -/
structure LetThrough (s : Wired) (a : DiscordAdapter) (msg : DiscordMessage) : Prop where
  arrived : (a, msg) ∈ s.arrived
  adapter : a ∈ s.adapters
  author : msg.author.bot = false
  channel : a.channels = [] ∨ msg.channelId.text ∈ a.channels

structure Inv (adapters : List DiscordAdapter) (old : List MessageRow) (s : Wired) : Prop where
  adapters : s.adapters = adapters
  arrived : ∀ p ∈ s.arrived, p.1 ∈ s.adapters
  daemon : s.startup.daemon.Sourced (Passed s.arrived) old

variable {s s' : Wired} {act : Action} {adapters : List DiscordAdapter} {old : List MessageRow}

theorem plain_of_passed {arrived : List (DiscordAdapter × DiscordMessage)} {m : InboundMessage}
    (h : Passed arrived m) : ':' ∉ m.channel.toList := by
  obtain ⟨⟨a, msg⟩, -, hmessage⟩ := h
  obtain ⟨-, -, hevent⟩ := DiscordAdapter.message_eq_some hmessage
  obtain ⟨-, hchannel, -, -⟩ := EventPayload.messageReceived.inj hevent
  rw [hchannel]
  exact msg.channelId.colon_notMem_text

/-- What was let through is a message that an adapter was handed. -/
theorem Inv.letThrough (hs : s.Inv adapters old) {m : InboundMessage} (h : Passed s.arrived m) :
    ∃ a msg, s.LetThrough a msg ∧ m = ⟨a.interfaceName, msg.channelId.text, msg.author.name, msg.content⟩ := by
  obtain ⟨⟨a, msg⟩, hmem, hmessage⟩ := h
  obtain ⟨hbot, hchannel, hevent⟩ := DiscordAdapter.message_eq_some hmessage
  refine ⟨a, msg, ⟨hmem, hs.arrived _ hmem, hbot, hchannel⟩, ?_⟩
  obtain ⟨hi, hc, ha, ht⟩ := EventPayload.messageReceived.inj hevent
  rw [← hi, ← hc, ← ha, ← ht]

theorem Inv.step (hs : s.Inv adapters old) (h : s.step act = some s') : s'.Inv adapters old := by
  cases act with
  | startup action =>
    simp only [Wired.step] at h
    split at h
    · cases h
    · rename_i hquiet
      obtain ⟨startup, hstep, rfl⟩ := Option.map_eq_some_iff.1 h
      refine { hs with daemon := ?_ }
      rcases Startup.daemon_cases hstep with hsame | ⟨a, rfl, hd⟩
      · show startup.daemon.Sourced (Passed s.arrived) old
        rw [hsame]
        exact hs.daemon
      · refine hs.daemon.step (fun q hq => plain_of_passed hq) (fun event he m hm => ?_) hd
        -- nothing but an adapter publishes a message
        rw [he] at hquiet
        simp [publishes, hm] at hquiet
  | message i msg =>
    simp only [Wired.step] at h
    split at h
    · cases h
    · obtain ⟨a, ha, h⟩ := Option.bind_eq_some_iff.1 h
      have hadapter : a ∈ s.adapters := List.mem_of_getElem? ha
      have harrived : ∀ p ∈ s.arrived ++ [(a, msg)], p.1 ∈ s.adapters := by
        intro p hp
        rcases List.mem_append.1 hp with hp | hp
        · exact hs.arrived p hp
        · rw [List.mem_singleton.1 hp]
          exact hadapter
      have hdaemon : s.startup.daemon.Sourced (Passed (s.arrived ++ [(a, msg)])) old := by
        refine hs.daemon.mono fun m hm => ?_
        obtain ⟨p, hp, hmessage⟩ := hm
        exact ⟨p, List.mem_append_left _ hp, hmessage⟩
      split at h
      · cases h
        exact ⟨hs.adapters, harrived, hdaemon⟩
      · rename_i event hevent
        obtain ⟨startup, hstep, rfl⟩ := Option.map_eq_some_iff.1 h
        refine ⟨hs.adapters, harrived, ?_⟩
        rcases Startup.daemon_cases hstep with hsame | ⟨b, hb, hd⟩
        · show startup.daemon.Sourced (Passed (s.arrived ++ [(a, msg)])) old
          rw [hsame]
          exact hdaemon
        · refine hdaemon.step (fun q hq => plain_of_passed hq) (fun e he m hm => ?_) hd
          cases hb
          cases he
          refine ⟨(a, msg), List.mem_append_right _ (List.mem_singleton_self _), ?_⟩
          obtain ⟨-, -, heq⟩ := DiscordAdapter.message_eq_some hevent
          subst heq
          cases hm
          exact hevent

theorem inv_init (now : ℕ) (interfaces : List Loader.InterfaceConfig) (messages : MessageTable) :
    (init now interfaces messages).Inv (DiscordAdapter.instantiate interfaces) messages.rows where
  adapters := rfl
  arrived p hp := by cases hp
  daemon := Daemon.sourced_init ..

/-- **Confinement**: in every state of every run, each message that the model is prompted with
was let through by an adapter of the configuration, under the names of its batch, as was
one under the names of each row that the run has added; and an answer is only sent under
such names, to the channel that has the id. -/
theorem confined {now : ℕ} {interfaces : List Loader.InterfaceConfig} {messages : MessageTable}
    (h : Sys.Reaches Wired.step (init now interfaces messages) s) :
    s.adapters = DiscordAdapter.instantiate interfaces ∧
      (∀ c ∈ s.startup.daemon.contexts, ∀ p ∈ c.received.batch.messages, ∃ a msg, s.LetThrough a msg ∧
        (a.interfaceName, msg.channelId.text) = c.received.batch.source ∧
        (msg.author.name, msg.content) = (p.author, p.content)) ∧
      (∀ row ∈ s.startup.daemon.messages.rows, row ∈ messages.rows ∨ ∃ a msg, s.LetThrough a msg ∧
        (a.interfaceName, msg.channelId.text) = (row.interface, row.channel) ∧
        (row.direction = "inbound" → (msg.author.name, msg.content) = (row.author, row.content))) ∧
      ∀ o ∈ s.startup.daemon.interface.outputs, ∃ a msg, s.LetThrough a msg ∧
        o.source = (a.interfaceName, msg.channelId.text) ∧
        Discord.parseU64 o.source.2 = some msg.channelId.id := by
  have hs : s.Inv (DiscordAdapter.instantiate interfaces) messages.rows :=
    h.inv (fun _ _ _ ht hstep => ht.step hstep) (inv_init now interfaces messages)
  refine ⟨hs.adapters, fun c hc p hp => ?_, fun row hrow => ?_, fun o ho => ?_⟩
  · obtain ⟨a, msg, hlet, heq⟩ := hs.letThrough ((hs.daemon.contexts c hc).messages p hp)
    obtain ⟨hi, hc, ha, ht⟩ := InboundMessage.mk.inj heq
    refine ⟨a, msg, hlet, ?_, by rw [ha, ht]⟩
    rw [← hi, ← hc]
    rfl
  · rcases hs.daemon.rows row hrow with hrow | ⟨⟨author, content, hpassed⟩, hinbound⟩
    · exact .inl hrow
    · right
      by_cases hin : row.direction = "inbound"
      · obtain ⟨a, msg, hlet, heq⟩ := hs.letThrough (hinbound hin)
        obtain ⟨hi, hc, ha, ht⟩ := InboundMessage.mk.inj heq
        exact ⟨a, msg, hlet, by rw [hi, hc], fun _ => by rw [ha, ht]⟩
      · obtain ⟨a, msg, hlet, heq⟩ := hs.letThrough hpassed
        obtain ⟨hi, hc, -, -⟩ := InboundMessage.mk.inj heq
        exact ⟨a, msg, hlet, by rw [hi, hc], fun h => absurd h hin⟩
  · obtain ⟨b, ⟨⟨author, content, hpassed⟩, -⟩, hsource⟩ := hs.daemon.interface.outputs o ho
    obtain ⟨a, msg, hlet, heq⟩ := hs.letThrough hpassed
    obtain ⟨hi, hc, -, -⟩ := InboundMessage.mk.inj heq
    have hnames : o.source = (a.interfaceName, msg.channelId.text) := by
      rw [hsource, ← hi, ← hc]
      rfl
    refine ⟨a, msg, hlet, hnames, ?_⟩
    rw [hnames]
    exact msg.channelId.parseU64_text

def listed : List Loader.InterfaceConfig := [⟨"discord", .discord ⟨"token", ["7"]⟩⟩]

/-- Two messages, one of them in the channel that is listed, and the answer. -/
def answered : List Action :=
  [.startup .spawnAdapters, .startup .subscribe,
    .message 0 ⟨⟨"bob", false⟩, ⟨8, by decide, by decide⟩, "psst"⟩,
    .message 0 ⟨⟨"ann", false⟩, ⟨7, by decide, by decide⟩, "hi"⟩] ++
    [Daemon.Action.recv, .add, .insert 0 true, .elapse debounceMs, .wake 0, .interface .next, .prompt none,
      .interface (.complete (.ok "hello")), .interface .drain, .respond 0 true].map (.startup <| .daemon ·)

theorem confined_answered : ∃ s, Sys.run Wired.step (init 0 listed .empty) answered = some s ∧
    s.arrived.length = 2 ∧ s.startup.daemon.interface.outputs.length = 3 ∧
    ∀ o ∈ s.startup.daemon.interface.outputs, ∃ a msg, s.LetThrough a msg ∧
      o.source = (a.interfaceName, msg.channelId.text) ∧ Discord.parseU64 o.source.2 = some msg.channelId.id := by
  have h : Sys.run Wired.step (init 0 listed .empty) answered = some _ := rfl
  exact ⟨_, h, rfl, rfl, (confined ⟨answered, h⟩).2.2.2⟩

end Wired

end Auxlry
