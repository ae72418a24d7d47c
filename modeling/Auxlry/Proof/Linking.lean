import Auxlry.Proof.Registry
import Mathlib.Data.Finset.Card

/-!
# Link codes admit one node each

`core link` stores a code, and a connection that presents it uses it up before it gets a
token. Handlers run side by side, and codes may be issued again. The events of a run
record, for each connection, the code it presented and what came of it.

* `link_safe`: in **every run**, no more connections are admitted with a code than it was
  stored; the events of each connection come in the order of the protocol, each once, and
  every row of `node_tokens` and every token sent is one of them.
-/

namespace Auxlry

/-- What happens to codes and tokens. -/
inductive LinkEvent
  /-- `store_pending_code` has succeeded -/
  | codeStored (code : String)
  | presented (conn : ℕ) (code : String)
  | consumed (conn : ℕ) (code : String)
  | tokenStored (conn : ℕ) (name token : String)
  /-- the token is sent to the node -/
  | issued (conn : ℕ) (token : String)
  /-- `authenticate` returns the name of the node -/
  | admitted (conn : ℕ)
  deriving DecidableEq, Repr

namespace LinkEvent

/-- The connection that an event is about. -/
def conn : LinkEvent → Option ℕ
  | codeStored _ => none
  | presented c _ | consumed c _ | tokenStored c _ _ | issued c _ | admitted c => some c

/-- The connection that has used up a code. -/
def consumer (code : String) : LinkEvent → Option ℕ
  | consumed c code' => if code' = code then some c else none
  | _ => none

end LinkEvent

/-- The rows of a code. -/
def Database.rows (db : Database) (code : String) : ℕ := db.pendingLinkCodes.countP (·.code = code)

/-- The events of a step. -/
def Core.linkEvents (s : Core) : CoreAction → List LinkEvent
  | .storePendingCode code => [.codeStored code]
  | .receive c (.authRequest code _) queryOk =>
    .presented c code :: if queryOk && (s.db.consumePendingCode code).1 then [.consumed c code] else []
  | .storeToken c token true =>
    match s.task c with
    | .consumed name => [.tokenStored c name token]
    | _ => []
  | .sendReply c true =>
    match Core.pendingReply (s.task c) with
    | some (.authResponse true (some token), some _) => [.issued c token, .admitted c]
    | some (_, some _) => [.admitted c]
    | _ => []
  | _ => []

/-- The core, with the events of its run so far. -/
structure Audited where
  core : Core
  events : List LinkEvent

namespace Audited

def init (workspace : String) (nodeCfg : Option (String × NodeMode)) (db : Database) (now : ℕ) : Audited :=
  ⟨Core.init workspace nodeCfg db now, []⟩

/-- A step of the core. -/
def step (s : Audited) (a : CoreAction) : Option Audited :=
  (s.core.step a).map fun core => ⟨core, s.events ++ s.core.linkEvents a⟩

/-- How often a code was stored. -/
def stored (s : Audited) (code : String) : ℕ := s.events.count (.codeStored code)

/-- The connection was admitted, and had presented this code. -/
def AdmittedWith (s : Audited) (code : String) (c : ℕ) : Prop :=
  .presented c code ∈ s.events ∧ .admitted c ∈ s.events

/-- The events about a connection. -/
def about (s : Audited) (c : ℕ) : List LinkEvent := s.events.filter (·.conn = some c)

/-- A connection that is admitted with a code, from the beginning to the end. -/
def linked (c : ℕ) (code name token : String) : List LinkEvent :=
  [.presented c code, .consumed c code, .tokenStored c name token, .issued c token, .admitted c]

/-- The events about a connection are the first of those of a link, or it was admitted with
a token. -/
def InOrder (c : ℕ) (es : List LinkEvent) : Prop :=
  (∃ code name token, es <+: linked c code name token) ∨ es = [.admitted c]

/-- What one expects of codes and tokens, from the tables `db` at the start. -/
structure LinkSafe (db : Database) (s : Audited) : Prop where
  admits : ∀ code (cs : Finset ℕ), (∀ c ∈ cs, s.AdmittedWith code c) →
    cs.card ≤ db.rows code + s.stored code
  served : ∀ c n, s.core.registry.get n = some (.remoteNode n c) → .admitted c ∈ s.events
  tokens : ∀ row ∈ s.core.db.nodeTokens,
    row ∈ db.nodeTokens ∨ ∃ c, .tokenStored c row.nodeName row.token ∈ s.events
  replies : ∀ c token, .reply c (.authResponse true (some token)) ∈ s.core.log → .issued c token ∈ s.events
  inOrder : ∀ c, InOrder c (s.about c)

/-! ## The events about one connection -/

/-- The events about a connection whose task stands here. -/
def Story (c : ℕ) (es : List LinkEvent) : Task → Prop
  | .absent | .accepted | .found _ => es = []
  | .consumed _ => ∃ code, es = [.presented c code, .consumed c code]
  | .stored name token => ∃ code, es = [.presented c code, .consumed c code, .tokenStored c name token]
  | .rejecting reply =>
    (es = [] ∨ ∃ code, es = [.presented c code]) ∧ ∀ token, reply ≠ .authResponse true token
  | .returned => InOrder c es
  | _ => (∃ code name token, es = linked c code name token) ∨ es = [.admitted c]

variable {s s' : Audited} {a : CoreAction} {c : ℕ} {es : List LinkEvent}

theorem inOrder_prefix (code name token : String) (h : es <+: linked c code name token) : InOrder c es :=
  .inl ⟨code, name, token, h⟩

/-- Wherever the task stands, the events are in order. -/
theorem Story.inOrder {t : Task} (h : Story c es t) : InOrder c es := by
  have hnil : ∀ {es}, es = [] → InOrder c es := by
    rintro es rfl
    exact inOrder_prefix "" "" "" List.nil_prefix
  cases t with
  | absent | accepted | found name => exact hnil h
  | consumed name =>
    obtain ⟨code, rfl⟩ := h
    exact inOrder_prefix code name "" ⟨_, rfl⟩
  | stored name token =>
    obtain ⟨code, rfl⟩ := h
    exact inOrder_prefix code name token ⟨_, rfl⟩
  | rejecting reply =>
    rcases h.1 with h | ⟨code, rfl⟩
    · exact hnil h
    · exact inOrder_prefix code "" "" ⟨_, rfl⟩
  | returned => exact h
  | authenticated | registered | announced | serving | left | unregistered =>
    rcases h with ⟨code, name, token, rfl⟩ | rfl
    · exact inOrder_prefix code name token List.prefix_rfl
    · exact .inr rfl

theorem about_append (core : Core) (c : ℕ) :
    (⟨core, s.events ++ es⟩ : Audited).about c = s.about c ++ es.filter (·.conn = some c) :=
  List.filter_append ..

/-- A step of the task of `c` adds events about `c`. -/
theorem story_setTask {core : Core} {t : Task} (hJ : ∀ c, Story c (s.about c) (s.core.task c))
    (hes : ∀ e ∈ es, e.conn = some c) (ht : Story c (s.about c ++ es) t)
    (hcore : core.task = Function.update s.core.task c t) (c' : ℕ) :
    Story c' ((⟨core, s.events ++ es⟩ : Audited).about c') (core.task c') := by
  rw [about_append, hcore]
  revert c'
  refine (Function.forall_update_iff s.core.task fun c' task =>
    Story c' (s.about c' ++ es.filter (·.conn = some c')) task).2 ⟨?_, fun c' hc => ?_⟩
  · have hall : es.filter (·.conn = some c) = es :=
      List.filter_eq_self.2 fun e he => by simpa using hes e he
    rw [hall]
    exact ht
  · have hnone : es.filter (·.conn = some c') = [] :=
      List.filter_eq_nil_iff.2 fun e he => by simpa [hes e he] using Ne.symm hc
    rw [hnone, List.append_nil]
    exact hJ c'

/-- A step of the task of `c` without events. -/
theorem story_silent {core : Core} {t : Task} (hJ : ∀ c, Story c (s.about c) (s.core.task c))
    (ht : Story c (s.about c) t) (hcore : core.task = Function.update s.core.task c t) (c' : ℕ) :
    Story c' ((⟨core, s.events ++ []⟩ : Audited).about c') (core.task c') :=
  story_setTask hJ (by simp) (by rwa [List.append_nil]) hcore c'

theorem step_some (h : s.step a = some s') :
    Core.Move s.core a s'.core ∧ s' = ⟨s'.core, s.events ++ s.core.linkEvents a⟩ := by
  obtain ⟨core, hcore, rfl⟩ := Option.map_eq_some_iff.1 h
  exact ⟨Core.step_move hcore, rfl⟩

theorem refusal_ne (msg : ProtocolMessage) (token : Option String) :
    Core.refusal msg ≠ .authResponse true token := by
  cases msg <;> simp [Core.refusal]

/-- The events of a connection that is admitted: the token is sent, if there is a new one. -/
theorem story_replied {core : Core} {reply : ProtocolMessage} {name : String}
    (hJ : Story c es (core.task c)) (pending : Core.pendingReply (core.task c) = some (reply, some name)) :
    Story c (es ++ core.linkEvents (.sendReply c true)) (.authenticated name) ∧
      ∀ e ∈ core.linkEvents (.sendReply c true), e.conn = some c := by
  rcases Core.pendingReply_cases pending with ⟨n, token, htask, -, hname⟩ | ⟨n, htask, -, hname⟩ | ⟨-, hname⟩
  · cases hname
    rw [htask] at hJ
    obtain ⟨code, rfl⟩ := hJ
    have hnew : core.linkEvents (.sendReply c true) = [.issued c token, .admitted c] := by
      simp only [Core.linkEvents, htask, Core.pendingReply]
    rw [hnew]
    exact ⟨.inl ⟨code, name, token, rfl⟩, by simp [LinkEvent.conn]⟩
  · cases hname
    rw [htask] at hJ
    obtain rfl : es = [] := hJ
    have hnew : core.linkEvents (.sendReply c true) = [.admitted c] := by
      simp only [Core.linkEvents, htask, Core.pendingReply]
    rw [hnew]
    exact ⟨.inr rfl, by simp [LinkEvent.conn]⟩
  · cases hname

/-- **The events about every connection** go with its task. -/
theorem story_step (hJ : ∀ c, Story c (s.about c) (s.core.task c)) (h : s.step a = some s') (c' : ℕ) :
    Story c' (s'.about c') (s'.core.task c') := by
  obtain ⟨move, hs'⟩ := step_some h
  rw [hs']
  generalize s'.core = core at move ⊢
  have hstory : ∀ {c : ℕ} {task : Task}, s.core.task c = task → Story c (s.about c) task :=
    fun htask => htask ▸ hJ _
  cases move with
  | tick =>
    rw [about_append]
    simpa [Core.linkEvents] using hJ c'
  | storePendingCode =>
    rw [about_append]
    simpa [Core.linkEvents, LinkEvent.conn] using hJ c'
  | @accept c task => exact story_silent hJ (t := .accepted) (hstory task :) rfl c'
  | @consume c code name task pending =>
    have hnew : s.core.linkEvents (.receive c (.authRequest code name) true) =
        [.presented c code, .consumed c code] := by simp [Core.linkEvents, pending]
    have hnil : s.about c = [] := hstory task
    rw [hnew]
    refine story_setTask hJ (by simp [LinkEvent.conn]) ?_ rfl c'
    rw [hnil]
    exact ⟨code, rfl⟩
  | @findToken c token name task found => exact story_silent hJ (t := .found name) (hstory task :) rfl c'
  | @reject c msg queryOk task refused =>
    have hnil : s.about c = [] := hstory task
    have hnew : s.core.linkEvents (.receive c msg queryOk) = [] ∨
        ∃ code, s.core.linkEvents (.receive c msg queryOk) = [.presented c code] := by
      cases msg with
      | authRequest code name =>
        refine .inr ⟨code, ?_⟩
        rw [Core.linkEvents, show (queryOk && (s.core.db.consumePendingCode code).1) = false from refused]
        rfl
      | _ => exact .inl rfl
    refine story_setTask (t := .rejecting (Core.refusal msg)) hJ ?_ ?_ rfl c'
    · rcases hnew with hnew | ⟨code, hnew⟩ <;> simp [hnew, LinkEvent.conn]
    · rw [hnil]
      exact ⟨hnew, fun token => refusal_ne msg token⟩
  | @storeToken c name token task =>
    have hnew : s.core.linkEvents (.storeToken c token true) = [.tokenStored c name token] := by
      simp only [Core.linkEvents, task]
    obtain ⟨code, hcode⟩ := hstory task
    rw [hnew]
    refine story_setTask hJ (by simp [LinkEvent.conn]) ?_ rfl c'
    rw [hcode]
    exact ⟨code, rfl⟩
  | @replied c reply name pending =>
    obtain ⟨hnew, hconn⟩ := story_replied (hJ c) pending
    exact story_setTask hJ hconn hnew rfl c'
  | @rejected c reply pending =>
    have hnew : s.core.linkEvents (.sendReply c true) = [] := by
      simp only [Core.linkEvents, pending]
    rw [hnew]
    exact story_silent hJ (t := .returned) (hJ c).inOrder rfl c'
  | @noMessage c task | @tokenLost c name token task | @notSent c p pending | @noWorkspace c name task
  | @publishDisconnected c name task => exact story_silent hJ (t := .returned) (hJ c).inOrder rfl c'
  | @register c name task => exact story_silent hJ (t := .registered name) (hstory task :) rfl c'
  | @publishConnected c name task => exact story_silent hJ (t := .announced name) (hstory task :) rfl c'
  | @createWorkspace c name task =>
    exact story_silent hJ (t := .serving name (s.core.nodeOf name)) (hstory task :) rfl c'
  | @leave c name _ task => exact story_silent hJ (t := .left name) (hstory task :) rfl c'
  | @unregister c name task => exact story_silent hJ (t := .unregistered name) (hstory task :) rfl c'

/-! ## The rows of a code -/

theorem rows_storePendingCode {db db' : Database} {code : String} {now : ℕ}
    (h : db.storePendingCode code now = some db') (code' : String) :
    db'.rows code' = db.rows code' + [LinkEvent.codeStored code].count (.codeStored code') := by
  obtain ⟨-, rfl⟩ := Core.storePendingCode_eq h
  rw [Database.rows, List.countP_append, Database.rows]
  by_cases hc : code = code' <;> simp [hc]

/-- A consumption removes at least one row of its code. -/
theorem rows_consumePendingCode {db : Database} {code : String}
    (h : (db.consumePendingCode code).1 = true) (c : ℕ) (code' : String) :
    (db.consumePendingCode code).2.rows code' +
        ([LinkEvent.presented c code, .consumed c code].filterMap (LinkEvent.consumer code')).length ≤
      db.rows code' := by
  have hle : (db.consumePendingCode code).2.rows code' ≤ db.rows code' :=
    List.filter_sublist.countP_le
  by_cases hc : code = code'
  · subst hc
    have hpos : 0 < db.rows code := by
      obtain ⟨row, hrow, hcode⟩ := List.any_eq_true.1 h
      exact List.countP_pos_iff.2 ⟨row, hrow, hcode⟩
    have hzero : (db.consumePendingCode code).2.rows code = 0 := by
      simp [Database.consumePendingCode, Database.rows, List.countP_eq_zero]
    rw [hzero]
    simpa [List.filterMap_cons, LinkEvent.consumer] using Nat.succ_le_of_lt hpos
  · simpa [List.filterMap_cons, LinkEvent.consumer, hc] using hle

/-- What a step adds to the rows and takes from them. -/
theorem rows_move {s t : Core} (move : Core.Move s a t) (code : String) :
    t.db.rows code + ((s.linkEvents a).filterMap (LinkEvent.consumer code)).length ≤
      s.db.rows code + (s.linkEvents a).count (.codeStored code) := by
  cases move with
  | storePendingCode stored =>
    rw [rows_storePendingCode stored]
    exact Nat.le_refl _
  | @consume c code' name task pending =>
    have hnew : s.linkEvents (.receive c (.authRequest code' name) true) =
        [.presented c code', .consumed c code'] := by simp [Core.linkEvents, pending]
    rw [hnew]
    exact Nat.le_add_right_of_le (rows_consumePendingCode pending c code)
  | @reject c msg queryOk task refused =>
    have hnone : (s.linkEvents (.receive c msg queryOk)).filterMap (LinkEvent.consumer code) = [] := by
      cases msg with
      | authRequest code' name =>
        rw [Core.linkEvents, show (queryOk && (s.db.consumePendingCode code').1) = false from refused]
        rfl
      | _ => rfl
    rw [hnone]
    exact Nat.le_add_right ..
  | @storeToken c name token task =>
    have hnew : s.linkEvents (.storeToken c token true) = [.tokenStored c name token] := by
      simp only [Core.linkEvents, task]
    rw [hnew]
    exact Nat.le_add_right ..
  | @replied c reply name pending =>
    have hnone : (s.linkEvents (.sendReply c true)).filterMap (LinkEvent.consumer code) = [] := by
      simp only [Core.linkEvents]
      split <;> rfl
    rw [hnone]
    exact Nat.le_add_right ..
  | @rejected c reply pending =>
    have hnew : s.linkEvents (.sendReply c true) = [] := by simp only [Core.linkEvents, pending]
    rw [hnew]
    exact Nat.le_add_right ..
  | _ => exact Nat.le_add_right ..

/-! ## A run -/

structure LinkInv (db : Database) (s : Audited) : Prop where
  rows : ∀ code, s.core.db.rows code + (s.events.filterMap (LinkEvent.consumer code)).length ≤
    db.rows code + s.stored code
  story : ∀ c, Story c (s.about c) (s.core.task c)
  served : ∀ c n, s.core.registry.get n = some (.remoteNode n c) → .admitted c ∈ s.events
  tokens : ∀ row ∈ s.core.db.nodeTokens,
    row ∈ db.nodeTokens ∨ ∃ c, .tokenStored c row.nodeName row.token ∈ s.events
  replies : ∀ c token, .reply c (.authResponse true (some token)) ∈ s.core.log → .issued c token ∈ s.events

/-- A connection that was admitted with a code has used it up. -/
theorem InOrder.consumed {code : String} (h : InOrder c es) (hp : .presented c code ∈ es)
    (ha : .admitted c ∈ es) : .consumed c code ∈ es := by
  rcases h with ⟨code', name, token, hpre⟩ | rfl
  · rw [List.prefix_iff_eq_take] at hpre
    generalize es.length = n at hpre
    subst hpre
    -- `admitted` is the last of the events
    match n with
    | 0 | 1 | 2 | 3 | 4 => simp [linked] at ha
    | n + 5 =>
      have hcode : code = code' := by simpa [linked] using hp
      simp [linked, hcode]
  · simp at hp

theorem LinkInv.safe {db : Database} (h : LinkInv db s) : LinkSafe db s where
  admits := by
    intro code cs hcs
    have hmem : ∀ c ∈ cs, c ∈ s.events.filterMap (LinkEvent.consumer code) := by
      intro c hc
      obtain ⟨hp, ha⟩ := hcs c hc
      have hconsumed := (h.story c).inOrder.consumed
        (List.mem_filter.2 ⟨hp, by simp [LinkEvent.conn]⟩) (List.mem_filter.2 ⟨ha, by simp [LinkEvent.conn]⟩)
      exact List.mem_filterMap.2 ⟨_, (List.mem_filter.1 hconsumed).1, by simp [LinkEvent.consumer]⟩
    have hcard : cs.card ≤ (s.events.filterMap (LinkEvent.consumer code)).length := by
      refine le_trans (Finset.card_le_card fun c hc => ?_) (List.toFinset_card_le _)
      exact List.mem_toFinset.2 (hmem c hc)
    have hrows := h.rows code
    omega
  served := h.served
  tokens := h.tokens
  replies := h.replies
  inOrder := fun c => (h.story c).inOrder

theorem mem_events_of_about {e : LinkEvent} (h : e ∈ s.about c) : e ∈ s.events := (List.mem_filter.1 h).1

theorem served_step {db : Database} (hJ : LinkInv db s) (h : s.step a = some s') (c : ℕ) (n : String)
    (hget : s'.core.registry.get n = some (.remoteNode n c)) : .admitted c ∈ s'.events := by
  obtain ⟨core, hcore, rfl⟩ := Option.map_eq_some_iff.1 h
  rcases Core.entry_step hcore hget with hold | ⟨-, task, -⟩
  · exact List.mem_append_left _ (hJ.served c n hold)
  · -- its task is past the authentication
    have hstory : Story c (s.about c) (.authenticated n) := task ▸ hJ.story c
    have hmem : .admitted c ∈ s.about c := by
      rcases hstory with ⟨code, name, token, he⟩ | he <;> simp [he, linked]
    exact List.mem_append_left _ (mem_events_of_about hmem)

theorem tokens_step {db : Database} (hJ : LinkInv db s) (h : s.step a = some s') (row : NodeToken)
    (hrow : row ∈ s'.core.db.nodeTokens) :
    row ∈ db.nodeTokens ∨ ∃ c, .tokenStored c row.nodeName row.token ∈ s'.events := by
  obtain ⟨move, hs'⟩ := step_some h
  rw [hs']
  generalize s'.core = core at move hrow
  have hold : row ∈ s.core.db.nodeTokens →
      row ∈ db.nodeTokens ∨ ∃ c, .tokenStored c row.nodeName row.token ∈ s.events ++ s.core.linkEvents a := by
    intro hrow
    rcases hJ.tokens row hrow with h | ⟨c, h⟩
    · exact .inl h
    · exact .inr ⟨c, List.mem_append_left _ h⟩
  cases move with
  | storePendingCode stored =>
    obtain ⟨-, rfl⟩ := Core.storePendingCode_eq stored
    exact hold hrow
  | @storeToken c name token task =>
    rcases List.mem_append.1 hrow with hrow | hrow
    · exact hold (List.mem_filter.1 hrow).1
    · obtain rfl := List.mem_singleton.1 hrow
      refine .inr ⟨c, List.mem_append_right _ ?_⟩
      simp only [Core.linkEvents, task]
      exact List.mem_singleton_self _
  | _ => exact hold hrow

theorem replies_step {db : Database} (hJ : LinkInv db s) (h : s.step a = some s') (c : ℕ) (token : String)
    (hlog : .reply c (.authResponse true (some token)) ∈ s'.core.log) : .issued c token ∈ s'.events := by
  obtain ⟨move, hs'⟩ := step_some h
  rw [hs']
  generalize s'.core = core at move hlog
  have hold : .reply c (.authResponse true (some token)) ∈ s.core.log →
      .issued c token ∈ s.events ++ s.core.linkEvents a :=
    fun hlog => List.mem_append_left _ (hJ.replies c token hlog)
  cases move with
  | @replied c' reply name pending =>
    rcases List.mem_append.1 hlog with hlog | hlog
    · exact hold hlog
    · cases List.mem_singleton.1 hlog
      refine List.mem_append_right _ ?_
      simp only [Core.linkEvents, pending]
      exact List.mem_cons_self
  | @rejected c' reply pending =>
    simp only [Core.refuse, Core.setTask, Core.emit, List.mem_append, List.mem_singleton, reduceCtorEq,
      or_false] at hlog
    rcases hlog with hlog | hlog
    · exact hold hlog
    · cases hlog
      -- a rejecting task has no token to send
      have hstory := hJ.story c
      rcases Core.pendingReply_cases pending with ⟨n, token, -, -, hname⟩ | ⟨n, -, -, hname⟩ | ⟨htask, -⟩
      · cases hname
      · cases hname
      · rw [htask] at hstory
        exact absurd rfl (hstory.2 _)
  | noMessage | tokenLost | notSent | publishConnected | noWorkspace | publishDisconnected =>
    refine hold ?_
    simpa [Core.refuse, Core.setTask, Core.emit] using hlog
  | _ => exact hold hlog

theorem LinkInv.step {db : Database} (hJ : LinkInv db s) (h : s.step a = some s') : LinkInv db s' where
  rows := by
    intro code
    obtain ⟨move, hs'⟩ := step_some h
    have hmove := rows_move move code
    have hrows := hJ.rows code
    have hevents : s'.events = s.events ++ s.core.linkEvents a := congrArg Audited.events hs'
    rw [stored, hevents, List.filterMap_append, List.length_append, List.count_append]
    unfold stored at hrows
    omega
  story := story_step hJ.story h
  served := served_step hJ h
  tokens := tokens_step hJ h
  replies := replies_step hJ h

theorem linkInv_init (workspace : String) (nodeCfg : Option (String × NodeMode)) (db : Database) (now : ℕ) :
    LinkInv db (init workspace nodeCfg db now) where
  rows := fun _ => Nat.le_refl _
  story := fun _ => rfl
  served := fun _ _ hget => (Core.no_remote_init workspace nodeCfg db now hget).elim
  tokens := fun _ hrow => .inl hrow
  replies := fun _ _ hlog => by cases hlog

/-- **Link codes are safe** in every run of the core: no more connections are admitted with
a code than it was stored, and every token comes after its own connection has used up the
code it presented. -/
theorem link_safe (workspace : String) (nodeCfg : Option (String × NodeMode)) (db : Database) (now : ℕ)
    (as : List CoreAction) {s : Audited}
    (h : Sys.Visits step (init workspace nodeCfg db now) as s) : LinkSafe db s :=
  (h.inv (fun _ _ _ hJ hs => hJ.step hs) (linkInv_init workspace nodeCfg db now)).safe

/-- Two connections present a code that was stored twice, and a third comes too late. -/
def threeLinks : List CoreAction :=
  [.storePendingCode "c", .accept 0, .accept 1, .receive 0 (.authRequest "c" "a") true,
    .storePendingCode "c", .receive 1 (.authRequest "c" "b") true, .accept 2,
    .receive 2 (.authRequest "c" "d") true, .storeToken 1 "u" true, .storeToken 0 "t" true,
    .sendReply 0 true, .sendReply 1 true, .sendReply 2 true]

/-- Two of them are admitted. -/
theorem link_safe_threeLinks :
    ∃ s, Sys.run step (init "/w" none ⟨[], []⟩ 0) threeLinks = some s ∧ LinkSafe ⟨[], []⟩ s ∧
      s.AdmittedWith "c" 0 ∧ s.AdmittedWith "c" 1 ∧ ¬ s.AdmittedWith "c" 2 ∧ s.stored "c" = 2 := by
  have hrun : Sys.run step (init "/w" none ⟨[], []⟩ 0) threeLinks = some _ := rfl
  refine ⟨_, hrun, link_safe "/w" none ⟨[], []⟩ 0 threeLinks ⟨_, List.prefix_rfl, hrun⟩, ?_, ?_, ?_, rfl⟩
  · exact ⟨by decide, by decide⟩
  · exact ⟨by decide, by decide⟩
  · intro h
    exact absurd h.2 (by decide)

end Audited

end Auxlry
