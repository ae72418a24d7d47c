import Auxlry.Spec.Handler

/-!
# What a step of the core changes

`step_move` lists the steps with the task each is taken in. Only four of them touch the
registry or the set of serving connections: registering, entering the protocol loop,
leaving it and unregistering. `step_change` says so once, with what each of them does;
the results about the registry and about the workspaces are read off it. The workspace
directory never changes (`step_workspace`). `step_turn` says what a step does to the task of
one connection, and `step_log` what it adds to the effects; nothing is written on a connection
before its first message is answered (`Silent`).
-/

namespace Auxlry

open Posix

/-- A task outside the protocol loop. -/
def Task.Idle (t : Task) : Prop := ∀ n node, t ≠ .serving n node

/-- A task that has not answered the first message of its connection. -/
def Task.Unanswered : Task → Prop
  | .absent | .accepted | .consumed _ | .stored .. | .found _ | .rejecting _ => True
  | _ => False

/-- A step other than the four. -/
def CoreAction.Quiet : CoreAction → Prop
  | .register _ | .createWorkspace _ true | .leave _ | .unregister _ => False
  | _ => True

/-- The connection whose task takes a step. -/
def CoreAction.conn : CoreAction → Option ℕ
  | .tick | .storePendingCode _ => none
  | .accept c | .noMessage c | .receive c .. | .storeToken c .. | .sendReply c _ | .register c
  | .publishConnected c | .createWorkspace c _ | .leave c | .unregister c | .publishDisconnected c => some c

namespace Core

/-- What a step shows to the rest of the system. -/
def effects (s : Core) : CoreAction → List Effect
  | .sendReply c true =>
    match pendingReply (s.task c) with
    | some (reply, some _) => [.reply c reply]
    | some (reply, none) => [.reply c reply, .close c 1 "auth failed"]
    | none => []
  | .publishConnected c =>
    match s.task c with
    | .registered name => [.nodeConnected name]
    | _ => []
  | .publishDisconnected c =>
    match s.task c with
    | .unregistered name => [.nodeDisconnected name]
    | _ => []
  | .noMessage c | .storeToken c _ false | .sendReply c false => [.close c 1 "auth failed"]
  | .createWorkspace c false => [.close c 2 "internal error"]
  | _ => []

/-- The connection `c` is in its protocol loop, authenticated as `n`, and serves `node`. -/
def Serving (s : Core) (c : ℕ) (n : String) (node : LocalNode) : Prop := s.task c = .serving n node

/-- The sandboxed node that a connection serves. -/
def nodeOf (s : Core) (n : String) : LocalNode := ⟨n, .workspace, some (join s.workspace n)⟩

/-- The reply to a first message that does not admit. -/
def refusal : ProtocolMessage → ProtocolMessage
  | .authRequest .. => .authResponse false none
  | .tokenAuth _ => .tokenAuthResponse false
  | _ => .error "expected AuthRequest or TokenAuth"

/-- Whether the core has what a first message asks for. -/
def admits (s : Core) (msg : ProtocolMessage) (queryOk : Bool) : Bool :=
  match msg with
  | .authRequest code _ => queryOk && (s.db.consumePendingCode code).1
  | .tokenAuth token => queryOk && (s.db.findNodeByToken token).isSome
  | _ => false

/-- The steps of the core, each with the task it is taken in. -/
inductive Move (s : Core) : CoreAction → Core → Prop
  | tick : Move s .tick { s with now := s.now + 1 }
  | storePendingCode {code : String} {db : Database} (stored : s.db.storePendingCode code s.now = some db) :
      Move s (.storePendingCode code) { s with db := db }
  | accept {c : ℕ} (task : s.task c = .absent) : Move s (.accept c) (s.setTask c .accepted)
  | noMessage {c : ℕ} (task : s.task c = .accepted) : Move s (.noMessage c) (s.refuse c)
  | consume {c : ℕ} {code name : String} (task : s.task c = .accepted)
      (pending : (s.db.consumePendingCode code).1 = true) : Move s (.receive c (.authRequest code name) true)
        ({ s with db := (s.db.consumePendingCode code).2 }.setTask c (.consumed name))
  | findToken {c : ℕ} {token name : String} (task : s.task c = .accepted)
      (found : s.db.findNodeByToken token = some name) :
      Move s (.receive c (.tokenAuth token) true) (s.setTask c (.found name))
  | reject {c : ℕ} {msg : ProtocolMessage} {queryOk : Bool} (task : s.task c = .accepted)
      (refused : s.admits msg queryOk = false) :
      Move s (.receive c msg queryOk) (s.setTask c (.rejecting (refusal msg)))
  | storeToken {c : ℕ} {name token : String} (task : s.task c = .consumed name) :
      Move s (.storeToken c token true)
        ({ s with db := s.db.storeNodeToken name token }.setTask c (.stored name token))
  | tokenLost {c : ℕ} {name token : String} (task : s.task c = .consumed name) :
      Move s (.storeToken c token false) (s.refuse c)
  | replied {c : ℕ} {reply : ProtocolMessage} {name : String}
      (pending : pendingReply (s.task c) = some (reply, some name)) :
      Move s (.sendReply c true) ((s.emit (.reply c reply)).setTask c (.authenticated name))
  | rejected {c : ℕ} {reply : ProtocolMessage} (pending : pendingReply (s.task c) = some (reply, none)) :
      Move s (.sendReply c true) ((s.emit (.reply c reply)).refuse c)
  | notSent {c : ℕ} {p : ProtocolMessage × Option String} (pending : pendingReply (s.task c) = some p) :
      Move s (.sendReply c false) (s.refuse c)
  | register {c : ℕ} {name : String} (task : s.task c = .authenticated name) : Move s (.register c)
      ({ s with registry := s.registry.register name (.remoteNode name c) }.setTask c (.registered name))
  | publishConnected {c : ℕ} {name : String} (task : s.task c = .registered name) :
      Move s (.publishConnected c) ((s.emit (.nodeConnected name)).setTask c (.announced name))
  | createWorkspace {c : ℕ} {name : String} (task : s.task c = .announced name) :
      Move s (.createWorkspace c true) (s.setTask c (.serving name (s.nodeOf name)))
  | noWorkspace {c : ℕ} {name : String} (task : s.task c = .announced name) :
      Move s (.createWorkspace c false) ((s.emit (.close c 2 "internal error")).setTask c .returned)
  | leave {c : ℕ} {name : String} {node : LocalNode} (task : s.task c = .serving name node) :
      Move s (.leave c) (s.setTask c (.left name))
  | unregister {c : ℕ} {name : String} (task : s.task c = .left name) : Move s (.unregister c)
      ({ s with registry := s.registry.unregister name }.setTask c (.unregistered name))
  | publishDisconnected {c : ℕ} {name : String} (task : s.task c = .unregistered name) :
      Move s (.publishDisconnected c) ((s.emit (.nodeDisconnected name)).setTask c .returned)

variable {s s' : Core} {a : CoreAction} {c : ℕ}

/-- A code is stored if it is new, behind the others. -/
theorem storePendingCode_eq {db db' : Database} {code : String} {now : ℕ} (h : db.storePendingCode code now = some db') :
    (∀ row ∈ db.pendingLinkCodes, row.code ≠ code) ∧
      db' = { db with pendingLinkCodes := db.pendingLinkCodes ++ [⟨code, now⟩] } := by
  unfold Database.storePendingCode at h
  split at h
  · cases h
  · rename_i hnew
    cases h
    exact ⟨fun row hrow hcode => hnew (List.any_eq_true.2 ⟨row, hrow, decide_eq_true hcode⟩), rfl⟩

/-- A code that is not pending leaves the tables as they are. -/
theorem consume_absent {db : Database} {code : String} (h : (db.consumePendingCode code).1 = false) :
    (db.consumePendingCode code).2 = db := by
  have hall : ∀ row ∈ db.pendingLinkCodes, row.code ≠ code := by
    simpa [Database.consumePendingCode] using h
  have hfilter : db.pendingLinkCodes.filter (·.code ≠ code) = db.pendingLinkCodes := by
    rw [List.filter_eq_self]
    intro row hrow
    simpa using hall row hrow
  simp only [Database.consumePendingCode, hfilter]

theorem receive_move {msg : ProtocolMessage} {queryOk : Bool} (task : s.task c = .accepted) :
    Move s (.receive c msg queryOk) (s.authenticate c msg queryOk) := by
  unfold authenticate
  split
  · rename_i code name
    cases queryOk with
    | false => exact .reject task rfl
    | true =>
      simp only [if_true]
      cases hp : (s.db.consumePendingCode code).1 with
      | true => exact .consume task hp
      | false =>
        rw [consume_absent hp]
        exact Move.reject task hp
  · rename_i token
    cases queryOk with
    | false => exact .reject task rfl
    | true =>
      simp only [if_true]
      cases hfound : s.db.findNodeByToken token with
      | some name => exact .findToken task hfound
      | none => exact Move.reject task (by simp [admits, hfound])
  · rename_i hcode htoken
    cases msg with
    | authRequest code name => exact absurd rfl (hcode code name)
    | tokenAuth token => exact absurd rfl (htoken token)
    | _ => exact .reject task rfl

/-- **The steps of the core**, each with the task it is taken in. -/
theorem step_move (h : s.step a = some s') : Move s a s' := by
  cases a with
  | tick => cases h; exact .tick
  | storePendingCode code =>
    obtain ⟨db, hdb, rfl⟩ := Option.map_eq_some_iff.1 h
    exact .storePendingCode hdb
  | receive c msg queryOk =>
    simp only [step] at h
    split at h <;> cases h
    rename_i hc
    exact receive_move hc
  | storeToken c token queryOk =>
    simp only [step] at h
    split at h
    · rename_i hc
      cases queryOk with
      | true => cases h; exact .storeToken hc
      | false => cases h; exact .tokenLost hc
    · cases h
  | sendReply c sendOk =>
    simp only [step] at h
    split at h
    · rename_i reply name hc
      cases sendOk with
      | false => cases h; exact .notSent hc
      | true => cases name with
        | some name => cases h; exact .replied hc
        | none => cases h; exact .rejected hc
    · cases h
  | createWorkspace c dirOk =>
    simp only [step] at h
    split at h
    · rename_i hc
      cases dirOk with
      | true => cases h; exact .createWorkspace hc
      | false => cases h; exact .noWorkspace hc
    · cases h
  | _ =>
    -- the other steps have one case
    simp only [step] at h
    split at h <;> cases h
    rename_i hc
    first
      | exact .accept hc
      | exact .noMessage hc
      | exact .register hc
      | exact .publishConnected hc
      | exact .leave hc
      | exact .unregister hc
      | exact .publishDisconnected hc

/-- The change of a step to the registry and to the serving connections. -/
inductive Change (s s' : Core) : CoreAction → Prop
  | quiet {a : CoreAction} (guard : a.Quiet) (registry : s'.registry = s.registry)
      (serving : ∀ c m node, s'.Serving c m node ↔ s.Serving c m node) : Change s s' a
  | register {c : ℕ} {n : String} (task : s.task c = .authenticated n)
      (registry : s'.registry = s.registry.register n (.remoteNode n c))
      (serving : ∀ c' m node, s'.Serving c' m node ↔ s.Serving c' m node) : Change s s' (.register c)
  | serve {c : ℕ} {n : String} (task : s.task c = .announced n) (registry : s'.registry = s.registry)
      (serving : ∀ c' m node, s'.Serving c' m node ↔
        s.Serving c' m node ∨ c' = c ∧ m = n ∧ node = s.nodeOf n) : Change s s' (.createWorkspace c true)
  | leave {c : ℕ} {n : String} {node : LocalNode} (served : s.Serving c n node)
      (registry : s'.registry = s.registry)
      (serving : ∀ c' m node, s'.Serving c' m node ↔ s.Serving c' m node ∧ c' ≠ c) :
      Change s s' (.leave c)
  | unregister {c : ℕ} {n : String} (task : s.task c = .left n)
      (registry : s'.registry = s.registry.unregister n)
      (serving : ∀ c' m node, s'.Serving c' m node ↔ s.Serving c' m node) : Change s s' (.unregister c)

theorem serving_setTask {s₀ : Core} {t : Task} (ht₀ : s₀.task = s.task) (ho : (s.task c).Idle)
    (ht : t.Idle) (c' : ℕ) (n : String) (node : LocalNode) :
    (s₀.setTask c t).Serving c' n node ↔ s.Serving c' n node := by
  unfold Serving setTask
  rw [ht₀]
  by_cases h : c' = c
  · subst h
    simp only [Function.update_self]
    exact ⟨fun h => absurd h (ht n node), fun h => absurd h (ho n node)⟩
  · simp only [Function.update_of_ne h]

/-- A step between idle tasks that leaves the registry alone. -/
theorem Change.ofIdle {s₀ : Core} {t : Task} (hq : a.Quiet) (hr : s₀.registry = s.registry)
    (ht₀ : s₀.task = s.task) (ho : (s.task c).Idle) (ht : t.Idle) : Change s (s₀.setTask c t) a :=
  .quiet hq hr (serving_setTask ht₀ ho ht)

/-- Where a task with a reply to send stands. -/
theorem pendingReply_cases {t : Task} {reply : ProtocolMessage} {name : Option String}
    (h : pendingReply t = some (reply, name)) :
    (∃ n token, t = .stored n token ∧ reply = .authResponse true (some token) ∧ name = some n) ∨
      (∃ n, t = .found n ∧ reply = .tokenAuthResponse true ∧ name = some n) ∨
        t = .rejecting reply ∧ name = none := by
  unfold pendingReply at h
  split at h <;> cases h
  · exact .inl ⟨_, _, rfl, rfl, rfl⟩
  · exact .inr (.inl ⟨_, rfl, rfl, rfl⟩)
  · exact .inr (.inr ⟨rfl, rfl⟩)

theorem pendingReply_idle {t : Task} {p : ProtocolMessage × Option String}
    (h : pendingReply t = some p) : t.Idle := by
  rintro n node rfl; cases h

/-- **What a step changes.** -/
theorem step_change (h : s.step a = some s') : Change s s' a := by
  cases step_move h with
  | tick | storePendingCode => exact .quiet trivial rfl fun _ _ _ => .rfl
  | accept task | noMessage task | consume task | findToken task | reject task | storeToken task
  | tokenLost task | publishConnected task | noWorkspace task | publishDisconnected task =>
    exact .ofIdle trivial rfl rfl (by rw [task]; exact nofun) nofun
  | replied pending | rejected pending | notSent pending =>
    exact .ofIdle trivial rfl rfl (pendingReply_idle pending) nofun
  | register task => exact .register task rfl (serving_setTask rfl (by rw [task]; exact nofun) nofun)
  | unregister task => exact .unregister task rfl (serving_setTask rfl (by rw [task]; exact nofun) nofun)
  | @createWorkspace c n task =>
    -- the task of `c` is the only one that changes
    refine .serve task rfl fun c' m node => ?_
    unfold Serving setTask nodeOf
    by_cases he : c' = c
    · subst he
      simp only [Function.update_self, task, Task.serving.injEq, true_and, reduceCtorEq, false_or,
        eq_comm]
    · simp only [Function.update_of_ne he, he, false_and, or_false]
  | @leave c n node task =>
    refine .leave task rfl fun c' m node' => ?_
    unfold Serving setTask
    by_cases he : c' = c
    · subst he
      simp only [Function.update_self, reduceCtorEq, ne_eq, not_true, and_false]
    · simp only [Function.update_of_ne he, ne_eq, he, not_false_eq_true, and_true]

theorem step_workspace (h : s.step a = some s') : s'.workspace = s.workspace := by
  cases step_move h <;> rfl

/-! ## One connection -/

/-- What a step does to the task of the connection `c`. -/
inductive Turn (s : Core) (c : ℕ) : CoreAction → Task → Task → Prop
  | accept : Turn s c (.accept c) .absent .accepted
  | noMessage : Turn s c (.noMessage c) .accepted .returned
  | consume {code name : String} (pending : (s.db.consumePendingCode code).1 = true) :
      Turn s c (.receive c (.authRequest code name) true) .accepted (.consumed name)
  | findToken {token name : String} (found : s.db.findNodeByToken token = some name) :
      Turn s c (.receive c (.tokenAuth token) true) .accepted (.found name)
  | reject {msg : ProtocolMessage} {queryOk : Bool} (refused : s.admits msg queryOk = false) :
      Turn s c (.receive c msg queryOk) .accepted (.rejecting (refusal msg))
  | storeToken {name token : String} : Turn s c (.storeToken c token true) (.consumed name) (.stored name token)
  | tokenLost {name token : String} : Turn s c (.storeToken c token false) (.consumed name) .returned
  | replied {t : Task} {reply : ProtocolMessage} {name : String}
      (pending : pendingReply t = some (reply, some name)) :
      Turn s c (.sendReply c true) t (.authenticated name)
  | rejected {t : Task} {reply : ProtocolMessage} (pending : pendingReply t = some (reply, none)) :
      Turn s c (.sendReply c true) t .returned
  | notSent {t : Task} {p : ProtocolMessage × Option String} (pending : pendingReply t = some p) :
      Turn s c (.sendReply c false) t .returned
  | register {name : String} : Turn s c (.register c) (.authenticated name) (.registered name)
  | publishConnected {name : String} : Turn s c (.publishConnected c) (.registered name) (.announced name)
  | createWorkspace {name : String} :
      Turn s c (.createWorkspace c true) (.announced name) (.serving name (s.nodeOf name))
  | noWorkspace {name : String} : Turn s c (.createWorkspace c false) (.announced name) .returned
  | leave {name : String} {node : LocalNode} : Turn s c (.leave c) (.serving name node) (.left name)
  | unregister {name : String} : Turn s c (.unregister c) (.left name) (.unregistered name)
  | publishDisconnected {name : String} : Turn s c (.publishDisconnected c) (.unregistered name) .returned

theorem Turn.conn {t t' : Task} (h : Turn s c a t t') : a.conn = some c := by cases h <;> rfl

theorem turn_update {t : Task} (htask : s'.task = Function.update s.task c t) (hconn : a.conn = some c)
    (hturn : Turn s c a (s.task c) t) (c' : ℕ) :
    a.conn ≠ some c' ∧ s'.task c' = s.task c' ∨ Turn s c' a (s.task c') (s'.task c') := by
  rw [htask]
  rcases eq_or_ne c' c with rfl | hne
  · right
    rw [Function.update_self]
    exact hturn
  · left
    refine ⟨?_, Function.update_of_ne hne ..⟩
    rw [hconn]
    exact fun he => hne (Option.some.inj he).symm

/-- **What a step does to one connection.** -/
theorem step_turn (h : s.step a = some s') (c : ℕ) :
    a.conn ≠ some c ∧ s'.task c = s.task c ∨ Turn s c a (s.task c) (s'.task c) := by
  cases step_move h with
  | tick | storePendingCode =>
    refine .inl ⟨fun hconn => ?_, rfl⟩
    cases hconn
  | accept task => exact turn_update rfl rfl (by rw [task]; exact .accept) c
  | noMessage task => exact turn_update rfl rfl (by rw [task]; exact .noMessage) c
  | consume task pending => exact turn_update rfl rfl (by rw [task]; exact .consume pending) c
  | findToken task found => exact turn_update rfl rfl (by rw [task]; exact .findToken found) c
  | reject task refused => exact turn_update rfl rfl (by rw [task]; exact .reject refused) c
  | storeToken task => exact turn_update rfl rfl (by rw [task]; exact .storeToken) c
  | tokenLost task => exact turn_update rfl rfl (by rw [task]; exact .tokenLost) c
  | replied pending => exact turn_update rfl rfl (.replied pending) c
  | rejected pending => exact turn_update rfl rfl (.rejected pending) c
  | notSent pending => exact turn_update rfl rfl (.notSent pending) c
  | register task => exact turn_update rfl rfl (by rw [task]; exact .register) c
  | publishConnected task => exact turn_update rfl rfl (by rw [task]; exact .publishConnected) c
  | createWorkspace task => exact turn_update rfl rfl (by rw [task]; exact .createWorkspace) c
  | noWorkspace task => exact turn_update rfl rfl (by rw [task]; exact .noWorkspace) c
  | leave task => exact turn_update rfl rfl (by rw [task]; exact .leave) c
  | unregister task => exact turn_update rfl rfl (by rw [task]; exact .unregister) c
  | publishDisconnected task => exact turn_update rfl rfl (by rw [task]; exact .publishDisconnected) c

/-- **What a step adds to the effects.** -/
theorem step_log (h : s.step a = some s') : s'.log = s.log ++ s.effects a := by
  cases step_move h with
  | replied pending | rejected pending => simp [effects, pending, emit, setTask, refuse]
  | publishConnected task | publishDisconnected task => simp [effects, task, emit, setTask]
  | noMessage | tokenLost | notSent | noWorkspace => rfl
  | @storeToken c name token => exact (List.append_nil _).symm
  | _ => exact (List.append_nil _).symm

/-- A reply is written only where `authenticate` sends it. -/
theorem effects_reply {msg : ProtocolMessage} (h : .reply c msg ∈ s.effects a) :
    a = .sendReply c true ∧ ∃ name, pendingReply (s.task c) = some (msg, name) := by
  unfold effects at h
  split at h
  · -- `sendReply`
    rename_i c'
    split at h
    · rename_i reply name hp
      obtain ⟨rfl, rfl⟩ : c = c' ∧ msg = reply := by simpa using h
      exact ⟨rfl, _, hp⟩
    · rename_i reply hp
      obtain ⟨rfl, rfl⟩ : c = c' ∧ msg = reply := by simpa using h
      exact ⟨rfl, _, hp⟩
    · cases h
  · split at h <;> simp at h
  · split at h <;> simp at h
  all_goals simp at h

/-- A reply in the log was there before, or is sent now. -/
theorem replied_step (h : s.step a = some s') {msg : ProtocolMessage} (hlog : .reply c msg ∈ s'.log) :
    .reply c msg ∈ s.log ∨ a = .sendReply c true ∧ ∃ name, pendingReply (s.task c) = some (msg, name) := by
  rw [step_log h] at hlog
  exact (List.mem_append.1 hlog).imp_right effects_reply

/-- Nothing is written on a connection before its first message is answered. -/
def Silent (s : Core) : Prop := ∀ c msg, (s.task c).Unanswered → .reply c msg ∉ s.log

theorem Silent.step (hJ : s.Silent) (h : s.step a = some s') : s'.Silent := by
  intro c msg hunanswered hlog
  have hturn := step_turn h c
  have hsilent := hJ c msg
  have hlog' := replied_step h hlog
  generalize s.task c = t at hturn hsilent hlog'
  generalize s'.task c = t' at hturn hunanswered
  rcases hturn with ⟨hconn, rfl⟩ | hturn
  · rcases hlog' with hlog' | ⟨rfl, -⟩
    · exact hsilent hunanswered hlog'
    · exact hconn rfl
  · -- the task before it was not further
    cases hturn with
    | accept | consume | findToken | reject | storeToken =>
      rcases hlog' with hlog' | ⟨ha, -⟩
      · exact hsilent trivial hlog'
      · cases ha
    | _ => exact hunanswered

end Core

end Auxlry
