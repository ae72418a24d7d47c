import Auxlry.Proof.Connections
import Auxlry.Sys.Run

/-!
# The age of a link code

A link code is to expire in five minutes. The table has the time of the insert, and no
query reads it: a code is valid until it is used, across restarts of the core. `storedAt`
and `presented` are bookkeeping: when each code was last stored, and the code that each
connection presented.

* `inTime_iff`: no code is accepted after its five minutes **exactly in the runs where**
  none is presented so late while it is pending.
* `late_link`: a code that admits a node after five minutes and one second.
-/

namespace Auxlry

/-- How long a link code is to be valid, in seconds. -/
def codeLifetime : ℕ := 5 * 60

/-- A code as it was presented, and when it had last been stored. -/
structure Presented where
  code : String
  presentedAt : ℕ
  storedAt : Option ℕ

/-- The code had been stored, and not more than five minutes ago. -/
def Presented.InTime (p : Presented) : Prop :=
  ∃ storedAt, p.storedAt = some storedAt ∧ p.presentedAt ≤ storedAt + codeLifetime

/-- The row of a pending code. -/
def Database.pendingRow (db : Database) (code : String) : Option PendingCode :=
  db.pendingLinkCodes.find? (·.code = code)

/-- No code was read, or none that counts. -/
def Task.Uncoded : Task → Prop
  | .absent | .accepted | .found _ => True
  | _ => False

/-- A code was found valid and is used up, or `authenticate` has returned a name. -/
def Task.Accepted : Task → Prop
  | .consumed _ | .stored .. | .authenticated _ | .registered _ | .announced _ | .serving .. | .left _
  | .unregistered _ => True
  | _ => False

/-- The core, with the times of its codes. -/
structure Timed where
  core : Core
  storedAt : String → Option ℕ
  presented : ℕ → Option Presented

namespace Timed

/-- The core starts with the codes that are in its database. -/
def init (workspace : String) (nodeCfg : Option (String × NodeMode)) (db : Database) (now : ℕ) : Timed :=
  ⟨Core.init workspace nodeCfg db now, fun code => (db.pendingRow code).map (·.createdAt), fun _ => none⟩

def storedAfter (s : Timed) : CoreAction → String → Option ℕ
  | .storePendingCode code => Function.update s.storedAt code (some s.core.now)
  | _ => s.storedAt

def presentedAfter (s : Timed) : CoreAction → ℕ → Option Presented
  | .receive c (.authRequest code _) _ =>
    Function.update s.presented c (some ⟨code, s.core.now, s.storedAt code⟩)
  | _ => s.presented

/-- A step of the core. -/
def step (s : Timed) (a : CoreAction) : Option Timed :=
  (s.core.step a).map fun core => ⟨core, s.storedAfter a, s.presentedAfter a⟩

/-- If the task has accepted a code, that code was presented in time. -/
def AcceptedInTime (t : Task) (presented : Option Presented) : Prop :=
  ∀ p, presented = some p → t.Accepted → p.InTime

/-- The codes that were accepted were presented in time. -/
def InTime (s : Timed) : Prop := ∀ c, AcceptedInTime (s.core.task c) (s.presented c)

/-- A code that is still pending is presented in time. -/
def Prompt (s : Timed) : CoreAction → Prop
  | .receive _ (.authRequest code _) true =>
    ∀ row, s.core.db.pendingRow code = some row → s.core.now ≤ row.createdAt + codeLifetime
  | _ => True

/-- The rows have the times of their codes, and a connection has no record of a code before it
presents one. -/
structure Recorded (s : Timed) : Prop where
  rows : ∀ code row, s.core.db.pendingRow code = some row → s.storedAt code = some row.createdAt
  uncoded : ∀ c, (s.core.task c).Uncoded → s.presented c = none

variable {s s' : Timed} {a : CoreAction} {c : ℕ}

/-! ## The rows -/

theorem pendingRow_storePendingCode {db db' : Database} {code : String} {now : ℕ}
    (h : db.storePendingCode code now = some db') (code' : String) :
    db'.pendingRow code' = if code' = code then some ⟨code, now⟩ else db.pendingRow code' := by
  obtain ⟨hnew, rfl⟩ := Core.storePendingCode_eq h
  unfold Database.pendingRow
  rw [List.find?_append]
  split
  · rename_i hc
    subst hc
    have hnone : db.pendingLinkCodes.find? (·.code = code') = none := by
      rw [List.find?_eq_none]
      intro row hrow hcode
      exact hnew row hrow (of_decide_eq_true hcode)
    rw [hnone]
    simp
  · rename_i hc
    simp [Ne.symm hc]

theorem pendingRow_consumePendingCode (db : Database) {code code' : String} {row : PendingCode}
    (h : (db.consumePendingCode code).2.pendingRow code' = some row) : db.pendingRow code' = some row := by
  unfold Database.consumePendingCode Database.pendingRow at h
  rw [List.find?_filter] at h
  obtain ⟨hne, rfl⟩ : row.code ≠ code ∧ row.code = code' := by simpa using List.find?_some h
  rw [← h]
  refine congrArg (List.find? · db.pendingLinkCodes) (funext fun r => ?_)
  by_cases hr : r.code = row.code <;> simp [hr, hne]

theorem pendingRow_of_pending {db : Database} {code : String} (h : (db.consumePendingCode code).1 = true) :
    ∃ row, db.pendingRow code = some row := by
  rw [← Option.isSome_iff_exists, Database.pendingRow, List.find?_isSome]
  exact List.any_eq_true.1 h

/-! ## The connections -/

/-- A reply with a name comes after a code or a token was found. -/
theorem accepted_of_pending {t : Task} {reply : ProtocolMessage} {name : String}
    (h : Core.pendingReply t = some (reply, some name)) : t.Accepted ∨ t.Uncoded := by
  rcases Core.pendingReply_cases h with ⟨n, token, rfl, -⟩ | ⟨n, rfl, -⟩ | ⟨-, hname⟩
  · exact .inl trivial
  · exact .inr trivial
  · cases hname

section Connections

variable {Q : Task → Option Presented → Prop} {t : Task} {p : Option Presented}

/-- A task that moves on keeps the code that it has. -/
theorem each_setTask (hQ : ∀ c, Q (s.core.task c) (s.presented c)) (ht : Q t (s.presented c)) (c' : ℕ) :
    Q (Function.update s.core.task c t c') (s.presented c') := by
  revert c'
  exact (Function.forall_update_iff s.core.task fun c' task => Q task (s.presented c')).2
    ⟨ht, fun c' _ => hQ c'⟩

/-- The first message of a connection. -/
theorem each_receive (hQ : ∀ c, Q (s.core.task c) (s.presented c)) (ht : Q t p) (c' : ℕ) :
    Q (Function.update s.core.task c t c') (Function.update s.presented c p c') := by
  rcases eq_or_ne c' c with rfl | hne
  · simpa only [Function.update_self] using ht
  · simpa only [Function.update_of_ne hne] using hQ c'

end Connections

theorem rows_step (hJ : s.Recorded) (h : s.step a = some s') (code : String) (row : PendingCode)
    (hrow : s'.core.db.pendingRow code = some row) : s'.storedAt code = some row.createdAt := by
  obtain ⟨core, hcore, rfl⟩ := Option.map_eq_some_iff.1 h
  cases Core.step_move hcore with
  | @storePendingCode code' db stored =>
    rw [pendingRow_storePendingCode stored] at hrow
    show Function.update s.storedAt code' (some s.core.now) code = some row.createdAt
    split at hrow
    · rename_i hc
      cases hrow
      rw [hc, Function.update_self]
    · rename_i hc
      rw [Function.update_of_ne hc]
      exact hJ.rows code row hrow
  | consume => exact hJ.rows code row (pendingRow_consumePendingCode _ hrow)
  | _ => exact hJ.rows code row hrow

theorem uncoded_step (hJ : s.Recorded) (h : s.step a = some s') :
    ∀ c, (s'.core.task c).Uncoded → s'.presented c = none := by
  obtain ⟨core, hcore, rfl⟩ := Option.map_eq_some_iff.1 h
  have hset : ∀ {c : ℕ} {t : Task}, (t.Uncoded → (s.core.task c).Uncoded) → ∀ c',
      (Function.update s.core.task c t c').Uncoded → s.presented c' = none :=
    fun ht => each_setTask (Q := fun t p => t.Uncoded → p = none) hJ.uncoded fun hu => hJ.uncoded _ (ht hu)
  cases Core.step_move hcore with
  | tick | storePendingCode => exact hJ.uncoded
  | accept task | findToken task => exact hset fun _ => by rw [task]; trivial
  | consume task => exact each_receive (Q := fun t p => t.Uncoded → p = none) hJ.uncoded False.elim
  | @reject c msg =>
    cases msg with
    | authRequest code name =>
      exact each_receive (Q := fun t p => t.Uncoded → p = none) hJ.uncoded False.elim
    | _ => exact hset False.elim
  | _ => exact hset False.elim

theorem Recorded.step (hJ : s.Recorded) (h : s.step a = some s') : s'.Recorded :=
  ⟨rows_step hJ h, uncoded_step hJ h⟩

/-- **One step** accepts a code in time exactly when it is presented in time. -/
theorem inTime_step (hJ : s.Recorded) (hP : s.InTime) (h : s.step a = some s') : s'.InTime ↔ s.Prompt a := by
  obtain ⟨core, hcore, rfl⟩ := Option.map_eq_some_iff.1 h
  have hset : ∀ {c : ℕ} {t : Task}, (t.Accepted → (s.core.task c).Accepted ∨ (s.core.task c).Uncoded) →
      ∀ c', AcceptedInTime (Function.update s.core.task c t c') (s.presented c') := by
    intro c t ht
    refine each_setTask hP fun p hp ha => ?_
    rcases ht ha with ha | hu
    · exact hP c p hp ha
    · rw [hJ.uncoded c hu] at hp
      cases hp
  cases Core.step_move hcore with
  | tick | storePendingCode => exact iff_of_true hP trivial
  | @consume c code name task pending =>
    obtain ⟨row, hrow⟩ := pendingRow_of_pending pending
    have hstored := hJ.rows code row hrow
    constructor
    · intro hP' row' hrow'
      obtain ⟨storedAt, hs, hle⟩ := hP' c ⟨code, s.core.now, s.storedAt code⟩ (Function.update_self ..)
        (by simp [Core.setTask, Task.Accepted])
      have he : row'.createdAt = storedAt :=
        Option.some.inj ((hJ.rows code row' hrow').symm.trans hs)
      exact he ▸ hle
    · intro hg
      refine each_receive hP fun p hp _ => ?_
      obtain rfl := Option.some.inj hp
      exact ⟨row.createdAt, hstored, hg row hrow⟩
  | @reject c msg queryOk task refused =>
    refine iff_of_true ?_ ?_
    · cases msg with
      | authRequest code name => exact each_receive hP fun p _ => False.elim
      | _ => exact hset False.elim
    · -- a code that is refused is not pending, or the query failed
      cases msg with
      | authRequest code name =>
        cases queryOk with
        | false => trivial
        | true =>
          intro row hrow
          have hcode : row.code = code := by simpa using List.find?_some hrow
          have hpending : (s.core.db.consumePendingCode code).1 = true :=
            List.any_eq_true.2 ⟨row, List.mem_of_find?_eq_some hrow, by simpa using hcode⟩
          simp [Core.admits, hpending] at refused
      | _ => trivial
  | storeToken task | register task | publishConnected task | createWorkspace task | leave task
  | unregister task =>
    exact iff_of_true (hset fun _ => by rw [task]; exact .inl trivial) trivial
  | replied pending => exact iff_of_true (hset fun _ => accepted_of_pending pending) trivial
  | _ => exact iff_of_true (hset False.elim) trivial

theorem recorded_init (workspace : String) (nodeCfg : Option (String × NodeMode)) (db : Database) (now : ℕ) :
    (init workspace nodeCfg db now).Recorded where
  rows := fun code row hrow => by
    have hrow' : db.pendingRow code = some row := hrow
    simp [init, hrow']
  uncoded := fun _ _ => rfl

/-- **No code outlives its five minutes** in a run exactly if none is presented later than
that while it is pending. -/
theorem inTime_iff (workspace : String) (nodeCfg : Option (String × NodeMode)) (db : Database) (now : ℕ)
    (as : List CoreAction) :
    (∀ t, Sys.Visits step (init workspace nodeCfg db now) as t →
        ∀ c p, t.presented c = some p → (t.core.task c).Accepted → p.InTime) ↔
      ∀ t a, Sys.Takes step (init workspace nodeCfg db now) as t a → t.Prompt a :=
  Sys.visits_iff_takes (J := Recorded) (P := InTime) (fun _ _ _ hJ _ _ h => hJ.step h)
    (fun _ _ _ hJ hP h => inTime_step hJ hP h) as (recorded_init workspace nodeCfg db now)
    fun _ _ hp => by cases hp

/-- `core link`, and 301 seconds later a node with that code. -/
def lateLink : List CoreAction :=
  .storePendingCode "000000" :: List.replicate 301 .tick ++
    [.accept 0, .receive 0 (.authRequest "000000" "n") true, .storeToken 0 "t" true, .sendReply 0 true,
      .register 0]

set_option maxRecDepth 4000 in
/-- **A code that is too old** admits a node. -/
theorem late_link : ∃ s, Sys.run step (init "/w" none ⟨[], []⟩ 0) lateLink = some s ∧
    s.presented 0 = some ⟨"000000", 301, some 0⟩ ∧ s.core.task 0 = .registered "n" ∧
    .reply 0 (.authResponse true (some "t")) ∈ s.core.log ∧
    s.core.registry.get "n" = some (.remoteNode "n" 0) ∧ ¬ s.InTime := by
  have hrun : Sys.run step (init "/w" none ⟨[], []⟩ 0) lateLink = some _ := rfl
  refine ⟨_, hrun, rfl, rfl, ?_, rfl, fun h => ?_⟩
  · exact List.mem_singleton_self _
  · obtain ⟨storedAt, hs, hle⟩ := h 0 _ rfl trivial
    cases hs
    exact absurd hle (by decide)

end Timed

end Auxlry
