import Auxlry.Proof.Connections
import Auxlry.Spec.NodeCmd
import Auxlry.Sys.Run

/-!
# Rejections and failed queries

A node that is rejected stops for good, and one that hears nothing connects again. So a
rejection should mean that the code is not pending, or that the token is not stored.
`lookup` is bookkeeping: what the tables had for the first message of each connection, and
whether the query for it succeeded.

* `justified_iff`: every rejection is justified **exactly in the runs where** the queries for
  codes and tokens succeed.
* `busy_rejects`: a node with a stored token that is turned away, and stops, because the
  database was busy.
-/

namespace Auxlry

/-- A reply that rejects a code or a token. -/
def ProtocolMessage.IsRejection : ProtocolMessage → Prop
  | .authResponse false _ | .tokenAuthResponse false => True
  | _ => False

/-- What there was to find, and whether it could be read. -/
structure Lookup where
  present : Bool
  queryOk : Bool
  deriving DecidableEq, Repr

structure Looked where
  core : Core
  lookup : ℕ → Option Lookup

namespace Looked

def init (workspace : String) (nodeCfg : Option (String × NodeMode)) (db : Database) (now : ℕ) : Looked :=
  ⟨Core.init workspace nodeCfg db now, fun _ => none⟩

def lookupAfter (s : Looked) : CoreAction → ℕ → Option Lookup
  | .receive c (.authRequest code _) queryOk =>
    Function.update s.lookup c (some ⟨(s.core.db.consumePendingCode code).1, queryOk⟩)
  | .receive c (.tokenAuth token) queryOk =>
    Function.update s.lookup c (some ⟨(s.core.db.findNodeByToken token).isSome, queryOk⟩)
  | _ => s.lookup

/-- A step of the core. -/
def step (s : Looked) (a : CoreAction) : Option Looked :=
  (s.core.step a).map fun core => ⟨core, s.lookupAfter a⟩

/-- The connection is answered like this, or about to be. -/
def Answered (s : Looked) (c : ℕ) (reply : ProtocolMessage) : Prop :=
  .reply c reply ∈ s.core.log ∨ ∃ name, Core.pendingReply (s.core.task c) = some (reply, name)

/-- A connection is rejected only if a query for its code or token found nothing. -/
def Justified (s : Looked) : Prop :=
  ∀ c reply, reply.IsRejection → s.Answered c reply → s.lookup c = some ⟨false, true⟩

/-- The query for a code or a token succeeds. -/
def Queried : CoreAction → Prop
  | .receive _ (.authRequest ..) queryOk | .receive _ (.tokenAuth _) queryOk => queryOk = true
  | _ => True

variable {s s' : Looked} {a : CoreAction} {c : ℕ} {reply : ProtocolMessage} {name : Option String}

/-- Other connections keep what was looked up for them. -/
theorem lookupAfter_ne (h : a.conn ≠ some c) : s.lookupAfter a c = s.lookup c := by
  unfold lookupAfter
  split
  · exact Function.update_of_ne (fun he => h (congrArg some he.symm)) ..
  · exact Function.update_of_ne (fun he => h (congrArg some he.symm)) ..
  · rfl

theorem rejecting_of_isRejection {t : Task} (hreply : reply.IsRejection)
    (h : Core.pendingReply t = some (reply, name)) : t = .rejecting reply := by
  rcases Core.pendingReply_cases h with ⟨n, token, -, rfl, -⟩ | ⟨n, -, rfl, -⟩ | ⟨ht, -⟩
  · cases hreply
  · cases hreply
  · exact ht

/-- A message that is refused with a rejection, after a query that succeeded. -/
theorem lookupAfter_refused {msg : ProtocolMessage} {queryOk : Bool} (hreply : (Core.refusal msg).IsRejection)
    (hqueried : Queried (.receive c msg queryOk)) (refused : s.core.admits msg queryOk = false) :
    s.lookupAfter (.receive c msg queryOk) c = some ⟨false, true⟩ := by
  cases msg with
  | authRequest code name =>
    have hq : queryOk = true := hqueried
    subst hq
    rw [lookupAfter, Function.update_self]
    simpa [Core.admits] using refused
  | tokenAuth token =>
    have hq : queryOk = true := hqueried
    subst hq
    rw [lookupAfter, Function.update_self]
    simpa [Core.admits] using refused
  | _ => cases hreply

/-- A failed query rejects. -/
theorem rejects_of_failed {msg : ProtocolMessage} {core : Core}
    (hstep : s.core.step (.receive c msg false) = some core) :
    Core.pendingReply (core.task c) = some (Core.refusal msg, none) := by
  rcases Core.step_turn hstep c with ⟨hconn, -⟩ | hturn
  · exact absurd rfl hconn
  · generalize core.task c = t at hturn
    generalize s.core.task c = t₀ at hturn
    cases hturn
    rfl

/-- **One step** rejects with reason exactly when its query succeeds. -/
theorem justified_step (hJ : s.core.Silent) (hP : s.Justified) (h : s.step a = some s') :
    s'.Justified ↔ Queried a := by
  obtain ⟨core, hcore, rfl⟩ := Option.map_eq_some_iff.1 h
  constructor
  · intro hP'
    unfold Queried
    split
    · rename_i c code name queryOk
      cases queryOk with
      | true => rfl
      | false =>
        have hlookup := hP' c (.authResponse false none) trivial (.inr ⟨none, rejects_of_failed hcore⟩)
        simp [lookupAfter] at hlookup
    · rename_i c token queryOk
      cases queryOk with
      | true => rfl
      | false =>
        have hlookup := hP' c (.tokenAuthResponse false) trivial (.inr ⟨none, rejects_of_failed hcore⟩)
        simp [lookupAfter] at hlookup
    · trivial
  · intro hqueried c reply hreply hanswered
    have hturn := Core.step_turn hcore c
    have hsilent := hJ c reply
    have hold := hP c reply hreply
    unfold Answered at hold
    -- a reply that is in the log was there before, or pending
    have hanswered' : .reply c reply ∈ s.core.log ∨
        (a = .sendReply c true ∧ ∃ name, Core.pendingReply (s.core.task c) = some (reply, name)) ∨
        ∃ name, Core.pendingReply (core.task c) = some (reply, name) := by
      rcases hanswered with hlog | hpending
      · rcases Core.replied_step hcore hlog with hlog | hsent
        · exact .inl hlog
        · exact .inr (.inl hsent)
      · exact .inr (.inr hpending)
    generalize s.core.task c = t at hturn hsilent hold hanswered'
    generalize core.task c = t' at hturn hanswered'
    rcases hturn with ⟨hconn, rfl⟩ | hturn
    · rw [show (⟨core, s.lookupAfter a⟩ : Looked).lookup c = s.lookup c from lookupAfter_ne hconn]
      rcases hanswered' with hlog | ⟨rfl, -⟩ | hpending
      · exact hold (.inl hlog)
      · exact absurd rfl hconn
      · exact hold (.inr hpending)
    · rcases hanswered' with hlog | ⟨rfl, hpending⟩ | ⟨name, hpending⟩
      · -- something was written, so the first message has been read
        cases hturn with
        | accept | noMessage | consume | findToken | reject => exact absurd hlog (hsilent trivial)
        | _ => exact hold (.inl hlog)
      · exact hold (.inr hpending)
      · obtain rfl := rejecting_of_isRejection hreply hpending
        cases hturn with
        | reject refused => exact lookupAfter_refused hreply hqueried refused

theorem justified_init (workspace : String) (nodeCfg : Option (String × NodeMode)) (db : Database) (now : ℕ) :
    (init workspace nodeCfg db now).Justified := by
  rintro c reply - (hlog | ⟨name, hpending⟩)
  · cases hlog
  · cases hpending

/-- **Every rejection is justified** in a run exactly if each query for a code or a token
succeeds. -/
theorem justified_iff (workspace : String) (nodeCfg : Option (String × NodeMode)) (db : Database) (now : ℕ)
    (as : List CoreAction) :
    (∀ t, Sys.Visits step (init workspace nodeCfg db now) as t → t.Justified) ↔
      ∀ t a, Sys.Takes step (init workspace nodeCfg db now) as t a → Queried a := by
  refine Sys.visits_iff_takes (J := fun t : Looked => t.core.Silent) (fun t a t' hJ _ _ h => ?_)
    (fun _ _ _ hJ hP h => justified_step hJ hP h) as (fun c msg _ hlog => by cases hlog)
    (justified_init workspace nodeCfg db now)
  obtain ⟨core, hcore, rfl⟩ := Option.map_eq_some_iff.1 h
  exact hJ.step hcore

/-- **A busy database**: the node `n` has a token, the query for it fails, and the core
rejects the node, which stops. -/
theorem busy_rejects :
    ∃ s, Sys.run step (init "/w" none ⟨[], [⟨"n", "t"⟩]⟩ 0)
        [.accept 0, .receive 0 (.tokenAuth "t") false, .sendReply 0 true] = some s ∧
      s.core.db.findNodeByToken "t" = some "n" ∧ .reply 0 (.tokenAuthResponse false) ∈ s.core.log ∧
      NodeCmd.next (NodeCmd.authResult (.tokenAuthResponse false)) =
        .stop "authentication failed — token may be invalid, try re-linking" ∧
      ¬ s.Justified := by
  have hrun : Sys.run step (init "/w" none ⟨[], [⟨"n", "t"⟩]⟩ 0)
    [.accept 0, .receive 0 (.tokenAuth "t") false, .sendReply 0 true] = some _ := rfl
  have hsent : Effect.reply 0 (.tokenAuthResponse false) ∈
    [Effect.reply 0 (.tokenAuthResponse false), .close 0 1 "auth failed"] := List.mem_cons_self
  refine ⟨_, hrun, rfl, hsent, rfl, fun h => ?_⟩
  have hlookup := h 0 (.tokenAuthResponse false) trivial (.inl hsent)
  cases hlookup

end Looked

end Auxlry
