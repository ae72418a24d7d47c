import Auxlry.Proof.Connections
import Auxlry.Sys.Run

/-!
# Link attempts that fail

A code is deleted by one statement and the token of its node is stored by another; then the
reply is sent. An attempt that fails should leave the tables as it found them, so that it can be
made again.

* `repeatable_iff`: no failed attempt has changed the tables **exactly in the runs where** no
  token fails to be stored and no reply with a token fails to be sent.
* `failed_attempts`: a code that is used up with nothing stored, and a token that is stored and
  never reaches its node.
-/

namespace Auxlry

/-- The core, and the connections whose own steps have changed the tables. -/
structure Attempts where
  core : Core
  changed : ℕ → Bool

namespace Attempts

def init (workspace : String) (nodeCfg : Option (String × NodeMode)) (db : Database) (now : ℕ) : Attempts :=
  ⟨Core.init workspace nodeCfg db now, fun _ => false⟩

/-- A step of the core. -/
def step (s : Attempts) (a : CoreAction) : Option Attempts :=
  (s.core.step a).map fun core =>
    ⟨core, fun c => s.changed c || (decide (a.conn = some c) && decide (core.db ≠ s.core.db))⟩

/-- `authenticate` returned an error on the connection. -/
def Failed (s : Attempts) (c : ℕ) : Prop := .close c 1 "auth failed" ∈ s.core.log

/-- An attempt that failed has changed neither table: the code is as it was, and so are the
tokens. -/
def Repeatable (s : Attempts) : Prop := ∀ c, s.Failed c → s.changed c = false

/-- The step is no failure behind the deletion of the code. -/
def Kept (s : Attempts) (a : CoreAction) : Prop :=
  (∀ c token, a ≠ .storeToken c token false) ∧
    ∀ c, a = .sendReply c false → ∀ name token, s.core.task c ≠ .stored name token

/-- What a connection has changed when its task stands here. -/
def Stage (changed : Bool) : Task → Prop
  | .absent | .accepted | .rejecting _ | .found _ => changed = false
  | .consumed _ | .stored .. => changed = true
  | _ => True

/-- What is known of a connection: what it has changed, and that it is over once it failed. -/
structure Tracked (s : Attempts) (c : ℕ) : Prop where
  stage : Stage (s.changed c) (s.core.task c)
  ended : s.Failed c → s.core.task c = .returned

variable {s s' : Attempts} {a : CoreAction} {c : ℕ}

theorem step_some (h : step s a = some s') : s.core.step a = some s'.core ∧
    ∀ c, s'.changed c = (s.changed c || (decide (a.conn = some c) && decide (s'.core.db ≠ s.core.db))) := by
  obtain ⟨core, hcore, rfl⟩ := Option.map_eq_some_iff.1 h
  exact ⟨hcore, fun _ => rfl⟩

theorem changed_mono (h : step s a = some s') (hs : s.changed c = true) : s'.changed c = true := by
  rw [(step_some h).2 c, hs, Bool.true_or]

/-- **A connection changes the tables in two steps**, and in the first it always does. -/
theorem changed_turn {s s' : Core} {t t' : Task} (hturn : Core.Turn s c a t t') (h : s.step a = some s') :
    (∃ name, t' = .consumed name) ∧ s'.db ≠ s.db ∨
      (∃ name token, t = .consumed name ∧ t' = .stored name token) ∨
      (∀ name, t' ≠ .consumed name) ∧ s'.db = s.db := by
  cases Core.step_move h with
  | tick | storePendingCode => cases hturn.conn
  | @consume _ code name task pending =>
    cases hturn with
    | reject refused => rw [Core.admits, pending] at refused; cases refused
    | consume =>
      refine .inl ⟨⟨name, rfl⟩, fun heq => ?_⟩
      -- the code is in the one and not in the other
      obtain ⟨row, hrow, hcode⟩ := List.any_eq_true.1 pending
      have hmem : row ∈ ((s.db.consumePendingCode code).2).pendingLinkCodes := by
        rw [← heq] at hrow
        exact hrow
      exact of_decide_eq_true (List.mem_filter.1 hmem).2 (of_decide_eq_true hcode)
  | storeToken task =>
    cases hturn with
    | storeToken => exact .inr (.inl ⟨_, _, rfl, rfl⟩)
  | reject task refused =>
    cases hturn with
    | reject => exact .inr (.inr ⟨fun _ h => (by cases h), rfl⟩)
    | consume pending => rw [Core.admits, pending] at refused; cases refused
    | findToken found => rw [Core.admits, found] at refused; cases refused
  | _ =>
    refine .inr (.inr ⟨fun name hname => ?_, rfl⟩)
    subst hname
    cases hturn

theorem stage_turn {t t' : Task} (hturn : Core.Turn s.core c a t t') (h : step s a = some s')
    (hs : Stage (s.changed c) t) : Stage (s'.changed c) t' := by
  obtain ⟨hcore, hchanged⟩ := step_some h
  rcases changed_turn hturn hcore with ⟨⟨name, rfl⟩, hne⟩ | ⟨name, token, rfl, rfl⟩ | ⟨hnew, heq⟩
  · have hnow : s'.changed c = true := by rw [hchanged c, hturn.conn]; simp [hne]
    exact hnow
  · exact changed_mono h hs
  · -- the tables are as they were, and so is what is said of the task
    have hsame : s'.changed c = s.changed c := by rw [hchanged c]; simp [heq]
    rw [hsame]
    cases hturn with
    | consume => exact absurd rfl (hnew _)
    | accept | findToken | reject | storeToken => exact hs
    | _ => trivial

/-- **When an attempt fails.** -/
theorem effects_close {s : Core} :
    .close c 1 "auth failed" ∈ s.effects a ↔
      a = .noMessage c ∨ (∃ token, a = .storeToken c token false) ∨ a = .sendReply c false ∨
        a = .sendReply c true ∧ ∃ reply, Core.pendingReply (s.task c) = some (reply, none) := by
  unfold Core.effects
  split
  · rename_i c'
    split
    · rename_i hp
      simp only [List.mem_singleton, reduceCtorEq, false_or, exists_false, CoreAction.sendReply.injEq,
        Bool.true_eq_false, and_false, and_true, false_iff]
      rintro ⟨rfl, reply, hn⟩
      rw [hp] at hn; cases hn
    · rename_i reply hp
      simp only [List.mem_cons, List.not_mem_nil, reduceCtorEq, false_or, or_false, Effect.close.injEq,
        and_true, exists_false, CoreAction.sendReply.injEq, Bool.true_eq_false, and_false]
      exact ⟨fun h => ⟨h.symm, reply, h ▸ hp⟩, fun h => h.1.symm⟩
    · rename_i hp
      simp only [List.not_mem_nil, reduceCtorEq, false_or, exists_false, CoreAction.sendReply.injEq,
        Bool.true_eq_false, and_false, and_true, false_iff]
      rintro ⟨rfl, reply, hn⟩
      rw [hp] at hn; cases hn
  · split <;> simp
  · split <;> simp
  · simp [eq_comm]
  · simp [eq_comm]
  · simp [eq_comm]
  · simp
  · -- no other step closes a connection
    rename_i hreply _ _ hno hlost hnot _
    simp only [List.not_mem_nil, false_iff, not_or, not_exists, not_and]
    exact ⟨hno c, hlost c, hnot c, fun h => (hreply c h).elim⟩

theorem failed_step (h : step s a = some s') : s'.Failed c ↔
    s.Failed c ∨ a = .noMessage c ∨ (∃ token, a = .storeToken c token false) ∨ a = .sendReply c false ∨
      a = .sendReply c true ∧ ∃ reply, Core.pendingReply (s.core.task c) = some (reply, none) := by
  rw [Failed, Core.step_log (step_some h).1, List.mem_append, effects_close]; rfl

/-- An attempt fails in a step of its own connection. -/
theorem failed_of_other (h : step s a = some s') (hconn : a.conn ≠ some c) (hf : s'.Failed c) :
    s.Failed c := by
  refine ((failed_step h).1 hf).resolve_right ?_
  rintro (rfl | ⟨_, rfl⟩ | rfl | ⟨rfl, -⟩) <;> exact hconn rfl

theorem tracked_step (hJ : ∀ c, s.Tracked c) (h : step s a = some s') (c : ℕ) : s'.Tracked c := by
  obtain ⟨hcore, hchanged⟩ := step_some h
  rcases Core.step_turn hcore c with ⟨hconn, htask⟩ | hturn
  · -- a step of another connection
    have hsame : s'.changed c = s.changed c := by rw [hchanged c]; simp [hconn]
    refine ⟨by rw [hsame, htask]; exact (hJ c).stage, fun hf => ?_⟩
    rw [htask]
    exact (hJ c).ended (failed_of_other h hconn hf)
  · refine ⟨stage_turn hturn h (hJ c).stage, fun hf => ?_⟩
    have hnow := (failed_step h).1 hf
    generalize s'.core.task c = t' at hturn
    have hstuck : ¬ s.Failed c := by
      intro hold
      rw [(hJ c).ended hold] at hturn
      cases hturn with
      | replied pending | rejected pending | notSent pending => cases pending
    replace hnow := hnow.resolve_left hstuck
    generalize s.core.task c = t at hturn hnow
    rcases hnow with rfl | ⟨token, rfl⟩ | rfl | ⟨rfl, reply, hp⟩
    · cases hturn; rfl
    · cases hturn; rfl
    · cases hturn; rfl
    · cases hturn with
      | replied pending => rw [hp] at pending; cases pending
      | rejected => rfl

/-- A failure behind the deletion of a code leaves something changed. -/
theorem kept_of_repeatable (hJ : ∀ c, s.Tracked c) (h : step s a = some s') (hR : s'.Repeatable) :
    s.Kept a := by
  obtain ⟨hcore, -⟩ := step_some h
  refine ⟨fun c token ha => ?_, fun c ha name token htask => ?_⟩
  · -- the code was deleted, and stays so
    subst ha
    have hkeep := hR c ((failed_step h).2 (.inr (.inr (.inl ⟨token, rfl⟩))))
    rcases Core.step_turn hcore c with ⟨hconn, -⟩ | hturn
    · exact hconn rfl
    · have hstage := (hJ c).stage
      generalize s.core.task c = t at hturn hstage
      generalize s'.core.task c = t' at hturn
      cases hturn
      rw [changed_mono h hstage] at hkeep
      cases hkeep
  · subst ha
    have hkeep := hR c ((failed_step h).2 (.inr (.inr (.inr (.inl rfl)))))
    have hstage := (hJ c).stage
    rw [htask] at hstage
    rw [changed_mono h hstage] at hkeep
    cases hkeep

/-- Any other failure is one of an attempt that has changed nothing. -/
theorem repeatable_of_kept (hJ : ∀ c, s.Tracked c) (hP : s.Repeatable) (h : step s a = some s')
    (hK : s.Kept a) : s'.Repeatable := by
  obtain ⟨hcore, hchanged⟩ := step_some h
  have hJ' := tracked_step hJ h
  intro c hf
  rcases Core.step_turn hcore c with ⟨hconn, -⟩ | hturn
  · rw [hchanged c, show decide (a.conn = some c) = false from decide_eq_false hconn, Bool.false_and,
      Bool.or_false]
    exact hP c (failed_of_other h hconn hf)
  · -- the attempt fails now, before the code is deleted
    have hstage := (hJ c).stage
    have hret := (hJ' c).ended hf
    rcases changed_turn hturn hcore with ⟨⟨name, hc⟩, -⟩ | ⟨_, _, _, hs⟩ | ⟨-, heq⟩
    · rw [hret] at hc; cases hc
    · rw [hret] at hs; cases hs
    · rw [hchanged c, heq]
      simp only [ne_eq, not_true_eq_false, decide_false, Bool.and_false, Bool.or_false]
      have hstored := hK.2 c
      rcases (failed_step h).1 hf with hold | rfl | ⟨token, rfl⟩ | rfl | ⟨rfl, reply, hp⟩
      · exact hP c hold
      · generalize s.core.task c = t at hturn hstage
        generalize s'.core.task c = t' at hturn
        cases hturn
        exact hstage
      · exact absurd rfl (hK.1 c token)
      · generalize s.core.task c = t at hturn hstage hstored
        generalize s'.core.task c = t' at hturn
        cases hturn with
        | notSent pending =>
          rcases Core.pendingReply_cases pending with ⟨n, token, rfl, -, -⟩ | ⟨n, rfl, -, -⟩ | ⟨rfl, -⟩
          · exact absurd rfl (hstored rfl n token)
          · exact hstage
          · exact hstage
      · generalize s.core.task c = t at hstage hp
        rcases Core.pendingReply_cases hp with ⟨_, _, -, -, hn⟩ | ⟨_, -, -, hn⟩ | ⟨rfl, -⟩
        · cases hn
        · cases hn
        · exact hstage

/-- **One step keeps failed attempts repeatable exactly if** it is no failure behind the deletion
of a code. -/
theorem repeatable_step (hJ : ∀ c, s.Tracked c) (hP : s.Repeatable) (h : step s a = some s') :
    s'.Repeatable ↔ s.Kept a :=
  ⟨kept_of_repeatable hJ h, repeatable_of_kept hJ hP h⟩

/-- **Unchanged means what it says**: where only one connection takes steps, the tables are as they
were if it has not changed them. -/
theorem unchanged_alone {as : List CoreAction} {s t : Attempts} (halone : ∀ a ∈ as, a.conn = some c)
    (h : Sys.run step s as = some t) (hc : t.changed c = false) :
    t.core.db = s.core.db ∧ s.changed c = false := by
  induction as generalizing s with
  | nil => obtain rfl := Option.some.inj h; exact ⟨rfl, hc⟩
  | cons a as ih =>
    rw [Sys.run_cons] at h
    obtain ⟨s', hs', h⟩ := Option.bind_eq_some_iff.1 h
    obtain ⟨hdb, hnot⟩ := ih (fun b hb => halone b (List.mem_cons_of_mem a hb)) h
    rw [(step_some hs').2 c, halone a List.mem_cons_self] at hnot
    simp only [decide_true, Bool.true_and, Bool.or_eq_false_iff, decide_eq_false_iff_not,
      ne_eq, not_not] at hnot
    exact ⟨hdb.trans hnot.2, hnot.1⟩

/-- **No failed attempt has changed the tables** exactly in the runs in which no token fails to be
stored and no reply with a token fails to be sent. -/
theorem repeatable_iff (workspace : String) (nodeCfg : Option (String × NodeMode)) (db : Database)
    (now : ℕ) (as : List CoreAction) :
    (∀ s, Sys.Visits step (init workspace nodeCfg db now) as s → s.Repeatable) ↔
      ∀ s a, Sys.Takes step (init workspace nodeCfg db now) as s a → s.Kept a :=
  Sys.visits_iff_takes (J := fun s => ∀ c, s.Tracked c) (fun _ _ _ hJ _ _ h => tracked_step hJ h)
    (fun _ _ _ hJ hP h => repeatable_step hJ hP h) as
    (fun _ => ⟨rfl, fun h => by cases h⟩) (fun _ h => by cases h)

/-! ## Two failures -/

/-- One code is pending. -/
def oneCode : Database := ⟨[⟨"123456", 0⟩], []⟩

/-- **A code is used up with nothing stored, and a token is stored that its node does not get.** -/
theorem failed_attempts :
    (∃ s, Sys.Visits step (init "/w" none oneCode 0)
        [.accept 0, .receive 0 (.authRequest "123456" "n") true, .storeToken 0 "t" false] s ∧
      s.Failed 0 ∧ ¬ s.Repeatable ∧ s.core.db = ⟨[], []⟩) ∧
    ∃ s, Sys.Visits step (init "/w" none oneCode 0)
        [.accept 0, .receive 0 (.authRequest "123456" "n") true, .storeToken 0 "t" true,
          .sendReply 0 false] s ∧
      s.Failed 0 ∧ ¬ s.Repeatable ∧ s.core.db = ⟨[], [⟨"n", "t"⟩]⟩ := by
  constructor
  · refine ⟨_, ⟨_, List.prefix_rfl, rfl⟩, ?_, fun h => ?_, rfl⟩
    · exact List.mem_singleton.2 rfl
    · exact absurd (h 0 (List.mem_singleton.2 rfl)) (by decide)
  · refine ⟨_, ⟨_, List.prefix_rfl, rfl⟩, ?_, fun h => ?_, rfl⟩
    · exact List.mem_singleton.2 rfl
    · exact absurd (h 0 (List.mem_singleton.2 rfl)) (by decide)

end Attempts

end Auxlry
