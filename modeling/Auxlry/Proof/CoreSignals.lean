import Auxlry.Spec.CoreSignals
import Mathlib.Data.Int.Notation

/-!
# Whom the core commands signal

The number in the PID file should be the argument of every `kill` that a command makes,
and address the one process with that number: `Aimed`. The file may hold any `u32`. The
cast to `i32` turns zero into the own group and numbers from 2 ^ 31 on into process
groups, or everyone (`killTarget_toInt32`), and the test before `SIGTERM` makes the same
cast.

The commands are followed through one policy: a number that was accepted is tested next,
and every `kill` passes on the cast of the number read last (`conforms_run`).

* `aimed_iff`: **the exact condition** on what a complete run reads.
* `parsePid_repr`: every `u32` in decimal is accepted.
* `stop_everyone`: `core stop` with 4294967295 in the file.
-/

namespace Auxlry

namespace CoreCmd

/-- A call of `kill` is for the process with the number `n`. -/
structure PassesOn (arg : Int32) (n : UInt32) : Prop where
  pos : 0 < arg.toInt
  eq : arg.toInt = n.toNat
  target : killTarget arg = .process n.toNat

/-- A number that a process can have: positive, and an `i32`. -/
def IsPid (n : UInt32) : Prop := 0 < n.toNat ∧ n.toNat < 2147483648

/-- What a call has found in the PID file, if it has read it. -/
def Call.reads : (op : Call) → op.Answer → Option (Option UInt32)
  | .readPidFile, .ok content => some (parsePid content)
  | .readPidFile, .error _ => some none
  | _, _ => none

/-- Each `kill` is for the process whose number was read last. -/
def Aimed : Option UInt32 → List (Sigma Call.Answer) → Prop
  | _, [] => True
  | last, ⟨op, a⟩ :: es =>
    (∀ arg signal, op = .kill arg signal → ∃ n, last = some n ∧ PassesOn arg n) ∧
      Aimed ((op.reads a).getD last) es

/-- Every number that is accepted is one that a process can have. -/
def ReadsPids (es : List (Sigma Call.Answer)) : Prop :=
  ∀ e ∈ es, ∀ n, e.1.reads e.2 = some (some n) → IsPid n

/-! ## The cast -/

theorem toInt_toInt32 (n : UInt32) :
    n.toInt32.toInt = if n.toNat < 2147483648 then (n.toNat : ℤ) else (n.toNat : ℤ) - 4294967296 := by
  have hlt : n.toNat < 4294967296 := n.toNat_lt
  have h : n.toInt32.toInt = n.toBitVec.toInt := rfl
  have hn : n.toBitVec.toNat = n.toNat := rfl
  rw [h, BitVec.toInt_eq_toNat_cond, hn]
  split <;> split <;> omega

/-- **Whom a number addresses** after the cast. -/
theorem killTarget_toInt32 (n : UInt32) : killTarget n.toInt32 =
    if n.toNat = 0 then .ownGroup
    else if n.toNat < 2147483648 then .process n.toNat
    else if n.toNat = 4294967295 then .everyone
    else .group (4294967296 - n.toNat) := by
  have hlt : n.toNat < 4294967296 := n.toNat_lt
  rw [killTarget, toInt_toInt32]
  by_cases hsmall : n.toNat < 2147483648
  · rw [if_pos hsmall, if_pos hsmall]
    by_cases hzero : n.toNat = 0
    · simp [hzero]
    · have hpos : (0 : ℤ) < n.toNat := by omega
      rw [if_pos hpos, if_neg hzero, Int.toNat_natCast]
  · have hneg : ¬ (0 : ℤ) < n.toNat - 4294967296 := by omega
    have hzero : ¬ (n.toNat : ℤ) - 4294967296 = 0 := by omega
    have hzero' : ¬ n.toNat = 0 := by omega
    rw [if_neg hsmall, if_neg hsmall, if_neg hneg, if_neg hzero, if_neg hzero']
    refine if_congr (by omega) rfl ?_
    congr 1
    omega

/-- The cast of a number is for its process exactly if a process can have it. -/
theorem passesOn_iff (n : UInt32) : PassesOn n.toInt32 n ↔ IsPid n := by
  have hlt : n.toNat < 4294967296 := n.toNat_lt
  have hcast := toInt_toInt32 n
  constructor
  · rintro ⟨hpos, heq, -⟩
    rw [IsPid]
    split at hcast <;> omega
  · rintro ⟨hpos, hn⟩
    have hzero : ¬ n.toNat = 0 := by omega
    rw [if_pos hn] at hcast
    refine ⟨by omega, hcast, ?_⟩
    rw [killTarget_toInt32, if_neg hzero, if_pos hn]

/-- Every `u32` in decimal is accepted. -/
theorem parsePid_repr (n : UInt32) : parsePid (toString n.toNat) = some n := by
  have hlist : (toString n.toNat).toList = Nat.toDigits 10 n.toNat := Nat.toList_repr
  have hdigit : ∀ c ∈ Nat.toDigits 10 n.toNat, c.isDigit = true :=
    fun c hc => Nat.isDigit_of_mem_toDigits (by decide) (by decide) hc
  have htrim : trim (toString n.toNat) = toString n.toNat :=
    trim_of_forall fun c hc => not_whiteSpace_of_isDigit (hdigit c (hlist ▸ hc))
  have hsign : ∀ cs, Nat.toDigits 10 n.toNat ≠ '+' :: cs := by
    intro cs hcs
    have := hdigit '+' (hcs ▸ List.mem_cons_self)
    cases this
  rw [parsePid, htrim, parseU32, hlist]
  split
  · rename_i cs hcs
    exact absurd hcs (hsign cs)
  · have hne : Nat.toDigits 10 n.toNat ≠ [] := Nat.toDigits_ne_nil
    have hall : (Nat.toDigits 10 n.toNat).all Char.isDigit = true := List.all_eq_true.2 hdigit
    have hlt : n.toNat < UInt32.size := n.toNat_lt
    simp [hall, hlt]

/-! ## What a command may call -/

/-- What a command knows of the PID file. -/
inductive Aim
  /-- no number, so far -/
  | idle
  /-- the file holds `n`, and it is tested next -/
  | due (n : UInt32)
  /-- `n` has been tested -/
  | probed (n : UInt32)

/-- The number of the process that a command is about. -/
def Aim.last : Aim → Option UInt32
  | .idle => none
  | .due n | .probed n => some n

/-- Every `kill` passes on the number read last, and a number that was accepted is tested
before anything else happens. -/
def policy : Sys.Policy Call.Answer Aim where
  allows
    | .due n, .kill arg _ => arg = n.toInt32
    | .probed n, .kill arg _ => arg = n.toInt32
    | .idle, .kill _ _ => False
    | .due _, _ => False
    | _, _ => True
  next
    | .due n, .kill _ _, _ => .probed n
    | s, op, a => (op.reads a).elim s fun r => r.elim .idle .due
  ends s := ∀ n, s ≠ .due n

variable {α β : Type} {s : Aim} {n : UInt32}

open Sys.Policy (conforms_bind)

/-- A program that neither reads the PID file nor signals anybody. -/
def Quiet (p : Cmd α) : Prop := ∀ s, policy.ends s → policy.Conforms p (fun _ t => t = s) s

/-- Neither a look into the PID file nor a signal. -/
def Call.quiet : Call → Bool
  | .kill _ _ | .readPidFile => false
  | _ => true

theorem next_quiet {op : Call} (h : op.quiet = true) (s : Aim) (a : op.Answer) : policy.next s op a = s := by
  cases op <;> cases h <;> cases s <;> rfl

theorem allows_quiet {op : Call} (h : op.quiet = true) (hs : policy.ends s) : policy.allows s op := by
  cases s with
  | due n => exact absurd rfl (hs n)
  | idle | probed => cases op <;> cases h <;> trivial

theorem quiet_call {op : Call} (h : op.quiet = true) {next : op.Answer → Cmd α} (hnext : ∀ a, Quiet (next a)) :
    Quiet (.call op next) := by
  intro s hs
  refine ⟨allows_quiet h hs, fun a => ?_⟩
  rw [next_quiet h]
  exact hnext a s hs

theorem quiet_pure (a : α) : Quiet (.done a) := fun _ _ => rfl

theorem quiet_fail (e : String) : Quiet (.fail e : Cmd α) := fun _ hs => hs

theorem quiet_ofExcept (r : Except String α) : Quiet (.ofExcept r) := by
  cases r with
  | error e => exact quiet_fail e
  | ok a => exact quiet_pure a

/-- A quiet program before another one. -/
theorem Quiet.conforms {p : Cmd α} (hp : Quiet p) (hs : policy.ends s) {f : α → Cmd β} {post : β → Aim → Prop}
    (h : ∀ a, policy.Conforms (f a) post s) : policy.Conforms (p >>= f) post s := by
  rw [conforms_bind]
  refine (hp s hs).mono ?_
  rintro a t rfl
  exact h a

theorem Quiet.bind {p : Cmd α} {f : α → Cmd β} (hp : Quiet p) (hf : ∀ a, Quiet (f a)) : Quiet (p >>= f) :=
  fun s hs => hp.conforms hs fun a => hf a s hs

theorem Quiet.ends {p : Cmd α} (hp : Quiet p) (hs : policy.ends s) :
    policy.Conforms p (fun _ t => policy.ends t) s := by
  refine (hp s hs).mono ?_
  rintro _ t rfl
  exact hs

theorem quiet_newPaths : Quiet newPaths := quiet_call rfl quiet_ofExcept

theorem quiet_pidExists : Quiet pidExists := quiet_call rfl quiet_pure

theorem quiet_removePidFile : Quiet removePidFile := quiet_call rfl quiet_pure

theorem quiet_println (line : String) : Quiet (println line) := quiet_call rfl quiet_pure

theorem quiet_runDaemon : Quiet runDaemon := quiet_call rfl quiet_ofExcept

theorem quiet_spawnDaemon : Quiet spawnDaemon := quiet_call rfl quiet_ofExcept

theorem quiet_openDatabase : Quiet openDatabase := quiet_call rfl quiet_ofExcept

theorem quiet_storePendingCode (code : String) : Quiet (storePendingCode code) := quiet_call rfl quiet_ofExcept

theorem quiet_generateLinkCode : Quiet generateLinkCode := quiet_call rfl quiet_pure

theorem quiet_loadConfig : Quiet loadConfig := quiet_call rfl quiet_ofExcept

theorem quiet_getLocalIp : Quiet getLocalIp := quiet_call rfl quiet_pure

theorem quiet_sleep (ms : ℕ) : Quiet (sleep ms) := quiet_call rfl quiet_pure

/-! ## The commands keep to the policy -/

theorem ends_probed (n : UInt32) : policy.ends (.probed n) := by
  intro m h
  cases h

theorem ends_idle : policy.ends .idle := by
  intro m h
  cases h

theorem next_readPidFile (s : Aim) (content : String) :
    policy.next s .readPidFile (.ok content) = (parsePid content).elim .idle .due := by
  have hreads : Call.readPidFile.reads (.ok content) = some (parsePid content) := by rw [Call.reads]
  have hnext : ∀ a, policy.next s .readPidFile a =
      (Call.readPidFile.reads a).elim s fun r => r.elim .idle .due := by cases s <;> exact fun _ => rfl
  rw [hnext, hreads, Option.elim_some]

theorem conforms_kill {signal : Int32} (hs : s = .due n ∨ s = .probed n) :
    policy.Conforms (kill n.toInt32 signal) (fun _ t => t = .probed n) s := by
  rcases hs with rfl | rfl
  · exact ⟨rfl, fun _ => rfl⟩
  · exact ⟨rfl, fun _ => rfl⟩

theorem conforms_isProcessRunning {f : Bool → Cmd β} {post : β → Aim → Prop} (hs : s = .due n ∨ s = .probed n)
    (hrun : policy.Conforms (f true) post (.probed n)) (hgone : policy.Conforms (f false) post (.probed n)) :
    policy.Conforms (isProcessRunning n >>= f) post s := by
  rw [conforms_bind, isProcessRunning, conforms_bind]
  refine (conforms_kill hs).mono ?_
  rintro r t rfl
  change policy.Conforms (f (r == 0)) post (.probed n)
  cases r == 0 with
  | false => exact hgone
  | true => exact hrun

theorem conforms_readPid {f : Option UInt32 → Cmd β} {post : β → Aim → Prop} (hs : policy.ends s)
    (hnone : policy.Conforms (f none) post s) (hsome : ∀ n, policy.Conforms (f (some n)) post (.due n)) :
    policy.Conforms (readPid >>= f) post s := by
  rw [conforms_bind, readPid]
  refine quiet_pidExists.conforms hs fun there => ?_
  cases there with
  | false => exact hnone
  | true =>
    have hallow : policy.allows s .readPidFile := by
      cases s with
      | due n => exact absurd rfl (hs n)
      | idle | probed => trivial
    rw [if_pos rfl, conforms_bind]
    refine ⟨hallow, fun answer => ?_⟩
    cases answer with
    | error e => cases s <;> exact ends_idle
    | ok content =>
      rw [next_readPidFile]
      simp only [Sys.Prog.ofExcept, Sys.Policy.Conforms]
      cases parsePid content with
      | none => exact ends_idle
      | some n => exact hsome n

theorem conforms_awaitShutdown (polls : ℕ) :
    policy.Conforms (awaitShutdown n polls) (fun _ t => t = .probed n) (.probed n) := by
  induction polls with
  | zero => rfl
  | succ polls ih =>
    refine (quiet_sleep 100).conforms (ends_probed n) fun _ => ?_
    exact conforms_isProcessRunning (.inr rfl) ih rfl

theorem conforms_start (foreground : Bool) (hs : policy.ends s) :
    policy.Conforms (start foreground) (fun _ t => policy.ends t) s := by
  have hlaunch : Quiet (if foreground then runDaemon else do
      let child ← spawnDaemon
      println s!"auxlry core started (PID {child})") := by
    split
    · exact quiet_runDaemon
    · exact quiet_spawnDaemon.bind fun child => quiet_println _
  refine quiet_newPaths.conforms hs fun _ => conforms_readPid hs (hlaunch.ends hs) fun n => ?_
  have hn := ends_probed n
  exact conforms_isProcessRunning (.inl rfl) hn (quiet_removePidFile.conforms hn fun _ => hlaunch.ends hn)

theorem conforms_stop (hs : policy.ends s) : policy.Conforms stop (fun _ t => policy.ends t) s := by
  refine quiet_newPaths.conforms hs fun _ => conforms_readPid hs hs fun n => ?_
  have hn := ends_probed n
  refine conforms_isProcessRunning (.inl rfl) ?_ (quiet_removePidFile.conforms hn fun _ => hn)
  have hclean : Quiet (do
      if ← pidExists then removePidFile else pure ()
      println "auxlry core stopped") := by
    refine quiet_pidExists.bind fun there => ?_
    cases there with
    | false => exact quiet_println _
    | true => exact quiet_removePidFile.bind fun _ => quiet_println _
  rw [if_pos rfl, conforms_bind]
  refine (conforms_kill (.inr rfl)).mono ?_
  rintro _ t rfl
  rw [conforms_bind]
  refine (conforms_awaitShutdown 30).mono ?_
  rintro _ t rfl
  exact hclean.ends hn

theorem conforms_status (hs : policy.ends s) : policy.Conforms status (fun _ t => policy.ends t) s := by
  refine quiet_newPaths.conforms hs fun _ => conforms_readPid hs ((quiet_println _).ends hs) fun n => ?_
  have hn := ends_probed n
  refine conforms_isProcessRunning (.inl rfl) ?_ ?_
  · exact ((quiet_println _).bind fun _ => quiet_println _).ends hn
  · exact (quiet_removePidFile.bind fun _ => quiet_println _).ends hn

theorem conforms_restart (foreground : Bool) (hs : policy.ends s) :
    policy.Conforms (restart foreground) (fun _ t => policy.ends t) s := by
  refine quiet_newPaths.conforms hs fun _ => conforms_readPid hs (conforms_start foreground hs) fun n => ?_
  have hn := ends_probed n
  refine conforms_isProcessRunning (.inl rfl) ?_ (conforms_start foreground hn)
  rw [if_pos rfl, conforms_bind]
  -- the restart goes on from wherever `stop` has ended
  exact (conforms_stop hn).mono fun _ t ht => conforms_start foreground ht

theorem conforms_link (hs : policy.ends s) : policy.Conforms link (fun _ t => policy.ends t) s := by
  refine quiet_newPaths.conforms hs fun _ => conforms_readPid hs hs fun n => ?_
  have hn := ends_probed n
  refine conforms_isProcessRunning (.inl rfl) ?_ (quiet_removePidFile.conforms hn fun _ => hn)
  have hcode : Quiet (do
      openDatabase
      let code ← generateLinkCode
      storePendingCode code
      let quicPort ← loadConfig
      let localIp := (← getLocalIp).getD "127.0.0.1"
      println "link code generated — give this to the remote node:\n"
      println s!"  auxlry node link {localIp}:{quicPort} {code}"
      println "") := by
    refine quiet_openDatabase.bind fun _ => quiet_generateLinkCode.bind fun code => ?_
    refine (quiet_storePendingCode code).bind fun _ => quiet_loadConfig.bind fun quicPort => ?_
    refine quiet_getLocalIp.bind fun ip => (quiet_println _).bind fun _ => ?_
    exact (quiet_println _).bind fun _ => quiet_println _
  exact hcode.ends hn

/-- **Every command keeps to the policy**, whatever it is answered. -/
theorem conforms_run (action : CoreAction) (hs : policy.ends s) :
    policy.Conforms action.run (fun _ t => policy.ends t) s := by
  cases action with
  | start foreground => exact conforms_start foreground hs
  | stop => exact conforms_stop hs
  | restart foreground => exact conforms_restart foreground hs
  | status => exact conforms_status hs
  | link => exact conforms_link hs

/-! ## What a run has been aimed at -/

theorem readsPids_cons (e : Sigma Call.Answer) (es : List (Sigma Call.Answer)) :
    ReadsPids (e :: es) ↔ (∀ n, e.1.reads e.2 = some (some n) → IsPid n) ∧ ReadsPids es :=
  List.forall_mem_cons

theorem aimed_kill (n : UInt32) (signal : Int32) (r : (Call.kill n.toInt32 signal).Answer)
    (es : List (Sigma Call.Answer)) :
    Aimed (some n) (⟨.kill n.toInt32 signal, r⟩ :: es) ↔ IsPid n ∧ Aimed (some n) es := by
  refine and_congr ?_ Iff.rfl
  rw [← passesOn_iff]
  constructor
  · intro h
    obtain ⟨m, hm, hpass⟩ := h _ _ rfl
    cases hm
    exact hpass
  · rintro hpass arg _ ⟨⟩
    exact ⟨n, rfl, hpass⟩

theorem aimed_cons {op : Call} (hop : ∀ arg signal, op ≠ .kill arg signal) (a : op.Answer) (last : Option UInt32)
    (es : List (Sigma Call.Answer)) :
    Aimed last (⟨op, a⟩ :: es) ↔ Aimed ((op.reads a).getD last) es :=
  and_iff_right fun arg signal h => absurd h (hop arg signal)

/-- A call that is no `kill`, when no number is to be tested. -/
theorem next_of_ends (hs : policy.ends s) {op : Call} (a : op.Answer) :
    policy.next s op a = (op.reads a).elim s fun r => r.elim .idle .due := by
  cases s with
  | due n => exact absurd rfl (hs n)
  | idle | probed => rfl

/-- A run that follows the policy is aimed if it reads numbers of processes, and if the
number to be tested next is one. -/
theorem aimed_of_follows {es : List (Sigma Call.Answer)} (h : policy.Follows s es)
    (hs : ∀ n, s = .probed n → IsPid n) : Aimed s.last es ↔ ReadsPids es ∧ ∀ n, s = .due n → IsPid n := by
  induction es generalizing s with
  | nil => exact iff_of_true trivial ⟨by simp [ReadsPids], fun n hn => absurd hn (h n)⟩
  | cons e es ih =>
    obtain ⟨op, a⟩ := e
    obtain ⟨hallow, hfollow⟩ := h
    by_cases hop : ∃ arg signal, op = .kill arg signal
    · obtain ⟨arg, signal, rfl⟩ := hop
      have hreads : ReadsPids (⟨.kill arg signal, a⟩ :: es) ↔ ReadsPids es := by
        rw [readsPids_cons]
        exact and_iff_right fun n hn => by cases hn
      rw [hreads]
      cases s with
      | idle => cases hallow
      | probed n =>
        cases hallow
        have htail := ih (s := .probed n) hfollow hs
        rw [Aim.last, aimed_kill, and_iff_right (hs n rfl)]
        exact htail.trans (by simp)
      | due n =>
        -- this is the test of `n`, so that a number that no process has shows here
        cases hallow
        rw [Aim.last, aimed_kill]
        simp only [Aim.due.injEq, forall_eq', and_comm (b := IsPid n)]
        refine and_congr_right fun hn => ?_
        have htail := ih (s := .probed n) hfollow (by rintro m ⟨⟩; exact hn)
        exact htail.trans (by simp)
    · have hends : policy.ends s := by
        rintro n rfl
        cases op with
        | kill arg signal => exact hop ⟨arg, signal, rfl⟩
        | _ => cases hallow
      rw [next_of_ends hends] at hfollow
      have hdue : ∀ n, s = .due n → IsPid n := fun n hn => absurd hn (hends n)
      rw [aimed_cons (fun arg signal he => hop ⟨arg, signal, he⟩), readsPids_cons, and_iff_left hdue]
      cases hr : op.reads a with
      | none =>
        rw [hr] at hfollow
        exact (ih hfollow hs).trans ((and_iff_left hdue).trans (by simp))
      | some r =>
        rw [hr] at hfollow
        cases r with
        | none => exact (ih (s := .idle) hfollow (by simp)).trans (by simp)
        | some n => exact (ih (s := .due n) hfollow (by simp)).trans (by simp [and_comm])

/-- **The exact condition** for every signal of a complete run to go to the process in the
file: the numbers that the run reads and accepts are positive and fit an `i32`. -/
theorem aimed_iff (action : CoreAction) {es : List (Sigma Call.Answer)} {r : Except String Unit}
    (h : Sys.Runs action.run es r) : Aimed none es ↔ ReadsPids es := by
  have hfollow := (conforms_run action ends_idle).follows h
  exact (aimed_of_follows hfollow (by simp)).trans (by simp)

/-! ## A run of `core stop` -/

/-- The process with the number in the file runs, and has gone when `stop` looks again. -/
def stopCalls (content : String) (n : UInt32) : List (Sigma Call.Answer) :=
  [⟨.newPaths, .ok ()⟩, ⟨.pidExists, true⟩, ⟨.readPidFile, .ok content⟩, ⟨.kill n.toInt32 0, 0⟩,
    ⟨.kill n.toInt32 sigterm, 0⟩, ⟨.sleep 100, ()⟩, ⟨.kill n.toInt32 0, -1⟩, ⟨.pidExists, true⟩,
    ⟨.removePidFile, ()⟩, ⟨.println "auxlry core stopped", ()⟩]

theorem runs_call (op : Call) (a : op.Answer) : Sys.Runs (.call op .done : Cmd op.Answer) [⟨op, a⟩] (.ok a) :=
  .call a (.done a)

theorem runs_readPid {content : String} {n : UInt32} (h : parsePid content = some n) :
    Sys.Runs readPid [⟨.pidExists, true⟩, ⟨.readPidFile, .ok content⟩] (.ok (some n)) := by
  have hthere : Sys.Runs pidExists [⟨.pidExists, true⟩] (.ok true) :=
    runs_call Call.pidExists true
  have hread : Sys.Runs readPidFile [⟨.readPidFile, .ok content⟩] (.ok content) := by
    rw [readPidFile]
    exact .call _ (.done content)
  refine hthere.bind (hread.bind ?_)
  rw [h]
  exact .done _

theorem runs_stop {content : String} {n : UInt32} (h : parsePid content = some n) :
    Sys.Runs stop (stopCalls content n) (.ok ()) := by
  have hpaths : Sys.Runs newPaths [⟨.newPaths, .ok ()⟩] (.ok ()) := by
    rw [newPaths]
    exact .call _ (.done ())
  have hkill (signal r : Int32) : Sys.Runs (kill n.toInt32 signal) [⟨.kill n.toInt32 signal, r⟩] (.ok r) :=
    runs_call (Call.kill n.toInt32 signal) r
  have hprobe (r : Int32) : Sys.Runs (isProcessRunning n) [⟨.kill n.toInt32 0, r⟩] (.ok (r == 0)) :=
    (hkill 0 r).bind (.done _)
  have hsleep : Sys.Runs (sleep 100) [⟨.sleep 100, ()⟩] (.ok ()) := runs_call (Call.sleep 100) ()
  have hwait : Sys.Runs (awaitShutdown n 30) [⟨.sleep 100, ()⟩, ⟨.kill n.toInt32 0, -1⟩] (.ok ()) :=
    hsleep.bind ((hprobe (-1)).bind (.done ()))
  have hthere : Sys.Runs pidExists [⟨.pidExists, true⟩] (.ok true) := runs_call Call.pidExists true
  have hremove : Sys.Runs removePidFile [⟨.removePidFile, ()⟩] (.ok ()) :=
    runs_call Call.removePidFile ()
  refine hpaths.bind ((runs_readPid h).bind ((hprobe 0).bind ?_))
  refine (hkill sigterm 0).bind (hwait.bind (hthere.bind (hremove.bind ?_)))
  exact runs_call (Call.println "auxlry core stopped") ()

/-- With 4321 in the file. -/
theorem aimed_stop : Aimed none (stopCalls "4321" 4321) := by
  have hparse : parsePid "4321" = some 4321 := by decide
  refine (aimed_iff .stop (runs_stop hparse)).2 ?_
  simp [ReadsPids, stopCalls, Call.reads, hparse, IsPid]

/-- **`core stop` with 4294967295 in the file** asks every process to terminate. -/
theorem stop_everyone : parsePid "4294967295" = some 4294967295 ∧
    Sys.Runs CoreAction.stop.run (stopCalls "4294967295" 4294967295) (.ok ()) ∧
    (⟨.kill (-1) sigterm, 0⟩ : Sigma Call.Answer) ∈ stopCalls "4294967295" 4294967295 ∧
    killTarget (-1) = .everyone ∧ ¬ Aimed none (stopCalls "4294967295" 4294967295) := by
  have hparse : parsePid "4294967295" = some 4294967295 := by decide
  refine ⟨hparse, runs_stop hparse, ?_, by decide, fun h => ?_⟩
  · exact .tail _ (.tail _ (.tail _ (.tail _ (.head _))))
  · -- the test already passes on `-1`
    obtain ⟨n, -, hpass⟩ := h.2.2.2.1 _ _ rfl
    exact absurd hpass.pos (by decide)

end CoreCmd

end Auxlry
