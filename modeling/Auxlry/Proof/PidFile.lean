import Auxlry.Spec.CoreCmd
import Auxlry.Sys.Run

/-!
# The PID file and the daemon

The PID file should name the daemon that is up, so that `stop` returns `Ok` only when
none is and `start` refuses while one is. `Sound` says so; the part about `stop` and
`start` follows from the part about the file, in a run that keeps to the condition.

The file is written by each daemon before it has the port, and removed by commands that
have looked at an earlier content of it.

* `sound_iff`: **the exact condition** on the steps of a run.
* `second_start_overwrites`: two starts at the same time, of which one fails to bind.
* `stop_gives_up`: a daemon that takes longer to shut down than `stop` waits.
-/

namespace Auxlry

namespace CoreMachine

/-- No daemon is up. -/
def NoneUp (s : CoreMachine) : Prop := ∀ pid, (s.procs pid).up = false

/-- The PID file names the daemon that is up. -/
def Named (s : CoreMachine) : Prop := ∀ pid, (s.procs pid).up = true → s.corePid = some pid

/-- The PID file names the daemon that is up, `stop` has returned `Ok` only when none was,
and no start has found nothing running that read and tested while one was. -/
structure Sound (s : CoreMachine) : Prop where
  named : s.Named
  stops : ∀ procs ∈ s.stops, ∀ pid, (procs pid).up = false
  passes : ∀ p ∈ s.passes, ∀ pid, ¬ ((p.1 pid).up = true ∧ (p.2 pid).up = true)

/-- A daemon writes its pid, and a command removes the file, while no daemon is up; and a
daemon that binds its port is the one in the file. -/
def KeepsPid (s : CoreMachine) : Action → Prop
  | .run pid ok =>
    match s.procs pid with
    | .starting => ok = true → s.NoneUp
    | .binding => ok = true → s.corePid = some pid
    | .startStale _ | .stopRemove _ | .stale => s.NoneUp
    | _ => True
  | _ => True

/-- A start is about to test the daemon that was up when it read the file. -/
def Tests (s : CoreMachine) : Prop :=
  ∀ pid foreground x, s.procs pid = .startCheck foreground x → ∀ q, (s.seen pid q).up = true → q = x

variable {s s' : CoreMachine} {a : Action} {pid : ℕ}

/-! ## One process at a time -/

theorem become_self (s : CoreMachine) (pid : ℕ) (p : Proc) : (s.become pid p).procs pid = p :=
  Function.update_self ..

theorem become_ne (s : CoreMachine) {pid q : ℕ} (h : q ≠ pid) (p : Proc) :
    (s.become pid p).procs q = s.procs q := Function.update_of_ne h ..

theorem up_become (s : CoreMachine) (pid : ℕ) (p : Proc) (q : ℕ) :
    ((s.become pid p).procs q).up = if q = pid then p.up else (s.procs q).up := by
  rcases eq_or_ne q pid with rfl | hne
  · rw [become_self, if_pos rfl]
  · rw [become_ne s hne, if_neg hne]

/-- A process that was not up and is not. -/
theorem up_become_same {p : Proc} (hp : p.up = false) (hold : (s.procs pid).up = false) (q : ℕ) :
    ((s.become pid p).procs q).up = (s.procs q).up := by
  rw [up_become]
  split
  · rename_i h
    rw [h, hold, hp]
  · rfl

/-- A process that does not come up. -/
theorem up_of_become {p : Proc} (hp : p.up = false ∨ (s.procs pid).up = true) {q : ℕ}
    (h : ((s.become pid p).procs q).up = true) : (s.procs q).up = true := by
  rw [up_become] at h
  split at h
  · rename_i he
    rw [he]
    exact hp.resolve_left fun hf => by rw [hf] at h; cases h
  · exact h

/-- Whoever is about to test a process was so before, or has just read the file. -/
def Reads (s s' : CoreMachine) : Prop :=
  ∀ q foreground x, s'.procs q = .startCheck foreground x →
    s.procs q = .startCheck foreground x ∧ s'.seen q = s.seen q ∨ s.corePid = some x ∧ s'.seen q = s.procs

/-- A process that does not go on to test another. -/
theorem Reads.become {s₀ : CoreMachine} (hold : s.Reads s₀) {p : Proc}
    (hp : ∀ foreground x, p ≠ .startCheck foreground x) : s.Reads (s₀.become pid p) := by
  intro q foreground x hq
  rcases eq_or_ne q pid with rfl | hne
  · rw [become_self] at hq
    exact absurd hq (hp foreground x)
  · rw [become_ne s₀ hne] at hq
    exact hold q foreground x hq

/-- The process in the file is tested next. -/
theorem Reads.check {foreground : Bool} {x : ℕ} (hfile : s.corePid = some x) :
    s.Reads ({ s with seen := Function.update s.seen pid s.procs }.become pid (.startCheck foreground x)) := by
  intro q foreground' y hq
  rcases eq_or_ne q pid with rfl | hne
  · rw [become_self] at hq
    cases hq
    exact .inr ⟨hfile, Function.update_self ..⟩
  · rw [become_ne _ hne] at hq
    exact .inl ⟨hq, Function.update_of_ne hne ..⟩

theorem Reads.same {s₀ : CoreMachine} (hprocs : s₀.procs = s.procs) (hseen : s₀.seen = s.seen) : s.Reads s₀ :=
  fun q _ _ hq => .inl ⟨hprocs ▸ hq, congrFun hseen q⟩

/-- Where daemons are in the file, a start that reads it tests the one that is up. -/
theorem Tests.reads (hJ : s.Tests) (hP : s.Named) (h : s.Reads s') : s'.Tests := by
  intro q foreground x hq r hr
  rcases h q foreground x hq with ⟨hold, hseen⟩ | ⟨hfile, hseen⟩
  · exact hJ q foreground x hold r (hseen ▸ hr)
  · exact Option.some.inj ((hP r (hseen ▸ hr)).symm.trans hfile)

/-- What `SIGTERM` does: nothing, or one process goes on or ends. -/
theorem terminate_cases (s : CoreMachine) (x : ℕ) : s.terminate x = s ∨ ∃ p, s.terminate x = s.become x p ∧
    (p.up = false ∨ (s.procs x).up = true) ∧ ∀ foreground y, p ≠ .startCheck foreground y := by
  unfold terminate
  split
  · exact .inl rfl
  · exact .inl rfl
  · exact .inl rfl
  · exact .inl rfl
  · rename_i hp
    exact .inr ⟨_, rfl, .inr (by rw [hp]; rfl), by simp⟩
  · exact .inr ⟨_, rfl, .inl rfl, by simp⟩

/-! ## What a step does to the file -/

/-- What a step does to the PID file and to the daemons that are up. -/
inductive Change (s : CoreMachine) (a : Action) (s' : CoreMachine) : Prop
  /-- no daemon comes up, and nothing is found or stopped -/
  | quiet (guard : s.KeepsPid a) (corePid : s'.corePid = s.corePid)
      (up : ∀ q, (s'.procs q).up = true → (s.procs q).up = true) (stops : s'.stops = s.stops)
      (passes : s'.passes = s.passes)
  /-- a start finds no file -/
  | noFile (guard : s.KeepsPid a) (none : s.corePid = none) (corePid : s'.corePid = s.corePid)
      (up : ∀ q, (s'.procs q).up = true → (s.procs q).up = true) (stops : s'.stops = s.stops)
      (passes : s'.passes = (s.procs, s.procs) :: s.passes)
  /-- a start finds the process in the file gone -/
  | notRunning {pid x : ℕ} {foreground : Bool} (guard : s.KeepsPid a)
      (proc : s.procs pid = .startCheck foreground x) (gone : s.procs x = .gone) (corePid : s'.corePid = s.corePid)
      (up : ∀ q, (s'.procs q).up = true → (s.procs q).up = true) (stops : s'.stops = s.stops)
      (passes : s'.passes = (s.seen pid, s.procs) :: s.passes)
  /-- a daemon writes its pid -/
  | write {pid : ℕ} (guard : s.KeepsPid a ↔ s.NoneUp) (down : (s.procs pid).up = false)
      (corePid : s'.corePid = some pid) (up : ∀ q, (s'.procs q).up = (s.procs q).up) (stops : s'.stops = s.stops)
      (passes : s'.passes = s.passes)
  /-- a daemon comes up -/
  | bind {pid : ℕ} (guard : s.KeepsPid a ↔ s.corePid = some pid) (corePid : s'.corePid = s.corePid)
      (up : ∀ q, (s'.procs q).up = true ↔ q = pid ∨ (s.procs q).up = true) (stops : s'.stops = s.stops)
      (passes : s'.passes = s.passes)
  /-- a command removes the file -/
  | remove (guard : s.KeepsPid a ↔ s.NoneUp) (corePid : s'.corePid = none)
      (up : ∀ q, (s'.procs q).up = (s.procs q).up) (stops : s'.stops = s.stops ∨ s'.stops = s.procs :: s.stops)
      (passes : s'.passes = s.passes)
  /-- a daemon removes the file, and is no longer up -/
  | clean {pid : ℕ} (guard : s.KeepsPid a) (down : (s.procs pid).up = true) (corePid : s'.corePid = none)
      (up : ∀ q, (s'.procs q).up = true → q ≠ pid ∧ (s.procs q).up = true) (stops : s'.stops = s.stops)
      (passes : s'.passes = s.passes)

theorem Change.become (guard : s.KeepsPid a) {p : Proc} (hp : p.up = false ∨ (s.procs pid).up = true) :
    Change s a (s.become pid p) :=
  .quiet guard rfl (fun _ => up_of_become hp) rfl rfl

/-- A command removes the file. -/
theorem Change.removePid {p : Proc} (guard : s.KeepsPid a ↔ s.NoneUp) (hold : (s.procs pid).up = false)
    (hp : p.up = false) : Change s a (s.removePid.become pid p) :=
  .remove guard rfl (fun q => up_become_same (s := s.removePid) hp hold q) (.inl rfl) rfl

theorem up_launch (foreground : Bool) : (launch foreground).up = false := by cases foreground <;> rfl

theorem launch_ne (foreground foreground' : Bool) (x : ℕ) : launch foreground ≠ .startCheck foreground' x := by
  cases foreground <;> simp [launch]

/-- **What a step of a process does.** -/
theorem run_change {ok : Bool} (h : s.run pid ok = some s') : Change s (.run pid ok) s' ∧ s.Reads s' := by
  -- for most programs the condition says nothing
  have hfree : ∀ {p : Proc}, s.procs pid = p → (match (motive := Proc → Prop) p with
      | .starting => ok = true → s.NoneUp
      | .binding => ok = true → s.corePid = some pid
      | .startStale _ | .stopRemove _ | .stale => s.NoneUp
      | _ => True) → s.KeepsPid (.run pid ok) := by
    rintro p rfl h
    exact h
  have hsame : s.Reads s := .same rfl rfl
  unfold run at h
  cases hp : s.procs pid with
  | gone | other => rw [hp] at h; cases h
  | startRead foreground =>
    simp only [hp] at h
    split at h
    · split at h
      all_goals
        rename_i hfile
        cases h
      · have hreads : s.Reads { s with passes := (s.procs, s.procs) :: s.passes } := .same rfl rfl
        refine ⟨?_, hreads.become (launch_ne foreground)⟩
        exact .noFile (hfree hp trivial) hfile rfl (fun _ => up_of_become (.inl (up_launch foreground))) rfl rfl
      · exact ⟨.quiet (hfree hp trivial) rfl (fun _ => up_of_become (.inl rfl)) rfl rfl, .check hfile⟩
    · cases h
      exact ⟨.become (hfree hp trivial) (.inl rfl), hsame.become (by simp)⟩
  | startCheck foreground x =>
    simp only [hp] at h
    split at h
    · cases h
      exact ⟨.become (hfree hp trivial) (.inl rfl), hsame.become (by simp)⟩
    · rename_i hgone
      cases h
      have hreads : s.Reads { s with passes := (s.seen pid, s.procs) :: s.passes } := .same rfl rfl
      refine ⟨?_, hreads.become (by simp)⟩
      exact .notRunning (hfree hp trivial) hp (not_not.1 hgone) rfl (fun _ => up_of_become (.inl rfl)) rfl rfl
  | startStale foreground =>
    simp only [hp, Option.some.injEq] at h
    subst h
    have hreads : s.Reads s.removePid := .same rfl rfl
    exact ⟨.removePid (by rw [KeepsPid, hp]) (by rw [hp]; rfl) (up_launch foreground),
      hreads.become (launch_ne foreground)⟩
  | starting =>
    simp only [hp] at h
    split at h
    · rename_i hok
      cases h
      have hguard : s.KeepsPid (.run pid ok) ↔ s.NoneUp := by
        rw [KeepsPid, hp]
        exact ⟨fun hk => hk hok, fun hn _ => hn⟩
      have hdown : (s.procs pid).up = false := by rw [hp]; rfl
      have hreads : s.Reads { s with corePid := some pid } := .same rfl rfl
      refine ⟨?_, hreads.become (by simp)⟩
      exact .write hguard hdown rfl (fun q => up_become_same (s := { s with corePid := some pid }) rfl hdown q)
        rfl rfl
    · rename_i hok
      cases h
      exact ⟨.become (hfree hp fun h => absurd h hok) (.inl rfl), hsame.become (by simp)⟩
  | binding =>
    simp only [hp] at h
    split at h
    · rename_i hok
      split at h <;> cases h
      have hguard : s.KeepsPid (.run pid ok) ↔ s.corePid = some pid := by
        rw [KeepsPid, hp]
        exact ⟨fun hk => hk hok, fun hn _ => hn⟩
      have hreads : s.Reads (s.become pid .serving) := hsame.become (by simp)
      refine ⟨.bind hguard rfl (fun q => ?_) rfl rfl, hreads⟩
      change ((s.become pid .serving).procs q).up = true ↔ _
      rw [up_become]
      rcases eq_or_ne q pid with rfl | hne
      · simp [Proc.up]
      · simp [hne]
    · rename_i hok
      cases h
      exact ⟨.become (hfree hp fun h => absurd h hok) (.inl rfl), hsame.become (by simp)⟩
  | serving | startSpawn =>
    simp only [hp] at h
    split at h <;> cases h
    exact ⟨.become (hfree hp trivial) (.inl rfl), hsame.become (by simp)⟩
  | draining =>
    simp only [hp, Option.some.injEq] at h
    subst h
    refine ⟨.become (hfree hp trivial) (.inr (by rw [hp]; rfl)), hsame.become fun _ _ => ?_⟩
    split <;> simp
  | cleaning =>
    simp only [hp, Option.some.injEq] at h
    subst h
    have hreads : s.Reads s.removePid := .same rfl rfl
    refine ⟨.clean (hfree hp trivial) (by rw [hp]; rfl) rfl (fun q hq => ?_) rfl rfl, hreads.become (by simp)⟩
    rw [up_become] at hq
    split at hq
    · cases hq
    · rename_i hne
      exact ⟨hne, hq⟩
  | stopRead | restartRead | statusRead =>
    simp only [hp] at h
    split at h
    · split at h <;> cases h <;>
        exact ⟨.become (hfree hp trivial) (.inl rfl), hsame.become (by simp)⟩
    · cases h
      exact ⟨.become (hfree hp trivial) (.inl rfl), hsame.become (by simp)⟩
  | stopCheck | stopWait | restartCheck | statusCheck =>
    simp only [hp, Option.some.injEq] at h
    subst h
    refine ⟨.become (hfree hp trivial) (.inl ?_), hsame.become fun _ _ => ?_⟩
    · split <;> rfl
    · split <;> simp
  | stopSignal restart x =>
    simp only [hp] at h
    split at h <;> cases h
    · exact ⟨.become (hfree hp trivial) (.inl rfl), hsame.become (by simp)⟩
    · rcases terminate_cases s x with hx | ⟨p, hx, hup, hne⟩ <;> rw [hx]
      · exact ⟨.become (hfree hp trivial) (.inl rfl), hsame.become (by simp)⟩
      · exact ⟨.quiet (hfree hp trivial) rfl (fun q hq => up_of_become hup (up_of_become (.inl rfl) hq)) rfl rfl,
          (hsame.become hne).become (by simp)⟩
  | stopRemove restart =>
    simp only [hp, Option.some.injEq] at h
    subst h
    have hdown : (s.procs pid).up = false := by
      rw [hp]
      rfl
    have hreads : s.Reads { s.removePid with stops := s.procs :: s.stops } := .same rfl rfl
    refine ⟨.remove (by rw [KeepsPid, hp]) rfl (fun q => ?_) (.inr rfl) rfl, hreads.become fun _ _ => ?_⟩
    · refine up_become_same (s := { s.removePid with stops := s.procs :: s.stops }) ?_ hdown q
      split <;> rfl
    · split <;> simp
  | stale =>
    simp only [hp, Option.some.injEq] at h
    subst h
    have hreads : s.Reads s.removePid := .same rfl rfl
    exact ⟨.removePid (by rw [KeepsPid, hp]) (by rw [hp]; rfl) rfl, hreads.become (by simp)⟩
  | returned =>
    simp only [hp, Option.some.injEq] at h
    subst h
    exact ⟨.become (hfree hp trivial) (.inl rfl), hsame.become (by simp)⟩

/-- **What a step of the machine does.** -/
theorem step_change (h : s.step a = some s') : Change s a s' ∧ s.Reads s' := by
  have hsame : s.Reads s := .same rfl rfl
  cases a with
  | invoke pid cmd =>
    simp only [step] at h
    split at h <;> cases h
    refine ⟨.become (s := s) (show s.KeepsPid (.invoke pid cmd) from trivial) (.inl ?_),
      hsame.become fun _ _ => ?_⟩
    · cases cmd <;> rfl
    · cases cmd <;> simp [Command.proc]
  | run pid ok => exact run_change h
  | spawn pid child =>
    simp only [step] at h
    split at h <;> cases h
    exact ⟨.quiet trivial rfl (fun q hq => up_of_become (.inl rfl) (up_of_become (.inl rfl) hq)) rfl rfl,
      (hsame.become (by simp)).become (by simp)⟩
  | terminate pid =>
    obtain rfl := Option.some.inj h
    rcases terminate_cases s pid with hx | ⟨p, hx, hup, hne⟩ <;> rw [hx]
    · exact ⟨.quiet trivial rfl (fun _ hq => hq) rfl rfl, hsame⟩
    · exact ⟨.become (show s.KeepsPid (.terminate pid) from trivial) hup, hsame.become hne⟩
  | die pid =>
    obtain rfl := Option.some.inj h
    exact ⟨.become (show s.KeepsPid (.die pid) from trivial) (.inl rfl), hsame.become (by simp)⟩

/-! ## The exact condition -/

theorem Named.of_up (hP : s.Named) (hfile : s'.corePid = s.corePid)
    (up : ∀ q, (s'.procs q).up = true → (s.procs q).up = true) : s'.Named :=
  fun q hq => hfile.trans (hP q (up q hq))

/-- With no file there is no daemon. -/
theorem Named.noneUp (hP : s.Named) (h : s.corePid = none) : s.NoneUp := by
  intro q
  refine Bool.eq_false_iff.2 fun hq => ?_
  rw [hP q hq] at h
  cases h

theorem noneUp_of_none (hup : ∀ q, (s'.procs q).up = (s.procs q).up) (hP' : s'.Named)
    (h : s'.corePid = none) : s.NoneUp := fun q => hup q ▸ hP'.noneUp h q

/-- **One step** from a sound state leads to one exactly if it keeps to the condition. -/
theorem sound_step (hJ : s.Tests) (hP : s.Sound) (h : s.step a = some s') : s'.Sound ↔ s.KeepsPid a := by
  cases (step_change h).1 with
  | quiet guard corePid up stops passes =>
    exact iff_of_true ⟨hP.named.of_up corePid up, stops ▸ hP.stops, passes ▸ hP.passes⟩ guard
  | noFile guard none corePid up stops passes =>
    refine iff_of_true ⟨hP.named.of_up corePid up, stops ▸ hP.stops, fun p hp q hq => ?_⟩ guard
    rw [passes] at hp
    rcases List.mem_cons.1 hp with rfl | hp
    · rw [hP.named.noneUp none q] at hq
      cases hq.1
    · exact hP.passes p hp q hq
  | @notRunning pid x foreground guard proc gone corePid up stops passes =>
    refine iff_of_true ⟨hP.named.of_up corePid up, stops ▸ hP.stops, fun p hp q hq => ?_⟩ guard
    rw [passes] at hp
    rcases List.mem_cons.1 hp with rfl | hp
    · -- what was up at both times is the process that was tested
      obtain rfl := hJ pid foreground x proc q hq.1
      have hup := hq.2
      dsimp only at hup
      rw [gone] at hup
      cases hup
    · exact hP.passes p hp q hq
  | @write pid guard down corePid up stops passes =>
    rw [guard]
    constructor
    · intro hP' q
      refine Bool.eq_false_iff.2 fun hq => ?_
      have hfile := hP'.named q ((up q).trans hq)
      rw [corePid] at hfile
      cases hfile
      rw [down] at hq
      cases hq
    · intro hnone
      refine ⟨fun q hq => ?_, stops ▸ hP.stops, passes ▸ hP.passes⟩
      rw [up q, hnone q] at hq
      cases hq
  | @bind pid guard corePid up stops passes =>
    rw [guard]
    constructor
    · intro hP'
      exact corePid ▸ hP'.named pid ((up pid).2 (.inl rfl))
    · intro hfile
      refine ⟨fun q hq => ?_, stops ▸ hP.stops, passes ▸ hP.passes⟩
      rw [corePid]
      rcases (up q).1 hq with rfl | hq
      · exact hfile
      · exact hP.named q hq
  | remove guard corePid up stops passes =>
    rw [guard]
    constructor
    · intro hP'
      exact noneUp_of_none up hP'.named corePid
    · intro hnone
      refine ⟨fun q hq => ?_, fun procs hp => ?_, passes ▸ hP.passes⟩
      · rw [up q, hnone q] at hq
        cases hq
      · rcases stops with stops | stops
        · exact hP.stops procs (stops ▸ hp)
        · rw [stops] at hp
          rcases List.mem_cons.1 hp with rfl | hp
          · exact hnone
          · exact hP.stops procs hp
  | @clean pid guard down corePid up stops passes =>
    refine iff_of_true ⟨fun q hq => ?_, stops ▸ hP.stops, passes ▸ hP.passes⟩ guard
    obtain ⟨hne, hq⟩ := up q hq
    -- the file names one daemon only
    have hfile := (hP.named q hq).symm.trans (hP.named pid down)
    exact absurd (Option.some.inj hfile) hne

/-- **The exact condition** for the PID file to name the daemon that is up, and for `stop`
and `start` to go by it, through every interleaving. -/
theorem sound_iff (corePid : Option ℕ) (as : List Action) :
    (∀ t, Sys.Visits step (init corePid) as t → t.Sound) ↔
      ∀ t a, Sys.Takes step (init corePid) as t a → t.KeepsPid a := by
  refine Sys.visits_iff_takes (J := Tests) (fun t a t' hJ hP _ h => hJ.reads hP.named (step_change h).2)
    (fun t a t' hJ hP h => sound_step hJ hP h) as ?_ ?_
  · intro pid foreground x hp
    cases hp
  · refine ⟨fun pid hp => ?_, fun procs hp => ?_, fun p hp => ?_⟩ <;> cases hp

/-! ## Two starts, and a slow shutdown -/

/-- Two starts look for the file before either daemon has written it. -/
def twoStarts : List Action :=
  [.invoke 1 (.start true), .invoke 2 (.start true), .run 1 true, .run 2 true, .run 1 true, .run 1 true,
    .run 2 true, .run 2 false]

/-- **The second daemon cannot bind**, and leaves its own pid in the file. -/
theorem second_start_overwrites : ∃ s, Sys.run step (init none) twoStarts = some s ∧
    s.procs 1 = .serving ∧ s.procs 2 = .returned ∧ s.corePid = some 2 ∧ ¬ s.Sound := by
  have h : Sys.run step (init none) twoStarts = some _ := rfl
  refine ⟨_, h, rfl, rfl, rfl, fun hP => ?_⟩
  have hfile := hP.named 1 rfl
  cases hfile

/-- A daemon serves, and `stop` asks it to end and looks 30 times whether it has. -/
def slowShutdown : List Action :=
  [.invoke 1 (.start true), .run 1 true, .run 1 true, .run 1 true, .invoke 2 .stop, .run 2 true, .run 2 true,
    .run 2 true] ++ List.replicate 30 (.run 2 true) ++ [.run 2 true]

/-- **`stop` returns `Ok`** while the daemon is still serving its open connections. -/
theorem stop_gives_up : ∃ s, Sys.run step (init none) slowShutdown = some s ∧
    s.procs 1 = .draining ∧ s.procs 2 = .returned ∧ s.corePid = none ∧ ¬ s.Sound := by
  have h : Sys.run step (init none) slowShutdown = some _ := rfl
  refine ⟨_, h, rfl, rfl, rfl, fun hP => ?_⟩
  have hfile := hP.named 1 rfl
  cases hfile

end CoreMachine

end Auxlry
