import Auxlry.Spec.MemoryCalls
import Auxlry.Sys.Run

/-!
# Calls in sub-steps

* `run_alone`: a call that runs **without others in between** leaves the stores and returns
  the reply that `perform` gives for it.
* `step_move`: what a step of calls that run side by side does.
-/

namespace Auxlry

variable {V : Type}

/-- What comes of a sub-step in an environment. -/
def Env.result (e : Env V) (p : SubStep) : Except String Unit :=
  match e.fault with
  | some (q, text) => if q = p then .error text else .ok ()
  | none => .ok ()

/-- The sub-steps that are left of an operation, one after the other. -/
def MemoryOp.exec (e : Env V) (op : MemoryOp) : Stores V → List SubStep → Stores V × Reply
  | s, [] => (s, op.success)
  | s, p :: rest =>
    match e.result p with
    | .ok () => op.exec e (s.write e op p) rest
    | .error text =>
      if op.drops p then op.exec e s rest else (s, op.failure ((op.context p).getD text))

/-- The sub-steps of an operation are those of `perform`. -/
theorem exec_program (s : Stores V) (e : Env V) (op : MemoryOp) :
    op.exec e s op.program = ((perform s e op).stores, (perform s e op).reply) := by
  obtain ⟨now, vector, fault⟩ := e
  cases fault with
  | none => cases op <;> rfl
  | some f =>
    obtain ⟨q, text⟩ := f
    cases op <;> cases q <;> rfl

namespace MemoryCalls

/-! ## A call alone -/

/-- The steps of the call `k`, with what comes of each. -/
def script (e : Env V) (op : MemoryOp) (k : ℕ) : List SubStep → List (Action V)
  | [] => []
  | p :: rest =>
    .sub k (e.result p) ::
      match e.result p with
      | .ok () => script e op k rest
      | .error _ => if op.drops p then script e op k rest else []

/-- The environment of a call that has started. -/
def Given (e : Env V) : Env V := ⟨e.now, e.vector, none⟩

theorem write_given (s : Stores V) (e : Env V) (op : MemoryOp) (p : SubStep) :
    s.write (Given e) op p = s.write e op p := by
  cases p <;> cases op <;> rfl

variable {m m' : MemoryCalls V} {e : Env V} {k : ℕ}

theorem proceed_running (s : Stores V) (op : MemoryOp) (c : CallState V) (rest : List SubStep) :
    ((⟨s, m.edgeSeq, Function.update m.call k c⟩ : MemoryCalls V).proceed k (.operation op) (Given e)
        (rest.map .sub)) =
      ⟨s, m.edgeSeq, Function.update m.call k
        (if rest = [] then .returned (.operation op) (.reply op.success)
          else .running (.operation op) (Given e) (rest.map .sub))⟩ := by
  cases rest <;> simp [proceed, setCall, MemoryCall.success]

theorem run_script (op : MemoryOp) (left : List SubStep) : ∀ s : Stores V,
    Sys.run step (⟨s, m.edgeSeq, Function.update m.call k
        (if left = [] then .returned (.operation op) (.reply op.success)
          else .running (.operation op) (Given e) (left.map .sub))⟩ : MemoryCalls V) (script e op k left) =
      some ⟨(op.exec e s left).1, m.edgeSeq,
        Function.update m.call k (.returned (.operation op) (.reply (op.exec e s left).2))⟩ := by
  induction left with
  | nil => intro s; rfl
  | cons p rest ih =>
    intro s
    rw [if_neg (List.cons_ne_nil p rest), script, MemoryOp.exec]
    cases hresult : e.result p with
    | ok u =>
      have hstep : step (⟨s, m.edgeSeq, Function.update m.call k
          (.running (.operation op) (Given e) ((p :: rest).map .sub))⟩ : MemoryCalls V) (.sub k (.ok u)) =
          some (proceed ⟨s.write e op p, m.edgeSeq, Function.update m.call k
            (.running (.operation op) (Given e) ((p :: rest).map .sub))⟩ k (.operation op) (Given e)
            (rest.map .sub)) := by
        simp [step, write, write_given]
      rw [Sys.run_cons_some hstep, proceed_running]
      exact ih (s.write e op p)
    | error text =>
      simp only
      split
      · rename_i hdrops
        have hstep : step (⟨s, m.edgeSeq, Function.update m.call k
            (.running (.operation op) (Given e) ((p :: rest).map .sub))⟩ : MemoryCalls V) (.sub k (.error text)) =
            some (proceed ⟨s, m.edgeSeq, Function.update m.call k
              (.running (.operation op) (Given e) ((p :: rest).map .sub))⟩ k (.operation op) (Given e)
              (rest.map .sub)) := by
          simp [step, MemoryCall.drops, hdrops]
        rw [Sys.run_cons_some hstep, proceed_running]
        exact ih s
      · rename_i hdrops
        simp [Sys.run, step, MemoryCall.drops, hdrops, setCall, MemoryCall.failure, MemoryCall.context]

/-- **A call alone is `perform`.** -/
theorem run_alone (op : MemoryOp) (h : m.call k = .absent) :
    Sys.run step m (.start k (.operation op) e.now e.vector :: script e op k op.program) =
      some ⟨(perform m.stores e op).stores, m.edgeSeq,
        Function.update m.call k (.returned (.operation op) (.reply (perform m.stores e op).reply))⟩ := by
  have hne : op.program ≠ [] := by cases op <;> simp [MemoryOp.program]
  have hstart : step m (.start k (.operation op) e.now e.vector) =
      some ⟨m.stores, m.edgeSeq, Function.update m.call k
        (.running (.operation op) (Given e) (op.program.map .sub))⟩ := by
    simp only [step, h, MemoryCall.start]
    rfl
  have hrun := run_script (m := m) (e := e) (k := k) op op.program m.stores
  rw [if_neg hne, exec_program] at hrun
  rw [Sys.run_cons_some hstart]
  exact hrun

/-! ## Calls side by side -/

/-- What a step does. -/
inductive Move (m : MemoryCalls V) : Action V → MemoryCalls V → Prop
  | start {k : ℕ} {call : MemoryCall} {now : String} {vector : V} {left : List CallStep}
      (absent : m.call k = .absent) (starts : call.start = .ok left) :
      Move m (.start k call now vector) (m.setCall k (.running call ⟨now, vector, none⟩ left))
  | refused {k : ℕ} {call : MemoryCall} {now : String} {vector : V} {reply : CallReply}
      (absent : m.call k = .absent) (refused : call.start = .error reply) :
      Move m (.start k call now vector) (m.setCall k (.returned call reply))
  | done {k : ℕ} {call : MemoryCall} {e : Env V} {p : CallStep} {rest : List CallStep}
      (running : m.call k = .running call e (p :: rest)) :
      Move m (.sub k (.ok ())) ((m.write call e p).proceed k call e rest)
  | dropped {k : ℕ} {call : MemoryCall} {e : Env V} {p : CallStep} {rest : List CallStep} {text : String}
      (running : m.call k = .running call e (p :: rest)) (drops : call.drops p = true) :
      Move m (.sub k (.error text)) (m.proceed k call e rest)
  | failed {k : ℕ} {call : MemoryCall} {e : Env V} {p : CallStep} {rest : List CallStep} {text : String}
      (running : m.call k = .running call e (p :: rest)) :
      Move m (.sub k (.error text)) (m.setCall k (.returned call (call.failure ((call.context p).getD text))))

/-- **What a step does.** -/
theorem step_move {a : Action V} (h : m.step a = some m') : Move m a m' := by
  cases a with
  | start k call now vector =>
    simp only [step] at h
    split at h
    · rename_i habsent
      split at h <;> cases h
      · rename_i hstart
        exact .start habsent hstart
      · rename_i hstart
        exact .refused habsent hstart
    · cases h
  | sub k result =>
    simp only [step] at h
    split at h
    · rename_i hrunning
      split at h
      · cases h
        exact .done hrunning
      · split at h <;> cases h
        · rename_i hdrops
          exact .dropped hrunning hdrops
        · exact .failed hrunning
    · cases h

@[simp] theorem stores_proceed (call : MemoryCall) (left : List CallStep) :
    (m.proceed k call e left).stores = m.stores := by
  cases left <;> rfl

@[simp] theorem call_write (call : MemoryCall) (p : CallStep) : (m.write call e p).call = m.call := by
  cases p <;> cases call <;> rfl

@[simp] theorem stores_setCall (c : CallState V) : (m.setCall k c).stores = m.stores := rfl

end MemoryCalls

end Auxlry
