import Mathlib.Data.Sigma.Basic

/-!
# Programs and the calls they make

A program that asks the system for things is a tree: it is done, it fails, or it makes a
call and goes on with the answer. A run is what it calls and is answered on one way
through the tree, to its end; nothing is said about which answers the system gives.

A `Policy` watches a run from a state of its own, and says which calls are allowed next.

* `conforms_bind`: **a sequence of two programs** keeps to a policy if the first does, up
  to a state from which the second does.
* `Runs.follows`: the runs of a program that keeps to a policy follow it.
-/

namespace Sys

variable {Op : Type} {Ans : Op → Type} {α β σ : Type}

/-- A program that calls `op` for an answer of type `Ans op`. -/
inductive Prog (Ans : Op → Type) (α : Type)
  | done (a : α)
  | fail (e : String)
  | call (op : Op) (next : Ans op → Prog Ans α)

namespace Prog

/-- Go on with the result; an error ends the whole program. -/
def bind : Prog Ans α → (α → Prog Ans β) → Prog Ans β
  | .done a, f => f a
  | .fail e, _ => .fail e
  | .call op next, f => .call op fun a => (next a).bind f

instance : Monad (Prog Ans) where
  pure := .done
  bind := .bind

/-- The error of a result, or its value. -/
def ofExcept : Except String α → Prog Ans α
  | .ok a => .done a
  | .error e => .fail e

end Prog

/-- **A complete run** of a program: its calls with their answers, and its result. -/
inductive Runs : Prog Ans α → List (Sigma Ans) → Except String α → Prop
  | done (a : α) : Runs (.done a) [] (.ok a)
  | fail (e : String) : Runs (.fail e) [] (.error e)
  | call {op : Op} {next : Ans op → Prog Ans α} {es : List (Sigma Ans)} {r : Except String α} (a : Ans op)
      (h : Runs (next a) es r) : Runs (.call op next) (⟨op, a⟩ :: es) r

/-- A run of a sequence: one of the first program, and one of the second. -/
theorem Runs.bind {p : Prog Ans α} {f : α → Prog Ans β} {es es' : List (Sigma Ans)} {a : α}
    {r : Except String β} (hp : Runs p es (.ok a)) (hf : Runs (f a) es' r) : Runs (p >>= f) (es ++ es') r := by
  change Runs (p.bind f) (es ++ es') r
  generalize hresult : (Except.ok a : Except String α) = result at hp
  induction hp with
  | done b =>
    cases hresult
    exact hf
  | fail e => cases hresult
  | call b h ih => exact .call b (ih hresult)

/-- What a program may call, depending on what it was answered so far. -/
structure Policy (Ans : Op → Type) (σ : Type) where
  allows : σ → Op → Prop
  next : σ → (op : Op) → Ans op → σ
  /-- a program may end here -/
  ends : σ → Prop

namespace Policy

variable (M : Policy Ans σ)

/-- A list of calls keeps to the policy, and ends where a program may. -/
def Follows : σ → List (Sigma Ans) → Prop
  | s, [] => M.ends s
  | s, ⟨op, a⟩ :: es => M.allows s op ∧ Follows (M.next s op a) es

/-- A program keeps to the policy whatever it is answered, and returns `post`. -/
def Conforms : Prog Ans α → (α → σ → Prop) → σ → Prop
  | .done a, post, s => post a s
  | .fail _, _, s => M.ends s
  | .call op next, post, s => M.allows s op ∧ ∀ a, Conforms (next a) post (M.next s op a)

variable {M}

/-- **A sequence of two programs.** -/
theorem conforms_bind (p : Prog Ans α) (f : α → Prog Ans β) (post : β → σ → Prop) (s : σ) :
    M.Conforms (p >>= f) post s ↔ M.Conforms p (fun a t => M.Conforms (f a) post t) s := by
  change M.Conforms (p.bind f) post s ↔ _
  induction p generalizing s with
  | done a => exact Iff.rfl
  | fail e => exact Iff.rfl
  | call op next ih =>
    simp only [Prog.bind, Conforms]
    exact and_congr_right fun _ => forall_congr' fun a => ih a _

theorem Conforms.mono {p : Prog Ans α} {post post' : α → σ → Prop} {s : σ}
    (hp : M.Conforms p post s) (h : ∀ a t, post a t → post' a t) : M.Conforms p post' s := by
  induction p generalizing s with
  | done a => exact h a s hp
  | fail e => exact hp
  | call op next ih => exact ⟨hp.1, fun a => ih a (hp.2 a)⟩

/-- **The runs of a program** that keeps to a policy follow it. -/
theorem Conforms.follows {p : Prog Ans α} {s : σ} {es : List (Sigma Ans)} {r : Except String α}
    (hp : M.Conforms p (fun _ t => M.ends t) s) (hr : Runs p es r) : M.Follows s es := by
  induction hr generalizing s with
  | done a => exact hp
  | fail e => exact hp
  | call a h ih => exact ⟨hp.1, ih (hp.2 a)⟩

end Policy

end Sys
