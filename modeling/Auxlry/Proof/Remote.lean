import Auxlry.Spec.Remote
import Auxlry.Spec.Text
import Auxlry.Sys.Run

/-!
# A remote node answers like the node behind it

* `runProtocolLoop_eq`: the two dispatchers are the same function.
* `response_handleMessage`: what the calling side makes of the response to its own
  message, for every operation.
* `remote_iff_local`: over **any interleaving** of requests, each returns what the local
  node of the peer returned for it, or an error if that was one.
-/

namespace Auxlry

variable {debug : ProtocolMessage → String}

/-- The two dispatchers respond alike to every message. -/
theorem runProtocolLoop_eq (debug : ProtocolMessage → String) (node : Executor) (msg : ProtocolMessage) :
    runProtocolLoop debug node msg = handleMessage debug node msg := by
  cases msg <;> rfl

theorem dispatch_eq (d : Dispatcher) (node : Executor) (msg : ProtocolMessage) :
    d.dispatch debug node msg = handleMessage debug node msg := by
  cases d with
  | core => rfl
  | node => exact runProtocolLoop_eq debug node msg

namespace RemoteNode

/-- An error of the peer's local node, as the calling side reports it. -/
def remoteError : NodeCall → String → String
  | .writeFile .., e => "remote write error: " ++ e
  | _, e => "remote error: " ++ e

/-- What the calling side returns for what the peer's local node returned. -/
def relay (call : NodeCall) : Except String call.Result → Except String call.Result
  | .ok v => .ok v
  | .error e => .error (remoteError call e)

/-- **The three matches agree** on every operation. -/
theorem response_handleMessage (call : NodeCall) (node : Executor) :
    (request call).response (handleMessage debug node (request call).message) = relay call (node call) := by
  cases call with
  | runCommand command cwd =>
    simp only [request, runCommand, handleMessage]
    cases node (.runCommand command cwd) <;> rfl
  | readFile path =>
    simp only [request, readFile, handleMessage]
    cases node (.readFile path) <;> rfl
  | writeFile path content =>
    simp only [request, writeFile, handleMessage]
    cases node (.writeFile path content) <;> rfl
  | listDir path =>
    simp only [request, listDir, handleMessage]
    cases node (.listDir path) <;> rfl
  | searchFiles pattern root =>
    simp only [request, searchFiles, handleMessage]
    cases node (.searchFiles pattern root) <;> rfl

theorem remoteError_ne (call : NodeCall) (e : String) : remoteError call e ≠ "unexpected response" := by
  cases call with
  | writeFile => exact append_ne_of_stripPrefix (by decide) e
  | runCommand | readFile | listDir | searchFiles => exact append_ne_of_stripPrefix (by decide) e

end RemoteNode

open RemoteNode

/-- The calling side returns a value exactly when the local node has, and the same one; an
error exactly when it has; and it expects each response. -/
structure Faithful {call : NodeCall} (returned result : Except String call.Result) : Prop where
  ok : ∀ v, result = .ok v ↔ returned = .ok v
  error : (∃ e, result = .error e) ↔ ∃ e, returned = .error e
  expected : result ≠ .error "unexpected response"

theorem faithful_relay {call : NodeCall} (returned : Except String call.Result) :
    Faithful returned (relay call returned) := by
  cases returned with
  | ok v => exact ⟨fun _ => .rfl, .rfl, by simp [relay]⟩
  | error e =>
    refine ⟨fun v => iff_of_false (by simp [relay]) (by simp), iff_of_true ⟨_, rfl⟩ ⟨_, rfl⟩, fun h => ?_⟩
    exact remoteError_ne call e (Except.error.inj h)

namespace Streams

variable {d : Dispatcher} {s s' : Streams} {a : Action}

/-- What the calling side returns, or will return, for what the local node returned. -/
def Relays {call : NodeCall} : Exchange call → Prop
  | .sent => True
  | .answered returned response => (request call).response response = relay call returned
  | .done returned result => result = relay call returned

/-- Every exchange under way is relayed. -/
def AllRelay (s : Streams) : Prop :=
  ∀ stream call (x : Exchange call), s stream = some ⟨call, x⟩ → Relays x

theorem AllRelay.update (hJ : s.AllRelay) {stream : ℕ} {call : NodeCall} {x : Exchange call} (hx : Relays x) :
    AllRelay (Function.update s stream (some ⟨call, x⟩)) := by
  intro stream' call' y hy
  by_cases he : stream' = stream
  · subst he
    rw [Function.update_self] at hy
    cases hy
    exact hx
  · rw [Function.update_of_ne he] at hy
    exact hJ stream' call' y hy

theorem AllRelay.step (hJ : s.AllRelay) (h : s.step debug d a = some s') : s'.AllRelay := by
  cases a with
  | «open» stream call =>
    simp only [Streams.step] at h
    split at h <;> cases h
    exact hJ.update trivial
  | serve stream node =>
    simp only [Streams.step] at h
    split at h <;> cases h
    refine hJ.update ?_
    rw [Relays, dispatch_eq, response_handleMessage]
  | receive stream =>
    simp only [Streams.step] at h
    split at h <;> cases h
    rename_i call returned response hs
    have hrelays := hJ stream call _ hs
    exact hJ.update hrelays

/-- **A remote node is equivalent to the local node behind it**: the two dispatchers respond
alike to every message, and over any interleaving of any number of requests, with any
answers of the local node, each request that is done returned what it should. -/
theorem remote_iff_local (debug : ProtocolMessage → String) :
    (∀ node msg, handleMessage debug node msg = runProtocolLoop debug node msg) ∧
      ∀ d as s, Sys.Visits (step debug d) init as s →
        ∀ stream call returned result, s stream = some ⟨call, .done returned result⟩ →
          Faithful returned result := by
  refine ⟨fun node msg => (runProtocolLoop_eq debug node msg).symm, ?_⟩
  intro d as s hs stream call returned result hdone
  have hJ : s.AllRelay := hs.inv (fun _ _ _ hJ h => AllRelay.step hJ h) (by intro _ _ _ h; cases h)
  rw [hJ stream call _ hdone]
  exact faithful_relay returned

/-- A local node that cannot write. -/
def readOnly : Executor
  | .runCommand .. => .ok ⟨"out", "", 0⟩
  | .readFile path => .ok ⟨path, ""⟩
  | .writeFile .. => .error "disk full"
  | .listDir _ => .ok []
  | .searchFiles .. => .ok []

/-- A write and a listing, answered in the other order. -/
def twoRequests : List Action :=
  [.open 0 (.writeFile "p" "c"), .open 1 (.listDir "d"), .serve 1 readOnly, .serve 0 readOnly,
    .receive 0, .receive 1]

/-- The error of the write reaches the side that calls. -/
theorem remote_iff_local_twoRequests :
    ∃ s, Sys.run (step (fun _ => "") .node) init twoRequests = some s ∧
      s 0 = some ⟨.writeFile "p" "c",
        .done (.error "disk full") (.error ("remote write error: " ++ "disk full"))⟩ ∧
      @Faithful (.writeFile "p" "c") (.error "disk full")
        (.error ("remote write error: " ++ "disk full")) := by
  have hrun : Sys.run (step (fun _ => "") .node) init twoRequests = some _ := rfl
  refine ⟨_, hrun, rfl, ?_⟩
  exact (remote_iff_local fun _ => "").2 .node twoRequests _ ⟨_, List.prefix_rfl, hrun⟩ 0 _ _ _ rfl

end Streams

end Auxlry
