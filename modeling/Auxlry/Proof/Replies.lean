import Auxlry.Proof.Proxy
import Auxlry.Sys.Progress

/-!
# Every request is answered

On a connection that does not break, the peer serves one stream after another, and no stream
holds up the next for good. What a request returns depends on the sizes of its message and of
the response alone.

* `Proxy.Whole`: what holds along every run without breaks.
* `Proxy.every_request_answered`: **from every state** of such a run every request may return.
-/

namespace Auxlry

open RemoteNode (relay)

/-- The response to an operation, for what it returned. -/
def reply : (call : NodeCall) → Except String call.Result → ProtocolMessage
  | .runCommand .., .ok result => .runCommandResult result
  | .runCommand .., .error e => .error e
  | .readFile .., .ok content => .readFileResult content
  | .readFile .., .error e => .error e
  | .writeFile .., .ok () => .writeFileResult true none
  | .writeFile .., .error e => .writeFileResult false (some e)
  | .listDir .., .ok entries => .listDirResult entries
  | .listDir .., .error e => .error e
  | .searchFiles .., .ok paths => .searchFilesResult paths
  | .searchFiles .., .error e => .error e

theorem handleMessage_request (debug : ProtocolMessage → String) (node : Executor) (call : NodeCall) :
    handleMessage debug node (RemoteNode.request call).message = reply call (node call) := by
  cases call with
  | runCommand command cwd =>
    simp only [RemoteNode.request, RemoteNode.runCommand, handleMessage]
    cases node (.runCommand command cwd) <;> rfl
  | readFile path =>
    simp only [RemoteNode.request, RemoteNode.readFile, handleMessage]
    cases node (.readFile path) <;> rfl
  | writeFile path content =>
    simp only [RemoteNode.request, RemoteNode.writeFile, handleMessage]
    cases node (.writeFile path content) <;> rfl
  | listDir path =>
    simp only [RemoteNode.request, RemoteNode.listDir, handleMessage]
    cases node (.listDir path) <;> rfl
  | searchFiles pattern root =>
    simp only [RemoteNode.request, RemoteNode.searchFiles, handleMessage]
    cases node (.searchFiles pattern root) <;> rfl

/-- The calling side makes of it what it should. -/
theorem response_reply (call : NodeCall) (returned : Except String call.Result) :
    (RemoteNode.request call).response (reply call returned) = relay call returned := by
  have hresponse : (RemoteNode.request call).response (handleMessage (fun _ => "")
      (Function.update (fun _ => .error "") call returned) (RemoteNode.request call).message) = _ :=
    RemoteNode.response_handleMessage call _
  rw [handleMessage_request, Function.update_self] at hresponse
  exact hresponse

namespace Proxy

variable {codec : Bincode} {debug : ProtocolMessage → String} {d : Dispatcher} {s s' : Proxy} {t : Streams}
  {a : Action}

/-- Nothing breaks, and the connection stays. -/
def Unbroken : Action → Prop
  | .request _ room => room = none
  | .respond room => room = none
  | .breakRequest .. => False
  | .breakResponse .. => False
  | .close => False
  | _ => True

/-- What the network, the peer and the calling side do by themselves, with `node` to answer. -/
def Own (node : Executor) : Action → Prop
  | .handle node' => node' = node
  | .respond room => room = none
  | .arriveRequest .. => True
  | .arriveResponse .. => True
  | .accept => True
  | .recv => True
  | .receive _ => True
  | _ => False

theorem unbroken_of_own {node : Executor} (h : Own node a) : Unbroken a := by
  cases a with
  | respond room => exact h
  | request | breakRequest | breakResponse | close | exit => exact h.elim
  | _ => trivial

/-! ## What holds without breaks -/

/-- The stream that the peer is at. -/
def current : ServePhase → Option ℕ
  | .reading i => some i
  | .handling i _ => some i
  | .responding i _ => some i
  | .accepting => none
  | .exited => none

/-- The peer is done with a stream. -/
def Served (s : Proxy) (i : ℕ) : Prop := i < s.accepted ∧ current s.phase ≠ some i

/-- What a request returns: by the sizes of its message and of the response. -/
def Outcome (codec : Bincode) (log : List Executed) (i : ℕ) (call : NodeCall)
    (res : Except String call.Result) : Prop :=
  (Carried codec (RemoteNode.request call).message → ∃ returned, ⟨i, call, returned⟩ ∈ log ∧
    (Carried codec (reply call returned) → res = relay call returned) ∧
    (¬ Carried codec (reply call returned) → Failed res)) ∧
  (¬ Carried codec (RemoteNode.request call).message → Failed res)

/-- Where a request stands. -/
structure Stands (codec : Bincode) (log : List Executed) (i : ℕ) (served : Prop) (c : Proxied) : Prop where
  written : c.request.written = frameOf codec (RemoteNode.request c.call).message
  finished : c.request.finished = true
  uncut : c.request.cut = false ∧ c.response.cut = false
  unserved : ¬ served → c.response.written = [] ∧ c.response.finished = false
  served : served → c.response.finished = true ∧
    (Carried codec (RemoteNode.request c.call).message →
      ∃ returned, ⟨i, c.call, returned⟩ ∈ log ∧ c.response.written = frameOf codec (reply c.call returned)) ∧
    (¬ Carried codec (RemoteNode.request c.call).message → c.response.written = [])
  result : ∀ res ∈ c.result, Outcome codec log i c.call res

structure Whole (codec : Bincode) (s : Proxy) : Prop where
  opened : s.closed = false
  running : s.phase ≠ .exited
  stands : ∀ (i : ℕ) (c : Proxied), s.requests[i]? = some c → Stands codec s.executed i (s.Served i) c
  executed : ∀ x ∈ s.executed, Carried codec (RemoteNode.request x.call).message
  handling : ∀ i msg, s.phase = .handling i msg → Carried codec msg
  responding : ∀ i response, s.phase = .responding i response →
    ∃ call returned, ⟨i, call, returned⟩ ∈ s.executed ∧ response = reply call returned

theorem Outcome.append {log : List Executed} {i : ℕ} {call : NodeCall} {res : Except String call.Result}
    (h : Outcome codec log i call res) (more : List Executed) : Outcome codec (log ++ more) i call res := by
  refine ⟨fun hcarried => ?_, h.2⟩
  obtain ⟨returned, hlog, hres⟩ := h.1 hcarried
  exact ⟨returned, List.mem_append_left _ hlog, hres⟩

theorem Stands.append {log : List Executed} {i : ℕ} {served : Prop} {c : Proxied} (h : Stands codec log i served c)
    (more : List Executed) : Stands codec (log ++ more) i served c where
  written := h.written
  finished := h.finished
  uncut := h.uncut
  unserved := h.unserved
  served hserved := by
    obtain ⟨hfinished, hcarried, hnot⟩ := h.served hserved
    refine ⟨hfinished, fun hc => ?_, hnot⟩
    obtain ⟨returned, hlog, hwritten⟩ := hcarried hc
    exact ⟨returned, List.mem_append_left _ hlog, hwritten⟩
  result res hres := (h.result res hres).append more

theorem Stands.congr {log : List Executed} {i : ℕ} {served served' : Prop} {c : Proxied}
    (h : Stands codec log i served c) (hiff : served ↔ served') : Stands codec log i served' c := propext hiff ▸ h

/-- Bytes arrive. -/
theorem Stands.arrive {log : List Executed} {i : ℕ} {served : Prop} {c : Proxied} (h : Stands codec log i served c)
    {request response : Pipe}
    (hrequest : request.written = c.request.written ∧ request.finished = c.request.finished ∧
      request.cut = c.request.cut)
    (hresponse : response.written = c.response.written ∧ response.finished = c.response.finished ∧
      response.cut = c.response.cut) :
    Stands codec log i served { c with request := request, response := response } where
  written := hrequest.1.trans h.written
  finished := hrequest.2.1.trans h.finished
  uncut := ⟨hrequest.2.2.trans h.uncut.1, hresponse.2.2.trans h.uncut.2⟩
  unserved hserved := by
    obtain ⟨hwritten, hfinished⟩ := h.unserved hserved
    exact ⟨hresponse.1.trans hwritten, hresponse.2.1.trans hfinished⟩
  served hserved := by
    obtain ⟨hfinished, hcarried, hnot⟩ := h.served hserved
    refine ⟨hresponse.2.1.trans hfinished, fun hc => ?_, fun hc => hresponse.1.trans (hnot hc)⟩
    obtain ⟨returned, hlog, hwritten⟩ := hcarried hc
    exact ⟨returned, hlog, hresponse.1.trans hwritten⟩
  result := h.result

theorem arrive_same (p : Pipe) (n : ℕ) :
    (p.arrive n).written = p.written ∧ (p.arrive n).finished = p.finished ∧ (p.arrive n).cut = p.cut := by
  unfold Pipe.arrive
  split <;> exact ⟨rfl, rfl, rfl⟩

/-! ## Steps -/

/-- What stands after one request was changed. -/
theorem Whole.stands_modify (hW : s.Whole codec) {i : ℕ} {f : Proxied → Proxied} (served : ℕ → Prop)
    (hi : ∀ c, s.requests[i]? = some c → Stands codec s.executed i (s.Served i) c →
      Stands codec s.executed i (served i) (f c))
    (hothers : ∀ j, j ≠ i → (s.Served j ↔ served j)) (j : ℕ) (c' : Proxied)
    (hc' : (s.modify i f).requests[j]? = some c') : Stands codec s.executed j (served j) c' := by
  obtain ⟨c, hc, ⟨rfl, rfl⟩ | ⟨hij, rfl⟩⟩ := getElem?_modify hc'
  · exact hi c hc (hW.stands i c hc)
  · exact (hW.stands j c' hc).congr (hothers j (Ne.symm hij))

theorem Whole.arrive (hW : s.Whole codec) (i : ℕ) {f : Proxied → Proxied}
    (hf : ∀ c, ∃ request response, f c = { c with request := request, response := response } ∧
      (request.written = c.request.written ∧ request.finished = c.request.finished ∧
        request.cut = c.request.cut) ∧
      response.written = c.response.written ∧ response.finished = c.response.finished ∧
        response.cut = c.response.cut) : (s.modify i f).Whole codec where
  opened := hW.opened
  running := hW.running
  stands := hW.stands_modify s.Served (fun c _ hstands => by
    obtain ⟨request, response, hfc, hrequest, hresponse⟩ := hf c
    rw [hfc]
    exact hstands.arrive hrequest hresponse) fun _ _ => .rfl
  executed := hW.executed
  handling := hW.handling
  responding := hW.responding

/-- A request that could not be sent has failed; any other is on its way. -/
theorem stands_start (log : List Executed) (i : ℕ) (call : NodeCall) :
    Stands codec log i False (.start codec call none) := by
  cases hbody : codec.encode (RemoteNode.request call).message with
  | none =>
    have hsend : sendMessage codec ⟨[], none⟩ (RemoteNode.request call).message =
        (.error "failed to encode message", ⟨[], none⟩) := by simp only [sendMessage, hbody]
    have hnot : ¬ Carried codec (RemoteNode.request call).message := by
      rintro ⟨body, hcarried, -⟩
      rw [hbody] at hcarried
      cases hcarried
    refine ⟨?_, rfl, ⟨rfl, rfl⟩, fun _ => ⟨rfl, rfl⟩, False.elim, fun res hres => ?_⟩
    · simp only [Proxied.start, hsend, Pipe.finish, Pipe.empty, frameOf, hbody]; rfl
    · simp only [Proxied.start, hsend] at hres
      cases hres
      exact ⟨fun hcarried => absurd hcarried hnot, fun _ => ⟨_, rfl, .inl (by decide)⟩⟩
  | some body =>
    have hsend : sendMessage codec ⟨[], none⟩ (RemoteNode.request call).message = (.ok (), ⟨frame body, none⟩) :=
      sendMessage_unbroken rfl hbody
    refine ⟨?_, rfl, ⟨rfl, rfl⟩, fun _ => ⟨rfl, rfl⟩, False.elim, fun res hres => ?_⟩
    · simp only [Proxied.start, hsend, Pipe.finish, Pipe.empty, frameOf, hbody]; rfl
    · simp only [Proxied.start, hsend] at hres
      cases hres

theorem Whole.request_step (hW : s.Whole codec) (hR : s.Refines codec t) (call : NodeCall) :
    Whole codec { s with requests := s.requests ++ [.start codec call none] } where
  opened := hW.opened
  running := hW.running
  stands i c hc := by
    rcases Nat.lt_or_ge i s.requests.length with hlt | hge
    · rw [List.getElem?_append_left hlt] at hc
      exact hW.stands i c hc
    · rw [List.getElem?_append_right hge] at hc
      have hi : i - s.requests.length = 0 := by
        have hlt := (List.getElem?_eq_some_iff.1 hc).1
        rw [List.length_singleton] at hlt
        omega
      rw [hi] at hc
      cases hc
      have haccepted := hR.accepted
      exact (stands_start s.executed i call).congr (iff_of_false id fun h => by
        have hlt : i < s.accepted := h.1
        omega)
  executed := hW.executed
  handling := hW.handling
  responding := hW.responding

theorem Whole.accept (hW : s.Whole codec) (hphase : s.phase = .accepting) :
    Whole codec { s with phase := .reading s.accepted, accepted := s.accepted + 1 } where
  opened := hW.opened
  running := by intro h; cases h
  stands i c hc := by
    refine (hW.stands i c hc).congr ?_
    unfold Served
    rw [hphase]
    simp only [current, ne_eq, Option.some.injEq, reduceCtorEq, not_false_eq_true, and_true]
    omega
  executed := hW.executed
  handling i msg h := by cases h
  responding i response h := by cases h

/-- The message that the peer reads, or not. -/
theorem Whole.recv_cases (hparts : codec.RefusesParts) (hW : s.Whole codec) {i : ℕ} {c : Proxied}
    {received : Except String ProtocolMessage}
    (hc : s.requests[i]? = some c) (hrecv : c.request.recv codec = some received) :
    (∀ msg, received = .ok msg → Carried codec msg) ∧
      ∀ e, received = .error e → ¬ Carried codec (RemoteNode.request c.call).message := by
  have hstands := hW.stands i c hc
  have hall := Pipe.recv_whole hstands.written hstands.uncut.1 hrecv
  refine ⟨?_, ?_⟩
  · rintro msg rfl
    rcases recvMessage_part hparts (m := (RemoteNode.request c.call).message) List.prefix_rfl with hok | hfailed
    · rw [← hall] at hok
      cases hok
      exact (recvMessage_whole hparts _).1 hall.symm
    · rw [← hall] at hfailed
      exact absurd hfailed not_failed_ok
  · rintro e rfl hcarried
    rw [(recvMessage_whole hparts _).2 hcarried] at hall
    cases hall

theorem Whole.recv_ok (hparts : codec.RefusesParts) (hW : s.Whole codec) {i : ℕ} {c : Proxied}
    {msg : ProtocolMessage} (hphase : s.phase = .reading i) (hc : s.requests[i]? = some c)
    (hrecv : c.request.recv codec = some (.ok msg)) : Whole codec { s with phase := .handling i msg } where
  opened := hW.opened
  running := by intro h; cases h
  stands j c' hc' := by
    refine (hW.stands j c' hc').congr ?_
    unfold Served
    rw [hphase]; rfl
  executed := hW.executed
  handling j msg' h := by
    cases h
    exact (hW.recv_cases hparts hc hrecv).1 msg rfl
  responding j response h := by cases h

/-- The peer is done with the stream it is at. -/
theorem served_accepting {i : ℕ} (hcurrent : current s.phase = some i) (j : ℕ) (hj : j ≠ i) :
    s.Served j ↔ j < s.accepted := by
  unfold Served
  rw [hcurrent]
  exact ⟨And.left, fun hlt => ⟨hlt, fun h => hj (Option.some.inj h).symm⟩⟩

theorem Whole.done (hW : s.Whole codec) {i : ℕ} {data : List UInt8} (hi : i < s.accepted)
    (hcurrent : current s.phase = some i)
    (hdata : ∀ c, s.requests[i]? = some c →
      (Carried codec (RemoteNode.request c.call).message →
        ∃ returned, ⟨i, c.call, returned⟩ ∈ s.executed ∧ data = frameOf codec (reply c.call returned)) ∧
      (¬ Carried codec (RemoteNode.request c.call).message → data = [])) :
    Whole codec { s.modify i (·.respond data) with phase := .accepting } where
  opened := hW.opened
  running := by intro h; cases h
  stands := by
    have hstands := hW.stands_modify (i := i) (f := (·.respond data)) (· < s.accepted) (fun c hc h => ?_)
      (served_accepting hcurrent)
    · intro j c' hc'
      refine (hstands j c' hc').congr ⟨fun hlt => ⟨hlt, fun h => (by cases h)⟩, And.left⟩
    · have hnil : c.response.written = [] := (h.unserved fun hserved => hserved.2 hcurrent).1
      obtain ⟨hcarried, hnot⟩ := hdata c hc
      refine ⟨h.written, h.finished, h.uncut, fun hge => absurd hi hge, fun _ => ⟨rfl, fun hm => ?_, fun hm => ?_⟩,
        h.result⟩
      · obtain ⟨returned, hlog, rfl⟩ := hcarried hm
        refine ⟨returned, hlog, ?_⟩
        show c.response.written ++ _ = _
        rw [hnil, List.nil_append]; rfl
      · show c.response.written ++ data = []
        rw [hnil, hnot hm, List.nil_append]
  executed := hW.executed
  handling j msg h := by cases h
  responding j response h := by cases h

theorem Whole.handle (hW : s.Whole codec) (hR : s.Refines codec t) {i : ℕ} {msg : ProtocolMessage}
    (hphase : s.phase = .handling i msg) (node : Executor) :
    Whole codec { s with
      phase := .responding i (d.dispatch debug node msg)
      executed := s.executed ++ msg.asked.toList.map fun call => ⟨i, call, node call⟩ } := by
  have hcarried := hW.handling i msg hphase
  have hserves := hR.serves
  unfold Serves at hserves
  rw [hphase] at hserves
  obtain ⟨hi, call, ht, rfl⟩ := hserves
  rw [asked_request, dispatch_eq, handleMessage_request]
  refine ⟨hW.opened, fun h => (by cases h), fun j c hc => ?_, fun x hx => ?_, fun j msg h => (by cases h),
    fun j response h => ?_⟩
  · refine ((hW.stands j c hc).append _).congr ?_
    unfold Served
    rw [hphase]; rfl
  · rcases List.mem_append.1 hx with hx | hx
    · exact hW.executed x hx
    · rw [List.mem_singleton.1 hx]
      exact hcarried
  · cases h
    exact ⟨call, node call, List.mem_append_right _ (List.mem_singleton_self _), rfl⟩

/-- A request only returns when the peer is done with it. -/
theorem Stands.served_of_recv {log : List Executed} {i : ℕ} {served : Prop} {c : Proxied}
    {received : Except String ProtocolMessage} (h : Stands codec log i served c)
    (hrecv : c.response.recv codec = some received) : served := by
  by_contra hserved
  obtain ⟨hwritten, hfinished⟩ := h.unserved hserved
  unfold Pipe.recv Pipe.seen Pipe.ended at hrecv
  rw [hwritten, hfinished, h.uncut.2, List.take_nil] at hrecv
  cases hrecv

theorem Stands.receive (hparts : codec.RefusesParts) {log : List Executed} {i : ℕ} {served : Prop} {c : Proxied}
    {received : Except String ProtocolMessage} (h : Stands codec log i served c)
    (hrecv : c.response.recv codec = some received) : Stands codec log i served (c.receive received) where
  written := h.written
  finished := h.finished
  uncut := h.uncut
  unserved := h.unserved
  served := h.served
  result res hres := by
    cases hres
    have hfails : Failed received → Failed (received.bind (RemoteNode.request c.call).response) := by
      rintro ⟨e, rfl, he⟩
      exact ⟨e, rfl, he⟩
    obtain ⟨-, hcarried, hnot⟩ := h.served (h.served_of_recv hrecv)
    refine ⟨fun hm => ?_, fun hm => hfails (Pipe.recv_nil (hnot hm) hrecv)⟩
    obtain ⟨returned, hlog, hwritten⟩ := hcarried hm
    have hall := Pipe.recv_whole hwritten h.uncut.2 hrecv
    refine ⟨returned, hlog, fun hr => ?_, fun hr => ?_⟩
    · have hok : received = .ok (reply c.call returned) := hall.trans ((recvMessage_whole hparts _).2 hr)
      show received.bind (RemoteNode.request c.call).response = relay c.call returned
      rw [hok]
      exact response_reply c.call returned
    · rcases recvMessage_part hparts (m := reply c.call returned) List.prefix_rfl with hok | hfailed
      · exact absurd ((recvMessage_whole hparts _).1 hok) hr
      · exact hfails (hall ▸ hfailed)

theorem Whole.receive (hparts : codec.RefusesParts) (hW : s.Whole codec) {i : ℕ} {c : Proxied}
    {received : Except String ProtocolMessage}
    (hc : s.requests[i]? = some c) (hrecv : c.response.recv codec = some received) :
    (s.modify i (·.receive received)).Whole codec where
  opened := hW.opened
  running := hW.running
  stands := hW.stands_modify s.Served (fun c' hc' hstands => by
    rw [hc] at hc'
    cases hc'
    exact hstands.receive hparts hrecv) fun _ _ => .rfl
  executed := hW.executed
  handling := hW.handling
  responding := hW.responding

/-- The peer is at a stream that it has accepted. -/
theorem Refines.lt_accepted (hR : s.Refines codec t) {i : ℕ} (hcurrent : current s.phase = some i) :
    i < s.accepted := by
  have hserves := hR.serves
  unfold Serves at hserves
  cases hphase : s.phase with
  | accepting | exited => rw [hphase] at hcurrent; cases hcurrent
  | reading j | handling j msg =>
    rw [hphase] at hcurrent hserves
    cases hcurrent
    omega
  | responding j response =>
    rw [hphase] at hcurrent hserves
    cases hcurrent
    obtain ⟨call, returned, ht, -⟩ := hserves
    by_contra hge
    cases hR.fresh i call _ (Nat.le_of_not_lt hge) ht

/-- **A step** without breaks keeps it. -/
theorem Whole.step (hparts : codec.RefusesParts) (hW : s.Whole codec) (hR : s.Refines codec t)
    (ha : Unbroken a) (h : step codec debug d s a = some s') : s'.Whole codec := by
  cases a with
  | request call room =>
    obtain rfl : room = none := ha
    simp only [Proxy.step] at h
    split at h <;> cases h
    exact hW.request_step hR call
  | arriveRequest i n =>
    cases h
    exact hW.arrive i fun c => ⟨_, c.response, rfl, arrive_same .., rfl, rfl, rfl⟩
  | arriveResponse i n =>
    cases h
    exact hW.arrive i fun c => ⟨c.request, _, rfl, ⟨rfl, rfl, rfl⟩, arrive_same ..⟩
  | breakRequest | breakResponse | close => exact ha.elim
  | accept =>
    simp only [Proxy.step] at h
    split at h
    · rename_i hphase
      split at h <;> cases h
      exact hW.accept hphase
    · cases h
  | recv =>
    simp only [Proxy.step] at h
    split at h
    · rename_i i hphase
      obtain ⟨received, hreceived, rfl⟩ := Option.map_eq_some_iff.1 h
      obtain ⟨c, hc, hrecv⟩ := Option.bind_eq_some_iff.1 hreceived
      have hcurrent : current s.phase = some i := by rw [hphase]; rfl
      cases received with
      | ok msg => exact hW.recv_ok hparts hphase hc hrecv
      | error e =>
        refine hW.done (hR.lt_accepted hcurrent) hcurrent fun c' hc' => ⟨fun hm => ?_, fun _ => rfl⟩
        rw [hc] at hc'
        cases hc'
        exact absurd hm ((hW.recv_cases hparts hc hrecv).2 e rfl)
    · cases h
  | handle node =>
    simp only [Proxy.step] at h
    split at h
    · rename_i i msg hphase
      cases h
      exact hW.handle hR hphase node
    · cases h
  | respond room =>
    obtain rfl : room = none := ha
    simp only [Proxy.step] at h
    split at h
    · rename_i i response hphase
      cases h
      have hcurrent : current s.phase = some i := by rw [hphase]; rfl
      obtain ⟨call, returned, hlog, rfl⟩ := hW.responding i response hphase
      refine hW.done (hR.lt_accepted hcurrent) hcurrent fun c hc => ?_
      obtain ⟨-, c', hc', hcall⟩ := hR.logged _ hlog
      rw [hc] at hc'
      cases hc'
      dsimp only at hcall
      subst hcall
      refine ⟨fun _ => ⟨returned, hlog, ?_⟩, fun hm => absurd (hW.executed _ hlog) hm⟩
      cases hbody : codec.encode (reply c.call returned) with
      | none => simp only [sendMessage, hbody, frameOf]; rfl
      | some body => rw [sendMessage_unbroken rfl hbody, frameOf, hbody]; rfl
    · cases h
  | exit =>
    simp only [Proxy.step] at h
    split at h
    · rw [hW.opened] at h
      cases h
    · cases h
  | receive i =>
    simp only [Proxy.step] at h
    obtain ⟨c, hc, h⟩ := Option.bind_eq_some_iff.1 h
    split at h
    · cases h
    · obtain ⟨received, hrecv, rfl⟩ := Option.map_eq_some_iff.1 h
      exact hW.receive hparts hc hrecv

/-! ## Progress -/

/-- All has arrived. -/
theorem recv_arrive (codec : Bincode) {p : Pipe} (hfinished : p.finished = true) (hcut : p.cut = false) :
    ∃ received, (p.arrive p.written.length).recv codec = some received := by
  refine ⟨(recvMessage codec (p.arrive p.written.length).seen).1, if_pos (Bool.or_eq_true_iff.2 (.inl ?_))⟩
  unfold Pipe.ended Pipe.arrive
  rw [hcut, if_neg Bool.false_ne_true, hfinished]
  have hall : p.written.length ≤ min (p.arrived + p.written.length) p.written.length := by omega
  exact Bool.or_eq_true_iff.2 (.inr (decide_eq_true hall))

theorem countP_modify {α : Type} {p : α → Bool} {l : List α} {i : ℕ} {x : α} (h : l[i]? = some x) (f : α → α) :
    (l.modify i f).countP p + (if p x then 1 else 0) = l.countP p + (if p (f x) then 1 else 0) := by
  obtain ⟨hlt, rfl⟩ := List.getElem?_eq_some_iff.1 h
  have hone : (if p l[i] then 1 else 0) ≤ l.countP p := List.boole_getElem_le_countP (p := p) hlt
  rw [List.modify_eq_set_getElem?, h, Option.map_eq_map, Option.map_some, Option.getD_some, List.countP_set hlt]
  omega

def phaseRank : ServePhase → ℕ
  | .reading _ => 3
  | .handling .. => 2
  | .responding .. => 1
  | .accepting => 0
  | .exited => 0

/-- What is left to do: a stream that is accepted is four phases away from the next. -/
def rank (s : Proxy) : ℕ :=
  4 * (s.requests.length - s.accepted) + phaseRank s.phase + s.requests.countP (·.result.isNone)

theorem countP_result {i : ℕ} {f : Proxied → Proxied} (hf : ∀ c, (f c).result.isNone = c.result.isNone) :
    (s.modify i f).requests.countP (·.result.isNone) = s.requests.countP (·.result.isNone) := by
  have hmodify : (s.modify i f).requests = s.requests.modify i f := rfl
  rw [hmodify]
  cases hc : s.requests[i]? with
  | none => rw [List.modify_eq_set_getElem?, hc]; rfl
  | some c =>
    have hcount := countP_modify (p := (·.result.isNone)) hc f
    rw [hf c] at hcount
    omega

/-- The peer gets on with the stream it is at. -/
theorem Whole.serve (hR : s.Refines codec t) (hW : s.Whole codec) (node : Executor) {i : ℕ}
    (hcurrent : current s.phase = some i) :
    ∃ u, Sys.Can (Proxy.step codec debug d) (Own node) s u ∧ u.rank < s.rank := by
  have hrank : ∀ {u : Proxy} {phase : ServePhase}, u.requests.length = s.requests.length → u.accepted = s.accepted →
      u.requests.countP (·.result.isNone) = s.requests.countP (·.result.isNone) → u.phase = phase →
      phaseRank phase < phaseRank s.phase → u.rank < s.rank := by
    intro u phase hlength haccepted hcount hphase hlt
    unfold rank
    rw [hlength, haccepted, hcount, hphase]
    omega
  cases hphase : s.phase with
  | accepting | exited => rw [hphase] at hcurrent; cases hcurrent
  | handling j msg =>
    have hstep : Proxy.step codec debug d s (.handle node) = some { s with
        phase := .responding j (d.dispatch debug node msg)
        executed := s.executed ++ msg.asked.toList.map fun call => ⟨j, call, node call⟩ } := by
      simp only [Proxy.step, hphase]
    exact ⟨_, .single (a := .handle node) rfl hstep, hrank rfl rfl rfl rfl (by rw [hphase]; exact Nat.lt_succ_self 1)⟩
  | responding j response =>
    have hstep : Proxy.step codec debug d s (.respond none) = some { s.modify j
        (·.respond (sendMessage codec ⟨[], none⟩ response).2.written) with phase := .accepting } := by
      simp only [Proxy.step, hphase]
    exact ⟨_, .single (a := .respond none) rfl hstep, hrank (length_modify ..) rfl
      (countP_result (f := (·.respond (sendMessage codec ⟨[], none⟩ response).2.written)) fun _ => rfl) rfl
      (by rw [hphase]; exact Nat.zero_lt_one)⟩
  | reading j =>
    rw [hphase] at hcurrent
    cases hcurrent
    have hlt : i < s.accepted := hR.lt_accepted (by rw [hphase]; rfl)
    obtain ⟨c, hget⟩ : ∃ c, s.requests[i]? = some c :=
      ⟨_, List.getElem?_eq_getElem (Nat.lt_of_lt_of_le hlt hR.accepted)⟩
    have hstands := hW.stands i c hget
    obtain ⟨received, hrecv⟩ := recv_arrive codec hstands.finished hstands.uncut.1
    let arrive : Proxied → Proxied := fun c' => { c' with request := c'.request.arrive c.request.written.length }
    have hthere : (s.modify i arrive).requests[i]? = some (arrive c) := by
      show (s.requests.modify i arrive)[i]? = _
      rw [List.getElem?_modify_eq, hget]; rfl
    have hsame : (s.modify i arrive).requests.countP (·.result.isNone) = s.requests.countP (·.result.isNone) :=
      countP_result fun _ => rfl
    have harrive : Proxy.step codec debug d s (.arriveRequest i c.request.written.length) =
        some (s.modify i arrive) := rfl
    have hreading : (s.modify i arrive).phase = .reading i := hphase
    cases received with
    | ok msg =>
      refine ⟨{ s.modify i arrive with phase := .handling i msg }, .cons (a := .arriveRequest _ _) trivial harrive
        (.single (a := .recv) trivial ?_),
        hrank (length_modify ..) rfl hsame rfl (by rw [hphase]; exact Nat.lt_succ_self 2)⟩
      simp only [Proxy.step, hreading, hthere, Option.bind_some]
      rw [show (arrive c).request.recv codec = _ from hrecv]; rfl
    | error e =>
      refine ⟨{ (s.modify i arrive).modify i (·.respond []) with phase := .accepting },
        .cons (a := .arriveRequest _ _) trivial harrive (.single (a := .recv) trivial ?_),
        hrank ((length_modify ..).trans (length_modify ..)) rfl
          ((countP_result (f := (·.respond [])) fun _ => rfl).trans hsame) rfl
          (by rw [hphase]; exact Nat.zero_lt_succ 2)⟩
      simp only [Proxy.step, hreading, hthere, Option.bind_some]
      rw [show (arrive c).request.recv codec = _ from hrecv]; rfl

/-- **While a request has not returned**, something can be done. -/
theorem Whole.advance (hW : s.Whole codec) (hR : s.Refines codec t) (node : Executor)
    (hbusy : ¬ ∀ c ∈ s.requests, c.result.isSome = true) :
    ∃ u, Sys.Can (Proxy.step codec debug d) (Own node) s u ∧ u.rank < s.rank := by
  cases hcurrent : current s.phase with
  | some i => exact hW.serve hR node hcurrent
  | none =>
    have hphase : s.phase = .accepting := by
      cases hp : s.phase with
      | accepting => rfl
      | exited => exact absurd hp hW.running
      | reading | handling | responding => rw [hp] at hcurrent; cases hcurrent
    by_cases hall : s.accepted < s.requests.length
    · have hstep : Proxy.step codec debug d s .accept =
          some { s with phase := .reading s.accepted, accepted := s.accepted + 1 } := by
        simp only [Proxy.step, hphase, if_pos hall]
      refine ⟨_, .single (a := .accept) trivial hstep, ?_⟩
      unfold rank
      rw [hphase]
      show 4 * (s.requests.length - (s.accepted + 1)) + 3 + s.requests.countP (·.result.isNone) <
        4 * (s.requests.length - s.accepted) + 0 + s.requests.countP (·.result.isNone)
      omega
    · -- all streams are served, so one of them has a response that was not received
      rw [not_forall] at hbusy
      obtain ⟨c, hbusy⟩ := hbusy
      obtain ⟨hmem, hresult⟩ := Classical.not_imp.1 hbusy
      obtain ⟨i, hi⟩ := List.getElem?_of_mem hmem
      have hnone : c.result = none := by
        cases h : c.result with
        | none => rfl
        | some res => rw [h] at hresult; exact absurd rfl hresult
      have hserved : s.Served i := by
        refine ⟨?_, by rw [hcurrent]; intro h; cases h⟩
        have hlt := (List.getElem?_eq_some_iff.1 hi).1
        omega
      have hstands := hW.stands i c hi
      obtain ⟨received, hrecv⟩ := recv_arrive codec (hstands.served hserved).1 hstands.uncut.2
      let arrive : Proxied → Proxied := fun c' => { c' with response := c'.response.arrive c.response.written.length }
      have hthere : (s.modify i arrive).requests[i]? = some (arrive c) := by
        show (s.requests.modify i arrive)[i]? = _
        rw [List.getElem?_modify_eq, hi]; rfl
      have harrive : Proxy.step codec debug d s (.arriveResponse i c.response.written.length) =
          some (s.modify i arrive) := rfl
      refine ⟨(s.modify i arrive).modify i (·.receive received), .cons (a := .arriveResponse _ _) trivial harrive
        (.single (a := .receive i) trivial ?_), ?_⟩
      · have hwaits : (arrive c).result = none := hnone
        have hready : (arrive c).response.recv codec = some received := hrecv
        simp only [Proxy.step, hthere, Option.bind_some, hwaits, hready, Option.map_some]
      · have hsame : (s.modify i arrive).requests.countP (·.result.isNone) = s.requests.countP (·.result.isNone) :=
          countP_result fun _ => rfl
        have hcount := countP_modify (p := (·.result.isNone)) hthere (·.receive received)
        have hwaits : (arrive c).result.isNone = true := by
          show c.result.isNone = true
          rw [hnone]; rfl
        have hreturned : ((arrive c).receive received).result.isNone = false := rfl
        rw [hwaits, hreturned, if_pos rfl, if_neg Bool.false_ne_true, hsame] at hcount
        have hmodify : ((s.modify i arrive).modify i (·.receive received)).requests =
            (s.modify i arrive).requests.modify i (·.receive received) := rfl
        unfold rank
        rw [length_modify, length_modify, hmodify]
        show 4 * (s.requests.length - s.accepted) + phaseRank s.phase + _ < _
        omega

theorem whole_init : init.Whole codec where
  opened := rfl
  running := by intro h; cases h
  stands i c hc := by cases hc
  executed x hx := by cases hx
  handling i msg h := by cases h
  responding i response h := by cases h

theorem calls_modify {i : ℕ} {f : Proxied → Proxied} (hf : ∀ c, (f c).call = c.call) :
    (s.modify i f).requests.map (·.call) = s.requests.map (·.call) := by
  refine List.ext_getElem? fun j => ?_
  have hmodify : (s.modify i f).requests = s.requests.modify i f := rfl
  rw [hmodify, List.getElem?_map, List.getElem?_map, List.getElem?_modify]
  cases s.requests[j]? with
  | none => rfl
  | some c =>
    simp only [Option.map_eq_map, Option.map_some]
    split
    · rw [hf c]
    · rfl

/-- By itself the connection makes no requests, and only `node` answers. -/
theorem own_step {node : Executor} (ha : Own node a) (h : Proxy.step codec debug d s a = some s') :
    s'.requests.map (·.call) = s.requests.map (·.call) ∧
      ∀ x ∈ s'.executed, x ∈ s.executed ∨ x.returned = node x.call := by
  cases a with
  | arriveRequest i n | arriveResponse i n =>
    cases h
    exact ⟨calls_modify fun _ => rfl, fun x hx => .inl hx⟩
  | request | breakRequest | breakResponse | close | exit => exact ha.elim
  | accept =>
    simp only [Proxy.step] at h
    split at h
    · split at h <;> cases h
      exact ⟨rfl, fun x hx => .inl hx⟩
    · cases h
  | recv =>
    simp only [Proxy.step] at h
    split at h
    · rename_i i _
      obtain ⟨received, -, rfl⟩ := Option.map_eq_some_iff.1 h
      cases received with
      | ok => exact ⟨rfl, fun x hx => .inl hx⟩
      | error => exact ⟨calls_modify (i := i) (f := (·.respond [])) fun _ => rfl, fun x hx => .inl hx⟩
    · cases h
  | handle node' =>
    obtain rfl : node' = node := ha
    simp only [Proxy.step] at h
    split at h
    · cases h
      refine ⟨rfl, fun x hx => ?_⟩
      rcases List.mem_append.1 hx with hx | hx
      · exact .inl hx
      · obtain ⟨call, -, rfl⟩ := List.mem_map.1 hx
        exact .inr rfl
    · cases h
  | respond room =>
    simp only [Proxy.step] at h
    split at h
    · rename_i i response _
      cases h
      exact ⟨calls_modify (i := i) (f := (·.respond (sendMessage codec ⟨[], room⟩ response).2.written)) fun _ => rfl,
        fun x hx => .inl hx⟩
    · cases h
  | receive i =>
    simp only [Proxy.step] at h
    obtain ⟨c, -, h⟩ := Option.bind_eq_some_iff.1 h
    split at h
    · cases h
    · obtain ⟨received, -, rfl⟩ := Option.map_eq_some_iff.1 h
      exact ⟨calls_modify fun _ => rfl, fun x hx => .inl hx⟩

/-- What holds without breaks. -/
def Sound (codec : Bincode) (s : Proxy) : Prop := (∃ t, s.Refines codec t) ∧ s.Whole codec

theorem Sound.step (hparts : codec.RefusesParts) (hS : s.Sound codec) (ha : Unbroken a)
    (h : Proxy.step codec debug d s a = some s') : s'.Sound codec := by
  obtain ⟨⟨t, hR⟩, hW⟩ := hS
  obtain ⟨t', -, hR'⟩ := follows hparts debug d s t a s' hR h
  exact ⟨⟨t', hR'⟩, hW.step hparts hR ha h⟩

/-- What the connection has come to by itself. -/
structure Since (codec : Bincode) (node : Executor) (s u : Proxy) : Prop where
  sound : u.Sound codec
  calls : u.requests.map (·.call) = s.requests.map (·.call)
  executed : ∀ x ∈ u.executed, x ∈ s.executed ∨ x.returned = node x.call

theorem Since.step (hparts : codec.RefusesParts) {node : Executor} {u v : Proxy} (hT : Since codec node s u)
    (ha : Own node a) (h : Proxy.step codec debug d u a = some v) : Since codec node s v := by
  obtain ⟨hcalls, hexecuted⟩ := own_step ha h
  refine ⟨hT.sound.step hparts (unbroken_of_own ha) h, hcalls.trans hT.calls, fun x hx => ?_⟩
  rcases hexecuted x hx with hx | hx
  · exact hT.executed x hx
  · exact .inr hx

/-- **Every request may return**: from every state of a run without breaks, the connection can go on
by itself until all have. Then a request whose message has at most 64 MiB was executed, and
returns what its operation did if the response has no more either; any other request fails,
and one whose message is too large was not executed. -/
theorem every_request_answered (hparts : codec.RefusesParts)
    (h : Sys.Can (Proxy.step codec debug d) Unbroken init s) (node : Executor) :
    ∃ u, Sys.Can (Proxy.step codec debug d) (Own node) s u ∧
      u.requests.map (·.call) = s.requests.map (·.call) ∧
      (∀ x ∈ u.executed, x ∈ s.executed ∨ x.returned = node x.call) ∧
      ∀ (i : ℕ) (c : Proxied), u.requests[i]? = some c → ∃ res, c.result = some res ∧
        (Carried codec (RemoteNode.request c.call).message → ∃ returned, ⟨i, c.call, returned⟩ ∈ u.executed ∧
          (Carried codec (reply c.call returned) → res = relay c.call returned) ∧
          (¬ Carried codec (reply c.call returned) → Failed res)) ∧
        (¬ Carried codec (RemoteNode.request c.call).message → Failed res ∧ ∀ x ∈ u.executed, x.stream ≠ i) := by
  have hs : s.Sound codec :=
    h.inv (fun u a v hu ha hstep => hu.step hparts ha hstep) ⟨⟨_, refines_init⟩, whole_init⟩
  obtain ⟨u, hcan, hT, hall⟩ := Sys.exists_can (E := Own node) (J := Since codec node s)
    (G := fun u => ∀ c ∈ u.requests, c.result.isSome = true) rank
    (fun u hu hbusy => by
      obtain ⟨t, hR⟩ := hu.sound.1
      obtain ⟨v, hcan, hlt⟩ : ∃ v, Sys.Can (Proxy.step codec debug d) (Own node) u v ∧ v.rank < u.rank :=
        hu.sound.2.advance hR node hbusy
      exact ⟨v, hcan, hcan.inv (fun w a w' hw ha hstep => hw.step hparts ha hstep) hu, hlt⟩)
    ⟨hs, rfl, fun x hx => .inl hx⟩
  obtain ⟨⟨t, hR⟩, hW⟩ := hT.sound
  refine ⟨u, hcan, hT.calls, hT.executed, fun i c hc => ?_⟩
  obtain ⟨res, hres⟩ := Option.isSome_iff_exists.1 (hall c (List.mem_of_getElem? hc))
  obtain ⟨hcarried, hnot⟩ := (hW.stands i c hc).result res hres
  refine ⟨res, hres, hcarried, fun hm => ⟨hnot hm, fun x hx hxi => ?_⟩⟩
  obtain ⟨-, c', hc', hcall⟩ := hR.logged x hx
  rw [hxi, hc] at hc'
  cases hc'
  exact hm (hcall ▸ hW.executed x hx)

/-- How a write, a listing and their responses are encoded. -/
def writeAndList : Bincode :=
  .ofTable [(.writeFile "" "", [8, 0, 0]), (.listDir "", [10, 0]), (.listDirResult [], [11, 0]),
    (.writeFileResult false (some "disk full"),
      [9, 0, 1, 9, 100, 105, 115, 107, 32, 102, 117, 108, 108])] (by decide)

/-- Two requests that wait, and a node that cannot write. -/
theorem every_request_answered_twoWaiting :
    ∃ s, Sys.run (Proxy.step writeAndList (fun _ => "") .core) init
        [.request (.writeFile "" "") none, .request (.listDir "") none] = some s ∧ s.executed.length = 0 ∧
      ∃ u, Sys.Can (Proxy.step writeAndList (fun _ => "") .core) (Own Streams.readOnly) s u ∧
        u.requests.map (·.call) = [.writeFile "" "", .listDir ""] := by
  have h : Sys.run (Proxy.step writeAndList (fun _ => "") .core) init
      [.request (.writeFile "" "") none, .request (.listDir "") none] = some _ := rfl
  have hunbroken : ∀ a ∈ [Action.request (.writeFile "" "") none, .request (.listDir "") none], Unbroken a := by
    intro a ha
    rcases List.mem_cons.1 ha with rfl | ha
    · rfl
    · rw [List.mem_singleton.1 ha]; rfl
  obtain ⟨u, hcan, hcalls, -⟩ := every_request_answered (refusesParts_ofTable _) ⟨_, hunbroken, h⟩ Streams.readOnly
  exact ⟨_, h, rfl, u, hcan, hcalls⟩

end Proxy

end Auxlry
