import Auxlry.Proof.Received
import Auxlry.Proof.Remote
import Auxlry.Sys.Simulation

/-!
# Requests in bytes are requests in messages

However the bytes of a connection arrive, and wherever it breaks, a request is what it is for
`Streams`: its message, the answer of the peer's local node and the response, each at once.
What breaks is a request that stays where it is.

* `Proxy.follows`: the simulation, step by step.
* `Proxy.executed_at_most_once`: **what the peer executes**, and what a request returns.
-/

namespace Auxlry

/-- What a dispatcher runs for a request is its operation. -/
theorem asked_request (call : NodeCall) : (RemoteNode.request call).message.asked = some call := by
  cases call <;> rfl

/-- A dispatcher runs at most the operation that its message asks for. -/
theorem dispatch_asked {debug : ProtocolMessage → String} (d : Dispatcher) {node node' : Executor}
    {msg : ProtocolMessage} (h : ∀ call ∈ msg.asked, node call = node' call) :
    d.dispatch debug node msg = d.dispatch debug node' msg := by
  rw [dispatch_eq, dispatch_eq]
  cases hasked : msg.asked with
  | none => cases msg with
    | runCommand | readFile | writeFile | listDir | searchFiles => cases hasked
    | _ => rfl
  | some call =>
    have hsame := h call hasked
    cases msg with
    | runCommand | readFile | writeFile | listDir | searchFiles =>
      cases hasked
      simp only [handleMessage, hsame]
    | _ => cases hasked

namespace Proxy

variable {codec : Bincode} {debug : ProtocolMessage → String} {d : Dispatcher} {s s' : Proxy} {t : Streams}
  {a : Action}

/-! ## How far a request is -/

/-- A request in bytes is as far as one in messages. -/
inductive Shows (codec : Bincode) (log : List Executed) (i : ℕ) (c : Proxied) : Exchange c.call → Prop
  | sent (hnone : ∀ x ∈ log, x.stream ≠ i) (hwritten : c.response.written = [])
      (hresult : ∀ res ∈ c.result, Failed res) : Shows codec log i c .sent
  | answered {returned : Except String c.call.Result} {response : ProtocolMessage}
      (hlog : ⟨i, c.call, returned⟩ ∈ log) (hwritten : c.response.written <+: frameOf codec response)
      (hresult : ∀ res ∈ c.result, Failed res) : Shows codec log i c (.answered returned response)
  | done {returned res : Except String c.call.Result} (hlog : ⟨i, c.call, returned⟩ ∈ log)
      (hresult : c.result = some res) : Shows codec log i c (.done returned res)

/-- Where the peer is. -/
def Serves (s : Proxy) (t : Streams) : Prop :=
  match s.phase with
  | .accepting | .exited => True
  | .reading i => i + 1 = s.accepted ∧ ∃ call, t i = some ⟨call, .sent⟩
  | .handling i msg =>
    i + 1 = s.accepted ∧ ∃ call, t i = some ⟨call, .sent⟩ ∧ msg = (RemoteNode.request call).message
  | .responding i response =>
    ∃ call returned, t i = some ⟨call, .answered returned response⟩ ∧
      ∀ c, s.requests[i]? = some c → c.response.written = []

/-- **The connection in bytes refines** the one in messages. -/
structure Refines (codec : Bincode) (s : Proxy) (t : Streams) : Prop where
  absent : ∀ i, s.requests[i]? = none → t i = none
  shows : ∀ i c, s.requests[i]? = some c → ∃ x, t i = some ⟨c.call, x⟩ ∧ Shows codec s.executed i c x
  request : ∀ (i : ℕ) (c : Proxied), s.requests[i]? = some c →
    c.request.written <+: frameOf codec (RemoteNode.request c.call).message
  accepted : s.accepted ≤ s.requests.length
  fresh : ∀ i call x, s.accepted ≤ i → t i = some ⟨call, x⟩ → x = .sent
  serves : s.Serves t
  order : (s.executed.map (·.stream)).Pairwise (· < ·)
  logged : ∀ x ∈ s.executed, x.stream < s.accepted ∧ ∃ c, s.requests[x.stream]? = some c ∧ c.call = x.call

theorem Refines.of_some (hR : s.Refines codec t) {i : ℕ} {call : NodeCall} {x : Exchange call}
    (h : t i = some ⟨call, x⟩) :
    ∃ c, s.requests[i]? = some c ∧ ∃ hcall : c.call = call, Shows codec s.executed i c (hcall ▸ x) := by
  cases hc : s.requests[i]? with
  | none => rw [hR.absent i hc] at h; cases h
  | some c =>
    obtain ⟨y, hy, hshows⟩ := hR.shows i c hc
    rw [hy] at h
    cases h
    exact ⟨c, rfl, rfl, hshows⟩

/-- Nothing was executed for a stream whose request is still on its way. -/
theorem Refines.not_executed (hR : s.Refines codec t) {i : ℕ} {call : NodeCall} (h : t i = some ⟨call, .sent⟩) :
    ∀ x ∈ s.executed, x.stream ≠ i := by
  obtain ⟨c, -, rfl, hshows⟩ := hR.of_some h
  cases hshows with
  | sent hnone => exact hnone

theorem getElem?_modify {i j : ℕ} {f : Proxied → Proxied} {c' : Proxied}
    (h : (s.modify i f).requests[j]? = some c') :
    ∃ c, s.requests[j]? = some c ∧ (i = j ∧ c' = f c ∨ i ≠ j ∧ c' = c) := by
  have h : (s.requests.modify i f)[j]? = some c' := h
  rw [List.getElem?_modify] at h
  obtain ⟨c, hc, rfl⟩ := Option.map_eq_some_iff.1 h
  refine ⟨c, hc, ?_⟩
  split
  · exact .inl ⟨‹_›, rfl⟩
  · exact .inr ⟨‹_›, rfl⟩

theorem length_modify (s : Proxy) (i : ℕ) (f : Proxied → Proxied) :
    (s.modify i f).requests.length = s.requests.length := List.length_modify ..

/-! ## Steps that change only what has arrived -/

/-- The same request, with the same bytes written. -/
def Repiped (c c' : Proxied) : Prop :=
  ∃ request response, c' = { c with request := request, response := response } ∧
    request.written = c.request.written ∧ response.written = c.response.written

theorem Repiped.refl (c : Proxied) : Repiped c c := ⟨c.request, c.response, rfl, rfl, rfl⟩

theorem Shows.repiped {log : List Executed} {i : ℕ} {c : Proxied} {x : Exchange c.call} (h : Shows codec log i c x)
    {request response : Pipe} (hwritten : response.written = c.response.written) :
    Shows codec log i { c with request := request, response := response } x := by
  cases h with
  | sent hnone hw hresult => exact .sent hnone (hwritten.trans hw) hresult
  | answered hlog hw hresult => exact .answered hlog (hwritten ▸ hw) hresult
  | done hlog hresult => exact .done hlog hresult

/-- Bytes arrive, or will not. -/
theorem Refines.repiped (hR : s.Refines codec t) (requests : List Proxied) (closed : Bool)
    (hlength : requests.length = s.requests.length)
    (h : ∀ (j : ℕ) (c' : Proxied), requests[j]? = some c' → ∃ c, s.requests[j]? = some c ∧ Repiped c c') :
    Refines codec { s with requests := requests, closed := closed } t where
  absent i hi := hR.absent i (List.getElem?_eq_none (hlength ▸ List.getElem?_eq_none_iff.1 hi))
  shows i c' hc' := by
    obtain ⟨c, hc, request, response, rfl, -, hresponse⟩ := h i c' hc'
    obtain ⟨x, hx, hshows⟩ := hR.shows i c hc
    exact ⟨x, hx, hshows.repiped hresponse⟩
  request i c' hc' := by
    obtain ⟨c, hc, request, response, rfl, hrequest, -⟩ := h i c' hc'
    show request.written <+: _
    rw [hrequest]
    exact hR.request i c hc
  accepted := hlength ▸ hR.accepted
  fresh := hR.fresh
  serves := by
    have hserves := hR.serves
    unfold Serves at hserves ⊢
    dsimp only
    cases hphase : s.phase with
    | accepting | exited => trivial
    | reading i => rw [hphase] at hserves; exact hserves
    | handling i msg => rw [hphase] at hserves; exact hserves
    | responding i response =>
      rw [hphase] at hserves
      obtain ⟨call, returned, ht, hnil⟩ := hserves
      refine ⟨call, returned, ht, fun c' hc' => ?_⟩
      obtain ⟨c, hc, request, response', rfl, -, hresponse⟩ := h i c' hc'
      exact hresponse.trans (hnil c hc)
  order := hR.order
  logged x hx := by
    obtain ⟨hlt, c, hc, hcall⟩ := hR.logged x hx
    refine ⟨hlt, ?_⟩
    cases hc' : requests[x.stream]? with
    | none =>
      rw [List.getElem?_eq_none (hlength ▸ List.getElem?_eq_none_iff.1 hc')] at hc
      cases hc
    | some c' =>
      obtain ⟨c₀, hc₀, request, response, rfl, -, -⟩ := h _ c' hc'
      rw [hc₀] at hc
      cases hc
      exact ⟨_, rfl, hcall⟩

theorem Refines.modify_repiped (hR : s.Refines codec t) (i : ℕ) {f : Proxied → Proxied} (hf : ∀ c, Repiped c (f c)) :
    (s.modify i f).Refines codec t := by
  refine hR.repiped _ s.closed (length_modify ..) fun j c' hc' => ?_
  obtain ⟨c, hc, ⟨-, rfl⟩ | ⟨-, rfl⟩⟩ := getElem?_modify hc'
  · exact ⟨c, hc, hf c⟩
  · exact ⟨c', hc, .refl c'⟩

/-! ## The simulation -/

theorem Refines.request_step (hR : s.Refines codec t) (debug : ProtocolMessage → String) (d : Dispatcher)
    (call : NodeCall) (room : Option ℕ) :
    Streams.step debug d t (.open s.requests.length call) =
        some (Function.update t s.requests.length (some ⟨call, .sent⟩)) ∧
      Refines codec { s with requests := s.requests ++ [.start codec call room] }
        (Function.update t s.requests.length (some ⟨call, .sent⟩)) := by
  have hnone : t s.requests.length = none := hR.absent _ (List.getElem?_eq_none (Nat.le_refl _))
  have hget : ∀ (j : ℕ) (c : Proxied), (s.requests ++ [.start codec call room])[j]? = some c →
      s.requests[j]? = some c ∨ (j = s.requests.length ∧ c = .start codec call room) := by
    intro j c hc
    rcases Nat.lt_trichotomy j s.requests.length with hlt | rfl | hgt
    · rw [List.getElem?_append_left hlt] at hc
      exact .inl hc
    · rw [List.getElem?_concat_length] at hc
      exact .inr ⟨rfl, (Option.some.inj hc).symm⟩
    · rw [List.getElem?_eq_none (by rw [List.length_append, List.length_singleton]; omega)] at hc
      cases hc
  have hold : ∀ (j : ℕ) (c : Proxied), s.requests[j]? = some c → j ≠ s.requests.length := by
    intro j c hc
    obtain ⟨hlt, -⟩ := List.getElem?_eq_some_iff.1 hc
    omega
  refine ⟨by simp only [Streams.step, hnone], ?_⟩
  refine ⟨fun i hi => ?_, fun i c hc => ?_, fun i c hc => ?_, ?_, fun i call' x hi hx => ?_, ?_, hR.order,
    fun x hx => ?_⟩
  · have hlen := List.getElem?_eq_none_iff.1 hi
    rw [List.length_append, List.length_singleton] at hlen
    rw [Function.update_of_ne (by omega)]
    exact hR.absent i (List.getElem?_eq_none (by omega))
  · rcases hget i c hc with hc | ⟨rfl, rfl⟩
    · rw [Function.update_of_ne (hold i c hc)]
      exact hR.shows i c hc
    · rw [Function.update_self]
      refine ⟨.sent, rfl, .sent (fun x hx => ?_) rfl fun res hres => ?_⟩
      · obtain ⟨-, c, hc, -⟩ := hR.logged x hx
        exact hold _ c hc
      · -- only sending may have failed
        have hfailed := (sendMessage_part codec room (RemoteNode.request call).message).2
        unfold Proxied.start at hres
        dsimp only at hres
        split at hres
        · cases hres
        · rename_i e he
          cases hres
          exact ⟨e, rfl, hfailed e he⟩
  · rcases hget i c hc with hc | ⟨rfl, rfl⟩
    · exact hR.request i c hc
    · exact (sendMessage_part codec room (RemoteNode.request call).message).1
  · rw [List.length_append]
    exact Nat.le_trans hR.accepted (Nat.le_add_right _ _)
  · by_cases hlast : i = s.requests.length
    · subst hlast
      rw [Function.update_self] at hx
      cases hx; rfl
    · rw [Function.update_of_ne hlast] at hx
      exact hR.fresh i call' x hi hx
  · -- the peer is at a stream that was there before
    have hserves := hR.serves
    have hkeep : ∀ {j : ℕ} {y}, t j = some y →
        Function.update t s.requests.length (some ⟨call, .sent⟩) j = some y := by
      intro j y hj
      rw [Function.update_of_ne, hj]
      rintro rfl
      rw [hnone] at hj
      cases hj
    unfold Serves at hserves ⊢
    dsimp only
    cases hphase : s.phase with
    | accepting | exited => trivial
    | reading i =>
      rw [hphase] at hserves
      exact ⟨hserves.1, hserves.2.imp fun _ h => hkeep h⟩
    | handling i msg =>
      rw [hphase] at hserves
      exact ⟨hserves.1, hserves.2.imp fun _ h => ⟨hkeep h.1, h.2⟩⟩
    | responding i response =>
      rw [hphase] at hserves
      obtain ⟨call', returned, ht, hnil⟩ := hserves
      refine ⟨call', returned, hkeep ht, fun c hc => ?_⟩
      rcases hget i c hc with hc | ⟨rfl, rfl⟩
      · exact hnil c hc
      · rfl
  · obtain ⟨hlt, c, hc, hcall⟩ := hR.logged x hx
    obtain ⟨hlt', -⟩ := List.getElem?_eq_some_iff.1 hc
    exact ⟨hlt, c, (List.getElem?_append_left hlt').trans hc, hcall⟩

/-- The peer goes on to a phase in which it serves no stream, or another of those it serves. -/
theorem Refines.with_phase (hR : s.Refines codec t) {phase : ServePhase} (h : Serves { s with phase := phase } t) :
    Refines codec { s with phase := phase } t :=
  ⟨hR.absent, hR.shows, hR.request, hR.accepted, hR.fresh, h, hR.order, hR.logged⟩

theorem Refines.accept (hR : s.Refines codec t) (hlt : s.accepted < s.requests.length) :
    Refines codec { s with phase := .reading s.accepted, accepted := s.accepted + 1 } t := by
  refine ⟨hR.absent, hR.shows, hR.request, hlt, fun i call x hi hx => ?_, ?_, hR.order, fun x hx => ?_⟩
  · exact hR.fresh i call x (Nat.le_of_succ_le hi) hx
  · obtain ⟨c, hc⟩ : ∃ c, s.requests[s.accepted]? = some c := ⟨_, List.getElem?_eq_getElem hlt⟩
    obtain ⟨x, hx, -⟩ := hR.shows _ c hc
    cases hR.fresh _ _ x (Nat.le_refl _) hx
    exact ⟨rfl, c.call, hx⟩
  · exact (hR.logged x hx).imp_left Nat.lt_succ_of_lt

/-- The message that the peer reads is the one of the stream. -/
theorem Refines.recv_ok (hparts : codec.RefusesParts) (hR : s.Refines codec t) {i : ℕ} {c : Proxied}
    {msg : ProtocolMessage} (hphase : s.phase = .reading i) (hc : s.requests[i]? = some c)
    (hrecv : c.request.recv codec = some (.ok msg)) : Refines codec { s with phase := .handling i msg } t := by
  have hserves := hR.serves
  unfold Serves at hserves
  rw [hphase] at hserves
  obtain ⟨hi, call, ht⟩ := hserves
  refine hR.with_phase ⟨hi, call, ht, ?_⟩
  obtain ⟨c', hc', rfl, -⟩ := hR.of_some ht
  rw [hc] at hc'
  cases hc'
  rcases Pipe.recv_part hparts (hR.request i c hc) hrecv with hok | hfailed
  · exact Except.ok.inj hok
  · exact absurd hfailed not_failed_ok

theorem Refines.handle (hR : s.Refines codec t) (debug : ProtocolMessage → String) (d : Dispatcher) {i : ℕ}
    {msg : ProtocolMessage} (hphase : s.phase = .handling i msg) (node : Executor) :
    ∃ t', Streams.step debug d t (.serve i node) = some t' ∧
      Refines codec { s with
        phase := .responding i (d.dispatch debug node msg)
        executed := s.executed ++ msg.asked.toList.map fun call => ⟨i, call, node call⟩ } t' := by
  have hserves := hR.serves
  unfold Serves at hserves
  rw [hphase] at hserves
  obtain ⟨hi, call, ht, rfl⟩ := hserves
  have hnone := hR.not_executed ht
  obtain ⟨c, hc, rfl, hshows⟩ := hR.of_some ht
  rw [asked_request]
  let response := d.dispatch debug node (RemoteNode.request c.call).message
  have hstep : Streams.step debug d t (.serve i node) =
      some (Function.update t i (some ⟨c.call, .answered (node c.call) response⟩)) := by
    simp only [Streams.step, ht, response]
  refine ⟨_, hstep, fun j hj => ?_, fun j c' hc' => ?_, hR.request, hR.accepted,
    fun j call x hj hx => ?_, ?_, ?_, fun x hx => ?_⟩
  · rw [Function.update_of_ne]
    · exact hR.absent j hj
    · rintro rfl
      rw [hc] at hj
      cases hj
  · by_cases hji : j = i
    · subst hji
      rw [hc] at hc'
      cases hc'
      rw [Function.update_self]
      refine ⟨_, rfl, ?_⟩
      cases hshows with
      | sent _ hwritten hresult =>
        refine .answered (List.mem_append_right _ (List.mem_singleton_self _)) ?_ hresult
        rw [hwritten]
        exact List.nil_prefix
    · rw [Function.update_of_ne hji]
      obtain ⟨x, hx, hshows'⟩ := hR.shows j c' hc'
      refine ⟨x, hx, ?_⟩
      cases hshows' with
      | sent hnone' hwritten hresult =>
        refine .sent (fun y hy => ?_) hwritten hresult
        rcases List.mem_append.1 hy with hy | hy
        · exact hnone' y hy
        · rw [List.mem_singleton.1 hy]
          exact Ne.symm hji
      | answered hlog hwritten hresult => exact .answered (List.mem_append_left _ hlog) hwritten hresult
      | done hlog hresult => exact .done (List.mem_append_left _ hlog) hresult
  · rw [Function.update_of_ne (by dsimp only at hj; omega)] at hx
    exact hR.fresh j call x hj hx
  · refine ⟨c.call, node c.call, Function.update_self .., fun c' hc' => ?_⟩
    rw [hc] at hc'
    cases hc'
    cases hshows with
    | sent _ hwritten => exact hwritten
  · rw [List.map_append, List.pairwise_append]
    refine ⟨hR.order, List.pairwise_singleton _ _, fun a ha b hb => ?_⟩
    obtain ⟨x, hx, rfl⟩ := List.mem_map.1 ha
    cases List.mem_singleton.1 hb
    have hlt := (hR.logged x hx).1
    have hne := hnone x hx
    show x.stream < i
    omega
  · rcases List.mem_append.1 hx with hx | hx
    · exact hR.logged x hx
    · rw [List.mem_singleton.1 hx]
      exact ⟨by show i < s.accepted; omega, c, hc, rfl⟩

/-- The response goes out under the stream of its request. -/
theorem Refines.respond (hR : s.Refines codec t) {i : ℕ} {response : ProtocolMessage}
    (hphase : s.phase = .responding i response) {data : List UInt8} (hdata : data <+: frameOf codec response) :
    Refines codec { s.modify i (·.respond data) with phase := .accepting } t := by
  have hserves := hR.serves
  unfold Serves at hserves
  rw [hphase] at hserves
  obtain ⟨call, returned, ht, hnil⟩ := hserves
  refine ⟨fun j hj => ?_, fun j c' hc' => ?_, fun j c' hc' => ?_, ?_, hR.fresh, trivial, hR.order, fun x hx => ?_⟩
  · have hlen := List.getElem?_eq_none_iff.1 hj
    dsimp only at hlen
    rw [length_modify] at hlen
    exact hR.absent j (List.getElem?_eq_none hlen)
  · obtain ⟨c, hc, ⟨rfl, rfl⟩ | ⟨-, rfl⟩⟩ := getElem?_modify hc'
    · obtain ⟨x, hx, hshows⟩ := hR.shows i c hc
      refine ⟨x, hx, ?_⟩
      rw [hx] at ht
      cases ht
      cases hshows with
      | answered hlog hwritten hresult =>
        refine .answered hlog ?_ hresult
        show c.response.written ++ data <+: _
        rw [hnil c hc]
        exact hdata
    · exact hR.shows j c' hc
  · obtain ⟨c, hc, ⟨-, rfl⟩ | ⟨-, rfl⟩⟩ := getElem?_modify hc'
    · exact hR.request j c hc
    · exact hR.request j c' hc
  · dsimp only
    rw [length_modify]
    exact hR.accepted
  · obtain ⟨hlt, c, hc, hcall⟩ := hR.logged x hx
    refine ⟨hlt, _, (List.getElem?_modify ..).trans (congrArg _ hc), ?_⟩
    dsimp only
    split
    · exact hcall
    · exact hcall

/-- A request returns: its exchange goes on, or stays where it is. -/
theorem Refines.returns (hR : s.Refines codec t) {t' : Streams} {i : ℕ} {c : Proxied}
    {received : Except String ProtocolMessage} (hc : s.requests[i]? = some c) (hothers : ∀ j, j ≠ i → t' j = t j)
    {x' : Exchange c.call} (hx' : t' i = some ⟨c.call, x'⟩)
    (hshows' : Shows codec s.executed i (c.receive received) x') (hfresh : s.accepted ≤ i → x' = .sent) (hserves : s.Serves t') :
    (s.modify i (·.receive received)).Refines codec t' := by
  refine ⟨fun j hj => ?_, fun j c' hc' => ?_, fun j c' hc' => ?_, ?_, fun j call x hj hx => ?_, ?_, hR.order,
    fun x hx => ?_⟩
  · have hlen := List.getElem?_eq_none_iff.1 hj
    rw [length_modify] at hlen
    rw [hothers]
    · exact hR.absent j (List.getElem?_eq_none hlen)
    · rintro rfl
      rw [List.getElem?_eq_none hlen] at hc
      cases hc
  · obtain ⟨c₀, hc₀, ⟨rfl, rfl⟩ | ⟨hij, rfl⟩⟩ := getElem?_modify hc'
    · rw [hc] at hc₀
      cases hc₀
      exact ⟨x', hx', hshows'⟩
    · rw [hothers j (Ne.symm hij)]
      exact hR.shows j c' hc₀
  · obtain ⟨c₀, hc₀, ⟨-, rfl⟩ | ⟨-, rfl⟩⟩ := getElem?_modify hc'
    · exact hR.request j c₀ hc₀
    · exact hR.request j c' hc₀
  · rw [length_modify]
    exact hR.accepted
  · by_cases hji : j = i
    · subst hji
      rw [hx'] at hx
      cases hx
      exact hfresh hj
    · rw [hothers j hji] at hx
      exact hR.fresh j call x hj hx
  · unfold Serves at hserves ⊢
    have hphase : (s.modify i (·.receive received)).phase = s.phase := rfl
    rw [hphase]
    cases hp : s.phase with
    | accepting | exited => trivial
    | reading j => rw [hp] at hserves; exact hserves
    | handling j msg => rw [hp] at hserves; exact hserves
    | responding j response =>
      rw [hp] at hserves
      obtain ⟨call, returned, ht, hnil⟩ := hserves
      refine ⟨call, returned, ht, fun c' hc' => ?_⟩
      obtain ⟨c₀, hc₀, ⟨-, rfl⟩ | ⟨-, rfl⟩⟩ := getElem?_modify hc'
      · exact hnil c₀ hc₀
      · exact hnil c' hc₀
  · obtain ⟨hlt, c', hc', hcall⟩ := hR.logged x hx
    refine ⟨hlt, _, (List.getElem?_modify ..).trans (congrArg _ hc'), ?_⟩
    dsimp only
    split
    · exact hcall
    · exact hcall

theorem Refines.receive (hparts : codec.RefusesParts) (hR : s.Refines codec t) {i : ℕ} {c : Proxied}
    {received : Except String ProtocolMessage} (hc : s.requests[i]? = some c) (hresult : c.result = none)
    (hrecv : c.response.recv codec = some received) :
    ∃ t', Sys.Reaches (Streams.step debug d) t t' ∧ (s.modify i (·.receive received)).Refines codec t' := by
  obtain ⟨x, hx, hshows⟩ := hR.shows i c hc
  -- a failure is no step
  have hfails : Failed received → ∀ res ∈ (c.receive received).result, Failed res := by
    rintro ⟨e, rfl, he⟩ res hres
    cases hres
    exact ⟨e, rfl, he⟩
  have hfresh : s.accepted ≤ i → x = .sent := fun hi => hR.fresh i c.call x hi hx
  cases hshows with
  | sent hnone hwritten =>
    have hfailed := Pipe.recv_nil hwritten hrecv
    exact ⟨t, .refl t, hR.returns hc (fun _ _ => rfl) hx (.sent hnone hwritten (hfails hfailed)) hfresh hR.serves⟩
  | @answered returned response hlog hwritten =>
    rcases Pipe.recv_part hparts hwritten hrecv with rfl | hfailed
    · refine ⟨_, Sys.Reaches.single (a := .receive i) (by simp only [Streams.step, hx]; rfl),
        hR.returns hc (fun j hj => Function.update_of_ne hj ..) (Function.update_self ..) (.done hlog rfl)
          (fun hi => absurd (hfresh hi) (by intro h; cases h)) ?_⟩
      -- the peer is done with this stream
      have hserves := hR.serves
      have hkeep : ∀ {j : ℕ} {call : NodeCall} {y : Exchange call} {z}, t j = some ⟨call, y⟩ → j ≠ i →
          Function.update t i z j = some ⟨call, y⟩ := fun hj hne => by rw [Function.update_of_ne hne, hj]
      unfold Serves at hserves ⊢
      cases hp : s.phase with
      | accepting | exited => trivial
      | reading j =>
        rw [hp] at hserves
        obtain ⟨hj, call, ht⟩ := hserves
        refine ⟨hj, call, hkeep ht ?_⟩
        rintro rfl
        rw [hx] at ht
        cases ht
      | handling j msg =>
        rw [hp] at hserves
        obtain ⟨hj, call, ht, hmsg⟩ := hserves
        refine ⟨hj, call, hkeep ht ?_, hmsg⟩
        rintro rfl
        rw [hx] at ht
        cases ht
      | responding j response' =>
        rw [hp] at hserves
        obtain ⟨call, returned', ht, hnil⟩ := hserves
        refine ⟨call, returned', hkeep ht ?_, hnil⟩
        rintro rfl
        exact not_failed_ok (Pipe.recv_nil (hnil c hc) hrecv)
    · exact ⟨t, .refl t,
        hR.returns hc (fun _ _ => rfl) hx (.answered hlog hwritten (hfails hfailed)) hfresh hR.serves⟩
  | done hlog hdone =>
    rw [hresult] at hdone
    cases hdone

/-- **The simulation**: each step in bytes is a step in messages, or none. -/
theorem follows (hparts : codec.RefusesParts) (debug : ProtocolMessage → String) (d : Dispatcher) :
    Sys.Follows (step codec debug d) (Streams.step debug d) (Refines codec) := by
  intro s t a s' hR h
  cases a with
  | request call room =>
    simp only [step] at h
    split at h <;> cases h
    obtain ⟨hstep, hR'⟩ := hR.request_step debug d call room
    exact ⟨_, .single hstep, hR'⟩
  | arriveRequest i n =>
    cases h
    refine ⟨t, .refl t, hR.modify_repiped i fun c => ⟨_, c.response, rfl, ?_, rfl⟩⟩
    unfold Pipe.arrive
    split <;> rfl
  | arriveResponse i n =>
    cases h
    refine ⟨t, .refl t, hR.modify_repiped i fun c => ⟨c.request, _, rfl, rfl, ?_⟩⟩
    unfold Pipe.arrive
    split <;> rfl
  | breakRequest i n =>
    cases h
    exact ⟨t, .refl t, hR.modify_repiped i fun c => ⟨_, c.response, rfl, rfl, rfl⟩⟩
  | breakResponse i n =>
    cases h
    exact ⟨t, .refl t, hR.modify_repiped i fun c => ⟨c.request, _, rfl, rfl, rfl⟩⟩
  | close =>
    cases h
    refine ⟨t, .refl t, hR.repiped _ true (List.length_map ..) fun j c' hc' => ?_⟩
    rw [List.getElem?_map] at hc'
    obtain ⟨c, hc, rfl⟩ := Option.map_eq_some_iff.1 hc'
    exact ⟨c, hc, _, _, rfl, rfl, rfl⟩
  | accept =>
    simp only [step] at h
    split at h
    · split at h
      · rename_i hlt
        cases h
        exact ⟨t, .refl t, hR.accept hlt⟩
      · cases h
    · cases h
  | recv =>
    simp only [step] at h
    split at h
    · rename_i i hphase
      obtain ⟨received, hreceived, rfl⟩ := Option.map_eq_some_iff.1 h
      obtain ⟨c, hc, hrecv⟩ := Option.bind_eq_some_iff.1 hreceived
      refine ⟨t, .refl t, ?_⟩
      cases received with
      | ok msg => exact hR.recv_ok hparts hphase hc hrecv
      | error e =>
        have hsame := hR.modify_repiped i (f := (·.respond [])) fun c =>
          ⟨c.request, _, rfl, rfl, List.append_nil _⟩
        exact hsame.with_phase trivial
    · cases h
  | handle node =>
    simp only [step] at h
    split at h
    · rename_i i msg hphase
      cases h
      obtain ⟨t', hstep, hR'⟩ := hR.handle debug d hphase node
      exact ⟨t', .single hstep, hR'⟩
    · cases h
  | respond room =>
    simp only [step] at h
    split at h
    · rename_i i response hphase
      cases h
      exact ⟨t, .refl t, hR.respond hphase (sendMessage_part codec room response).1⟩
    · cases h
  | exit =>
    simp only [step] at h
    split at h
    · split at h <;> cases h
      exact ⟨t, .refl t, hR.with_phase trivial⟩
    · cases h
  | receive i =>
    simp only [step] at h
    obtain ⟨c, hc, h⟩ := Option.bind_eq_some_iff.1 h
    split at h
    · cases h
    · rename_i hresult
      obtain ⟨received, hrecv, rfl⟩ := Option.map_eq_some_iff.1 h
      exact hR.receive hparts hc hresult hrecv

theorem refines_init : init.Refines codec Streams.init where
  absent _ _ := rfl
  shows i c hc := by cases hc
  request i c hc := by cases hc
  accepted := Nat.le_refl _
  fresh i call x _ hx := by cases hx
  serves := trivial
  order := List.Pairwise.nil
  logged x hx := by cases hx

/-- Every state reached is a match of one that the connection in messages reaches. -/
theorem simulated (hparts : codec.RefusesParts) (h : Sys.Reaches (step codec debug d) init s) :
    ∃ t, Sys.Reaches (Streams.step debug d) Streams.init t ∧ s.Refines codec t ∧ t.AllRelay := by
  obtain ⟨t, ht, hR⟩ := h.simulate (follows hparts debug d) refines_init
  have hJ : t.AllRelay :=
    ht.inv (fun _ _ _ hJ hstep => Streams.AllRelay.step hJ hstep) (by intro _ _ _ hx; cases hx)
  exact ⟨t, ht, hR, hJ⟩

/-- A request returns what was executed for it, or an error of the transport. -/
theorem Refines.result (hR : s.Refines codec t) (hJ : t.AllRelay) {i : ℕ} {c : Proxied} (hc : s.requests[i]? = some c)
    {res : Except String c.call.Result} (hres : res ∈ c.result) :
    Failed res ∨ ∃ returned, ⟨i, c.call, returned⟩ ∈ s.executed ∧ res = RemoteNode.relay c.call returned := by
  obtain ⟨x, hx, hshows⟩ := hR.shows i c hc
  cases hshows with
  | sent _ _ hresult => exact .inl (hresult res hres)
  | answered _ _ hresult => exact .inl (hresult res hres)
  | @done returned res' hlog hdone =>
    rw [hdone] at hres
    cases hres
    exact .inr ⟨returned, hlog, hJ i c.call _ hx⟩

/-- **At most once**, in every run: the connection refines the one in messages; the peer runs what
was asked on each stream at most once, in the order of the streams; and a request returns what
the operation on its own stream returned, or an error of the transport, which says nothing of it. -/
theorem executed_at_most_once (hparts : codec.RefusesParts) (h : Sys.Reaches (step codec debug d) init s) :
    (∃ t, Sys.Reaches (Streams.step debug d) Streams.init t ∧ s.Refines codec t) ∧
      (s.executed.map (·.stream)).Pairwise (· < ·) ∧
      (∀ x ∈ s.executed, ∃ c, s.requests[x.stream]? = some c ∧ c.call = x.call) ∧
      ∀ (i : ℕ) (c : Proxied), s.requests[i]? = some c → ∀ res ∈ c.result,
        Failed res ∨ ∃ returned, ⟨i, c.call, returned⟩ ∈ s.executed ∧ res = RemoteNode.relay c.call returned := by
  obtain ⟨t, ht, hR, hJ⟩ := simulated hparts h
  exact ⟨⟨t, ht, hR⟩, hR.order, fun x hx => (hR.logged x hx).2, fun i c hc res hres => hR.result hJ hc hres⟩

/-- How a listing and its response are encoded. -/
def listings : Bincode := .ofTable [(.listDir "", [10, 0]), (.listDirResult [], [11, 0])] (by decide)

/-- Two listings; the response to the first breaks off in its length. -/
def brokenResponse : List Action :=
  [.request (.listDir "") none, .request (.listDir "") none, .arriveRequest 1 6, .arriveRequest 0 3, .accept,
    .arriveRequest 0 3, .recv, .handle Streams.readOnly, .respond none, .accept, .recv, .handle Streams.readOnly,
    .respond none, .arriveResponse 0 3, .breakResponse 0 2, .receive 0, .arriveResponse 1 6, .receive 1]

/-- Both were executed. -/
theorem executed_at_most_once_broken :
    ∃ s, Sys.run (step listings (fun _ => "") .node) init brokenResponse = some s ∧
      s.executed.map (·.stream) = [0, 1] ∧ (s.executed.map (·.stream)).Pairwise (· < ·) ∧
      s.requests.map (·.result.isSome) = [true, true] := by
  have h : Sys.run (step listings (fun _ => "") .node) init brokenResponse = some _ := rfl
  obtain ⟨-, horder, -⟩ := executed_at_most_once (refusesParts_ofTable _) ⟨_, h⟩
  exact ⟨_, h, rfl, horder, rfl⟩

end Proxy

end Auxlry
