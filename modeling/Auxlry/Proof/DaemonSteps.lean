import Auxlry.Proof.Accounting
import Auxlry.Proof.Batching
import Auxlry.Spec.Daemon

/-!
# What a step of the daemon does

`Did` has one case for each thing that the daemon may do, with what it takes, and the state
that it leads to.
-/

namespace Auxlry.Daemon

/-- **What a step does.** -/
inductive Did (s : Daemon) : Action → Daemon → Prop
  | elapse (ms : ℕ) : Did s (.elapse ms) { s with manager := { s.manager with now := s.manager.now + ms } }
  | publish (event : EventPayload) : Did s (.publish event) { s with bus := Daemon.publish s.bus event }
  | recv {event : EventPayload} {rest : List EventPayload} (idle : s.bridge = .idle) (bus : s.bus = event :: rest) :
      Did s .recv { s with bus := rest, bridge := receive s.manager.now event }
  | add {m : InboundMessage} {receivedAt : ℕ} (adding : s.bridge = .adding m receivedAt) :
      Did s .add
        { s with
          manager := s.manager.addMessage m.interface m.channel ⟨m.author, m.content, receivedAt⟩
          bridge := .inserting m
          pending := Function.update s.pending (sessionKey m.interface m.channel)
            (s.pending (sessionKey m.interface m.channel) ++ [s.manager.added.length]) }
  | insert {m : InboundMessage} (now : ℕ) (queryOk : Bool) (inserting : s.bridge = .inserting m) :
      Did s (.insert now queryOk) (s.insert m now queryOk)
  | slept {task : ℕ} {manager : SessionManager} (wake : s.manager.step (.wake task) = some manager)
      (none : manager.batches = []) : Did s (.wake task) { s with manager := manager }
  | flushed {task : ℕ} {manager : SessionManager} {b : BatchedInput} {rest : List BatchedInput}
      {interface : InterfaceAgent} (wake : s.manager.step (.wake task) = some manager)
      (batches : manager.batches = b :: rest) (deliver : s.interface.step (.deliver b) = some interface) :
      Did s (.wake task)
        { s with
          manager := { manager with batches := rest }
          interface := interface
          pending := Function.update s.pending b.key []
          delivered := s.delivered ++ [(b, s.pending b.key)] }
  | next {interface : InterfaceAgent} (took : s.interface.step .next = some interface) :
      Did s (.interface .next) { s with interface := interface, history := none }
  | interface {action : InterfaceAgent.Action} {interface : InterfaceAgent}
      (own : s.interface.step action = some interface) (delivered : action.delivered = [])
      (other : action ≠ .next ∧ action ≠ .respond)
      (prompted : ∀ response, action = .complete (.ok response) → s.history.isSome) :
      Did s (.interface action) { s with interface := interface }
  | prompt {r : Received} {order : Option (List MessageRow)} (rows : List MessageRow)
      (processing : s.interface.phase = .processing r) (history : s.history = none) :
      Did s (.prompt order) (s.ask r rows)
  | answer {r : Received} {response : String} {interface : InterfaceAgent} (now : ℕ) (queryOk : Bool)
      (responding : s.interface.phase = .responding r (.ok response))
      (respond : s.interface.step .respond = some interface) :
      Did s (.respond now queryOk)
        { s with
          interface := interface
          messages := (s.messages.insertMessage ⟨r.batch.interface, r.batch.channel, "auxlry", response, "outbound",
            now, queryOk⟩).toOption.getD s.messages
          bus := Daemon.publish s.bus (.interfaceReply r.batch.interface r.batch.channel response) }
  | apology {r : Received} {e : String} {interface : InterfaceAgent} (now : ℕ) (queryOk : Bool)
      (responding : s.interface.phase = .responding r (.error e))
      (respond : s.interface.step .respond = some interface) :
      Did s (.respond now queryOk) { s with interface := interface }

variable {s s' : Daemon} {a : Action}

theorem interfaceStep_did {action : InterfaceAgent.Action} (h : s.interfaceStep action = some s') :
    Did s (.interface action) s' := by
  unfold interfaceStep at h
  split at h
  · cases h
  · cases h
  · obtain ⟨interface, hstep, rfl⟩ := Option.map_eq_some_iff.1 h
    exact .next hstep
  · split at h
    · rename_i hhistory
      obtain ⟨interface, hstep, rfl⟩ := Option.map_eq_some_iff.1 h
      exact .interface hstep rfl ⟨fun he => (by cases he), fun he => (by cases he)⟩ fun _ _ => hhistory
    · cases h
  · rename_i hdeliver hrespond hnext hcomplete
    obtain ⟨interface, hstep, rfl⟩ := Option.map_eq_some_iff.1 h
    have hdelivered : action.delivered = [] := by
      cases action with
      | deliver b => exact absurd rfl (hdeliver b)
      | close | agents | next | additional | complete | drain | respond => rfl
    exact .interface hstep hdelivered ⟨hnext, hrespond⟩ fun response he => absurd he (hcomplete response)

theorem respond_did {now : ℕ} {queryOk : Bool} (h : s.respond now queryOk = some s') :
    Did s (.respond now queryOk) s' := by
  unfold Daemon.respond at h
  split at h
  · rename_i r result hphase
    obtain ⟨interface, hstep, rfl⟩ := Option.map_eq_some_iff.1 h
    cases result with
    | ok response => exact .answer now queryOk hphase hstep
    | error e => exact .apology now queryOk hphase hstep
  · cases h

theorem step_did (h : s.step a = some s') : Did s a s' := by
  cases a with
  | elapse ms =>
    cases h
    exact .elapse ms
  | publish event =>
    cases h
    exact .publish event
  | recv =>
    simp only [step] at h
    split at h <;> cases h
    rename_i hbridge hbus
    exact .recv hbridge hbus
  | add =>
    simp only [step] at h
    split at h
    · rename_i m receivedAt hbridge
      obtain ⟨manager, hstep, rfl⟩ := Option.map_eq_some_iff.1 h
      simp only [SessionManager.step] at hstep
      split at hstep <;> cases hstep
      exact .add hbridge
    · cases h
  | insert now queryOk =>
    simp only [step] at h
    split at h <;> cases h
    rename_i hbridge
    exact .insert now queryOk hbridge
  | wake task =>
    obtain ⟨manager, hstep, h⟩ := Option.bind_eq_some_iff.1 h
    split at h
    · rename_i hbatches
      cases h
      exact .slept hstep hbatches
    · rename_i b rest hbatches
      obtain ⟨interface, hdeliver, rfl⟩ := Option.map_eq_some_iff.1 h
      exact .flushed hstep hbatches hdeliver
  | interface action => exact interfaceStep_did h
  | prompt order =>
    simp only [step] at h
    split at h
    · rename_i hphase hhistory
      split at h
      · cases h
        exact .prompt [] hphase hhistory
      · split at h <;> cases h
        exact .prompt _ hphase hhistory
    · cases h
  | respond now queryOk => exact respond_did h

end Auxlry.Daemon
