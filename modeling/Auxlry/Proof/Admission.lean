import Auxlry.Proof.Peers
import Auxlry.Proof.Tokens

/-!
# The name that a connection comes under

A connection gets its name with its first message: a link sends the name, and a start sends
a token, which the core looks up. From then on the task keeps the name, and the entry in
the registry is made under it. What is known of tokens is a relation `b token name` here:
the token is stored under this name at most.

* `LinksGet.step`: links get tokens with `b` for the names that they sent.
* `ComesAs.step`: a start with a token for `name` comes under that name.
-/

namespace Auxlry

/-- The name of the node behind a connection, once the core has it. -/
def Task.name : Task → Option String
  | .consumed n | .stored n _ | .found n | .authenticated n | .registered n | .announced n | .serving n _
  | .left n | .unregistered n => some n
  | _ => none

namespace Core

variable {s s' : Core} {a : CoreAction} {c : ℕ} {m : String}

/-- A task gets its name with the first message. -/
theorem Turn.name {t t' : Task} (h : Turn s c a t t') (hm : t'.name = some m) :
    t.name = some m ∨ (∃ code, a = .receive c (.authRequest code m) true) ∨
      ∃ token, a = .receive c (.tokenAuth token) true ∧ s.db.findNodeByToken token = some m := by
  cases h with
  | @consume code name pending =>
    cases hm
    exact .inr (.inl ⟨code, rfl⟩)
  | @findToken token name found =>
    cases hm
    exact .inr (.inr ⟨token, rfl, found⟩)
  | replied pending =>
    cases hm
    rcases pendingReply_cases pending with ⟨n, token, rfl, -, hn⟩ | ⟨n, rfl, -, hn⟩ | ⟨-, hn⟩
    · exact .inl hn.symm
    · exact .inl hn.symm
    · cases hn
  | accept | noMessage | reject | tokenLost | rejected | notSent | noWorkspace | publishDisconnected => cases hm
  | storeToken | register | publishConnected | createWorkspace | leave | unregister => exact .inl hm

theorem name_step (h : s.step a = some s') (hm : (s'.task c).name = some m) :
    (s.task c).name = some m ∨ (∃ code, a = .receive c (.authRequest code m) true) ∨
      ∃ token, a = .receive c (.tokenAuth token) true ∧ s.db.findNodeByToken token = some m := by
  rcases step_turn h c with ⟨-, hsame⟩ | hturn
  · exact .inl (hsame ▸ hm)
  · exact hturn.name hm

theorem stored_step (h : s.step a = some s') {token : String} (hm : s'.task c = .stored m token) :
    s.task c = .stored m token ∨ a = .storeToken c token true ∧ s.task c = .consumed m := by
  have hturn := step_turn h c
  rw [hm] at hturn
  rcases hturn with ⟨-, hsame⟩ | hturn
  · exact .inl hsame.symm
  · generalize s.task c = t at hturn
    cases hturn
    exact .inr ⟨rfl, rfl⟩

/-- A connection that is refused gets no token. -/
theorem rejecting_step (h : s.step a = some s') {token : Option String}
    (hr : s'.task c = .rejecting (.authResponse true token)) :
    s.task c = .rejecting (.authResponse true token) := by
  have hturn := step_turn h c
  rw [hr] at hturn
  rcases hturn with ⟨-, hsame⟩ | hturn
  · exact hsame.symm
  · generalize s.task c = t at hturn
    generalize hreply : ProtocolMessage.authResponse true token = reply at hturn
    cases hturn with
    | @reject msg => cases msg <;> cases hreply

end Core

namespace Peer

variable {p p' : Peer} {msg : ProtocolMessage}

/-- Reading a reply and quitting keep what the peer has sent. -/
theorem sends_hear (h : p.hear msg = some p') : p'.sends = p.sends := by
  unfold hear at h
  split at h
  · split at h <;> cases h <;> rfl
  · split at h <;> cases h <;> rfl
  · cases h

theorem sends_quit (h : p.quit = some p') : p'.sends = p.sends := by
  unfold quit at h
  split at h <;> cases h <;> rfl

/-- A link saves the token of its reply. -/
theorem saving_hear {code name token : String} (h : p.hear msg = some p')
    (hp' : p' = .link code name (.saving token)) : msg = .authResponse true (some token) := by
  subst hp'
  unfold hear at h
  split at h
  · split at h <;> cases h
    rename_i hresult
    unfold NodeCmd.linkResult at hresult
    split at hresult <;> cases hresult
    rfl
  · split at h <;> cases h
  · cases h

theorem saving_quit {code name token : String} (h : p.quit = some p') : p' ≠ .link code name (.saving token) := by
  rintro rfl
  unfold quit at h
  split at h <;> cases h

end Peer

namespace PeerNet

variable {s s' : PeerNet} {a : Action} {c : ℕ} {b b' : String → String → Prop}

/-- A peer sends one message, and no step takes it back. -/
theorem sends_step (h : s.step a = some s') {msg : ProtocolMessage} (hsent : (s.peer c).sends = some msg) :
    (s'.peer c).sends = some msg := by
  have hother : ∀ {c' : ℕ} {p : Peer}, s.peer c' = .absent ∨ p.sends = (s.peer c').sends →
      ((s.setPeer c' p).peer c).sends = some msg := by
    intro c' p hsends
    rcases eq_or_ne c c' with rfl | hc
    · rcases hsends with habsent | hsame
      · rw [habsent] at hsent
        cases hsent
      · rw [setPeer_self, hsame, hsent]
    · rw [setPeer_ne p hc, hsent]
  cases step_move h with
  | core => exact hsent
  | openLink peer | openStart peer => exact hother (.inl peer)
  | hear sent hear => exact hother (.inr (Peer.sends_hear hear))
  | quit quit => exact hother (.inr (Peer.sends_quit quit))

/-! ## Links -/

/-- The links of a core get tokens with `b` for the names that they sent. -/
structure LinksGet (b : String → String → Prop) (s : PeerNet) : Prop where
  peers : s.Inv
  named : ∀ c code name m, (s.peer c).sends = some (.authRequest code name) → (s.core.task c).name = some m →
    m = name
  stored : ∀ c m token, s.core.task c = .stored m token → b token m
  replied : ∀ c code name token, (s.peer c).sends = some (.authRequest code name) →
    .reply c (.authResponse true (some token)) ∈ s.core.log → b token name
  saving : ∀ c code name token, s.peer c = .link code name (.saving token) → b token name
  refused : ∀ c token, s.core.task c ≠ .rejecting (.authResponse true token)

/-- A connection that nobody has opened yet. -/
theorem Inv.unopened (hJ : s.Inv) (hpeer : s.peer c = .absent) :
    s.core.task c = .absent ∧ (∀ msg, .reply c msg ∉ s.core.log) ∧
      ∀ key m, s.core.registry.get key ≠ some (.remoteNode m c) := by
  have htask := hJ.opened c hpeer
  refine ⟨htask, fun msg => hJ.silent c msg (by rw [htask]; trivial), fun key m hget => ?_⟩
  have hentered := hJ.entered key m c hget
  rw [htask] at hentered
  exact hentered

theorem LinksGet.mono (hJ : s.LinksGet b) (h : ∀ token name, b token name → b' token name) : s.LinksGet b' where
  peers := hJ.peers
  named := hJ.named
  stored := fun c m token htask => h _ _ (hJ.stored c m token htask)
  replied := fun c code name token hsends hlog => h _ _ (hJ.replied c code name token hsends hlog)
  saving := fun c code name token hpeer => h _ _ (hJ.saving c code name token hpeer)
  refused := hJ.refused

/-- A peer that goes on, or a new one. -/
theorem LinksGet.setPeer (hJ : s.LinksGet b) {p : Peer} (hinv : (s.setPeer c p).Inv)
    (hsends : s.peer c = .absent ∨ p.sends = (s.peer c).sends)
    (hsaving : ∀ code name token, p = .link code name (.saving token) → b token name) :
    (s.setPeer c p).LinksGet b where
  peers := hinv
  named := by
    intro c' code name m hsent hname
    rcases eq_or_ne c' c with rfl | hc
    · rw [setPeer_self] at hsent
      rcases hsends with habsent | hsame
      · rw [setPeer_core, (hJ.peers.unopened habsent).1] at hname
        cases hname
      · exact hJ.named c' code name m (hsame ▸ hsent) hname
    · exact hJ.named c' code name m (setPeer_ne p hc ▸ hsent) hname
  stored := hJ.stored
  replied := by
    intro c' code name token hsent hlog
    rcases eq_or_ne c' c with rfl | hc
    · rw [setPeer_self] at hsent
      rcases hsends with habsent | hsame
      · exact absurd hlog ((hJ.peers.unopened habsent).2.1 _)
      · exact hJ.replied c' code name token (hsame ▸ hsent) hlog
    · exact hJ.replied c' code name token (setPeer_ne p hc ▸ hsent) hlog
  saving := by
    intro c' code name token hpeer
    rcases eq_or_ne c' c with rfl | hc
    · exact hsaving code name token (setPeer_self s c' p ▸ hpeer)
    · exact hJ.saving c' code name token (setPeer_ne p hc ▸ hpeer)
  refused := hJ.refused

/-- A step of the core; the token that it stores has `b`. -/
theorem LinksGet.core (hJ : s.LinksGet b) {action : CoreAction} {core : Core} (hcarries : s.Carries action)
    (h : s.core.step action = some core)
    (hnew : ∀ c name token, action = .storeToken c token true → s.core.task c = .consumed name → b token name) :
    LinksGet b { s with core := core } where
  peers := hJ.peers.core hcarries h
  named := by
    intro c code name m hsent hname
    rcases Core.name_step h hname with hold | ⟨code', rfl⟩ | ⟨token, rfl, -⟩
    · exact hJ.named c code name m hsent hold
    · have hsame : some (ProtocolMessage.authRequest code' m) = some (.authRequest code name) :=
        hcarries.symm.trans hsent
      cases hsame; rfl
    · have hsame : some (ProtocolMessage.tokenAuth token) = some (.authRequest code name) :=
        hcarries.symm.trans hsent
      cases hsame
  stored := by
    intro c m token htask
    rcases Core.stored_step h htask with hold | ⟨ha, hconsumed⟩
    · exact hJ.stored c m token hold
    · exact hnew c m token ha hconsumed
  replied := by
    intro c code name token hsent hlog
    rcases Core.replied_step h hlog with hold | ⟨-, m, hpending⟩
    · exact hJ.replied c code name token hsent hold
    · -- the reply takes the token that was stored, under the name that was sent
      rcases Core.pendingReply_cases hpending with ⟨n, token', task, hreply, -⟩ | ⟨-, -, hreply, -⟩ | ⟨task, -⟩
      · cases hreply
        have hname := hJ.named c code name n hsent (by rw [task]; rfl)
        exact hname ▸ hJ.stored c n token task
      · cases hreply
      · exact absurd task (hJ.refused c _)
  saving := hJ.saving
  refused := fun c token hr => hJ.refused c token (Core.rejecting_step h hr)

/-- **A step keeps it** that links get tokens with `b`, if what is stored has `b`. -/
theorem LinksGet.step (hJ : s.LinksGet b) (h : s.step a = some s')
    (hnew : ∀ c name token, a = .core (.storeToken c token true) → s.core.task c = .consumed name → b token name) :
    s'.LinksGet b := by
  have hinv := hJ.peers.step h
  cases step_move h with
  | core carries step =>
    refine hJ.core carries step fun c name token ha => ?_
    exact hnew c name token (congrArg Action.core ha)
  | openLink peer => exact hJ.setPeer hinv (.inl peer) nofun
  | openStart peer => exact hJ.setPeer hinv (.inl peer) nofun
  | @hear c msg p sent hear =>
    refine hJ.setPeer hinv (.inr (Peer.sends_hear hear)) fun code name token hp => ?_
    -- the reply was written to a link of this name
    have hsends : (s.peer c).sends = some (.authRequest code name) := by
      rw [← Peer.sends_hear hear, hp]
      rfl
    exact hJ.replied c code name token hsends (Peer.saving_hear hear hp ▸ sent)
  | quit quit =>
    exact hJ.setPeer hinv (.inr (Peer.sends_quit quit)) fun code name token hp => absurd hp (Peer.saving_quit quit)

theorem linksGet_init (workspace : String) (nodeCfg : Option (String × NodeMode)) (db : Database) (now : ℕ) :
    (init (Core.init workspace nodeCfg db now)).LinksGet b where
  peers := inv_init workspace nodeCfg db now
  named := fun _ _ _ _ hsends => by cases hsends
  stored := fun _ _ _ htask => by cases htask
  replied := fun _ _ _ _ hsends => by cases hsends
  saving := fun _ _ _ _ hpeer => by cases hpeer
  refused := fun _ _ htask => by cases htask

/-! ## Starts -/

/-- The start on this connection has a token with `b` for `name`, and comes under that name. -/
structure ComesAs (b : String → String → Prop) (s : PeerNet) (c : ℕ) (name : String) : Prop where
  token : ∃ token, (s.peer c).sends = some (.tokenAuth token) ∧ b token name
  task : ∀ m, (s.core.task c).name = some m → m = name
  entry : ∀ key m, s.core.registry.get key = some (.remoteNode m c) → key = name ∧ m = name

variable {name : String}

theorem ComesAs.mono (hJ : s.ComesAs b c name) (h : ∀ token, b token name → b' token name) :
    s.ComesAs b' c name where
  token := hJ.token.imp fun token htoken => htoken.imp_right (h token)
  task := hJ.task
  entry := hJ.entry

/-- **A step keeps it** that a start comes under the name that its token is stored under. -/
theorem ComesAs.step (hJ : s.ComesAs b c name) (h : s.step a = some s')
    (hfind : ∀ token m, b token name → s.core.db.findNodeByToken token = some m → m = name) :
    s'.ComesAs b c name := by
  obtain ⟨token, hsent, hb⟩ := hJ.token
  have hsent' := sends_step h hsent
  cases step_move h with
  | core carries step =>
    refine ⟨⟨token, hsent', hb⟩, fun m hname => ?_, fun key m hget => ?_⟩
    · rcases Core.name_step step hname with hold | ⟨code, rfl⟩ | ⟨token', rfl, hfound⟩
      · exact hJ.task m hold
      · have hsame : some (ProtocolMessage.authRequest code m) = some (.tokenAuth token) := carries.symm.trans hsent
        cases hsame
      · have hsame : some (ProtocolMessage.tokenAuth token') = some (.tokenAuth token) := carries.symm.trans hsent
        cases hsame
        exact hfind token m hb hfound
    · rcases Core.entry_step step hget with hold | ⟨-, htask, rfl⟩
      · exact hJ.entry key m hold
      · have hname := hJ.task key (by rw [htask]; rfl)
        exact ⟨hname, hname⟩
  | _ => exact ⟨⟨token, hsent', hb⟩, hJ.task, hJ.entry⟩

/-- A start that opens a connection. -/
theorem comesAs_openStart (hJ : s.Inv) (hpeer : s.peer c = .absent) {token : String} (hb : b token name) :
    (s.setPeer c (.start token .waiting)).ComesAs b c name where
  token := ⟨token, by rw [setPeer_self]; rfl, hb⟩
  task := by
    intro m hname
    rw [setPeer_core, (hJ.unopened hpeer).1] at hname
    cases hname
  entry := fun key m hget => absurd hget ((hJ.unopened hpeer).2.2 key m)

end PeerNet

end Auxlry
