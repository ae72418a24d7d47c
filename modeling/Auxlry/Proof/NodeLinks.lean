import Auxlry.Proof.Admission
import Auxlry.Spec.NodeLinks

/-!
# A node appears under the name that it was linked as

A node that is started under a name should be registered under that name, at the core that
it was linked to, whatever other names are linked on the machine. But all links save to
the same two files. `LinkLog` remembers what the links of each name have saved, to compare
with what a start reads.

* `nameHeld_iff`: nodes appear under their names, with what was saved for them, **exactly
  in the runs where** no link of another name has saved its token since, nor another address,
  when a start reads them.
* `second_link_renames`: the node `a` is started after `b` was linked, and comes as `b`.
-/

namespace Auxlry

/-- A connection that a start has opened. -/
structure StartConn where
  name : String
  core : ℕ
  conn : ℕ
  /-- the core that the name was linked to when the start read the address -/
  linked : Option ℕ
  deriving DecidableEq, Repr

/-- A machine, and what its links and starts have done. -/
structure LinkLog where
  machine : NodeMachine
  /-- whose link was the last to save a token -/
  tokenBy : Option String
  /-- what the links of each name have saved -/
  own : String → LinkFiles
  linkedTo : String → Option ℕ
  /-- the core that the name of a start was linked to when it read the address -/
  linkedAt : ℕ → Option ℕ
  /-- what starts have read, and what the links of their names have saved -/
  reads : List (Except String String × Except String String)
  conns : List StartConn
  /-- the tokens that the cores have stored -/
  minted : List NodeToken

/-- What a step adds to the tables of tokens. -/
def PeerNet.mints (s : PeerNet) : PeerNet.Action → List NodeToken
  | .core a => s.core.storedToken a
  | _ => []

namespace LinkLog

open NodeMachine

def init (net : ℕ → PeerNet) : LinkLog :=
  ⟨.init net, none, fun _ => ⟨none, none⟩, fun _ => none, fun _ => none, [], [], []⟩

/-- The log after a step of the machine. -/
def note (A : Addresses) (s : LinkLog) (m : NodeMachine) : Action → LinkLog
  | .net k a => { s with machine := m, minted := s.minted ++ (s.machine.net k).mints a }
  | .saveToken pid true =>
    match s.machine.proc pid with
    | .linking name _ _ _ =>
      { s with
        machine := m
        tokenBy := some name
        own := Function.update s.own name { s.own name with tokenFile := m.files.tokenFile } }
    | _ => { s with machine := m }
  | .saveAddr pid true =>
    match s.machine.proc pid with
    | .tokenSaved name addr =>
      { s with
        machine := m
        own := Function.update s.own name { s.own name with coreAddrFile := m.files.coreAddrFile }
        linkedTo := Function.update s.linkedTo name (A.core addr) }
    | _ => { s with machine := m }
  | .start _ name =>
    { s with
      machine := m
      reads := s.reads ++ [(s.machine.files.readTokenFile, (s.own name).readTokenFile)] }
  | .readAddr pid =>
    match s.machine.proc pid with
    | .tokenRead name _ =>
      { s with
        machine := m
        linkedAt := Function.update s.linkedAt pid (s.linkedTo name)
        reads := s.reads ++ [(s.machine.files.readCoreAddr, (s.own name).readCoreAddr)] }
    | _ => { s with machine := m }
  | .connect pid c =>
    match s.machine.proc pid with
    | .started name _ k _ => { s with machine := m, conns := s.conns ++ [⟨name, k, c, s.linkedAt pid⟩] }
    | _ => { s with machine := m }
  | _ => { s with machine := m }

/-- A step of the machine. -/
def step (A : Addresses) (s : LinkLog) (a : Action) : Option LinkLog :=
  (s.machine.step A a).map fun m => s.note A m a

def core (s : LinkLog) (k : ℕ) : Core := (s.machine.net k).core

/-- What one expects of names. Starts read what the links of their names have saved. One that
the core has let in gets an entry under its name, at the core that it was linked to, and no
other entry leads to it. -/
structure NameHeld (s : LinkLog) : Prop where
  reads : ∀ r ∈ s.reads, r.1 = r.2
  registers : ∀ x ∈ s.conns, ∀ m, (s.core x.core).task x.conn = .authenticated m →
    m = x.name ∧ x.linked = some x.core ∧ ∃ core, (s.core x.core).step (.register x.conn) = some core ∧
      core.registry.get x.name = some (.remoteNode x.name x.conn)
  entries : ∀ x ∈ s.conns, ∀ key m, (s.core x.core).registry.get key = some (.remoteNode m x.conn) →
    key = x.name ∧ m = x.name ∧ x.linked = some x.core

/-- A start reads the token when no link of another name was the last to save one, and the
address when it is the one that was saved for its name. -/
def ReadsOwn (s : LinkLog) : Action → Prop
  | .start _ name => s.tokenBy = none ∨ s.tokenBy = some name
  | .readAddr pid =>
    match s.machine.proc pid with
    | .tokenRead name _ => s.machine.files.coreAddrFile = (s.own name).coreAddrFile
    | _ => True
  | _ => True

/-- A token that is generated was not there before, at any core. -/
def NewToken (s : LinkLog) : Action → Prop
  | .net _ (.core (.storeToken _ token true)) =>
    (token ≠ "" ∧ trim token = token) ∧ (∀ row ∈ s.minted, row.token ≠ token) ∧
      ∀ k, ∀ row ∈ (s.core k).db.nodeTokens, row.token ≠ token
  | _ => True

variable {A : Addresses} {s s' : LinkLog} {a : Action} {token name : String}

/-! ## The steps -/

/-- The steps of a core, a peer or a command, with what they note. -/
inductive Move (A : Addresses) (s : LinkLog) : Action → LinkLog → Prop
  | net {k : ℕ} {action : PeerNet.Action} {net : PeerNet} (step : (s.machine.net k).step action = some net) :
      Move A s (.net k action)
        { s with
          machine := s.machine.setNet k net
          minted := s.minted ++ (s.machine.net k).mints action }
  | link {pid k c : ℕ} {name addr code : String} {net : PeerNet} (reached : A.core addr = some k)
      (step : (s.machine.net k).step (.openLink c code name) = some net) :
      Move A s (.link pid name addr code c)
        { s with machine := (s.machine.setNet k net).setProc pid (.linking name addr k c) }
  | saveToken {pid k c : ℕ} {name addr code name' token : String}
      (proc : s.machine.proc pid = .linking name addr k c)
      (peer : (s.machine.net k).peer c = .link code name' (.saving token)) :
      Move A s (.saveToken pid true)
        { s with
          machine := { s.machine with files := { s.machine.files with tokenFile := some token } }.setProc pid
            (.tokenSaved name addr)
          tokenBy := some name
          own := Function.update s.own name { s.own name with tokenFile := some token } }
  | saveAddr {pid : ℕ} {name addr : String} (proc : s.machine.proc pid = .tokenSaved name addr) :
      Move A s (.saveAddr pid true)
        { s with
          machine := { s.machine with files := { s.machine.files with coreAddrFile := some addr } }.setProc pid
            .exited
          own := Function.update s.own name { s.own name with coreAddrFile := some addr }
          linkedTo := Function.update s.linkedTo name (A.core addr) }
  | start {pid : ℕ} {name : String} :
      Move A s (.start pid name)
        { s with
          machine := s.machine.setProc pid (s.machine.afterToken name)
          reads := s.reads ++ [(s.machine.files.readTokenFile, (s.own name).readTokenFile)] }
  | readAddr {pid : ℕ} {name token : String} (proc : s.machine.proc pid = .tokenRead name token) :
      Move A s (.readAddr pid)
        { s with
          machine := s.machine.setProc pid (s.machine.afterAddr A name token)
          linkedAt := Function.update s.linkedAt pid (s.linkedTo name)
          reads := s.reads ++ [(s.machine.files.readCoreAddr, (s.own name).readCoreAddr)] }
  | connect {pid k c : ℕ} {name token : String} {last : Option ℕ} {net : PeerNet}
      (proc : s.machine.proc pid = .started name token k last)
      (step : (s.machine.net k).step (.openStart c token) = some net) :
      Move A s (.connect pid c)
        { s with
          machine := (s.machine.setNet k net).setProc pid (.started name token k (some c))
          conns := s.conns ++ [⟨name, k, c, s.linkedAt pid⟩] }
  | ends {a : Action} {pid : ℕ} (own : s.ReadsOwn a) :
      Move A s a { s with machine := s.machine.setProc pid .exited }

/-- **The steps**, with what they note. -/
theorem step_move (h : s.step A a = some s') : s.Move A a s' := by
  obtain ⟨m, hm, rfl⟩ := Option.map_eq_some_iff.1 h
  cases a with
  | net k action =>
    obtain ⟨net, hnet, rfl⟩ := Option.map_eq_some_iff.1 hm
    exact .net hnet
  | link pid name addr code c =>
    simp only [NodeMachine.step] at hm
    split at hm
    · rename_i hreached
      obtain ⟨net, hnet, rfl⟩ := Option.map_eq_some_iff.1 hm
      exact .link hreached hnet
    · cases hm
  | saveToken pid ok =>
    simp only [NodeMachine.step] at hm
    split at hm
    · rename_i name addr k c hproc
      split at hm
      · rename_i hpeer
        cases ok with
        | true =>
          cases hm
          simp only [note, hproc]
          exact .saveToken hproc hpeer
        | false => cases hm; exact .ends trivial
      · cases hm
    · cases hm
  | saveAddr pid ok =>
    simp only [NodeMachine.step] at hm
    split at hm
    · rename_i name addr hproc
      cases ok with
      | true =>
        cases hm
        simp only [note, hproc]
        exact .saveAddr hproc
      | false => cases hm; exact .ends trivial
    · cases hm
  | start pid name =>
    simp only [NodeMachine.step] at hm
    split at hm <;> cases hm
    exact .start
  | readAddr pid =>
    simp only [NodeMachine.step] at hm
    split at hm <;> cases hm
    rename_i hproc
    simp only [note, hproc]
    exact .readAddr hproc
  | connect pid c =>
    simp only [NodeMachine.step] at hm
    split at hm
    · rename_i hproc
      obtain ⟨-, hm⟩ := Option.ite_none_right_eq_some.1 hm
      obtain ⟨net, hnet, rfl⟩ := Option.map_eq_some_iff.1 hm
      simp only [note, hproc]
      exact .connect hproc hnet
    · cases hm
  | exit pid =>
    simp only [NodeMachine.step] at hm
    split at hm <;> cases hm
    exact .ends trivial

/-! ## Tokens -/

/-- The token was stored for this name, and for no other. -/
structure Belongs (s : LinkLog) (token name : String) : Prop where
  spelled : token ≠ "" ∧ trim token = token
  mem : ⟨name, token⟩ ∈ s.minted
  minted : ∀ row ∈ s.minted, row.token = token → row.nodeName = name
  table : ∀ k, ∀ row ∈ (s.core k).db.nodeTokens, row.token = token → row.nodeName = name

theorem Belongs.unique {name' : String} (h : s.Belongs token name) (h' : s.Belongs token name') : name = name' :=
  h'.minted _ h.mem rfl

/-- What a core finds for a token is its name. -/
theorem Belongs.found (h : s.Belongs token name) {k : ℕ} {m : String}
    (hfound : (s.core k).db.findNodeByToken token = some m) : m = name :=
  h.table k _ (Issued.mem_of_find hfound) rfl

/-- What a step of the cores, the peers and the commands keeps. -/
structure Evolves (s s' : LinkLog) : Prop where
  belongs : ∀ {token name}, s.Belongs token name → s'.Belongs token name
  links : ∀ {k}, (s.machine.net k).LinksGet s.Belongs → (s'.machine.net k).LinksGet s'.Belongs
  comes : ∀ {k c name}, (s.machine.net k).ComesAs s.Belongs c name → (s'.machine.net k).ComesAs s'.Belongs c name
  sends : ∀ {k c msg}, ((s.machine.net k).peer c).sends = some msg → ((s'.machine.net k).peer c).sends = some msg

/-- Away from the cores. -/
theorem evolves_away (hnet : s'.machine.net = s.machine.net) (hminted : s'.minted = s.minted) : s.Evolves s' := by
  have hbelongs : ∀ {token name}, s.Belongs token name → s'.Belongs token name := by
    intro token name h
    refine ⟨h.spelled, hminted ▸ h.mem, hminted ▸ h.minted, ?_⟩
    unfold core
    rw [hnet]
    exact h.table
  exact ⟨hbelongs, fun h => hnet ▸ h.mono fun _ _ => hbelongs, fun h => hnet ▸ h.mono fun _ => hbelongs,
    fun h => hnet ▸ h⟩

section Net

variable {k : ℕ} {action : PeerNet.Action} {net : PeerNet}

/-- The tables of tokens grow by what is noted. -/
theorem mints_step {n n' : PeerNet} (h : n.step action = some n') :
    n'.core.db.nodeTokens = n.core.db.nodeTokens ∧ n.mints action = [] ∨
      ∃ c name token, action = .core (.storeToken c token true) ∧ n.core.task c = .consumed name ∧
        n.mints action = [⟨name, token⟩] ∧ n'.core.db = n.core.db.storeNodeToken name token := by
  cases PeerNet.step_move h with
  | core carries step =>
    rcases Core.table_step step with hsame | ⟨c, name, token, rfl, htask, hstored, hdb⟩
    · exact .inl hsame
    · exact .inr ⟨c, name, token, rfl, htask, hstored, hdb⟩
  | _ => exact .inl ⟨rfl, rfl⟩

theorem core_ne (hnet : s'.machine.net = Function.update s.machine.net k net) {k' : ℕ} (hk : k' ≠ k) :
    s'.machine.net k' = s.machine.net k' := by rw [hnet, Function.update_of_ne hk]

theorem core_self (hnet : s'.machine.net = Function.update s.machine.net k net) : s'.machine.net k = net := by
  rw [hnet, Function.update_self]

variable (hnet : s'.machine.net = Function.update s.machine.net k net)
  (hminted : s'.minted = s.minted ++ (s.machine.net k).mints action)
  (h : (s.machine.net k).step action = some net) (hnew : s.NewToken (.net k action))

include hnet hminted h hnew

/-- A token belongs to its name for good. -/
theorem Belongs.kept (hb : s.Belongs token name) : s'.Belongs token name := by
  have hkeep : ∀ k', k' ≠ k → ∀ row ∈ (s'.core k').db.nodeTokens, row.token = token → row.nodeName = name := by
    intro k' hk row hrow
    rw [core, core_ne hnet hk] at hrow
    exact hb.table k' row hrow
  rcases mints_step h with ⟨htable, hmints⟩ | ⟨c, name', token', rfl, -, hmints, hdb⟩
  · rw [hmints, List.append_nil] at hminted
    refine ⟨hb.spelled, hminted ▸ hb.mem, hminted ▸ hb.minted, fun k' => ?_⟩
    rcases eq_or_ne k' k with rfl | hk
    · rw [core, core_self hnet, htable]
      exact hb.table k'
    · exact hkeep k' hk
  · rw [hmints] at hminted
    -- the new token is another one
    have hother : token' ≠ token := fun he => hnew.2.1 _ hb.mem he.symm
    refine ⟨hb.spelled, ?_, ?_, fun k' => ?_⟩
    · rw [hminted]
      exact List.mem_append_left _ hb.mem
    · intro row hrow htoken
      rw [hminted] at hrow
      rcases List.mem_append.1 hrow with hrow | hrow
      · exact hb.minted row hrow htoken
      · obtain rfl := List.mem_singleton.1 hrow
        exact absurd htoken hother
    · rcases eq_or_ne k' k with rfl | hk
      · intro row hrow htoken
        rw [core, core_self hnet, hdb] at hrow
        rcases Issued.mem_storeNodeToken.1 hrow with ⟨-, hrow⟩ | rfl
        · exact hb.table k' row hrow htoken
        · exact absurd htoken hother
      · exact hkeep k' hk

/-- A new token belongs to the name that it is stored for. -/
theorem belongs_new {c : ℕ} (ha : action = .core (.storeToken c token true))
    (htask : (s.core k).task c = .consumed name) : s'.Belongs token name := by
  subst ha
  obtain ⟨hspelled, hminted', htables⟩ := hnew
  rcases mints_step h with ⟨-, hmints⟩ | ⟨c', name', token', ha, htask', hmints, hdb⟩
  · simp only [PeerNet.mints, Core.storedToken] at hmints
    rw [core] at htask
    rw [htask] at hmints
    cases hmints
  · cases ha
    obtain rfl : name = name' := Task.consumed.inj (htask.symm.trans htask')
    rw [hmints] at hminted
    refine ⟨hspelled, ?_, ?_, fun k' row hrow htoken => ?_⟩
    · rw [hminted]
      exact List.mem_append_right _ (List.mem_singleton_self _)
    · intro row hrow htoken
      rw [hminted] at hrow
      rcases List.mem_append.1 hrow with hrow | hrow
      · exact absurd htoken (hminted' row hrow)
      · rw [List.mem_singleton.1 hrow]
    · rcases eq_or_ne k' k with rfl | hk
      · rw [core, core_self hnet, hdb] at hrow
        rcases Issued.mem_storeNodeToken.1 hrow with ⟨-, hrow⟩ | rfl
        · exact absurd htoken (htables k' row hrow)
        · rfl
      · rw [core, core_ne hnet hk] at hrow
        exact absurd htoken (htables k' row hrow)

/-- A step of a core or of one of its peers. -/
theorem evolves_net : s.Evolves s' := by
  have hbelongs : ∀ {token name}, s.Belongs token name → s'.Belongs token name :=
    fun hb => hb.kept hnet hminted h hnew
  refine ⟨hbelongs, fun {k'} hlinks => ?_, fun {k' c name} hcomes => ?_, fun {k' c msg} hsends => ?_⟩
  · rcases eq_or_ne k' k with rfl | hk
    · rw [core_self hnet]
      refine (hlinks.mono fun _ _ => hbelongs).step h fun c name token ha htask => ?_
      exact belongs_new hnet hminted h hnew ha htask
    · rw [core_ne hnet hk]
      exact hlinks.mono fun _ _ => hbelongs
  · rcases eq_or_ne k' k with rfl | hk
    · rw [core_self hnet]
      exact (hcomes.step h fun token m hb hfound => hb.found hfound).mono fun _ => hbelongs
    · rw [core_ne hnet hk]
      exact hcomes.mono fun _ => hbelongs
  · rcases eq_or_ne k' k with rfl | hk
    · rw [core_self hnet]
      exact PeerNet.sends_step h hsends
    · rw [core_ne hnet hk]
      exact hsends

end Net

/-- **Every step** keeps tokens with their names, and connections with theirs. -/
theorem Move.evolves (h : s.Move A a s') (hnew : s.NewToken a) : s.Evolves s' := by
  cases h with
  | net step => exact evolves_net rfl rfl step hnew
  | link reached step | connect proc step =>
    refine evolves_net rfl ?_ step trivial
    exact (List.append_nil _).symm
  | _ => exact evolves_away rfl rfl

/-! ## The commands -/

/-- What is known of a command that stands here. -/
def Stands (A : Addresses) (s : LinkLog) (pid : ℕ) : NodeProc → Prop
  | .linking name addr k c =>
    A.core addr = some k ∧ ∃ code, ((s.machine.net k).peer c).sends = some (.authRequest code name)
  | .tokenSaved _ addr => ∃ k, A.core addr = some k
  | .tokenRead name token => s.Belongs token name
  | .started name token k _ => s.Belongs token name ∧ s.linkedAt pid = some k
  | _ => True

theorem Stands.evolves {pid : ℕ} {p : NodeProc} (hp : s.Stands A pid p) (h : s.Evolves s')
    (hlinked : s'.linkedAt pid = s.linkedAt pid) : s'.Stands A pid p := by
  cases p with
  | linking name addr k c =>
    obtain ⟨hreached, code, hsends⟩ := hp
    exact ⟨hreached, code, h.sends hsends⟩
  | tokenSaved => exact hp
  | tokenRead => exact h.belongs hp
  | started => exact ⟨h.belongs hp.1, hlinked.trans hp.2⟩
  | _ => trivial

/-- A command moves on. -/
theorem stands_setProc {pid : ℕ} {p : NodeProc} (hJ : ∀ pid, s.Stands A pid (s.machine.proc pid))
    (h : s.Evolves s') (hproc : s'.machine.proc = Function.update s.machine.proc pid p)
    (hlinked : ∀ pid', pid' ≠ pid → s'.linkedAt pid' = s.linkedAt pid') (hp : s'.Stands A pid p) :
    ∀ pid, s'.Stands A pid (s'.machine.proc pid) := by
  rw [hproc]
  refine (Function.forall_update_iff s.machine.proc fun pid p => s'.Stands A pid p).2 ⟨hp, fun pid' hne => ?_⟩
  exact (hJ pid').evolves h (hlinked pid' hne)

/-! ## The files -/

/-- What is known of the files. -/
structure Saved (A : Addresses) (s : LinkLog) : Prop where
  ownToken : ∀ n token, (s.own n).tokenFile = some token → s.Belongs token n
  ownAddr : ∀ n addr, (s.own n).coreAddrFile = some addr → ∃ k, A.core addr = some k ∧ s.linkedTo n = some k
  addr : ∀ addr, s.machine.files.coreAddrFile = some addr → ∃ k, A.core addr = some k
  noToken : s.tokenBy = none → s.machine.files.tokenFile = none ∧ ∀ n, (s.own n).tokenFile = none
  byName : ∀ n, s.tokenBy = some n →
    ∃ token, s.machine.files.tokenFile = some token ∧ (s.own n).tokenFile = some token

/-- Contents that are trimmed and not empty are read as they are. -/
theorem readTrimmed_inj {missing empty : String} {f f' : Option String}
    (hf : ∀ text, f = some text → text ≠ "" ∧ trim text = text)
    (hf' : ∀ text, f' = some text → text ≠ "" ∧ trim text = text) :
    LinkFiles.readTrimmed missing empty f = LinkFiles.readTrimmed missing empty f' ↔ f = f' := by
  have hread : ∀ {f : Option String}, (∀ text, f = some text → text ≠ "" ∧ trim text = text) →
      LinkFiles.readTrimmed missing empty f = f.elim (.error missing) .ok := by
    intro f h
    cases f with
    | none => rfl
    | some text =>
      obtain ⟨hne, htrim⟩ := h text rfl
      simp [LinkFiles.readTrimmed, htrim, hne]
  rw [hread hf, hread hf']
  cases f <;> cases f' <;> simp

namespace Saved

theorem ownToken_spelled (hJ : s.Saved A) :
    ∀ text, (s.own name).tokenFile = some text → text ≠ "" ∧ trim text = text :=
  fun text h => (hJ.ownToken name text h).spelled

theorem token_belongs (hJ : s.Saved A) {text : String} (h : s.machine.files.tokenFile = some text) :
    ∃ n, s.tokenBy = some n ∧ s.Belongs text n := by
  cases hby : s.tokenBy with
  | none =>
    rw [(hJ.noToken hby).1] at h
    cases h
  | some n =>
    obtain ⟨token, hfile, hown⟩ := hJ.byName n hby
    obtain rfl : token = text := Option.some.inj (hfile.symm.trans h)
    exact ⟨n, rfl, hJ.ownToken n token hown⟩

/-- The token file is that of a name if no link of another name has saved its token since. -/
theorem token_iff (hJ : s.Saved A) :
    s.machine.files.tokenFile = (s.own name).tokenFile ↔ s.tokenBy = none ∨ s.tokenBy = some name := by
  constructor
  · intro h
    cases hby : s.tokenBy with
    | none => exact .inl rfl
    | some n =>
      obtain ⟨token, hfile, hown⟩ := hJ.byName n hby
      have hname := hJ.ownToken name token (h ▸ hfile)
      exact .inr (by rw [(hJ.ownToken n token hown).unique hname])
  · rintro (hby | hby)
    · obtain ⟨hfile, hown⟩ := hJ.noToken hby
      rw [hfile, hown name]
    · obtain ⟨token, hfile, hown⟩ := hJ.byName name hby
      rw [hfile, hown]

theorem readTokenFile_iff (hJ : s.Saved A) :
    s.machine.files.readTokenFile = (s.own name).readTokenFile ↔ s.tokenBy = none ∨ s.tokenBy = some name := by
  rw [← hJ.token_iff]
  refine readTrimmed_inj (fun text h => ?_) hJ.ownToken_spelled
  obtain ⟨n, -, hn⟩ := hJ.token_belongs h
  exact hn.spelled

theorem addr_spelled (hJ : s.Saved A) :
    ∀ text, s.machine.files.coreAddrFile = some text → text ≠ "" ∧ trim text = text := by
  intro text h
  obtain ⟨k, hk⟩ := hJ.addr text h
  exact A.spelled text k hk

theorem readCoreAddr_iff (hJ : s.Saved A) :
    s.machine.files.readCoreAddr = (s.own name).readCoreAddr ↔
      s.machine.files.coreAddrFile = (s.own name).coreAddrFile := by
  refine readTrimmed_inj hJ.addr_spelled fun text h => ?_
  obtain ⟨k, hk, -⟩ := hJ.ownAddr name text h
  exact A.spelled text k hk

/-- A step that saves nothing. -/
theorem evolves (hJ : s.Saved A) (h : s.Evolves s') (hfiles : s'.machine.files = s.machine.files)
    (hown : s'.own = s.own) (hlinked : s'.linkedTo = s.linkedTo) (hby : s'.tokenBy = s.tokenBy) : s'.Saved A := by
  constructor
  · rw [hown]
    exact fun n token hn => h.belongs (hJ.ownToken n token hn)
  · rw [hown, hlinked]
    exact hJ.ownAddr
  · rw [hfiles]
    exact hJ.addr
  · rw [hfiles, hown, hby]
    exact hJ.noToken
  · rw [hfiles, hown, hby]
    exact hJ.byName

/-- A link saves a token of its name. -/
theorem saveToken (hJ : s.Saved A) (h : s.Evolves s') (hb : s.Belongs token name)
    (hfiles : s'.machine.files = { s.machine.files with tokenFile := some token })
    (hown : s'.own = Function.update s.own name { s.own name with tokenFile := some token })
    (hlinked : s'.linkedTo = s.linkedTo) (hby : s'.tokenBy = some name) : s'.Saved A := by
  have hself : s'.own name = { s.own name with tokenFile := some token } := by rw [hown, Function.update_self]
  have hother : ∀ n, n ≠ name → s'.own n = s.own n := fun n hne => by rw [hown, Function.update_of_ne hne]
  constructor
  · intro n text hn
    rcases eq_or_ne n name with rfl | hne
    · rw [hself] at hn
      cases hn
      exact h.belongs hb
    · exact h.belongs (hJ.ownToken n text (hother n hne ▸ hn))
  · intro n addr hn
    rw [hlinked]
    rcases eq_or_ne n name with rfl | hne
    · rw [hself] at hn
      exact hJ.ownAddr n addr hn
    · exact hJ.ownAddr n addr (hother n hne ▸ hn)
  · rw [hfiles]
    exact hJ.addr
  · intro hnone
    rw [hby] at hnone
    cases hnone
  · intro n hn
    rw [hby] at hn
    cases hn
    exact ⟨token, by rw [hfiles], by rw [hself]⟩

/-- A link saves the address of its core. -/
theorem saveAddr (hJ : s.Saved A) (h : s.Evolves s') {addr : String} (haddr : ∃ k, A.core addr = some k)
    (hfiles : s'.machine.files = { s.machine.files with coreAddrFile := some addr })
    (hown : s'.own = Function.update s.own name { s.own name with coreAddrFile := some addr })
    (hlinked : s'.linkedTo = Function.update s.linkedTo name (A.core addr)) (hby : s'.tokenBy = s.tokenBy) :
    s'.Saved A := by
  have hself : s'.own name = { s.own name with coreAddrFile := some addr } := by rw [hown, Function.update_self]
  have hother : ∀ n, n ≠ name → s'.own n = s.own n := fun n hne => by rw [hown, Function.update_of_ne hne]
  -- the tokens saved are as before
  have htoken : ∀ n, (s'.own n).tokenFile = (s.own n).tokenFile := by
    intro n
    rcases eq_or_ne n name with rfl | hne
    · rw [hself]
    · rw [hother n hne]
  constructor
  · exact fun n text hn => h.belongs (hJ.ownToken n text (htoken n ▸ hn))
  · intro n text hn
    rw [hlinked]
    rcases eq_or_ne n name with rfl | hne
    · rw [hself] at hn
      cases hn
      obtain ⟨k, hk⟩ := haddr
      exact ⟨k, hk, by rw [Function.update_self, hk]⟩
    · rw [Function.update_of_ne hne]
      exact hJ.ownAddr n text (hother n hne ▸ hn)
  · intro text htext
    rw [hfiles] at htext
    cases htext
    exact haddr
  · intro hnone
    obtain ⟨hfile, hall⟩ := hJ.noToken (hby ▸ hnone)
    exact ⟨by rw [hfiles, hfile], fun n => (htoken n).trans (hall n)⟩
  · intro n hn
    obtain ⟨token, hfile, hsaved⟩ := hJ.byName n (hby ▸ hn)
    exact ⟨token, by rw [hfiles, hfile], (htoken n).trans hsaved⟩

end Saved

/-! ## A run -/

structure Inv (A : Addresses) (s : LinkLog) : Prop where
  links : ∀ k, (s.machine.net k).LinksGet s.Belongs
  conns : ∀ x ∈ s.conns, x.linked = some x.core ∧ (s.machine.net x.core).ComesAs s.Belongs x.conn x.name
  stands : ∀ pid, s.Stands A pid (s.machine.proc pid)
  saved : s.Saved A

/-- A start that reads the token of its own name. -/
theorem Inv.afterToken (hJ : s.Inv A) {pid : ℕ} (hg : s.ReadsOwn (.start pid name)) (h : s.Evolves s') :
    s'.Stands A pid (s.machine.afterToken name) := by
  unfold NodeMachine.afterToken
  split
  · rename_i token hread
    have hown := hJ.saved.token_iff.2 hg
    unfold LinkFiles.readTokenFile at hread
    cases hfile : s.machine.files.tokenFile with
    | none =>
      rw [hfile] at hread
      cases hread
    | some text =>
      have hbelongs := hJ.saved.ownToken name text (hown ▸ hfile)
      obtain ⟨hne, htrim⟩ := hbelongs.spelled
      simp only [hfile, LinkFiles.readTrimmed, htrim, hne, if_false, Except.ok.injEq] at hread
      exact h.belongs (hread ▸ hbelongs)
  · trivial

/-- A start that reads the address of its own name. -/
theorem Inv.afterAddr (hJ : s.Inv A) {pid : ℕ} (hproc : s.machine.proc pid = .tokenRead name token)
    (hg : s.ReadsOwn (.readAddr pid)) (h : s.Evolves s') (hlinked : s'.linkedAt pid = s.linkedTo name) :
    s'.Stands A pid (s.machine.afterAddr A name token) := by
  have hbelongs : s.Belongs token name := by
    have hstands := hJ.stands pid
    rw [hproc] at hstands
    exact hstands
  have hown : s.machine.files.coreAddrFile = (s.own name).coreAddrFile := by
    simpa only [ReadsOwn, hproc] using hg
  unfold NodeMachine.afterAddr
  split
  · rename_i addr hread
    split
    · rename_i k hk
      unfold LinkFiles.readCoreAddr at hread
      cases hfile : s.machine.files.coreAddrFile with
      | none =>
        rw [hfile] at hread
        cases hread
      | some text =>
        obtain ⟨k', hk', hto⟩ := hJ.saved.ownAddr name text (hown ▸ hfile)
        obtain ⟨hne, htrim⟩ := A.spelled text k' hk'
        simp only [hfile, LinkFiles.readTrimmed, htrim, hne, if_false, Except.ok.injEq] at hread
        subst hread
        obtain rfl : k' = k := Option.some.inj (hk'.symm.trans hk)
        exact ⟨h.belongs hbelongs, hlinked.trans hto⟩
    · trivial
  · trivial

/-- The token that a link saves belongs to its name. -/
theorem Inv.savedToken (hJ : s.Inv A) {pid k c : ℕ} {addr code name' : String}
    (hproc : s.machine.proc pid = .linking name addr k c)
    (hpeer : (s.machine.net k).peer c = .link code name' (.saving token)) : s.Belongs token name := by
  have hstands := hJ.stands pid
  rw [hproc] at hstands
  obtain ⟨-, code', hsends⟩ := hstands
  rw [hpeer] at hsends
  cases hsends
  exact (hJ.links k).saving c code name token hpeer

theorem Inv.step (hJ : s.Inv A) (hnew : s.NewToken a) (hg : s.ReadsOwn a) (h : s.step A a = some s') :
    s'.Inv A := by
  have hmove := step_move h
  have hevolves := hmove.evolves hnew
  have hlinks : ∀ k, (s'.machine.net k).LinksGet s'.Belongs := fun k => hevolves.links (hJ.links k)
  have hconns : ∀ x ∈ s.conns, x.linked = some x.core ∧ (s'.machine.net x.core).ComesAs s'.Belongs x.conn x.name :=
    fun x hx => (hJ.conns x hx).imp_right hevolves.comes
  have hstands : ∀ {pid : ℕ} {p : NodeProc}, s'.machine.proc = Function.update s.machine.proc pid p →
      (∀ pid', pid' ≠ pid → s'.linkedAt pid' = s.linkedAt pid') → s'.Stands A pid p →
      ∀ pid, s'.Stands A pid (s'.machine.proc pid) := stands_setProc hJ.stands hevolves
  cases hmove with
  | net =>
    exact ⟨hlinks, hconns, fun pid => (hJ.stands pid).evolves hevolves rfl,
      hJ.saved.evolves hevolves rfl rfl rfl rfl⟩
  | ends =>
    exact ⟨hlinks, hconns, hstands rfl (fun _ _ => rfl) trivial, hJ.saved.evolves hevolves rfl rfl rfl rfl⟩
  | @link pid k c name addr code net reached step =>
    have hsends : (net.peer c).sends = some (.authRequest code name) := by
      cases PeerNet.step_move step
      rw [PeerNet.setPeer_self]
      rfl
    refine ⟨hlinks, hconns, hstands rfl (fun _ _ => rfl) ⟨reached, code, ?_⟩,
      hJ.saved.evolves hevolves rfl rfl rfl rfl⟩
    rw [core_self (s := s) rfl]
    exact hsends
  | @saveToken pid k c name addr code name' token proc peer =>
    have hreached : ∃ k, A.core addr = some k := by
      have hp := hJ.stands pid
      rw [proc] at hp
      exact ⟨k, hp.1⟩
    exact ⟨hlinks, hconns, hstands rfl (fun _ _ => rfl) hreached,
      hJ.saved.saveToken hevolves (hJ.savedToken proc peer) rfl rfl rfl rfl⟩
  | @saveAddr pid name addr proc =>
    have hreached : ∃ k, A.core addr = some k := by
      have hp := hJ.stands pid
      rw [proc] at hp
      exact hp
    exact ⟨hlinks, hconns, hstands rfl (fun _ _ => rfl) trivial,
      hJ.saved.saveAddr hevolves hreached rfl rfl rfl rfl⟩
  | @start pid name =>
    exact ⟨hlinks, hconns, hstands rfl (fun _ _ => rfl) (hJ.afterToken hg hevolves),
      hJ.saved.evolves hevolves rfl rfl rfl rfl⟩
  | @readAddr pid name token proc =>
    have hp := hJ.afterAddr proc hg hevolves (Function.update_self ..)
    exact ⟨hlinks, hconns, hstands rfl (fun pid' hne => Function.update_of_ne hne ..) hp,
      hJ.saved.evolves hevolves rfl rfl rfl rfl⟩
  | @connect pid k c name token last net proc step =>
    have hp := hJ.stands pid
    rw [proc] at hp
    obtain ⟨hbelongs, hlinked⟩ := hp
    refine ⟨hlinks, fun x hx => ?_, hstands rfl (fun _ _ => rfl) ⟨hevolves.belongs hbelongs, hlinked⟩,
      hJ.saved.evolves hevolves rfl rfl rfl rfl⟩
    rcases List.mem_append.1 hx with hx | hx
    · exact hconns x hx
    · obtain rfl := List.mem_singleton.1 hx
      refine ⟨hlinked, ?_⟩
      rw [core_self (s := s) rfl]
      cases PeerNet.step_move step with
      | openStart peer => exact PeerNet.comesAs_openStart (hJ.links k).peers peer (hevolves.belongs hbelongs)

/-- Connections that come under their names are registered under them. -/
theorem Inv.nameHeld (hJ : s.Inv A) (hreads : ∀ r ∈ s.reads, r.1 = r.2) : s.NameHeld where
  reads := hreads
  registers := by
    intro x hx m htask
    obtain ⟨hlinked, hcomes⟩ := hJ.conns x hx
    obtain rfl := hcomes.task m (show Task.name ((s.core x.core).task x.conn) = some m by rw [htask]; rfl)
    refine ⟨rfl, hlinked, ?_⟩
    simp only [Core.step, htask, Option.some.injEq, exists_eq_left']
    exact Core.get_register_self ..
  entries := by
    intro x hx key m hget
    obtain ⟨hlinked, hcomes⟩ := hJ.conns x hx
    obtain ⟨hkey, hm⟩ := hcomes.entry key m hget
    exact ⟨hkey, hm, hlinked⟩

/-- What a step adds to what starts have read is right if the start reads what is its own. -/
theorem reads_step (hJ : s.Saved A) (hreads : ∀ r ∈ s.reads, r.1 = r.2) (h : s.step A a = some s') :
    (∀ r ∈ s'.reads, r.1 = r.2) ↔ s.ReadsOwn a := by
  have happend : ∀ {r : Except String String × Except String String},
      (∀ r' ∈ s.reads ++ [r], r'.1 = r'.2) ↔ r.1 = r.2 := by
    intro r
    rw [List.forall_mem_append, List.forall_mem_singleton]
    exact and_iff_right hreads
  cases step_move h with
  | start => exact happend.trans hJ.readTokenFile_iff
  | readAddr proc =>
    simp only [ReadsOwn, proc]
    exact happend.trans hJ.readCoreAddr_iff
  | ends own => exact iff_of_true hreads own
  | _ => exact iff_of_true hreads trivial

theorem inv_init (net : ℕ → PeerNet) (hnet : ∀ k (b : String → String → Prop), (net k).LinksGet b) :
    (init net).Inv A where
  links := fun k => hnet k _
  conns := fun _ hx => by cases hx
  stands := fun _ => trivial
  saved := {
    ownToken := fun _ _ h => by cases h
    ownAddr := fun _ _ h => by cases h
    addr := fun _ h => by cases h
    noToken := fun _ => ⟨rfl, fun _ => rfl⟩
    byName := fun _ h => by cases h }

/-- The cores when they have started. -/
def cores (workspace : ℕ → String) (nodeCfg : ℕ → Option (String × NodeMode)) (db : ℕ → Database) (now : ℕ)
    (k : ℕ) : PeerNet :=
  .init (Core.init (workspace k) (nodeCfg k) (db k) now)

/-- **Nodes appear under the names they were linked as**, in every run in which the tokens are
new, exactly if no start reads what the link of another name has saved. -/
theorem nameHeld_iff (A : Addresses) (workspace : ℕ → String) (nodeCfg : ℕ → Option (String × NodeMode))
    (db : ℕ → Database) (now : ℕ) (as : List Action)
    (hnew : ∀ t a, Sys.Takes (step A) (init (cores workspace nodeCfg db now)) as t a → t.NewToken a) :
    (∀ t, Sys.Visits (step A) (init (cores workspace nodeCfg db now)) as t → t.NameHeld) ↔
      ∀ t a, Sys.Takes (step A) (init (cores workspace nodeCfg db now)) as t a → t.ReadsOwn a := by
  refine Sys.visits_iff_takes_of (J := Inv A) (P := NameHeld) (E := NewToken)
    (fun t a t' hJ _ hE hg h => hJ.step hE hg h) (fun t a t' hJ hP hE h => ?_) as ?_ ?_ hnew
  · constructor
    · intro hP'
      exact (reads_step hJ.saved hP.reads h).1 hP'.reads
    · intro hg
      exact (hJ.step hE hg h).nameHeld ((reads_step hJ.saved hP.reads h).2 hg)
  · exact inv_init _ fun k b => PeerNet.linksGet_init ..
  · exact (inv_init _ fun k b => PeerNet.linksGet_init ..).nameHeld (A := A) fun _ h => by cases h

/-! ## Two names on one machine -/

/-- The core 0 gives out a code, and a link uses it. -/
def linkAs (pid : ℕ) (name code : String) (c : ℕ) (token : String) : List Action :=
  [.net 0 (.core (.storePendingCode code)), .link pid name "h:1" code c, .net 0 (.core (.accept c)),
    .net 0 (.core (.receive c (.authRequest code name) true)), .net 0 (.core (.storeToken c token true)),
    .net 0 (.core (.sendReply c true)), .net 0 (.hear c (.authResponse true (some token))),
    .saveToken pid true, .saveAddr pid true]

/-- A start, up to its entry in the registry. -/
def startAs (pid : ℕ) (name : String) (c : ℕ) (token : String) : List Action :=
  [.start pid name, .readAddr pid, .connect pid c, .net 0 (.core (.accept c)),
    .net 0 (.core (.receive c (.tokenAuth token) true)), .net 0 (.core (.sendReply c true)),
    .net 0 (.core (.register c))]

/-- The core 0 listens at one address. -/
def oneCore : Addresses where
  core := fun addr => if addr = "h:1" then some 0 else none
  spelled := by
    intro addr k h
    split at h
    · rename_i haddr
      subst haddr
      decide
    · cases h

/-- Cores without nodes. -/
def newCores : LinkLog := init (cores (fun _ => "/w") (fun _ => none) (fun _ => ⟨[], []⟩) 0)

/-- The node `a` is linked, and started. -/
def oneName : List Action := linkAs 0 "a" "1" 0 "ta" ++ startAs 1 "a" 1 "ta"

/-- The node `a` is linked, then `b`, and `a` is started. -/
def twoNames : List Action := linkAs 0 "a" "1" 0 "ta" ++ linkAs 1 "b" "2" 1 "tb" ++ startAs 2 "a" 2 "tb"

/-- Where only the core 0 has stored tokens, others than this are new. -/
theorem newToken_other {t : LinkLog} {c : ℕ} (rows : List NodeToken) (hspelled : token ≠ "" ∧ trim token = token)
    (hrows : ∀ row ∈ rows, row.token ≠ token) (hminted : t.minted = rows) (hcore : (t.core 0).db.nodeTokens = rows)
    (hnone : ∀ k, (t.core (k + 1)).db.nodeTokens = []) :
    t.NewToken (.net 0 (.core (.storeToken c token true))) := by
  refine ⟨hspelled, hminted ▸ hrows, fun k row hrow => ?_⟩
  cases k with
  | zero => exact hrows row (hcore ▸ hrow)
  | succ k =>
    rw [hnone k] at hrow
    cases hrow

/-- The node `a` is linked and started, and appears as `a`. -/
theorem nameHeld_oneName :
    ∃ s, Sys.run (step oneCore) newCores oneName = some s ∧ s.NameHeld ∧
      (s.core 0).registry.get "a" = some (.remoteNode "a" 1) := by
  have hrun : Sys.run (step oneCore) newCores oneName = some _ := rfl
  have hnew : ∀ t b, Sys.Takes (step oneCore) newCores oneName t b → t.NewToken b := by
    iterate 4 refine (Sys.forall_takes_cons rfl).2 ⟨trivial, ?_⟩
    refine (Sys.forall_takes_cons rfl).2
      ⟨newToken_other [] (by decide) (by decide) rfl rfl fun _ => rfl, ?_⟩
    iterate 11 refine (Sys.forall_takes_cons rfl).2 ⟨trivial, ?_⟩
    exact fun t b h => absurd h Sys.not_takes_nil
  have hreads : ∀ t b, Sys.Takes (step oneCore) newCores oneName t b → t.ReadsOwn b := by
    iterate 9 refine (Sys.forall_takes_cons rfl).2 ⟨trivial, ?_⟩
    refine (Sys.forall_takes_cons rfl).2 ⟨.inr rfl, ?_⟩
    refine (Sys.forall_takes_cons rfl).2 ⟨rfl, ?_⟩
    iterate 5 refine (Sys.forall_takes_cons rfl).2 ⟨trivial, ?_⟩
    exact fun t b h => absurd h Sys.not_takes_nil
  have hheld := (nameHeld_iff oneCore _ _ _ 0 oneName hnew).2 hreads _ ⟨_, List.prefix_rfl, hrun⟩
  exact ⟨_, hrun, hheld, rfl⟩

/-- **The second link renames the first node**: all tokens are new, the node that is started as
`a` comes as `b`, and the entry of `a` leads to the link that is done. -/
theorem second_link_renames :
    (∀ t b, Sys.Takes (step oneCore) newCores twoNames t b → t.NewToken b) ∧
      ∃ s, Sys.run (step oneCore) newCores twoNames = some s ∧ ⟨"a", 0, 2, some 0⟩ ∈ s.conns ∧
        (s.core 0).registry.get "b" = some (.remoteNode "b" 2) ∧ (.ok "tb", .ok "ta") ∈ s.reads ∧ ¬ s.NameHeld := by
  constructor
  · iterate 4 refine (Sys.forall_takes_cons rfl).2 ⟨trivial, ?_⟩
    refine (Sys.forall_takes_cons rfl).2
      ⟨newToken_other [] (by decide) (by decide) rfl rfl fun _ => rfl, ?_⟩
    iterate 8 refine (Sys.forall_takes_cons rfl).2 ⟨trivial, ?_⟩
    refine (Sys.forall_takes_cons rfl).2
      ⟨newToken_other [⟨"a", "ta"⟩] (by decide) (by decide) rfl rfl fun _ => rfl, ?_⟩
    iterate 11 refine (Sys.forall_takes_cons rfl).2 ⟨trivial, ?_⟩
    exact fun t b h => absurd h Sys.not_takes_nil
  · have hrun : Sys.run (step oneCore) newCores twoNames = some _ := rfl
    have hconn : ⟨"a", 0, 2, some 0⟩ ∈ [StartConn.mk "a" 0 2 (some 0)] := List.mem_singleton_self _
    refine ⟨_, hrun, hconn, rfl, List.mem_cons_self .., fun h => ?_⟩
    have hname := (h.entries _ hconn "b" "b" rfl).1
    simp at hname

end LinkLog

end Auxlry
