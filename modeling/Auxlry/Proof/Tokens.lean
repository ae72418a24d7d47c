import Auxlry.Proof.Connections
import Auxlry.Sys.Run
import Mathlib.Data.List.Nodup

/-!
# The token of a node

A token is stored under the name of its node, in place of the one before, and looked up by
its value. So the table should give each name one token and each token one name, however
the connections interleave. `written` is bookkeeping: every token that was stored, those at
the start first.

* `find_iff`: a row with a given token is found, where the tokens of the rows are distinct.
* `tokensCurrent_of_fresh`: **a token is accepted exactly if it was stored last for its
  node**, in every run in which the generated tokens are new.
-/

namespace Auxlry

/-- The core, with the tokens that were stored. -/
structure Issued where
  core : Core
  written : List NodeToken

/-- The row that a step of the core stores. -/
def Core.storedToken (s : Core) : CoreAction → List NodeToken
  | .storeToken c token true =>
    match s.task c with
    | .consumed name => [⟨name, token⟩]
    | _ => []
  | _ => []

/-- A connection with this token is accepted, as the node of this name. -/
def Core.Accepts (s : Core) (c : ℕ) (token name : String) : Prop :=
  ∃ s', s.step (.receive c (.tokenAuth token) true) = some s' ∧
    Core.pendingReply (s'.task c) = some (.tokenAuthResponse true, some name)

/-- **The table of tokens changes only** when a link gets its token. -/
theorem Core.table_step {s s' : Core} {a : CoreAction} (h : s.step a = some s') :
    s'.db.nodeTokens = s.db.nodeTokens ∧ s.storedToken a = [] ∨
      ∃ c name token, a = .storeToken c token true ∧ s.task c = .consumed name ∧
        s.storedToken a = [⟨name, token⟩] ∧ s'.db = s.db.storeNodeToken name token := by
  cases step_move h with
  | @storeToken c name token task =>
    refine .inr ⟨c, name, token, rfl, task, ?_, rfl⟩
    simp only [storedToken, task]
  | storePendingCode stored =>
    obtain ⟨-, rfl⟩ := storePendingCode_eq stored
    exact .inl ⟨rfl, rfl⟩
  | _ => exact .inl ⟨rfl, rfl⟩

namespace Issued

def init (workspace : String) (nodeCfg : Option (String × NodeMode)) (db : Database) (now : ℕ) : Issued :=
  ⟨Core.init workspace nodeCfg db now, db.nodeTokens⟩

/-- A step of the core. -/
def step (s : Issued) (a : CoreAction) : Option Issued :=
  (s.core.step a).map fun core => ⟨core, s.written ++ s.core.storedToken a⟩

/-- The token that was stored last for a node. -/
def latest (s : Issued) (name : String) : Option String :=
  (s.written.filter (·.nodeName = name)).getLast?.map (·.token)

/-- A token that is generated was not there before. -/
def Fresh (s : Issued) : CoreAction → Prop
  | .storeToken _ token _ => ∀ row ∈ s.written, row.token ≠ token
  | _ => True

/-- What one expects of tokens. A node that links gets its token in place of the one that it
had, and all other tokens are as before. -/
structure TokensCurrent (s : Issued) : Prop where
  accepted : ∀ c token name, s.core.task c = .accepted →
    (s.core.Accepts c token name ↔ s.latest name = some token)
  linked : ∀ c name token core, s.core.task c = .consumed name → s.Fresh (.storeToken c token true) →
    s.core.step (.storeToken c token true) = some core → ∀ token' name',
      core.db.findNodeByToken token' = some name' ↔
        name' = name ∧ token' = token ∨ name' ≠ name ∧ s.core.db.findNodeByToken token' = some name'

/-! ## The table -/

/-- A token that is found leads to a row of the table. -/
theorem mem_of_find {db : Database} {token name : String} (h : db.findNodeByToken token = some name) :
    ⟨name, token⟩ ∈ db.nodeTokens := by
  obtain ⟨row, hrow, rfl⟩ := Option.map_eq_some_iff.1 h
  obtain rfl : row.token = token := by simpa using List.find?_some hrow
  exact List.mem_of_find?_eq_some hrow

/-- Where no two rows have one token, a token leads to its row. -/
theorem find_iff {db : Database} (h : ∀ r ∈ db.nodeTokens, ∀ r' ∈ db.nodeTokens, r.token = r'.token → r = r')
    (token name : String) : db.findNodeByToken token = some name ↔ ⟨name, token⟩ ∈ db.nodeTokens := by
  constructor
  · exact mem_of_find
  · intro hmem
    unfold Database.findNodeByToken
    rw [Option.map_eq_some_iff]
    obtain ⟨row, hrow⟩ := Option.isSome_iff_exists.1
      (List.find?_isSome.2 ⟨⟨name, token⟩, hmem, decide_eq_true rfl⟩ :
        (db.nodeTokens.find? (·.token = token)).isSome)
    have htoken : row.token = token := by simpa using List.find?_some hrow
    have hsame := h row (List.mem_of_find?_eq_some hrow) _ hmem htoken
    exact ⟨row, hrow, by rw [hsame]⟩

theorem mem_storeNodeToken {db : Database} {name token : String} {row : NodeToken} :
    row ∈ (db.storeNodeToken name token).nodeTokens ↔
      row.nodeName ≠ name ∧ row ∈ db.nodeTokens ∨ row = ⟨name, token⟩ := by
  simp [Database.storeNodeToken, and_comm]

/-! ## The tokens stored last -/

variable {s s' : Issued} {a : CoreAction} {core : Core} {c : ℕ} {name token : String}

theorem mem_of_latest (h : s.latest name = some token) : ⟨name, token⟩ ∈ s.written := by
  obtain ⟨row, hrow, rfl⟩ := Option.map_eq_some_iff.1 h
  obtain ⟨hmem, hname⟩ := List.mem_filter.1 (List.mem_of_getLast? hrow)
  obtain rfl : row.nodeName = name := by simpa using hname
  exact hmem

theorem latest_append (core : Core) (name' : String) :
    latest ⟨core, s.written ++ [⟨name, token⟩]⟩ name' = if name' = name then some token else s.latest name' := by
  unfold latest
  rw [List.filter_append]
  split
  · rename_i hn
    simp [hn]
  · rename_i hn
    simp [Ne.symm hn]

/-- In a table with one row for each name, that row is the last. -/
theorem latest_of_nodup (hnames : (s.written.map (·.nodeName)).Nodup) :
    s.latest name = some token ↔ ⟨name, token⟩ ∈ s.written := by
  refine ⟨mem_of_latest, fun hmem => ?_⟩
  have hfilter : ⟨name, token⟩ ∈ s.written.filter (·.nodeName = name) :=
    List.mem_filter.2 ⟨hmem, by simp⟩
  obtain ⟨row, hrow⟩ := Option.isSome_iff_exists.1
    (List.getLast?_isSome.2 (List.ne_nil_of_mem hfilter))
  obtain ⟨hrow', hname⟩ := List.mem_filter.1 (List.mem_of_getLast? hrow)
  have hsame : row = ⟨name, token⟩ :=
    List.inj_on_of_nodup_map hnames hrow' hmem (by simpa using hname)
  rw [latest, hrow, hsame]
  rfl

/-! ## A run -/

/-- The table has the token stored last for each node, and no token was stored twice. -/
structure Inv (s : Issued) : Prop where
  rows : ∀ name token, ⟨name, token⟩ ∈ s.core.db.nodeTokens ↔ s.latest name = some token
  distinct : (s.written.map (·.token)).Nodup

theorem Inv.find_iff (hJ : s.Inv) (token name : String) :
    s.core.db.findNodeByToken token = some name ↔ s.latest name = some token := by
  rw [Issued.find_iff, hJ.rows]
  intro r hr r' hr' htoken
  have hmem := mem_of_latest ((hJ.rows r.nodeName r.token).1 hr)
  have hmem' := mem_of_latest ((hJ.rows r'.nodeName r'.token).1 hr')
  exact List.inj_on_of_nodup_map hJ.distinct hmem hmem' htoken

/-- A new token for a node. -/
theorem Inv.stored (hJ : s.Inv) (hfresh : ∀ row ∈ s.written, row.token ≠ token)
    (htable : core.db.nodeTokens = (s.core.db.storeNodeToken name token).nodeTokens) :
    Inv ⟨core, s.written ++ [⟨name, token⟩]⟩ where
  rows := by
    intro name' token'
    rw [latest_append]
    show _ ∈ core.db.nodeTokens ↔ _
    rw [htable, mem_storeNodeToken, hJ.rows]
    by_cases hn : name' = name
    · simp [hn, eq_comm]
    · simp [hn]
  distinct := by
    rw [List.map_append, List.nodup_append']
    refine ⟨hJ.distinct, List.nodup_singleton _, ?_⟩
    simpa [List.disjoint_singleton] using hfresh

theorem Inv.step (hJ : s.Inv) (hfresh : s.Fresh a) (h : s.step a = some s') : s'.Inv := by
  obtain ⟨core, hcore, rfl⟩ := Option.map_eq_some_iff.1 h
  rcases Core.table_step hcore with ⟨htable, hstored⟩ | ⟨c, name, token, rfl, task, hstored, hdb⟩
  · rw [hstored, List.append_nil]
    exact ⟨fun name token => htable ▸ hJ.rows name token, hJ.distinct⟩
  · rw [hstored]
    exact hJ.stored hfresh (by rw [hdb])

theorem inv_init (workspace : String) (nodeCfg : Option (String × NodeMode)) {db : Database} (now : ℕ)
    (hnames : (db.nodeTokens.map (·.nodeName)).Nodup) (htokens : (db.nodeTokens.map (·.token)).Nodup) :
    (init workspace nodeCfg db now).Inv where
  rows := fun _ _ => (latest_of_nodup (s := init workspace nodeCfg db now) hnames).symm
  distinct := htokens

/-- A token is accepted if it is found. -/
theorem accepts_iff {s : Core} (task : s.task c = .accepted) :
    s.Accepts c token name ↔ s.db.findNodeByToken token = some name := by
  have hstep : s.step (.receive c (.tokenAuth token) true) = some (s.authenticate c (.tokenAuth token) true) := by
    simp only [Core.step, task]
  unfold Core.Accepts
  simp only [hstep, Option.some.injEq, exists_eq_left']
  cases hfound : s.db.findNodeByToken token with
  | none => simp [Core.authenticate, hfound, Core.setTask, Core.pendingReply]
  | some name' => simp [Core.authenticate, hfound, Core.setTask, Core.pendingReply]

theorem Inv.current (hJ : s.Inv) : s.TokensCurrent where
  accepted := fun _ token name task => (accepts_iff task).trans (hJ.find_iff token name)
  linked := by
    intro c name token core task hfresh hcore token' name'
    have htable : core.db.nodeTokens = (s.core.db.storeNodeToken name token).nodeTokens := by
      simp only [Core.step, task, if_true, Option.some.injEq] at hcore
      rw [← hcore]
      rfl
    rw [(hJ.stored hfresh htable).find_iff, latest_append, hJ.find_iff]
    by_cases hn : name' = name
    · simp [hn, eq_comm]
    · simp [hn]

/-- **Tokens are current** in every run of the core in which the generated tokens are new: a
token is accepted, as the node `name`, exactly if it is the one stored last for `name`. -/
theorem tokensCurrent_of_fresh (workspace : String) (nodeCfg : Option (String × NodeMode)) (db : Database)
    (now : ℕ) (hnames : (db.nodeTokens.map (·.nodeName)).Nodup)
    (htokens : (db.nodeTokens.map (·.token)).Nodup) (as : List CoreAction)
    (hfresh : ∀ t a, Sys.Takes step (init workspace nodeCfg db now) as t a → t.Fresh a) {s : Issued}
    (h : Sys.Visits step (init workspace nodeCfg db now) as s) : s.TokensCurrent :=
  (h.inv_of hfresh (fun _ _ _ hJ hf hs => hJ.step hf hs) (inv_init workspace nodeCfg now hnames htokens)).current

/-- The node `b` links again, and a connection waits. -/
def relink : List CoreAction :=
  [.storePendingCode "c", .accept 0, .receive 0 (.authRequest "c" "b") true, .storeToken 0 "v" true, .accept 1]

/-- The new token of `b` is accepted, and the one that it had is not. -/
theorem tokensCurrent_relink :
    ∃ s, Sys.run step (init "/w" none ⟨[], [⟨"b", "u"⟩]⟩ 0) relink = some s ∧ s.TokensCurrent ∧
      s.core.Accepts 1 "v" "b" ∧ ∀ name, ¬ s.core.Accepts 1 "u" name := by
  have hrun : Sys.run step (init "/w" none ⟨[], [⟨"b", "u"⟩]⟩ 0) relink = some _ := rfl
  have hnew : ∀ row ∈ [NodeToken.mk "b" "u"], row.token ≠ "v" := by decide
  have hfresh : ∀ t a, Sys.Takes step (init "/w" none ⟨[], [⟨"b", "u"⟩]⟩ 0) relink t a → t.Fresh a := by
    refine (Sys.forall_takes_cons rfl).2 ⟨trivial, ?_⟩
    refine (Sys.forall_takes_cons rfl).2 ⟨trivial, ?_⟩
    refine (Sys.forall_takes_cons rfl).2 ⟨trivial, ?_⟩
    refine (Sys.forall_takes_cons rfl).2 ⟨hnew, ?_⟩
    refine (Sys.forall_takes_cons rfl).2 ⟨trivial, ?_⟩
    exact fun t a h => absurd h Sys.not_takes_nil
  have hcurrent := tokensCurrent_of_fresh "/w" none ⟨[], [⟨"b", "u"⟩]⟩ 0 (by decide) (by decide) relink hfresh
    ⟨_, List.prefix_rfl, hrun⟩
  refine ⟨_, hrun, hcurrent, (hcurrent.accepted 1 "v" "b" rfl).2 rfl, fun name haccepts => ?_⟩
  have hfound := (accepts_iff rfl).1 haccepts
  cases hfound

end Issued

end Auxlry
