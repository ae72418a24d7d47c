import Auxlry.Proof.Registry

/-!
# Workspace directories

The documentation gives each node a directory of its own in the workspace directory.
`LaidOut` says so of the nodes a core serves: the root of a remote node's sandbox lies
strictly below the workspace directory, and no two roots contain one another, that of
the daemon's local node included. Locations are taken from the paths as they are
spelled, on a tree without links.

* `rootLoc_serving`: where the root of a served name leads.
* `nameLoc_eq_iff`: the names that lead below the directory they are joined to.
* `rootLoc_plain`, `apart_plain`: plain names do, each to a place of its own.
* `laidOut_iff`: **the exact condition**. The roots of remote nodes keep to the layout when
  the served names lead below the workspace directory and not into one another. The local
  node works in the workspace directory itself, which contains every root that does.
* `serves_every_name`: any name can be linked and served.
-/

namespace Auxlry

open Posix

/-- Where a path leads. -/
def place (cwd : Loc) (path : String) : Loc := lexLoc cwd (Path.parse path).components

/-- Where the sandbox of a node is rooted; without a root it is the whole tree. -/
def rootLoc (cwd : Loc) (node : LocalNode) : Loc :=
  match node.workspaceRoot with
  | some root => place cwd root
  | none => []

/-- Neither location lies in the other. -/
def Apart (l m : Loc) : Prop := ¬ l <+: m ∧ ¬ m <+: l

instance (l m : Loc) : Decidable (Apart l m) := inferInstanceAs (Decidable (_ ∧ _))

/-- Where a name leads when it is joined to a directory at `base`. -/
def nameLoc (base : Loc) (name : String) : Loc :=
  segLoc (if isAbsolute name then [] else base) (segments name)

/-- How a name moves from the directory that it is joined to: some levels up, then down
through some names. -/
structure Route where
  up : ℕ
  down : List String
  deriving DecidableEq, Repr

/-- A route goes on with one segment of the name. -/
def Route.follow (r : Route) (seg : List Char) : Route :=
  if seg = [] ∨ seg = ['.'] then r
  else if seg = ['.', '.'] then
    if r.down = [] then ⟨r.up + 1, []⟩ else ⟨r.up, r.down.dropLast⟩
  else ⟨r.up, r.down ++ [String.ofList seg]⟩

/-- The route of a name, from what stands between its separators. -/
def route (name : String) : Route := (segments name).foldl Route.follow ⟨0, []⟩

/-- The last names of the base that a name leaves; an absolute name leaves them all. -/
def leaves (base : Loc) (name : String) : Loc :=
  if isAbsolute name then base else base.drop (base.length - (route name).up)

/-- The name goes down through what it has left of the base, and then on by `tail`. -/
def GoesTo (base : Loc) (name : String) (tail : Loc) : Prop :=
  (route name).down = leaves base name ++ tail

instance (base : Loc) (name : String) (tail : Loc) : Decidable (GoesTo base name tail) :=
  inferInstanceAs (Decidable (_ = _))

/-- A name that is one component of a path. -/
def PlainName (name : String) : Prop := ∃ seg, segments name = [seg] ∧ componentOf seg = some (.normal name)

/-! ## Names -/

/-- Where a route leads from the base. -/
def Route.loc (r : Route) (base : Loc) : Loc := base.take (base.length - r.up) ++ r.down

theorem Route.follow_loc (r : Route) (base : Loc) (seg : List Char) :
    (r.follow seg).loc base = segLoc (r.loc base) [seg] := by
  have hone : segLoc (r.loc base) [seg] = ((componentOf seg).elim (r.loc base) (lexStep (r.loc base))) := by
    unfold segLoc
    rw [List.filterMap_cons]
    cases componentOf seg <;> rfl
  rw [hone]
  unfold follow
  split_ifs with hstay hup hdown
  · rw [componentOf_eq_none.2 hstay]; rfl
  · -- one level up from what is left of the base
    subst hup
    show _ = (r.loc base).dropLast
    unfold Route.loc
    rw [hdown, List.append_nil, List.append_nil, List.dropLast_eq_take, List.take_take, List.length_take]
    congr 1
    show base.length - (r.up + 1) = _
    omega
  · subst hup
    show _ = (r.loc base).dropLast
    exact (List.dropLast_append_of_ne_nil hdown).symm
  · have hnormal : componentOf seg = some (.normal (String.ofList seg)) := by
      unfold componentOf
      split
      · exact absurd (.inl rfl) hstay
      · exact absurd (.inr rfl) hstay
      · exact absurd rfl hup
      · rfl
    rw [hnormal]
    exact (List.append_assoc ..).symm

/-- **A relative name leads along its route.** -/
theorem segLoc_eq_loc (base : Loc) (name : String) : segLoc base (segments name) = (route name).loc base := by
  have hall : ∀ segs (r : Route), segLoc (r.loc base) segs = (segs.foldl Route.follow r).loc base := by
    intro segs
    induction segs with
    | nil => intro r; rfl
    | cons seg segs ih =>
      intro r
      rw [List.foldl_cons, ← ih, r.follow_loc, ← segLoc_append]; rfl
  have hstart : Route.loc ⟨0, []⟩ base = base := by
    unfold Route.loc
    rw [Nat.sub_zero, List.take_length, List.append_nil]
  have := hall (segments name) ⟨0, []⟩
  rwa [hstart] at this

/-- What the name leaves of the base is at its end, and what it goes down through follows the rest. -/
theorem nameLoc_route (base : Loc) (name : String) :
    ∃ stem, base = stem ++ leaves base name ∧ nameLoc base name = stem ++ (route name).down := by
  unfold nameLoc leaves
  rw [segLoc_eq_loc]
  split
  · refine ⟨[], rfl, ?_⟩
    unfold Route.loc
    rw [List.take_nil]
  · exact ⟨base.take (base.length - (route name).up), (List.take_append_drop ..).symm, rfl⟩

/-- **The names that lead below the base.** -/
theorem nameLoc_eq_iff {base tail : Loc} {n : String} : nameLoc base n = base ++ tail ↔ GoesTo base n tail := by
  obtain ⟨stem, hbase, hname⟩ := nameLoc_route base n
  have hsplit : base ++ tail = stem ++ (leaves base n ++ tail) := by
    rw [← List.append_assoc, ← hbase]
  rw [hname, hsplit, List.append_right_inj]; rfl

namespace Core

/-- The root lies strictly below the workspace directory. -/
def Below (cwd : Loc) (s : Core) (node : LocalNode) : Prop :=
  place cwd s.workspace <+: rootLoc cwd node ∧ rootLoc cwd node ≠ place cwd s.workspace

/-- The documented layout of the remote nodes that a core serves. -/
structure RemotesLaidOut (cwd : Loc) (s : Core) : Prop where
  below : ∀ c n node, s.Serving c n node → s.Below cwd node
  apart : ∀ c n node c' n' node', s.Serving c n node → s.Serving c' n' node' → n ≠ n' →
    Apart (rootLoc cwd node) (rootLoc cwd node')

/-- The documented layout of all nodes, with that of the daemon. -/
structure LaidOut (cwd : Loc) (daemon : LocalNode) (s : Core) : Prop extends RemotesLaidOut cwd s where
  local_apart : ∀ c n node, s.Serving c n node → Apart (rootLoc cwd daemon) (rootLoc cwd node)

/-- The served names lead below the base, and not into one another. -/
def NamesKeep (base : Loc) (s : Core) : Prop :=
  ∃ tail : String → Loc, (∀ c n, s.Serves c n → tail n ≠ [] ∧ GoesTo base n (tail n)) ∧
    ∀ c n c' n', s.Serves c n → s.Serves c' n' → n ≠ n' → Apart (tail n) (tail n')

variable {s s' : Core} {a : CoreAction} {cwd : Loc} {c : ℕ} {n : String} {node : LocalNode}
  {workspace : String} {nodeCfg : Option (String × NodeMode)} {db : Database} {now : ℕ}

/-! ## Roots -/

/-- Every connection serves the sandboxed node of its name. -/
def ServesOwn (workspace : String) (s : Core) : Prop :=
  s.workspace = workspace ∧ ∀ c n node, s.Serving c n node → node = s.nodeOf n

theorem servesOwn_step (hP : s.ServesOwn workspace) (h : s.step a = some s') : s'.ServesOwn workspace := by
  have hw := step_workspace h
  have hnode : ∀ n, s'.nodeOf n = s.nodeOf n := fun n => by unfold nodeOf; rw [hw]
  refine ⟨hw.trans hP.1, fun c n node hs => ?_⟩
  rw [hnode]
  cases step_change h with
  | quiet _ _ serving => exact hP.2 c n node ((serving ..).1 hs)
  | register _ _ serving => exact hP.2 c n node ((serving ..).1 hs)
  | serve _ _ serving =>
    rcases (serving ..).1 hs with hs | ⟨-, rfl, rfl⟩
    · exact hP.2 c n node hs
    · rfl
  | leave _ _ serving => exact hP.2 c n node ((serving ..).1 hs).1
  | unregister _ _ serving => exact hP.2 c n node ((serving ..).1 hs)

theorem servesOwn_of_reaches (h : Sys.Reaches step (Core.init workspace nodeCfg db now) s) :
    s.ServesOwn workspace :=
  h.inv (fun _ _ _ => servesOwn_step) ⟨rfl, nofun⟩

theorem rootLoc_nodeOf (cwd : Loc) (s : Core) (n : String) :
    rootLoc cwd (s.nodeOf n) = nameLoc (place cwd s.workspace) n := lexLoc_join ..

/-- **Where a served name leads**: on from the workspace directory, or from the root of
the tree if the name is absolute. -/
theorem rootLoc_serving (h : Sys.Reaches step (Core.init workspace nodeCfg db now) s)
    (hs : s.Serving c n node) : rootLoc cwd node = nameLoc (place cwd workspace) n := by
  obtain ⟨hw, hown⟩ := servesOwn_of_reaches h
  rw [hown c n node hs, rootLoc_nodeOf, hw]

theorem apart_append {base l m : Loc} : Apart (base ++ l) (base ++ m) ↔ Apart l m := by
  unfold Apart
  rw [List.prefix_append_right_inj, List.prefix_append_right_inj]

/-- A plain name leads to a place of its own directly below the base. -/
theorem rootLoc_plain {base : Loc} (h : PlainName n) : nameLoc base n = base ++ [n] := by
  obtain ⟨seg, hseg, hn⟩ := h
  have habs : isAbsolute n = false := by
    rcases isAbsolute_cases n with ⟨-, x, xs, hx⟩ | ⟨hf, -⟩
    · rw [hseg] at hx; simp at hx
    · exact hf
  unfold nameLoc segLoc
  rw [habs, hseg, List.filterMap_cons, hn]; rfl

theorem apart_plain {base : Loc} {m : String} (hn : PlainName n) (hm : PlainName m) (hne : n ≠ m) :
    Apart (nameLoc base n) (nameLoc base m) := by
  rw [rootLoc_plain hn, rootLoc_plain hm]
  unfold Apart
  simp [hne, hne.symm]

/-! ## The layout -/

theorem rootLoc_daemonNode (cwd : Loc) (workspace : String) (nodeCfg : Option (String × NodeMode)) :
    rootLoc cwd (daemonNode workspace nodeCfg) = place cwd workspace := by
  rcases nodeCfg with _ | ⟨name, mode⟩ <;> rfl

/-- A root below the workspace directory is in the root of the local node. -/
theorem Below.not_apart (h : s.Below cwd node) :
    ¬ Apart (rootLoc cwd (daemonNode s.workspace nodeCfg)) (rootLoc cwd node) := by
  intro hall
  rw [rootLoc_daemonNode] at hall
  exact hall.1 h.1

/-- **The remote roots keep to the layout** exactly when the served names do. -/
theorem remotesLaidOut_iff (h : Sys.Reaches step (Core.init workspace nodeCfg db now) s) :
    RemotesLaidOut cwd s ↔ NamesKeep (place cwd workspace) s := by
  have hw := (servesOwn_of_reaches h).1
  constructor
  · intro hall
    -- the tail is what the root has behind the workspace directory
    have hroot : ∀ c n, s.Serves c n → ∃ node, s.Serving c n node ∧ rootLoc cwd node =
        place cwd workspace ++ (nameLoc (place cwd workspace) n).drop (place cwd workspace).length := by
      rintro c n ⟨node, hs⟩
      obtain ⟨tail, htail⟩ := (hall.below c n node hs).1
      rw [hw, rootLoc_serving h hs] at htail
      exact ⟨node, hs, by rw [rootLoc_serving h hs, ← htail, List.drop_left]⟩
    refine ⟨fun n => (nameLoc (place cwd workspace) n).drop (place cwd workspace).length, ?_, ?_⟩
    · intro c n hn
      obtain ⟨node, hs, hloc⟩ := hroot c n hn
      constructor
      · intro hnil
        apply (hall.below c n node hs).2
        rw [hloc, hw]
        exact List.append_right_eq_self.2 hnil
      · rw [← nameLoc_eq_iff, ← hloc, rootLoc_serving h hs]
    · intro c n c' n' hn hn' hne
      obtain ⟨node, hs, hloc⟩ := hroot c n hn
      obtain ⟨node', hs', hloc'⟩ := hroot c' n' hn'
      have := hall.apart c n node c' n' node' hs hs' hne
      rwa [hloc, hloc', apart_append] at this
  · rintro ⟨tail, htail, hapart⟩
    have hloc : ∀ c n node, s.Serving c n node → rootLoc cwd node = place cwd workspace ++ tail n := by
      intro c n node hs
      rw [rootLoc_serving h hs]
      exact nameLoc_eq_iff.2 (htail c n ⟨node, hs⟩).2
    refine ⟨fun c n node hs => ?_, fun c n node c' n' node' hs hs' hne => ?_⟩
    · unfold Below
      rw [hw, hloc c n node hs]
      refine ⟨List.prefix_append .., fun heq => (htail c n ⟨node, hs⟩).1 ?_⟩
      exact List.append_right_eq_self.1 heq
    · rw [hloc c n node hs, hloc c' n' node' hs', apart_append]
      exact hapart c n c' n' ⟨node, hs⟩ ⟨node', hs'⟩ hne

/-- Nodes with plain names keep to the layout. -/
theorem remotesLaidOut_of_plain (h : Sys.Reaches step (Core.init workspace nodeCfg db now) s)
    (hplain : ∀ c n, s.Serves c n → PlainName n) : RemotesLaidOut cwd s := by
  have hw := (servesOwn_of_reaches h).1
  refine ⟨fun c n node hs => ?_, fun c n node c' n' node' hs hs' hne => ?_⟩
  · unfold Below
    rw [hw, rootLoc_serving h hs, rootLoc_plain (hplain c n ⟨node, hs⟩)]
    refine ⟨List.prefix_append .., fun heq => ?_⟩
    cases List.append_right_eq_self.1 heq
  · rw [rootLoc_serving h hs, rootLoc_serving h hs']
    exact apart_plain (hplain c n ⟨node, hs⟩) (hplain c' n' ⟨node', hs'⟩) hne

/-- **The exact condition** for the documented layout. The remote roots keep to it when the
served names do, as plain ones always do; the root of the local node never does beside a
remote root that keeps to it, so all roots together keep to it only while no remote node is
served. -/
theorem laidOut_iff (h : Sys.Reaches step (Core.init workspace nodeCfg db now) s) :
    (RemotesLaidOut cwd s ↔ NamesKeep (place cwd workspace) s) ∧
      ((∀ c n, s.Serves c n → PlainName n) → RemotesLaidOut cwd s) ∧
      (∀ c n node, s.Serving c n node → s.Below cwd node →
        ¬ Apart (rootLoc cwd (daemonNode workspace nodeCfg)) (rootLoc cwd node)) ∧
      (LaidOut cwd (daemonNode workspace nodeCfg) s ↔ ∀ c n, ¬ s.Serves c n) := by
  have hlocal : ∀ c n node, s.Serving c n node → s.Below cwd node →
      ¬ Apart (rootLoc cwd (daemonNode workspace nodeCfg)) (rootLoc cwd node) := by
    intro c n node _ hb
    rw [← (servesOwn_of_reaches h).1]
    exact hb.not_apart
  refine ⟨remotesLaidOut_iff h, remotesLaidOut_of_plain h, hlocal, ?_⟩
  constructor
  · rintro hall c n ⟨node, hs⟩
    exact hlocal c n node hs (hall.below c n node hs) (hall.local_apart c n node hs)
  · intro hnone
    exact ⟨⟨fun c n node hs => absurd ⟨node, hs⟩ (hnone c n),
      fun c n node _ _ _ hs => absurd ⟨node, hs⟩ (hnone c n)⟩,
      fun c n node hs => absurd ⟨node, hs⟩ (hnone c n)⟩

/-- Two linked nodes, one with a name that leaves the workspace directory and comes back. -/
def linkTwo : List CoreAction := link 0 "000000" "../w/a" "t" ++ link 1 "000001" "b" "u"

/-- The condition at work: two nodes whose roots keep to the layout, but not beside the local one. -/
theorem laidOut_iff_two :
    ∃ s, Sys.run step (Core.init "/w" none ⟨[], []⟩ 0) linkTwo = some s ∧
      s.Serves 0 "../w/a" ∧ s.Serves 1 "b" ∧
      (RemotesLaidOut [] s ↔ NamesKeep (place [] "/w") s) ∧
      ((∀ c n, s.Serves c n → PlainName n) → RemotesLaidOut [] s) ∧
      (∀ c n node, s.Serving c n node → s.Below [] node →
        ¬ Apart (rootLoc [] (daemonNode "/w" none)) (rootLoc [] node)) ∧
      (LaidOut [] (daemonNode "/w" none) s ↔ ∀ c n, ¬ s.Serves c n) := by
  have hrun : Sys.run step (Core.init "/w" none ⟨[], []⟩ 0) linkTwo = some _ := rfl
  exact ⟨_, hrun, ⟨_, rfl⟩, ⟨_, rfl⟩, laidOut_iff ⟨linkTwo, hrun⟩⟩

/-- **Any name can be linked and served.** -/
theorem serves_every_name (workspace : String) (nodeCfg : Option (String × NodeMode)) (name : String) :
    ∃ s, Sys.run step (Core.init workspace nodeCfg ⟨[], []⟩ 0) (link 0 "000000" name "t") = some s ∧
      s.Serving 0 name (s.nodeOf name) :=
  ⟨_, rfl, rfl⟩

/-- **A node named `..`** works above the workspace directory, one named by an absolute path
works there, and the local node's root contains every other one. -/
theorem link_escapes :
    ∃ s, Sys.run step (Core.init "/w" none ⟨[], []⟩ 0)
        (link 0 "000000" ".." "t" ++ link 1 "000001" "/etc" "u" ++ link 2 "000002" "a" "v") = some s ∧
      (∃ node, s.Serving 0 ".." node ∧ rootLoc [] node = []) ∧
      (∃ node, s.Serving 1 "/etc" node ∧ rootLoc [] node = ["etc"]) ∧
      (∃ node, s.Serving 2 "a" node ∧ rootLoc [] node = ["w", "a"]) ∧
      rootLoc [] (daemonNode "/w" none) = ["w"] ∧ ¬ LaidOut [] (daemonNode "/w" none) s := by
  have hrun : Sys.run step (Core.init "/w" none ⟨[], []⟩ 0)
      (link 0 "000000" ".." "t" ++ link 1 "000001" "/etc" "u" ++ link 2 "000002" "a" "v") = some _ := rfl
  refine ⟨_, hrun, ⟨_, rfl, by decide⟩, ⟨_, rfl, by decide⟩, ⟨_, rfl, by decide⟩, by decide, fun h => ?_⟩
  have := (h.below 0 ".." _ rfl).1
  revert this; decide

end Core

end Auxlry
