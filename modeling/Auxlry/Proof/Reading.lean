import Auxlry.Proof.Sandbox

/-!
# What the sandbox lets a node open

`readFile`, `listDir` and `runCommand` check a path and then open it. `Inside` says
that what is opened lies in the workspace root, and that nothing is returned without
opening something.

The check passes a path without a canonical form as it is spelled, and `runCommand`
enters the spelling it was given instead of the path that was checked. Neither leads
out of the root: the spelling of what can be opened is followed to the canonical path
(`canonical_of_resolve`), and a canonical path that starts with the root is below its
real location (`within_of_canonical`).

* `opens_inside`: **what a workspace node reads, lists or enters is in its root.**
-/

namespace Auxlry

open Posix

namespace LocalNode

/-- The location `l` is in `root`: its canonical path starts with it, and where `root`
leads on the disk is above it. The empty root leads nowhere. -/
def Within (d : Disk) (root : String) (l : Loc) : Prop :=
  (ofLoc l).startsWith (.parse root) ∧ (root ≠ "" → ∃ real k,
    walk d.fs maxLinks d.cwd (Path.parse root).components = .found real k ∧ real <+: l)

/-- What an operation opens is in `root`, and it returns nothing it has not opened. -/
def Inside {α : Type} (d : Disk) (root : String) (out : Opened α) : Prop :=
  (∀ l, out.opened = some l → Within d root l) ∧ (∀ x, out.result = .ok x → ∃ l, out.opened = some l)

variable {n : LocalNode} {d : Disk} {root path : String} {l : Loc}

/-! ## The path that is opened -/

theorem components_ne_nil {s : String} (h : s ≠ "") : (Path.parse s).components ≠ [] := by
  rcases isAbsolute_cases s with ⟨-, seg, segs, hs⟩ | ⟨-, he | ⟨c, seg, segs, hs⟩⟩
  · unfold Path.parse
    rw [hs]; exact List.cons_ne_nil _ _
  · exact absurd he h
  · unfold Path.parse
    rw [hs]
    dsimp only
    split
    · exact List.cons_ne_nil _ _
    · -- a segment that is not `.` stands for a component
      rename_i hdot
      rw [List.nil_append]
      intro hnil
      have hc := List.filterMap_eq_nil_iff.1 hnil (c :: seg) List.mem_cons_self
      unfold componentOf at hc
      split at hc <;> simp_all

/-- The locations that paths lead to are their own canonical paths. -/
theorem canonicalize_ofLoc {l' : Loc} {nd : Node} (hl : d.fs.node l = some nd) (hnd : ∀ t, nd ≠ .symlink t)
    (h : Posix.canonicalize d.cwd (ofLoc l) d.fs = .ok l') : l' = l := by
  obtain ⟨-, k, hw⟩ := canonicalize_ok h
  have hwl := walk_of_os hw
  rw [walk_ofLoc d.fs maxLinks d.cwdDir hl hnd] at hwl
  cases hwl; rfl

/-- **What the resolved path leads to is what the path leads to.** -/
theorem canonical_of_resolve (h : Posix.canonicalize d.cwd (resolve d path) d.fs = .ok l) :
    Posix.canonicalize d.cwd (.parse path) d.fs = .ok l := by
  cases hc : Posix.canonicalize d.cwd (.parse path) d.fs with
  | error e =>
    rw [resolve_eq_error hc, hc] at h
    cases h
  | ok m =>
    rw [resolve_eq_ok hc] at h
    obtain ⟨-, k, hw⟩ := canonicalize_ok hc
    obtain ⟨nd, hnd, hlink⟩ := walk_found d.cwdDir Node.dir_ne_symlink hw
    rw [canonicalize_ofLoc hnd hlink h]

theorem checkSandbox_startsWith {p : Path} (hmode : n.mode = .workspace)
    (hroot : n.workspaceRoot = some root) (h : n.checkSandbox d path = .ok p) :
    p = resolve d path ∧ (resolve d path).startsWith (.parse root) := by
  unfold checkSandbox at h
  rw [hmode, hroot] at h
  dsimp only at h
  split at h
  · rename_i hs
    cases h; exact ⟨rfl, hs⟩
  · cases h

/-- **A path that is accepted and leads somewhere leads into the root.** -/
theorem within_of_canonical (hc : Posix.canonicalize d.cwd (.parse path) d.fs = .ok l)
    (hs : (resolve d path).startsWith (.parse root)) : Within d root l := by
  rw [resolve_eq_ok hc] at hs
  obtain ⟨-, k, hw⟩ := canonicalize_ok hc
  obtain ⟨nd, hnd, hlink⟩ := walk_found d.cwdDir Node.dir_ne_symlink hw
  refine ⟨hs, fun hne => ?_⟩
  obtain ⟨m, hm, hwm⟩ := spelled_prefix hnd hlink (components_ne_nil hne) hs
  exact ⟨m, maxLinks, hwm, hm⟩

/-! ## The operations -/

theorem read_canonicalize {cwd : Loc} {p : Path} {fs : Fs} {bytes : List UInt8}
    (h : Posix.read cwd p fs = .ok (l, bytes)) : Posix.canonicalize cwd p fs = .ok l := by
  unfold Posix.read at h
  split at h
  · cases h
  · rename_i m hc
    split at h
    · rename_i nd hnd
      cases hb : nd.bytes with
      | error e => rw [hb] at h; cases h
      | ok bytes' => rw [hb] at h; cases h; exact hc
    · cases h

theorem openDir_canonicalize {cwd : Loc} {p : Path} {fs : Fs} (h : openDir cwd p fs = .ok l) :
    Posix.canonicalize cwd p fs = .ok l := by
  unfold openDir at h
  split at h
  · cases h
  · rename_i m hc
    split at h
    · cases h; exact hc
    · cases h

theorem inside_none {α : Type} (e : String) : Inside d root (⟨none, .error e⟩ : Opened α) := by
  refine ⟨fun l hl => ?_, fun x hx => ?_⟩
  · cases hl
  · cases hx

theorem inside_some {α : Type} (hl : Within d root l) (r : Except String α) :
    Inside d root ⟨some l, r⟩ := by
  refine ⟨fun m hm => ?_, fun _ _ => ⟨l, rfl⟩⟩
  cases hm; exact hl

section

variable (hmode : n.mode = .workspace) (hroot : n.workspaceRoot = some root)
include hmode hroot

theorem readFile_inside : Inside d root (n.readFile d path) := by
  unfold readFile
  split
  · exact inside_none _
  · rename_i p hp
    obtain ⟨rfl, hs⟩ := checkSandbox_startsWith hmode hroot hp
    split
    · exact inside_none _
    · rename_i l bytes hr
      have hl := within_of_canonical (canonical_of_resolve (read_canonicalize hr)) hs
      split
      · exact inside_some hl _
      · exact inside_some hl _

theorem listDir_inside (listing : Listing) : Inside d root (n.listDir listing d path) := by
  unfold listDir
  split
  · exact inside_none _
  · rename_i p hp
    obtain ⟨rfl, hs⟩ := checkSandbox_startsWith hmode hroot hp
    split
    · exact inside_none _
    · rename_i l hr
      exact inside_some (within_of_canonical (canonical_of_resolve (openDir_canonicalize hr)) hs) _

theorem runCommand_inside (sh : Shell) (command : String) :
    Inside d root (n.runCommand sh d command (some path)) := by
  unfold runCommand
  rw [show n.commandDir d (some path) = (n.checkSandbox d path).map fun _ => some path from rfl]
  cases hp : n.checkSandbox d path with
  | error e => exact inside_none _
  | ok p =>
    obtain ⟨rfl, hs⟩ := checkSandbox_startsWith hmode hroot hp
    -- the spelling is entered, and not the path that was checked
    dsimp only [Except.map, Option.elim_some]
    split
    · exact inside_none _
    · rename_i l hr
      have hl := within_of_canonical (openDir_canonicalize hr) hs
      split
      · exact inside_some hl _
      · exact inside_some hl _

end

/-- **What a workspace node reads, lists or enters is in its root**, whatever the tree,
the root and the spelling of the path. -/
theorem opens_inside (listing : Listing) (sh : Shell) (d : Disk) (path command : String)
    (hmode : n.mode = .workspace) (hroot : n.workspaceRoot = some root) :
    Inside d root (n.readFile d path) ∧ Inside d root (n.listDir listing d path) ∧
      Inside d root (n.runCommand sh d command (some path)) :=
  ⟨readFile_inside hmode hroot, listDir_inside hmode hroot listing,
    runCommand_inside hmode hroot sh command⟩

/-- The workspace itself, reached through `..`: listed and entered. -/
theorem opens_inside_dotdot :
    (workspaceNode.listDir (fun _ _ => .ok []) oneWorkspace "/w/../w").opened = some ["w"] ∧
      (workspaceNode.runCommand (fun _ _ => some ⟨"", "", 0⟩) oneWorkspace "pwd" (some "/w/../w")).opened =
        some ["w"] ∧
      Inside oneWorkspace "/w" (workspaceNode.readFile oneWorkspace "/w/../w") ∧
      Inside oneWorkspace "/w" (workspaceNode.listDir (fun _ _ => .ok []) oneWorkspace "/w/../w") ∧
      Inside oneWorkspace "/w"
        (workspaceNode.runCommand (fun _ _ => some ⟨"", "", 0⟩) oneWorkspace "pwd" (some "/w/../w")) :=
  ⟨by decide, by decide, opens_inside (n := workspaceNode) _ _ oneWorkspace "/w/../w" "pwd" rfl rfl⟩

end LocalNode

end Auxlry
