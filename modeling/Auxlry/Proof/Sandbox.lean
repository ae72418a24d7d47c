import Auxlry.Spec.LocalNode

/-!
# What the sandbox confines

A write through a sandboxed node creates directories and then a file. `Confined` says
that all of them lie below the real workspace root, and that a write that touches
nothing reports an error and leaves the tree alone.

* `confined_iff_staysBelow`: **the exact condition**. The check compares the canonical
  path when there is one. A path without one is compared as it is spelled, and then
  followed with each missing name made on the way.
* `writeFile_escapes`: a path that leaves the root through `..`, to a file that is
  not there yet.
-/

namespace Auxlry

open Posix

namespace LocalNode

/-- A node confined to the workspace `root`, which exists at the location `real`. -/
structure Sandboxed (n : LocalNode) (d : Disk) (root : String) (real : Loc) : Prop where
  mode : n.mode = .workspace
  workspaceRoot : n.workspaceRoot = some root
  canonicalize : canonicalize d.cwd (.parse root) d.fs = .ok real

/-- Whatever is created or modified lies below `real`, and nothing else changes; where
nothing is touched, the result is an error. -/
def Confined (real : Loc) (fs : Fs) (out : Saved) : Prop :=
  (∀ l, l ∈ out.touched ∨ out.fs.node l ≠ fs.node l → real <+: l) ∧
    (out.touched = [] → (∃ e, out.result = .error e) ∧ out.fs = fs)

/-- The path has a canonical form, or fails the check as it is spelled, or cannot be
made; or following it, each missing name entered as a new directory, meets missing
names and opens a file only below `real`. -/
def StaysBelow (d : Disk) (root : String) (real : Loc) (path : String) : Prop :=
  (∃ l, Posix.canonicalize d.cwd (.parse path) d.fs = .ok l) ∨
    ¬ (Path.parse path).startsWith (.parse root) ∨
    hasNul (Path.parse path).components.dropLast = true ∨
    StaysIn (real <+: ·) (Path.parse path).final.os (Path.parse path).components.dropLast d.fs d.cwd
      maxLinks

variable {n : LocalNode} {d : Disk} {root path : String} {real : Loc} {content : String}

/-! ## The write -/

/-- The directories a write makes for a resolved path, and the file. -/
def save (d : Disk) (resolved : Path) (content : String) : Out :=
  (makeParent d resolved).andThen (write d.cwd resolved (Utf8.bytes content))

theorem writeFile_refused {e : String} (h : n.checkSandbox d path = .error e) :
    n.writeFile d path content = ⟨d.fs, [], .error e⟩ := by unfold writeFile; rw [h]

theorem writeFile_checked (content : String) {p : Path} (h : n.checkSandbox d path = .ok p) :
    (n.writeFile d path content).fs = (save d p content).fs ∧
      (n.writeFile d path content).touched = (save d p content).touched ∧
      ((n.writeFile d path content).result = .ok () ↔ (save d p content).result = .ok ()) := by
  unfold writeFile save
  rw [h]
  refine ⟨rfl, rfl, ?_⟩
  dsimp only
  split
  · -- the write is left out
    rename_i e he
    unfold Out.andThen
    rw [he]
    dsimp only
    rw [he]; simp
  · rename_i e hr _
    rw [hr]; simp
  · rename_i hr _
    exact iff_of_true rfl hr

theorem makeParent_frames (p : Path) : (makeParent d p).Frames d.fs := by
  unfold makeParent
  split
  · exact createDirAll_frames _
  · exact fun _ _ => rfl

theorem save_frames (p : Path) : (save d p content).Frames d.fs :=
  (makeParent_frames p).andThen (write_frames _ _)

theorem save_touches {p : Path} (h : (save d p content).result = .ok ()) :
    (save d p content).touched ≠ [] := by
  unfold save at h ⊢
  generalize makeParent d p = made at h ⊢
  obtain ⟨fs, ts, res⟩ := made
  cases res with
  | error e => simp [Out.andThen] at h
  | ok u =>
    have hw : (write d.cwd p (Utf8.bytes content) fs).result = .ok () := h
    exact fun he => write_touches hw (List.append_eq_nil_iff.1 he).2

/-- Only the locations touched matter: the rest of `Confined` holds of every write. -/
theorem confined_iff : Confined real d.fs (n.writeFile d path content) ↔
    ∀ l ∈ (n.writeFile d path content).touched, real <+: l := by
  cases hc : n.checkSandbox d path with
  | error e =>
    rw [writeFile_refused hc]
    exact ⟨fun h l hl => h.1 l (.inl hl), fun _ => ⟨fun l hl => by simp at hl, fun _ => ⟨⟨e, rfl⟩, rfl⟩⟩⟩
  | ok p =>
    obtain ⟨hfs, hts, hres⟩ := writeFile_checked content hc
    unfold Confined
    rw [hfs, hts]
    refine ⟨fun h l hl => h.1 l (.inl hl), fun h => ⟨fun l hl => ?_, fun he => ⟨?_, ?_⟩⟩⟩
    · rcases hl with hl | hl
      · exact h l hl
      · exact h l (by_contra fun hn => hl (save_frames p l hn))
    · cases hr : (n.writeFile d path content).result with
      | error e => exact ⟨e, rfl⟩
      | ok u => exact absurd he (save_touches (hres.1 hr))
    · exact (save_frames p).fs_eq he

/-! ## Canonical paths -/

theorem canonicalize_ok {cwd l : Loc} {p : Path} {fs : Fs} (h : Posix.canonicalize cwd p fs = .ok l) :
    p.components ≠ [] ∧ ∃ k, walk fs maxLinks cwd p.os = .found l k := by
  unfold Posix.canonicalize at h
  split at h
  · cases h
  split at h
  · cases h
  · rename_i hc
    refine ⟨hc, ?_⟩
    split at h
    · rename_i m k hw; cases h; exact ⟨k, hw⟩
    · cases h

/-- A canonical path that starts with a path spells the real location of that path. -/
theorem spelled_prefix {l : Loc} {nd : Node} {base : Path} (hl : d.fs.node l = some nd)
    (hnd : ∀ t, nd ≠ .symlink t) (hne : base.components ≠ []) (h : (ofLoc l).startsWith base) :
    ∃ m, m <+: l ∧ walk d.fs maxLinks d.cwd base.components = .found m maxLinks := by
  -- the base is spelled like a location `m` on the way to `l`
  obtain ⟨m, hm, hbase⟩ : ∃ m, m <+: l ∧ base.components = (ofLoc m).components := by
    obtain ⟨c, cs, hcs⟩ := List.exists_cons_of_ne_nil hne
    have hpre : c :: cs <+: .rootDir :: l.map .normal := hcs ▸ h
    obtain ⟨rfl, hcs'⟩ := List.cons_prefix_cons.1 hpre
    obtain ⟨m, hm, rfl⟩ := List.prefix_map_iff.1 hcs'
    exact ⟨m, hm, hcs⟩
  -- which exists and is no link, so its real location is `m` itself
  obtain ⟨n', hn', hs'⟩ : ∃ n', d.fs.node m = some n' ∧ ∀ t, n' ≠ .symlink t := by
    obtain ⟨t, rfl⟩ := hm
    rcases t with _ | ⟨x, t⟩
    · exact ⟨nd, by rwa [List.append_nil] at hl, hnd⟩
    · exact ⟨.dir, d.fs.isDir_of_append (m := x :: t) (by simp) (by rw [hl]; rfl), Node.dir_ne_symlink⟩
  refine ⟨m, hm, ?_⟩
  rw [hbase]
  exact walk_ofLoc d.fs maxLinks d.cwdDir hn' hs'

/-- A canonical path that starts with a path is below its real location. -/
theorem real_prefix {l : Loc} {nd : Node} {base : Path} (hl : d.fs.node l = some nd)
    (hnd : ∀ t, nd ≠ .symlink t) (hreal : Posix.canonicalize d.cwd base d.fs = .ok real)
    (h : (ofLoc l).startsWith base) : real <+: l := by
  obtain ⟨hne, k, hw⟩ := canonicalize_ok hreal
  obtain ⟨m, hm, hwm⟩ := spelled_prefix hl hnd hne h
  have hreal := walk_of_os hw
  rw [hwm] at hreal
  cases hreal
  exact hm

/-- Making the parent of an existing location makes nothing, and fails for a NUL only. -/
theorem makeParent_ofLoc {l : Loc} {nd : Node} (hl : d.fs.node l = some nd) :
    (makeParent d (ofLoc l)).touched = [] ∧ (makeParent d (ofLoc l)).fs = d.fs ∧
      (hasNul (ofLoc l).components = false → (makeParent d (ofLoc l)).result = .ok ()) := by
  suffices h : (makeParent d (ofLoc l)).touched = [] ∧
      (hasNul (ofLoc l).components = false → (makeParent d (ofLoc l)).result = .ok ()) from
    ⟨h.1, (makeParent_frames _).fs_eq h.1, h.2⟩
  rcases List.eq_nil_or_concat l with rfl | ⟨m, x, rfl⟩
  · exact ⟨rfl, fun _ => rfl⟩
  · rw [List.concat_eq_append] at hl ⊢
    have hsnoc : (ofLoc (m ++ [x])).components = (ofLoc m).components ++ [.normal x] := by
      unfold ofLoc
      rw [List.map_append, List.map_singleton, List.cons_append]
    have hparent : (ofLoc (m ++ [x])).parent = some (ofLoc m) := by
      unfold Path.parent
      rw [hsnoc, List.getLast?_concat, List.dropLast_concat]; rfl
    unfold makeParent
    rw [hparent, hsnoc]
    dsimp only
    -- the parent is there, so following it misses no name
    have hm : d.fs.IsDir m := d.fs.parents m x (by rw [hl]; rfl)
    cases hn : hasNul (ofLoc m).components with
    | true =>
      refine ⟨congrArg Out.touched (createDirAll_nul hn), fun hn' => ?_⟩
      unfold hasNul at hn hn'
      rw [List.any_append, hn] at hn'
      cases hn'
    | false =>
      have hag := createDirAll_agrees d.cwdDir (ofLoc m).components hn
      have hwalk := walk_ofLoc d.fs maxLinks d.cwdDir hm Node.dir_ne_symlink
      have htrail : trail d.cwd (ofLoc m).components d.fs = ⟨d.fs, [], some (m, maxLinks)⟩ := by
        unfold trail
        rw [foldl_enter_walk d.cwdDir _ (Walk.ne_missing hwalk), hwalk, Walk.pos, if_pos hm]
      rw [htrail] at hag
      exact ⟨hag.touched, fun _ => hag.result.2 rfl⟩

/-- Saving to an existing location touches that location at most. -/
theorem save_ofLoc {l : Loc} {nd : Node} (hl : d.fs.node l = some nd) (hnd : ∀ t, nd ≠ .symlink t) :
    ∀ m ∈ (save d (ofLoc l) content).touched, m = l := by
  obtain ⟨hts, hfs, -⟩ := makeParent_ofLoc hl
  have hwalk : walk d.fs maxLinks d.cwd (ofLoc l).os = .found l maxLinks := by
    rw [Path.os, walk_append, walk_ofLoc d.fs maxLinks d.cwdDir hl hnd]; exact walk_nil
  have hwrite : ∀ m ∈ (write d.cwd (ofLoc l) (Utf8.bytes content) d.fs).touched, m = l := by
    unfold write
    rw [hwalk]
    split
    · simp [Out.fail]
    split
    · simp [Out.fail]
    · exact Fs.touched_writeAt.2 fun _ => rfl
  intro m hm
  unfold save Out.andThen at hm
  split at hm
  · rw [hts] at hm; cases hm
  · rw [hts, hfs] at hm; exact hwrite m hm

/-! ## Paths without a canonical form -/

/-- Only the path `/` ends in the root. -/
theorem parse_of_rootDir {s : String} (h : (Path.parse s).components.getLast? = some .rootDir) :
    (Path.parse s).components = [.rootDir] := by
  have hseg : ∀ segs : List (List Char), .rootDir ∉ segs.filterMap componentOf := by
    intro segs hm
    obtain ⟨seg, -, hs⟩ := List.mem_filterMap.1 hm
    unfold componentOf at hs
    split at hs <;> simp at hs
  unfold Path.parse at h ⊢
  split at h
  · cases h
  · cases h
  · rename_i segs hs _
    have := hseg segs
    cases hf : segs.filterMap componentOf with
    | nil => rfl
    | cons c cs =>
      rw [hf] at this
      simp only [hf] at h
      rw [List.getLast?_cons_cons] at h
      exact absurd (List.mem_of_getLast? h) this
  · rename_i seg segs hne hs
    dsimp only at h
    have := List.mem_of_getLast? h
    rw [List.mem_append] at this
    rcases this with hm | hm
    · split at hm <;> simp at hm
    · exact absurd hm (hseg _)

theorem resolve_eq_ok {l : Loc} (h : Posix.canonicalize d.cwd (.parse path) d.fs = .ok l) :
    resolve d path = ofLoc l := by unfold resolve; rw [h]

theorem resolve_eq_error {e : IoError} (h : Posix.canonicalize d.cwd (.parse path) d.fs = .error e) :
    resolve d path = .parse path := by unfold resolve; rw [h]

theorem checkSandbox_ok (hs : n.Sandboxed d root real)
    (h : (resolve d path).startsWith (.parse root)) :
    n.checkSandbox d path = .ok (resolve d path) := by
  unfold checkSandbox; rw [hs.mode, hs.workspaceRoot]; exact if_pos h

theorem checkSandbox_error (hs : n.Sandboxed d root real)
    (h : ¬ (resolve d path).startsWith (.parse root)) : ∃ e, n.checkSandbox d path = .error e := by
  unfold checkSandbox; rw [hs.mode, hs.workspaceRoot]; exact ⟨_, if_neg h⟩

/-- A path with a canonical form is confined. -/
theorem confined_of_canonical (hs : n.Sandboxed d root real) {l : Loc}
    (h : Posix.canonicalize d.cwd (.parse path) d.fs = .ok l) :
    Confined real d.fs (n.writeFile d path content) := by
  rw [confined_iff]
  by_cases hroot : (resolve d path).startsWith (.parse root)
  · -- what is written is the canonical path that was checked
    rw [(writeFile_checked content (checkSandbox_ok hs hroot)).2.1, resolve_eq_ok h]
    rw [resolve_eq_ok h] at hroot
    obtain ⟨-, k, hw⟩ := canonicalize_ok h
    obtain ⟨nd, hnd, hlink⟩ := walk_found d.cwdDir Node.dir_ne_symlink hw
    intro m hm
    rw [save_ofLoc hnd hlink m hm]
    exact real_prefix hnd hlink hs.canonicalize hroot
  · obtain ⟨e, he⟩ := checkSandbox_error hs hroot
    rw [writeFile_refused he]; exact nofun

/-- A path without one is made and written as spelled. -/
theorem save_parse (content : String) {e : IoError} (hne : (Path.parse path).components ≠ [])
    (h : Posix.canonicalize d.cwd (.parse path) d.fs = .error e) :
    ∃ dirs c, (Path.parse path).components = dirs ++ [c] ∧
      save d (.parse path) content = (createDirAll d.cwd ⟨dirs, false⟩ d.fs).andThen
        (write d.cwd ⟨dirs ++ [c], (Path.parse path).slash⟩ (Utf8.bytes content)) := by
  obtain ⟨dirs, c, hc⟩ : ∃ dirs c, (Path.parse path).components = dirs ++ [c] := by
    rcases List.eq_nil_or_concat (Path.parse path).components with h0 | ⟨dirs, c, hc⟩
    · exact absurd h0 hne
    · exact ⟨dirs, c, hc.trans List.concat_eq_append⟩
  refine ⟨dirs, c, hc, ?_⟩
  have hlast : (Path.parse path).components.getLast? = some c := by rw [hc, List.getLast?_concat]
  have hc' : c ≠ .rootDir := by
    rintro rfl
    -- the root exists, so it has a canonical form
    have hcomp := parse_of_rootDir hlast
    have hw : ∃ k, walk d.fs maxLinks d.cwd (Path.parse path).os = .found [] k := by
      rw [Path.os, hcomp, List.singleton_append, walk_hop d.cwdDir .rootDir]
      split
      · rw [walk_hop (show d.fs.IsDir [] from d.fs.root) .curDir, walk_nil]; exact ⟨_, rfl⟩
      · rw [walk_nil]; exact ⟨_, rfl⟩
    obtain ⟨k, hw⟩ := hw
    unfold Posix.canonicalize at h
    rw [hw, hcomp] at h
    cases h
  have hparent : (Path.parse path).parent = some ⟨dirs, false⟩ := by
    unfold Path.parent
    rw [hlast, hc, List.dropLast_concat]
    cases c with
    | rootDir => exact absurd rfl hc'
    | curDir | parentDir | normal => rfl
  unfold save makeParent
  rw [hparent, ← hc]

/-- **The exact condition** for a write to stay in the workspace. -/
theorem confined_iff_staysBelow (hs : n.Sandboxed d root real) :
    Confined real d.fs (n.writeFile d path content) ↔ StaysBelow d root real path := by
  unfold StaysBelow
  cases h : Posix.canonicalize d.cwd (.parse path) d.fs with
  | ok l => exact ⟨fun _ => .inl ⟨l, rfl⟩, fun _ => confined_of_canonical hs h⟩
  | error e =>
    have hno : ¬ ∃ l, (Except.error e : Except IoError Loc) = .ok l := by
      intro ⟨l, hl⟩
      cases hl
    -- without a canonical form the path is checked, made and written as it is spelled
    rw [confined_iff, or_iff_right hno]
    by_cases hroot : (Path.parse path).startsWith (.parse root)
    · have hres := resolve_eq_error h
      rw [(writeFile_checked content (checkSandbox_ok hs (hres ▸ hroot))).2.1, hres,
        or_iff_right (not_not.2 hroot)]
      have hne : (Path.parse path).components ≠ [] := by
        intro h0
        have hpre : (Path.parse root).components <+: (Path.parse path).components := hroot
        rw [h0, List.prefix_nil] at hpre
        exact (canonicalize_ok hs.canonicalize).1 hpre
      obtain ⟨dirs, c, hc, hsave⟩ := save_parse content hne h
      rw [hsave, Path.final, hc, List.dropLast_concat, List.getLast?_concat]
      cases hn : hasNul dirs with
      | true => rw [createDirAll_nul hn]; simp [Out.andThen, Out.fail]
      | false => rw [staysIn_iff d.cwdDir hn]; simp
    · have hres := resolve_eq_error h
      obtain ⟨e', he⟩ := checkSandbox_error hs (hres ▸ hroot)
      rw [writeFile_refused he]
      exact ⟨fun _ => .inl hroot, fun _ => by intro m hm; cases hm⟩

/-! ## A path that leaves the root -/

/-- A machine whose only directory is the workspace `/w`. -/
def oneWorkspace : Disk where
  fs := Fs.empty.put ["w"] .dir
  cwd := []
  cwdDir := by decide

/-- The node that works there. -/
def workspaceNode : LocalNode := ⟨"n", .workspace, some "/w"⟩

theorem workspaceNode_sandboxed : workspaceNode.Sandboxed oneWorkspace "/w" ["w"] :=
  ⟨rfl, rfl, by decide⟩

/-- The condition at work: a new file below the root, in a new directory. -/
theorem confined_iff_staysBelow_below :
    Confined ["w"] oneWorkspace.fs (workspaceNode.writeFile oneWorkspace "/w/a/b" "") ↔
      StaysBelow oneWorkspace "/w" ["w"] "/w/a/b" :=
  confined_iff_staysBelow workspaceNode_sandboxed

/-- **The check lets `..` through** to a file that is not there yet. -/
theorem writeFile_escapes :
    workspaceNode.Sandboxed oneWorkspace "/w" ["w"] ∧
      (workspaceNode.writeFile oneWorkspace "/w/../x" "").touched = [["x"]] ∧
      ¬ Confined ["w"] oneWorkspace.fs (workspaceNode.writeFile oneWorkspace "/w/../x" "") := by
  have ht : (workspaceNode.writeFile oneWorkspace "/w/../x" "").touched = [["x"]] := by decide
  refine ⟨workspaceNode_sandboxed, ht, fun h => ?_⟩
  have := h.1 ["x"] (.inl (by rw [ht]; exact List.mem_singleton_self _))
  revert this; decide

end LocalNode

end Auxlry
