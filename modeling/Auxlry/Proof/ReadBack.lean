import Auxlry.Posix.Contents
import Auxlry.Proof.Reading

/-!
# Reading back what was written

A node that has written a file should be able to read it, and to write it again.
`ReadsBack` says so of one path and one text.

The check compares the spelling of a path as long as nothing is there, and the
canonical path afterwards, both with the root as it is spelled. So the write itself
can change what the check says. And what is there may take what is written and not give it
back: a device, or a file that the process may not read. `Recoverable` is about the disk
before the write: it follows the path, each missing name entered as a new directory, to the
place that is written to (`destination`), and asks what the check says of the canonical path
of that place, and what is there.

* `readsBack_iff`: **a write is read back and can be repeated exactly when it is recoverable.**
* `linkedRoot_refuses`: a root behind a symbolic link, and a new file in it.
-/

namespace Auxlry

open Posix

namespace LocalNode

/-- The check passes a resolved path. -/
def Accepts (n : LocalNode) (p : Path) : Prop :=
  n.mode = .workspace → ∀ root, n.workspaceRoot = some root → p.startsWith (.parse root)

/-- Where a write to the path puts its file, the directories above made on the way. -/
def destination (d : Disk) (p : Path) : Option Loc :=
  if hasNul p.components = true ∨ p.components = [] then none
  else
    match (trail d.cwd p.components.dropLast d.fs).pos with
    | none => none
    | some (l, k) =>
      let fs := (trail d.cwd p.components.dropLast d.fs).fs
      (walk fs k l p.final.os).opens fs

/-- What takes a write gives it back: a file does if the process may read it, and a device, a FIFO
or a socket if just these bytes are read from it. -/
def GivesBack (bytes : List UInt8) : Node → Prop
  | .restricted access _ => access ≠ .writeOnly
  | .special takes gives => takes = true → gives = some bytes
  | _ => True

/-- What an accepted path leads to gives the text back; and where it leads to nothing, the place
that is written to passes the check by its canonical path. (No name on a real disk has a NUL in it.) -/
def Recoverable (n : LocalNode) (d : Disk) (path content : String) : Prop :=
  match Posix.canonicalize d.cwd (.parse path) d.fs with
  | .ok l => n.Accepts (ofLoc l) → hasNul (ofLoc l).components = false →
      ∀ nd, d.fs.node l = some nd → GivesBack (Utf8.bytes content) nd
  | .error _ => n.Accepts (.parse path) → ∀ l, destination d (.parse path) = some l →
      n.Accepts (ofLoc l) ∧ hasNul (ofLoc l).components = false ∧
        ∀ nd, d.fs.node l = some nd → GivesBack (Utf8.bytes content) nd

variable {n : LocalNode} {d : Disk} {path content : String} {l : Loc}

/-! ## The check -/

theorem checkSandbox_accepts (h : n.Accepts (resolve d path)) :
    n.checkSandbox d path = .ok (resolve d path) := by
  unfold checkSandbox
  split
  · rename_i root hmode hroot
    exact if_pos (h hmode root hroot)
  · rfl

theorem checkSandbox_refuses (h : ¬ n.Accepts (resolve d path)) :
    ∃ e, n.checkSandbox d path = .error e := by
  unfold checkSandbox
  split
  · rename_i root hmode hroot
    refine ⟨_, if_neg fun hs => h fun _ root' hroot' => ?_⟩
    rw [hroot] at hroot'
    cases hroot'; exact hs
  · rename_i hno
    exact absurd (fun hmode root hroot => absurd hroot (hno root hmode)) h

/-! ## The disk a write leaves -/

theorem makeParent_extends (p : Path) : d.fs.Extends (makeParent d p).fs := by
  unfold makeParent Path.parent
  split
  · rename_i parent hp
    split at hp
    · cases hp
    · cases hp
    · cases hp
      exact createDirAll_extends d.cwdDir _
  · exact .refl d.fs

theorem save_cwdDir (p : Path) : (save d p content).fs.IsDir d.cwd := by
  have hmade : (makeParent d p).fs.IsDir d.cwd := makeParent_extends p _ _ d.cwdDir
  unfold save Out.andThen
  split
  · exact hmade
  · exact write_isDir hmade

theorem writeFile_cwdDir (n : LocalNode) (d : Disk) (path content : String) :
    (n.writeFile d path content).fs.IsDir d.cwd := by
  cases hc : n.checkSandbox d path with
  | error e => rw [writeFile_refused hc]; exact d.cwdDir
  | ok p => rw [(writeFile_checked content hc).1]; exact save_cwdDir p

/-- The disk a write leaves. -/
def wrote (n : LocalNode) (d : Disk) (path content : String) : Disk :=
  ⟨(n.writeFile d path content).fs, d.cwd, writeFile_cwdDir n d path content⟩

/-- A write that succeeds is read back as it was, and can be repeated. -/
def ReadsBack (n : LocalNode) (d : Disk) (path content : String) : Prop :=
  (n.writeFile d path content).result = .ok () →
    (∃ c, (n.readFile (n.wrote d path content) path).result = .ok c ∧ c.content = content) ∧
      ∀ content', (n.writeFile (n.wrote d path content) path content').result = .ok ()

/-! ## A file that is there -/

theorem ofLoc_ne_nil : (ofLoc l).components ≠ [] := List.cons_ne_nil _ _

theorem walk_os_ofLoc {nd : Node} (hl : d.fs.node l = some nd) (hnd : ∀ t, nd ≠ .symlink t) :
    walk d.fs maxLinks d.cwd (ofLoc l).os = .found l maxLinks := by
  rw [Path.os, walk_append, walk_ofLoc d.fs maxLinks d.cwdDir hl hnd]; exact walk_nil

theorem accepts_of_checkSandbox {p : Path} (h : n.checkSandbox d path = .ok p) :
    p = resolve d path ∧ n.Accepts (resolve d path) := by
  have ha : n.Accepts (resolve d path) := by
    by_contra ha
    obtain ⟨e, he⟩ := checkSandbox_refuses ha
    rw [he] at h
    cases h
  rw [checkSandbox_accepts ha] at h
  cases h
  exact ⟨rfl, ha⟩

variable {nd nd' : Node} {bytes : List UInt8}

/-- The canonical path of what exists is opened and read there. -/
theorem read_ofLoc (hl : d.fs.node l = some nd) (hnd : ∀ t, nd ≠ .symlink t) (bytes : List UInt8) :
    Posix.read d.cwd (ofLoc l) d.fs = .ok (l, bytes) ↔
      hasNul (ofLoc l).components = false ∧ nd.bytes = .ok bytes := by
  cases hn : hasNul (ofLoc l).components with
  | true =>
    have hread : Posix.read d.cwd (ofLoc l) d.fs = .error .invalidInput := by
      unfold Posix.read Posix.canonicalize
      rw [if_pos hn]
    rw [hread]; simp
  | false =>
    have hread : Posix.read d.cwd (ofLoc l) d.fs = nd.bytes.map fun bytes => (l, bytes) := by
      unfold Posix.read
      rw [canonicalize_of_walk hn ofLoc_ne_nil (walk_os_ofLoc hl hnd)]
      dsimp only
      rw [hl]
    rw [hread, and_iff_right rfl]
    cases nd.bytes with
    | error e => simp [Except.map]
    | ok b => simp [Except.map]

/-- **What a path that leads somewhere is read as**: the check accepts the canonical path, the process
may read what is there, and it is text. -/
theorem readFile_iff (hc : Posix.canonicalize d.cwd (.parse path) d.fs = .ok l)
    (hl : d.fs.node l = some nd) (c : FileContent) :
    (n.readFile d path).result = .ok c ↔
      n.Accepts (ofLoc l) ∧ hasNul (ofLoc l).components = false ∧
        ∃ bytes, nd.bytes = .ok bytes ∧ Utf8.decode bytes = some c.content ∧
          c.path = resolvedText d path := by
  have hres := resolve_eq_ok hc
  obtain ⟨-, k, hw⟩ := canonicalize_ok hc
  obtain ⟨nd', hnd', hlink⟩ := walk_found d.cwdDir Node.dir_ne_symlink hw
  obtain rfl : nd' = nd := Option.some.inj (hnd'.symm.trans hl)
  have hread := read_ofLoc hl hlink
  constructor
  · intro h
    unfold readFile at h
    split at h
    · cases h
    rename_i p hp
    obtain ⟨rfl, ha⟩ := accepts_of_checkSandbox hp
    rw [hres] at ha h
    split at h
    · cases h
    rename_i l' bytes hr
    obtain rfl : l' = l := canonicalize_ofLoc hl hlink (read_canonicalize hr)
    obtain ⟨hn, hb⟩ := (hread bytes).1 hr
    split at h
    · cases h
    · rename_i content hdecode
      cases h
      exact ⟨ha, hn, bytes, hb, hdecode, rfl⟩
  · rintro ⟨ha, hn, bytes, hb, hdecode, hpath⟩
    obtain ⟨cpath, ccontent⟩ := c
    cases hpath
    unfold readFile
    rw [checkSandbox_accepts (hres ▸ ha), hres]
    dsimp only
    rw [(hread bytes).2 ⟨hn, hb⟩]
    dsimp only at hdecode ⊢
    rw [hdecode]
    rfl

/-- A save that succeeds writes to the tree that making the directories leaves. -/
theorem write_of_save {p : Path} (h : (save d p content).result = .ok ()) :
    (write d.cwd p (Utf8.bytes content) (makeParent d p).fs).result = .ok () := by
  unfold save Out.andThen at h
  split at h
  · rename_i e he
    rw [he] at h
    cases h
  · exact h

/-- A path with a NUL in it, or without a name, is not saved. -/
theorem save_unnamed {p : Path} (content : String) (h : hasNul p.components = true ∨ p.components = []) :
    (save d p content).result ≠ .ok () := by
  intro hok
  have hwrite := write_of_save hok
  unfold write at hwrite
  split at hwrite
  · cases hwrite
  · rename_i hn
    rw [if_pos (h.resolve_left hn)] at hwrite
    cases hwrite

/-- Nor is what takes no write. -/
theorem save_ofLoc_closed {e : IoError} (hl : d.fs.node l = some nd) (hnd : ∀ t, nd ≠ .symlink t)
    (hw : nd.written (Utf8.bytes content) = .error e) : (save d (ofLoc l) content).result ≠ .ok () := by
  intro hok
  have hclosed : ¬ d.fs.takes l = true := by
    intro ht
    obtain ⟨nd', hnd'⟩ := (Fs.takes_iff (Utf8.bytes content)).1 ht
    rw [Fs.written_of_some _ hl, hw] at hnd'
    cases hnd'
  have hopens : (walk d.fs maxLinks d.cwd (ofLoc l).os).opens d.fs = none := by
    rw [walk_os_ofLoc hl hnd, Walk.opens, if_neg hclosed]
  obtain ⟨e', he'⟩ := write_opens_none (Utf8.bytes content) hopens
  have hwrite := write_of_save hok
  rw [(makeParent_ofLoc hl).2.1, he'] at hwrite
  cases hwrite

/-- Saving to what exists. -/
theorem save_ofLoc_written (hl : d.fs.node l = some nd) (hnd : ∀ t, nd ≠ .symlink t)
    (hn : hasNul (ofLoc l).components = false) (hw : nd.written (Utf8.bytes content) = .ok nd') :
    (save d (ofLoc l) content).result = .ok () ∧ (save d (ofLoc l) content).fs = d.fs.put l nd' := by
  obtain ⟨-, hfs, hres⟩ := makeParent_ofLoc hl
  have hwritten : d.fs.written l (Utf8.bytes content) = .ok nd' := (Fs.written_of_some _ hl).trans hw
  have hopens : (walk d.fs maxLinks d.cwd (ofLoc l).os).opens d.fs = some l := by
    rw [walk_os_ofLoc hl hnd, Walk.opens, if_pos ((Fs.takes_iff _).2 ⟨nd', hwritten⟩)]
  have hwrite := (write_opens (Utf8.bytes content) hn ofLoc_ne_nil hopens).trans (Fs.writeAt_ok hwritten)
  unfold save Out.andThen
  rw [hres hn, hfs, hwrite]
  exact ⟨rfl, rfl⟩

/-- What takes a write is written where the check accepts its canonical path. -/
theorem writeFile_taken (hc : Posix.canonicalize d.cwd (.parse path) d.fs = .ok l)
    (hl : d.fs.node l = some nd) (ht : nd.takes = true) (ha : n.Accepts (ofLoc l))
    (hn : hasNul (ofLoc l).components = false) : (n.writeFile d path content).result = .ok () := by
  have hres := resolve_eq_ok hc
  obtain ⟨nd', hw⟩ := (Node.takes_iff (Utf8.bytes content)).1 ht
  have hlink : ∀ t, nd ≠ .symlink t := by
    rintro t rfl
    cases hw
  rw [(writeFile_checked content (checkSandbox_accepts (hres ▸ ha))).2.2, hres]
  exact (save_ofLoc_written hl hlink hn hw).1

/-- What was written can be written again. -/
theorem takes_of_written {fs : Fs} (hw : fs.written l bytes = .ok nd) : nd.takes = true := by
  cases hold : fs.node l with
  | none =>
    rw [Fs.written_of_none bytes hold] at hw
    cases hw; rfl
  | some old =>
    rw [Fs.written_of_some bytes hold] at hw
    rcases Node.written_cases hw with ⟨b, rfl, rfl⟩ | ⟨b, rfl, rfl⟩ | ⟨gives, rfl, rfl⟩
    · rfl
    · rfl
    · rfl

theorem node_bytes_of_written (hw : nd.written bytes = .ok nd') : nd'.bytes = .ok bytes ↔ GivesBack bytes nd := by
  rcases Node.written_cases hw with ⟨old, rfl, rfl⟩ | ⟨old, rfl, rfl⟩ | ⟨gives, rfl, rfl⟩
  · exact iff_of_true rfl trivial
  · exact iff_of_false (by intro h; cases h) fun h => h rfl
  · unfold GivesBack
    cases gives with
    | none => exact iff_of_false (by intro h; cases h) (by intro h; cases h rfl)
    | some b => simp [Node.bytes]

/-- What takes no write has nothing to give back. -/
theorem givesBack_of_error {e : IoError} (hw : nd.written bytes = .error e) : GivesBack bytes nd := by
  cases nd with
  | dir | symlink | file => trivial
  | restricted access =>
    cases access with
    | readOnly | nothing => exact fun h => by cases h
    | writeOnly => cases hw
  | special takes gives =>
    cases takes with
    | false => exact fun h => by cases h
    | true => cases hw

/-- What was written is read as it was written where it is given back. -/
theorem bytes_of_written {fs : Fs} (hw : fs.written l bytes = .ok nd) :
    nd.bytes = .ok bytes ↔ ∀ old, fs.node l = some old → GivesBack bytes old := by
  cases hold : fs.node l with
  | none =>
    rw [Fs.written_of_none bytes hold] at hw
    cases hw
    exact iff_of_true rfl fun old h => by cases h
  | some old =>
    rw [Fs.written_of_some bytes hold] at hw
    rw [node_bytes_of_written hw]
    constructor
    · intro h old' hold'
      cases hold'
      exact h
    · intro h
      exact h old rfl

/-- **What a write leaves decides** whether it is read back. -/
theorem readsBack_of_wrote (hc : Posix.canonicalize d.cwd (.parse path) (n.wrote d path content).fs = .ok l)
    (hw : d.fs.written l (Utf8.bytes content) = .ok nd) (hl : (n.wrote d path content).fs.node l = some nd)
    (hok : (n.writeFile d path content).result = .ok ()) :
    n.ReadsBack d path content ↔ n.Accepts (ofLoc l) ∧ hasNul (ofLoc l).components = false ∧
      ∀ old, d.fs.node l = some old → GivesBack (Utf8.bytes content) old := by
  have hread := readFile_iff (n := n) (d := n.wrote d path content) hc hl
  constructor
  · intro h
    obtain ⟨⟨c, hc, rfl⟩, -⟩ := h hok
    obtain ⟨ha, hn, bytes, hb, hdecode, -⟩ := (hread c).1 hc
    rw [← Utf8.bytes_of_decode hdecode] at hb
    exact ⟨ha, hn, (bytes_of_written hw).1 hb⟩
  · rintro ⟨ha, hn, hgives⟩ -
    refine ⟨⟨⟨resolvedText (n.wrote d path content) path, content⟩, (hread _).2 ?_, rfl⟩, ?_⟩
    · exact ⟨ha, hn, _, (bytes_of_written hw).2 hgives, Utf8.decode_bytes content, rfl⟩
    · intro content'
      exact writeFile_taken (d := n.wrote d path content) hc hl (takes_of_written hw) ha hn

/-! ## The two kinds of writes -/

/-- What the check refuses is not written. -/
theorem readsBack_of_refused (ha : ¬ n.Accepts (resolve d path)) : n.ReadsBack d path content := by
  intro hok
  obtain ⟨e, he⟩ := checkSandbox_refuses ha
  rw [writeFile_refused he] at hok
  cases hok

/-- **A path that leads to something**: the check says the same before and after. -/
theorem readsBack_of_canonical (h : Posix.canonicalize d.cwd (.parse path) d.fs = .ok l) :
    n.ReadsBack d path content ↔
      (n.Accepts (ofLoc l) → hasNul (ofLoc l).components = false →
        ∀ nd, d.fs.node l = some nd → GivesBack (Utf8.bytes content) nd) := by
  have hres := resolve_eq_ok h
  obtain ⟨hne, k, hw⟩ := canonicalize_ok h
  obtain ⟨nd, hnd, hlink⟩ := walk_found d.cwdDir Node.dir_ne_symlink hw
  by_cases ha : n.Accepts (ofLoc l)
  swap
  · exact iff_of_true (readsBack_of_refused (hres ▸ ha)) fun ha' => absurd ha' ha
  obtain ⟨hfs, -, hiff⟩ := writeFile_checked content (checkSandbox_accepts (hres ▸ ha))
  rw [hres] at hfs hiff
  cases hn : hasNul (ofLoc l).components with
  | true =>
    have hfails := save_unnamed (d := d) content (.inl hn)
    exact iff_of_true (fun hok => absurd (hiff.1 hok) hfails) fun _ h => by cases h
  | false =>
    cases hwritten : nd.written (Utf8.bytes content) with
    | error e =>
      -- what is there takes nothing, so there is nothing to read back
      have hfails := save_ofLoc_closed hnd hlink hwritten
      refine iff_of_true (fun hok => absurd (hiff.1 hok) hfails) fun _ _ nd' hnd' => ?_
      obtain rfl : nd = nd' := Option.some.inj (hnd.symm.trans hnd')
      exact givesBack_of_error hwritten
    | ok nd' =>
      have hsaved := save_ofLoc_written hnd hlink hn hwritten
      have hwrote : (n.wrote d path content).fs = d.fs.put l nd' := hfs.trans hsaved.2
      have hcanon : Posix.canonicalize d.cwd (.parse path) (n.wrote d path content).fs = .ok l := by
        rw [hwrote, canonicalize_alike (Fs.alike_put hnd hwritten)]
        exact h
      have hthere : (n.wrote d path content).fs.node l = some nd' := by
        rw [hwrote]
        exact Fs.put_node hnd (Node.ne_dir_of_written hwritten)
      rw [readsBack_of_wrote hcanon ((Fs.written_of_some _ hnd).trans hwritten) hthere (hiff.2 hsaved.1),
        and_iff_right ha, and_iff_right hn, imp_iff_right ha, imp_iff_right rfl]

/-- Directories that are made on the way take no write. -/
theorem written_of_trail {cs : List Component} {cwd : Loc} {fs : Fs}
    (hw : (trail cwd cs fs).fs.written l bytes = .ok nd) : fs.written l bytes = .ok nd := by
  have hadds : (trail cwd cs fs).fs.node l = fs.node l ∨ (trail cwd cs fs).fs.IsDir l := trail_adds cs l
  rcases hadds with hkept | hdir
  · unfold Fs.written at hw ⊢
    rwa [hkept] at hw
  · rw [Fs.written_of_some bytes hdir.node] at hw
    cases hw

/-- The save of a path without a canonical form. -/
theorem save_new {e : IoError} (content : String) (h : Posix.canonicalize d.cwd (.parse path) d.fs = .error e) :
    match destination d (.parse path) with
    | none => (save d (.parse path) content).result ≠ .ok ()
    | some l => (save d (.parse path) content).result = .ok () ∧
        (∃ nd, d.fs.written l (Utf8.bytes content) = .ok nd ∧
          (save d (.parse path) content).fs.node l = some nd) ∧
        Posix.canonicalize d.cwd (.parse path) (save d (.parse path) content).fs = .ok l := by
  by_cases hnamed : hasNul (Path.parse path).components = true ∨ (Path.parse path).components = []
  · have hdest : destination d (.parse path) = none := if_pos hnamed
    rw [hdest]
    exact save_unnamed content hnamed
  obtain ⟨hnul, hne⟩ := not_or.1 hnamed
  have hn : hasNul (Path.parse path).components = false := Bool.eq_false_iff.2 hnul
  obtain ⟨dirs, c, hc, hsave⟩ := save_parse content hne h
  have hos : (Path.parse path).os = dirs ++ (Path.parse path).final.os := by
    unfold Path.os Path.final
    rw [hc, List.getLast?_concat, List.append_assoc]; rfl
  have hpath : (⟨dirs ++ [c], (Path.parse path).slash⟩ : Path) = .parse path := by rw [← hc]
  rw [hpath] at hsave
  rw [hsave]
  unfold destination
  rw [if_neg hnamed]
  have hdirs : hasNul dirs = false := by
    unfold hasNul at hn ⊢
    rw [hc, List.any_append, Bool.or_eq_false_iff] at hn
    exact hn.1
  have hag : Agrees [] (createDirAll d.cwd ⟨dirs, false⟩ d.fs) (trail d.cwd dirs d.fs) :=
    createDirAll_agrees d.cwdDir dirs hdirs
  obtain ⟨hx, hpos⟩ := trail_ok d.cwdDir dirs
  have hwritten : ∀ l nd, (trail d.cwd dirs d.fs).fs.written l (Utf8.bytes content) = .ok nd →
      d.fs.written l (Utf8.bytes content) = .ok nd := fun _ _ => written_of_trail
  rw [show (Path.parse path).components.dropLast = dirs by rw [hc, List.dropLast_concat]]
  revert hag hx hpos hwritten
  generalize createDirAll d.cwd ⟨dirs, false⟩ d.fs = made
  generalize trail d.cwd dirs d.fs = t
  obtain ⟨fs, ts, res⟩ := made
  obtain ⟨tfs, tts, tpos⟩ := t
  rintro ⟨rfl, -, hres⟩ hx hpos hwritten
  cases tpos with
  | none =>
    -- the parent cannot be made
    intro hok
    cases res with
    | error e => cases hok
    | ok u => exact absurd (hres.1 rfl) (by simp)
  | some p =>
    obtain ⟨l, k⟩ := p
    obtain rfl : res = .ok () := hres.2 rfl
    obtain ⟨hw, -⟩ := hpos l k rfl
    -- the write starts where the directories end
    have hwalk : walk fs maxLinks d.cwd (Path.parse path).os = walk fs k l (Path.parse path).final.os := by
      rw [hos, walk_append, hw]; rfl
    dsimp only
    rw [← hwalk]
    cases ho : (walk fs maxLinks d.cwd (Path.parse path).os).opens fs with
    | none =>
      obtain ⟨e, he⟩ := write_opens_none (Utf8.bytes content) ho
      dsimp only [Out.andThen]
      rw [he]
      exact nofun
    | some m =>
      obtain ⟨nd, hnd⟩ := (Fs.takes_iff (Utf8.bytes content)).1 (Walk.takes_of_opens ho)
      obtain ⟨hnode, hcanon⟩ := canonicalize_after (hx _ _ d.cwdDir) hn hne ho hnd
      dsimp only [Out.andThen]
      rw [write_opens (Utf8.bytes content) hn hne ho, Fs.writeAt_ok hnd]
      exact ⟨rfl, ⟨nd, hwritten m nd hnd, hnode⟩, hcanon⟩

/-- **A write is read back and can be repeated exactly when it is recoverable.** -/
theorem readsBack_iff : n.ReadsBack d path content ↔ n.Recoverable d path content := by
  unfold Recoverable
  cases h : Posix.canonicalize d.cwd (.parse path) d.fs with
  | ok l => exact readsBack_of_canonical h
  | error e =>
    have hres := resolve_eq_error h
    dsimp only
    by_cases ha : n.Accepts (.parse path)
    swap
    · exact iff_of_true (readsBack_of_refused (hres ▸ ha)) fun ha' => absurd ha' ha
    rw [imp_iff_right ha]
    obtain ⟨hfs, -, hiff⟩ := writeFile_checked content (checkSandbox_accepts (hres ▸ ha))
    rw [hres] at hfs hiff
    have hsave := save_new content h
    cases hd : destination d (.parse path) with
    | none =>
      rw [hd] at hsave
      refine iff_of_true (fun hok => absurd (hiff.1 hok) hsave) fun l hl => ?_
      cases hl
    | some l =>
      rw [hd] at hsave
      obtain ⟨hok, ⟨nd, hwritten, hnode⟩, hcanon⟩ := hsave
      have hfs' : (n.wrote d path content).fs = (save d (.parse path) content).fs := hfs
      rw [readsBack_of_wrote (hfs' ▸ hcanon) hwritten (hfs' ▸ hnode) (hiff.2 hok)]
      constructor
      · intro h m hm
        cases hm; exact h
      · intro h
        exact h l rfl

/-! ## A root behind a link -/

/-- `/link` leads to `/real`, and the workspace is `/real/ws`. -/
def linkedDisk : Disk where
  fs := ((Fs.empty.put ["real"] .dir).put ["real", "ws"] .dir).put ["link"] (.symlink (.parse "/real"))
  cwd := []
  cwdDir := by decide

/-- The node whose root is spelled through the link. -/
def linkedNode : LocalNode := ⟨"n", .workspace, some "/link/ws"⟩

/-- **The node cannot read what it wrote**: the canonical path does not start with the root. -/
theorem linkedRoot_refuses :
    (linkedNode.writeFile linkedDisk "/link/ws/a" "x").result = .ok () ∧
      (linkedNode.readFile (linkedNode.wrote linkedDisk "/link/ws/a" "x") "/link/ws/a").result =
        .error "path '/link/ws/a' is outside workspace sandbox '/link/ws'" ∧
      ¬ linkedNode.ReadsBack linkedDisk "/link/ws/a" "x" := by
  have hok : (linkedNode.writeFile linkedDisk "/link/ws/a" "x").result = .ok () := by decide
  have hread : (linkedNode.readFile (linkedNode.wrote linkedDisk "/link/ws/a" "x") "/link/ws/a").result =
      .error "path '/link/ws/a' is outside workspace sandbox '/link/ws'" := by decide
  refine ⟨hok, hread, fun h => ?_⟩
  obtain ⟨c, hc, -⟩ := (h hok).1
  rw [hread] at hc
  cases hc

end LocalNode

end Auxlry
