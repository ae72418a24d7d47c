import Auxlry.Posix.Tree
import Mathlib.Data.List.Induction
import Mathlib.Logic.Function.Basic

/-!
# File system calls

`canonicalize`, `mkdir`, `create_dir_all`, `write` and `read` on a tree, for a process
with working directory `cwd`. The process may search and change every directory; which files
it may read and write is up to these. There are no quotas or name limits. Each call that
changes the tree reports the locations it created or wrote to (`Out.touched`).

`createDirAll` follows the standard library: it tries the whole path first and
recurses to the parent when that fails with `NotFound`. `Trail` is the same work read
from the front, one component after the other.

* `createDirAll_agrees`: **the two agree** on the tree, the locations touched and
  whether the call succeeds.
* `staysIn_iff`: what it takes for `create_dir_all` on the parent of a path and a
  `write` to the path to touch only places in a given set.
* `canonicalize_after`: **a path that was written to leads to the file written**.
-/

namespace Posix

/-- How many symbolic links one path resolution may expand. -/
def maxLinks : ℕ := 40

inductive IoError
  | invalidInput
  | notFound
  | notADirectory
  | isADirectory
  | alreadyExists
  | filesystemLoop
  | permissionDenied
  | noDevice
  deriving DecidableEq, Repr

/-- The text of an error. -/
def IoError.message : IoError → String
  | .invalidInput => "file name contained an unexpected NUL byte"
  | .notFound => "No such file or directory (os error 2)"
  | .notADirectory => "Not a directory (os error 20)"
  | .isADirectory => "Is a directory (os error 21)"
  | .alreadyExists => "File exists (os error 17)"
  | .filesystemLoop => "Too many levels of symbolic links (os error 40)"
  | .permissionDenied => "Permission denied (os error 13)"
  | .noDevice => "No such device or address (os error 6)"

/-- The outcome of a call: the tree after it, the locations it created or wrote to, its result. -/
structure Out where
  fs : Fs
  touched : List Loc
  result : Except IoError Unit

/-- A call that changes nothing. -/
def Out.fail (fs : Fs) (e : IoError) : Out := ⟨fs, [], .error e⟩

/-- Two calls one after the other; the second is left out when the first fails. -/
def Out.andThen (out : Out) (call : Fs → Out) : Out :=
  match out.result with
  | .error _ => out
  | .ok () => ⟨(call out.fs).fs, out.touched ++ (call out.fs).touched, (call out.fs).result⟩

/-- Put a node in a directory, at a place that is not a directory itself. -/
def Fs.put (fs : Fs) (m : Loc) (n : Node) : Fs :=
  if h : fs.IsDir m.dropLast ∧ ¬ fs.IsDir m then
    { node := Function.update fs.node m (some n)
      root := by rw [Function.update_of_ne (by rintro rfl; exact h.2 fs.root)]; exact fs.root
      parents := by
        intro l x hx
        -- the new node has no children: its place is no directory
        have hlm : l ≠ m ∨ fs.IsDir l := by
          by_cases he : l = m
          · subst he; exact absurd (fs.parents l x (by
              rwa [Function.update_of_ne (by simp)] at hx)) h.2
          · exact .inl he
        by_cases he : l ++ [x] = m
        · have hl : fs.IsDir l := by have := h.1; rwa [← he, List.dropLast_concat] at this
          rw [Function.update_of_ne (by rintro rfl; exact h.2 hl)]; exact hl
        · rw [Function.update_of_ne he] at hx
          have hl := fs.parents l x hx
          rw [Function.update_of_ne (by rintro rfl; exact h.2 hl)]; exact hl }
  else fs

/-- The error a failed walk is reported as. -/
def Walk.error : Walk → IoError
  | .found .. => .alreadyExists
  | .missing .. => .notFound
  | .notDir => .notADirectory
  | .loop => .filesystemLoop

/-- Whether a system call refuses the path outright. -/
def hasNul (cs : List Component) : Bool := cs.any Component.hasNul

/-- `fs::canonicalize`: the real location of an existing path. -/
def canonicalize (cwd : Loc) (p : Path) (fs : Fs) : Except IoError Loc :=
  if hasNul p.components then .error .invalidInput
  else if p.components = [] then .error .notFound
  else match walk fs maxLinks cwd p.os with
    | .found l _ => .ok l
    | w => .error w.error

/-- `Path::is_dir`. -/
def isDir (cwd : Loc) (cs : List Component) (fs : Fs) : Bool :=
  !hasNul cs && match walk fs maxLinks cwd cs with
    | .found l _ => decide (fs.IsDir l)
    | _ => false

/-- `mkdir`: everything but the last component must lead to a directory. -/
def mkdir (cwd : Loc) (cs : List Component) (fs : Fs) : Out :=
  if hasNul cs then .fail fs .invalidInput
  else match walk fs maxLinks cwd cs.dropLast with
    | .found l _ =>
      if fs.IsDir l then
        match cs.getLast? with
        | none => .fail fs .notFound
        | some (.normal x) =>
          if fs.node (l ++ [x]) = none then ⟨fs.put (l ++ [x]) .dir, [l ++ [x]], .ok ()⟩
          else .fail fs .alreadyExists
        | some _ => .fail fs .alreadyExists
      else .fail fs .notADirectory
    | w => .fail fs w.error

/-- `mkdir`, content with a directory that is there already. -/
def ensureDir (cwd : Loc) (cs : List Component) (fs : Fs) : Out :=
  match mkdir cwd cs fs with
  | ⟨fs', ts, .ok ()⟩ => ⟨fs', ts, .ok ()⟩
  | ⟨_, _, .error e⟩ => if isDir cwd cs fs then ⟨fs, [], .ok ()⟩ else .fail fs e

/-- `fs::create_dir_all`, on the reversed components. -/
def createDirAllRev (cwd : Loc) : List Component → Fs → Out
  | [], fs => ⟨fs, [], .ok ()⟩
  | c :: ps, fs =>
    if (mkdir cwd (c :: ps).reverse fs).result = .error .notFound then
      (createDirAllRev cwd ps fs).andThen (ensureDir cwd (c :: ps).reverse)
    else ensureDir cwd (c :: ps).reverse fs

/-- `fs::create_dir_all`. -/
def createDirAll (cwd : Loc) (p : Path) (fs : Fs) : Out := createDirAllRev cwd p.components.reverse fs

/-- What is there after a node is opened, emptied and written to. -/
def Node.written (bytes : List UInt8) : Node → Except IoError Node
  | .file _ => .ok (.file bytes)
  | .restricted .writeOnly _ => .ok (.restricted .writeOnly bytes)
  | .restricted _ _ => .error .permissionDenied
  | .special true gives => .ok (.special true gives)
  | .special false _ => .error .noDevice
  | .dir => .error .isADirectory
  | .symlink _ => .error .filesystemLoop

/-- What a node is read as. A directory can be opened, but not read. -/
def Node.bytes : Node → Except IoError (List UInt8)
  | .file bytes => .ok bytes
  | .restricted .readOnly bytes => .ok bytes
  | .restricted _ _ => .error .permissionDenied
  | .special _ (some bytes) => .ok bytes
  | .special _ none => .error .noDevice
  | .dir => .error .isADirectory
  | .symlink _ => .error .filesystemLoop

/-- What is at a location after a write; where nothing is, a file is made. -/
def Fs.written (fs : Fs) (l : Loc) (bytes : List UInt8) : Except IoError Node :=
  match fs.node l with
  | some n => n.written bytes
  | none => .ok (.file bytes)

/-- Write to a location. -/
def Fs.writeAt (fs : Fs) (l : Loc) (bytes : List UInt8) : Out :=
  match fs.written l bytes with
  | .ok n => ⟨fs.put l n, [l], .ok ()⟩
  | .error e => .fail fs e

/-- `fs::write`: open for writing, creating the last name if it is missing. -/
def write (cwd : Loc) (p : Path) (bytes : List UInt8) (fs : Fs) : Out :=
  if hasNul p.components then .fail fs .invalidInput
  else if p.components = [] then .fail fs .notFound
  else match walk fs maxLinks cwd p.os with
    | .found l _ => fs.writeAt l bytes
    | .missing l x [] => fs.writeAt (l ++ [x]) bytes
    | w => .fail fs w.error

/-- Read a file whole: where it lies, and its bytes. -/
def read (cwd : Loc) (p : Path) (fs : Fs) : Except IoError (Loc × List UInt8) :=
  match canonicalize cwd p fs with
  | .error e => .error e
  | .ok l =>
    match fs.node l with
    | some n => n.bytes.map fun bytes => (l, bytes)
    | none => .error .notFound

/-- Open a directory, to list or to enter it. -/
def openDir (cwd : Loc) (p : Path) (fs : Fs) : Except IoError Loc :=
  match canonicalize cwd p fs with
  | .error e => .error e
  | .ok l => if fs.IsDir l then .ok l else .error .notADirectory

/-! ## Putting nodes -/

variable {fs : Fs} {cwd l m : Loc} {k : ℕ} {n : Node}

theorem Fs.put_self (hd : fs.IsDir m.dropLast) (hm : ¬ fs.IsDir m) : (fs.put m n).node m = some n := by
  unfold Fs.put; rw [dif_pos ⟨hd, hm⟩]; exact Function.update_self ..

theorem Fs.put_ne (h : l ≠ m) : (fs.put m n).node l = fs.node l := by
  unfold Fs.put
  split
  · exact Function.update_of_ne h ..
  · rfl

theorem Fs.extends_put (hm : fs.node m = none) : fs.Extends (fs.put m n) := by
  intro l n' hl
  rw [Fs.put_ne (by rintro rfl; rw [hm] at hl; cases hl)]; exact hl

theorem Fs.put_entry {x : String} (hd : fs.IsDir l) (hx : fs.node (l ++ [x]) = none) :
    (fs.put (l ++ [x]) n).node (l ++ [x]) = some n := by
  have hparent : fs.IsDir (l ++ [x]).dropLast := by rwa [List.dropLast_concat]
  have hfree : ¬ fs.IsDir (l ++ [x]) := by
    intro h
    rw [Fs.IsDir, hx] at h; cases h
  exact Fs.put_self hparent hfree

/-! ## `create_dir_all` from the front -/

/-- The work of `create_dir_all` so far: the tree, the directories made, and where the
walk stands, unless it has failed. -/
structure Trail where
  fs : Fs
  touched : List Loc
  pos : Option (Loc × ℕ)

/-- Enter one more component, making the directory if its name is missing. -/
def Trail.enter (t : Trail) (c : Component) : Trail :=
  match t.pos with
  | none => t
  | some (l, k) =>
    match c with
    | .normal x =>
      if t.fs.node (l ++ [x]) = none then
        ⟨t.fs.put (l ++ [x]) .dir, t.touched ++ [l ++ [x]], some (l ++ [x], k)⟩
      else
        match walk t.fs k l [.normal x] with
        | .found m k' => { t with pos := if t.fs.IsDir m then some (m, k') else none }
        | _ => { t with pos := none }
    | c => { t with pos := some (lexStep l c, k) }

/-- The trail of a list of components from `cwd`. -/
def trail (cwd : Loc) (cs : List Component) (fs : Fs) : Trail :=
  cs.foldl Trail.enter ⟨fs, [], some (cwd, maxLinks)⟩

theorem trail_snoc (cs : List Component) (c : Component) :
    trail cwd (cs ++ [c]) fs = (trail cwd cs fs).enter c := List.foldl_concat ..

/-- Where a walk that misses no name leaves the trail. -/
def Walk.pos (fs : Fs) : Walk → Option (Loc × ℕ)
  | .found m k => if fs.IsDir m then some (m, k) else none
  | _ => none

theorem Walk.pos_some {w : Walk} (h : w.pos fs = some (l, k)) : w = .found l k ∧ fs.IsDir l := by
  cases w with
  | found m k' =>
    rw [Walk.pos] at h
    split at h
    · rename_i hm
      cases h; exact ⟨rfl, hm⟩
    · cases h
  | missing | notDir | loop => cases h

theorem Walk.not_isDir_of_pos {w : Walk} (h : w.pos fs = none) (hw : w = .found l k) : ¬ fs.IsDir l := by
  intro hl
  rw [hw, Walk.pos, if_pos hl] at h
  cases h

theorem forall_pos_iff {Q : Loc → ℕ → Prop} :
    (∀ m k', some (l, k) = some (m, k') → Q m k') ↔ Q l k := by
  constructor
  · intro h
    exact h l k rfl
  · intro h m k' he
    cases he; exact h

/-- Entering a component that is no missing name follows the walk. -/
theorem Trail.enter_walk {ts : List Loc} (hl : fs.IsDir l) {c : Component}
    (hc : ∀ x, c = .normal x → fs.node (l ++ [x]) ≠ none) :
    Trail.enter ⟨fs, ts, some (l, k)⟩ c = ⟨fs, ts, (walk fs k l [c]).pos fs⟩ := by
  cases c with
  | normal x => simp only [Trail.enter, if_neg (hc x rfl)]; split <;> simp_all [Walk.pos]
  | rootDir => rw [walk_hop hl .rootDir, walk_nil, Walk.pos, if_pos (show fs.IsDir [] from fs.root)]; rfl
  | curDir => rw [walk_hop hl .curDir, walk_nil, Walk.pos, if_pos hl]; rfl
  | parentDir => rw [walk_hop hl .parentDir, walk_nil, Walk.pos, if_pos hl.dropLast]; rfl

theorem foldl_enter_none (ts : List Loc) (cs : List Component) :
    cs.foldl Trail.enter ⟨fs, ts, none⟩ = ⟨fs, ts, none⟩ := by
  induction cs with
  | nil => rfl
  | cons c cs ih => exact ih

/-- A trail along a walk that misses no name makes nothing. -/
theorem foldl_enter_walk {ts : List Loc} (hl : fs.IsDir l) (cs : List Component)
    (h : ∀ m x rest, walk fs k l cs ≠ .missing m x rest) :
    cs.foldl Trail.enter ⟨fs, ts, some (l, k)⟩ = ⟨fs, ts, (walk fs k l cs).pos fs⟩ := by
  induction cs generalizing l k with
  | nil => rw [walk_nil, Walk.pos, if_pos hl]; rfl
  | cons c cs ih =>
    -- the walk is read one component at a time, as the trail goes
    have happ : walk fs k l (c :: cs) = (walk fs k l [c]).andThen fs cs := walk_append fs k l [c] cs
    have hc : ∀ x, c = .normal x → fs.node (l ++ [x]) ≠ none := by
      rintro x rfl hx; exact h _ _ _ (walk_none hl hx)
    rw [List.foldl_cons, Trail.enter_walk hl hc]
    rw [happ] at h ⊢
    cases hw : walk fs k l [c] with
    | missing m x rest => rw [hw] at h; exact absurd rfl (h _ _ _)
    | notDir => exact foldl_enter_none ts cs
    | loop => exact foldl_enter_none ts cs
    | found m k' =>
      rw [hw] at h
      by_cases hm : fs.IsDir m
      · rw [Walk.pos, if_pos hm]; exact ih hm h
      · -- a file: the trail has failed, and the walk fails at the next component
        rw [Walk.pos, if_neg hm, foldl_enter_none]
        cases cs with
        | nil => rw [Walk.andThen, walk_nil, Walk.pos, if_neg hm]
        | cons d ds => rw [Walk.andThen, walk_notDir hm]; rfl

theorem Trail.enter_fs (t : Trail) (c : Component) :
    (t.enter c).fs = t.fs ∨ ∃ m, (t.enter c).fs = t.fs.put m .dir := by
  unfold Trail.enter
  split
  · exact .inl rfl
  split
  · split
    · exact .inr ⟨_, rfl⟩
    · split <;> exact .inl rfl
  · exact .inl rfl

/-- **A trail adds nothing but directories.** -/
theorem trail_adds (cs : List Component) (l : Loc) :
    (trail cwd cs fs).fs.node l = fs.node l ∨ (trail cwd cs fs).fs.IsDir l := by
  suffices h : ∀ t : Trail, (cs.foldl Trail.enter t).fs.node l = t.fs.node l ∨
      (cs.foldl Trail.enter t).fs.IsDir l from h ⟨fs, [], some (cwd, maxLinks)⟩
  induction cs with
  | nil => exact fun t => .inl rfl
  | cons c cs ih =>
    intro t
    have hstep : (t.enter c).fs.node l = t.fs.node l ∨ (t.enter c).fs.IsDir l := by
      rcases t.enter_fs c with he | ⟨m, he⟩
      · exact .inl (by rw [he])
      · rw [he]
        by_cases hm : l = m
        · subst hm
          unfold Fs.put
          split
          · exact .inr (Function.update_self ..)
          · exact .inl rfl
        · exact .inl (Fs.put_ne hm)
    rw [List.foldl_cons]
    rcases ih (t.enter c) with hkept | hdir
    · refine hstep.imp hkept.trans fun hd => ?_
      exact hkept.trans hd
    · exact .inr hdir

/-- **A trail only grows the tree**, and where it stands is where the walk over the
grown tree leads. -/
theorem trail_ok (hcwd : fs.IsDir cwd) (cs : List Component) :
    fs.Extends (trail cwd cs fs).fs ∧ ∀ l k, (trail cwd cs fs).pos = some (l, k) →
      walk (trail cwd cs fs).fs maxLinks cwd cs = .found l k ∧ (trail cwd cs fs).fs.IsDir l := by
  induction cs using List.reverseRecOn with
  | nil =>
    refine ⟨.refl fs, fun l k h => ?_⟩
    cases h; exact ⟨walk_nil, hcwd⟩
  | append_singleton cs c ih =>
    rw [trail_snoc]
    revert ih
    generalize trail cwd cs fs = t
    obtain ⟨fs', ts, pos⟩ := t
    rintro ⟨hx, hpos⟩
    cases pos with
    | none =>
      refine ⟨hx, fun l k h => ?_⟩
      cases h
    | some p =>
      obtain ⟨l, k⟩ := p
      obtain ⟨hw, hl⟩ := hpos l k rfl
      dsimp only at hx hw hl
      by_cases hc : ∃ x, c = .normal x ∧ fs'.node (l ++ [x]) = none
      · -- a directory is made
        obtain ⟨x, rfl, hnone⟩ := hc
        simp only [Trail.enter, if_pos hnone]
        have hgrow : fs'.Extends (fs'.put (l ++ [x]) .dir) := Fs.extends_put hnone
        have hnew : (fs'.put (l ++ [x]) .dir).IsDir (l ++ [x]) := Fs.put_entry hl hnone
        refine ⟨hx.trans hgrow, fun m k' h => ?_⟩
        cases h
        refine ⟨?_, hnew⟩
        rw [walk_append, walk_mono hgrow (hx _ _ hcwd) (Walk.ne_missing hw), hw, Walk.andThen,
          walk_hop (hgrow _ _ hl) (.normal hnew Node.dir_ne_symlink), walk_nil]
      · -- nothing is made, and the walk goes on over the same tree
        rw [Trail.enter_walk hl fun x hc' hn => hc ⟨x, hc', hn⟩]
        refine ⟨hx, fun m k' h => ?_⟩
        dsimp only at h ⊢
        rw [walk_append, hw, Walk.andThen]
        exact Walk.pos_some h

/-- An outcome that agrees with a trail. -/
structure Agrees (ts : List Loc) (out : Out) (t : Trail) : Prop where
  fs : out.fs = t.fs
  touched : ts ++ out.touched = t.touched
  result : out.result = .ok () ↔ t.pos.isSome

theorem agrees_fail (ts : List Loc) (e : IoError) : Agrees ts (.fail fs e) ⟨fs, ts, none⟩ :=
  ⟨rfl, List.append_nil ts, by simp [Out.fail]⟩

theorem mkdir_of_walk {cs : List Component} {c : Component} (hn : hasNul (cs ++ [c]) = false)
    (hw : walk fs maxLinks cwd cs = .found l k) (hl : fs.IsDir l) :
    mkdir cwd (cs ++ [c]) fs = match c with
      | .normal x => if fs.node (l ++ [x]) = none then ⟨fs.put (l ++ [x]) .dir, [l ++ [x]], .ok ()⟩
          else .fail fs .alreadyExists
      | _ => .fail fs .alreadyExists := by
  unfold mkdir
  rw [hn, List.dropLast_concat, hw, List.getLast?_concat]
  simp only [if_pos hl]
  cases c <;> rfl

theorem mkdir_of_not_dir {cs : List Component} {c : Component} (hn : hasNul (cs ++ [c]) = false)
    (hw : (walk fs maxLinks cwd cs).pos fs = none) :
    mkdir cwd (cs ++ [c]) fs = .fail fs (match walk fs maxLinks cwd cs with
      | .found .. => .notADirectory
      | w => w.error) := by
  unfold mkdir
  rw [hn, List.dropLast_concat]
  cases h : walk fs maxLinks cwd cs with
  | found l k =>
    have hl : ¬ fs.IsDir l := Walk.not_isDir_of_pos hw h
    simp [hl]
  | missing | notDir | loop => simp [Walk.error]

theorem isDir_of_walk {cs : List Component} {c : Component} (hn : hasNul (cs ++ [c]) = false) :
    isDir cwd (cs ++ [c]) fs = (((walk fs maxLinks cwd cs).andThen fs [c]).pos fs).isSome := by
  unfold isDir
  rw [hn, walk_append]
  cases (walk fs maxLinks cwd cs).andThen fs [c] with
  | found l k => by_cases hl : fs.IsDir l <;> simp [Walk.pos, hl]
  | missing | notDir | loop => rfl

/-- Making one more directory agrees with entering it. -/
theorem ensureDir_agrees {cs : List Component} {c : Component} (hn : hasNul (cs ++ [c]) = false)
    (hw : walk fs maxLinks cwd cs = .found l k) (hl : fs.IsDir l) (ts : List Loc) :
    Agrees ts (ensureDir cwd (cs ++ [c]) fs) (Trail.enter ⟨fs, ts, some (l, k)⟩ c) := by
  by_cases hc : ∃ x, c = .normal x ∧ fs.node (l ++ [x]) = none
  · obtain ⟨x, rfl, hnone⟩ := hc
    unfold ensureDir
    rw [mkdir_of_walk hn hw hl]
    simp only [Trail.enter, if_pos hnone]
    exact ⟨rfl, rfl, by simp⟩
  · -- the name is taken, and `ensureDir` looks whether by a directory
    have hm : mkdir cwd (cs ++ [c]) fs = .fail fs .alreadyExists := by
      rw [mkdir_of_walk hn hw hl]
      cases c with
      | normal x => exact if_neg fun h => hc ⟨x, rfl, h⟩
      | rootDir | curDir | parentDir => rfl
    rw [Trail.enter_walk hl fun x hx h => hc ⟨x, hx, h⟩]
    unfold ensureDir
    rw [hm, Out.fail, isDir_of_walk hn, hw, Walk.andThen]
    dsimp only
    cases (walk fs k l [c]).pos fs with
    | none => exact agrees_fail ts _
    | some p => exact ⟨rfl, List.append_nil ts, by simp⟩

/-- Without a directory to make it in, nothing is made. -/
theorem ensureDir_fail {cs : List Component} {c : Component} (hn : hasNul (cs ++ [c]) = false)
    (hw : (walk fs maxLinks cwd cs).pos fs = none) : ∃ e, ensureDir cwd (cs ++ [c]) fs = .fail fs e := by
  have hd : isDir cwd (cs ++ [c]) fs = false := by
    rw [isDir_of_walk hn]
    cases h : walk fs maxLinks cwd cs with
    | found l k =>
      have hl : ¬ fs.IsDir l := Walk.not_isDir_of_pos hw h
      rw [Walk.andThen, walk_notDir hl]; rfl
    | missing | notDir | loop => rfl
  have hm := mkdir_of_not_dir hn hw
  generalize (match walk fs maxLinks cwd cs with
    | .found .. => IoError.notADirectory
    | w => w.error) = e at hm
  exact ⟨e, by unfold ensureDir; rw [hm, Out.fail]; simp only [hd]; rfl⟩

/-- **`create_dir_all` is its trail.** -/
theorem createDirAll_agrees (hcwd : fs.IsDir cwd) (cs : List Component) (hn : hasNul cs = false) :
    Agrees [] (createDirAllRev cwd cs.reverse fs) (trail cwd cs fs) := by
  -- the recursion to the parent drops the last component
  induction cs using List.reverseRecOn with
  | nil => exact ⟨rfl, rfl, by simp [createDirAllRev, trail]⟩
  | append_singleton cs c ih =>
    have hn' : hasNul cs = false := by
      unfold hasNul at hn ⊢; rw [List.any_append, Bool.or_eq_false_iff] at hn; exact hn.1
    have hag := ih hn'
    rw [List.reverse_append, List.reverse_singleton, List.singleton_append, trail_snoc]
    unfold createDirAllRev
    rw [List.reverse_cons, List.reverse_reverse]
    cases hpos : (walk fs maxLinks cwd cs).pos fs with
    | some p =>
      -- the parent is there: nothing was made before
      obtain ⟨l, k⟩ := p
      obtain ⟨hw, hl⟩ := Walk.pos_some hpos
      have htrail : trail cwd cs fs = ⟨fs, [], some (l, k)⟩ := by
        unfold trail
        rw [foldl_enter_walk hcwd cs (Walk.ne_missing hw), hpos]
      have hne : (mkdir cwd (cs ++ [c]) fs).result ≠ .error .notFound := by
        rw [mkdir_of_walk hn hw hl]
        cases c with
        | normal x => dsimp only; split <;> simp [Out.fail]
        | rootDir | curDir | parentDir => simp [Out.fail]
      rw [if_neg hne, htrail]
      exact ensureDir_agrees hn hw hl []
    | none =>
      obtain ⟨e, he⟩ := ensureDir_fail hn hpos
      by_cases hmiss : ∃ m x rest, walk fs maxLinks cwd cs = .missing m x rest
      · -- a name is missing above: make the parent first
        obtain ⟨m, x, rest, hw⟩ := hmiss
        rw [if_pos (by rw [mkdir_of_not_dir hn hpos, hw]; rfl)]
        obtain ⟨hfs, hts, hres⟩ := hag
        have hok := (trail_ok hcwd cs).2
        revert hfs hts hres hok
        generalize createDirAllRev cwd cs.reverse fs = out
        generalize trail cwd cs fs = t
        obtain ⟨fs', ts, res⟩ := out
        obtain ⟨tfs, tts, tpos⟩ := t
        rintro rfl rfl hres hok
        cases res with
        | error e' =>
          have : tpos = none := by cases tpos <;> simp_all
          subst this; exact ⟨rfl, rfl, by simp [Out.andThen, Trail.enter]⟩
        | ok u =>
          obtain ⟨⟨l, k⟩, rfl⟩ := Option.isSome_iff_exists.1 (hres.1 rfl)
          obtain ⟨hw', hl'⟩ := hok l k rfl
          have := ensureDir_agrees hn hw' hl' ts
          exact ⟨this.fs, this.touched, this.result⟩
      · -- the parent cannot be a directory: `mkdir` fails with another error than `NotFound`
        have hmiss' : ∀ m x rest, walk fs maxLinks cwd cs ≠ .missing m x rest :=
          fun m x rest h => hmiss ⟨m, x, rest, h⟩
        have htrail : trail cwd cs fs = ⟨fs, [], none⟩ := by
          unfold trail; rw [foldl_enter_walk hcwd cs hmiss', hpos]
        have hne : (mkdir cwd (cs ++ [c]) fs).result ≠ .error .notFound := by
          rw [mkdir_of_not_dir hn hpos]
          cases hw : walk fs maxLinks cwd cs with
          | missing m x rest => exact absurd hw (hmiss' _ _ _)
          | found | notDir | loop => simp [Out.fail, Walk.error]
        rw [if_neg hne, he, htrail]
        exact agrees_fail [] e

/-- A path with a NUL in it makes nothing. -/
theorem createDirAll_nul {cs : List Component} (hn : hasNul cs = true) :
    createDirAll cwd ⟨cs, false⟩ fs = .fail fs .invalidInput := by
  unfold createDirAll
  obtain ⟨ds, c, rfl⟩ : ∃ ds c, cs = ds ++ [c] := by
    rcases List.eq_nil_or_concat cs with rfl | ⟨ds, c, rfl⟩
    · cases hn
    · exact ⟨ds, c, List.concat_eq_append⟩
  have hm : mkdir cwd (ds ++ [c]) fs = .fail fs .invalidInput := by unfold mkdir; rw [if_pos hn]
  rw [List.reverse_append, List.reverse_singleton, List.singleton_append, createDirAllRev,
    List.reverse_cons, List.reverse_reverse, hm, if_neg (by simp [Out.fail])]
  unfold ensureDir isDir
  rw [hm, hn]; rfl

/-! ## What a call leaves alone -/

/-- Outside the locations it touched, a call leaves the tree as it was. -/
def Out.Frames (out : Out) (fs : Fs) : Prop := ∀ l, l ∉ out.touched → out.fs.node l = fs.node l

theorem Out.frames_fail (e : IoError) : (Out.fail fs e).Frames fs := fun _ _ => rfl

theorem Fs.frames_put (r : Except IoError Unit) : Out.Frames ⟨fs.put m n, [m], r⟩ fs :=
  fun _ hl => Fs.put_ne (by simpa using hl)

theorem Out.Frames.andThen {out : Out} {call : Fs → Out} (h : out.Frames fs)
    (hc : (call out.fs).Frames out.fs) : (out.andThen call).Frames fs := by
  unfold Out.andThen
  split
  · exact h
  · intro l hl
    rw [List.mem_append, not_or] at hl
    exact (hc l hl.2).trans (h l hl.1)

theorem Out.Frames.fs_eq {out : Out} (h : out.Frames fs) (hn : out.touched = []) : out.fs = fs :=
  Fs.ext (funext fun l => h l (by simp [hn]))

theorem mkdir_frames (cs : List Component) : (mkdir cwd cs fs).Frames fs := by
  unfold mkdir
  split
  · exact Out.frames_fail _
  split
  · split
    · split
      · exact Out.frames_fail _
      · split
        · exact Fs.frames_put _
        · exact Out.frames_fail _
      · exact Out.frames_fail _
    · exact Out.frames_fail _
  · exact Out.frames_fail _

theorem ensureDir_frames (cs : List Component) : (ensureDir cwd cs fs).Frames fs := by
  have h : (mkdir cwd cs fs).Frames fs := mkdir_frames cs
  unfold ensureDir
  split
  · rename_i he; rw [he] at h; exact h
  · split
    · exact fun _ _ => rfl
    · exact Out.frames_fail _

theorem createDirAll_frames (p : Path) : (createDirAll cwd p fs).Frames fs := by
  unfold createDirAll
  induction p.components.reverse with
  | nil => exact fun _ _ => rfl
  | cons c ps ih =>
    unfold createDirAllRev
    split
    · exact ih.andThen (ensureDir_frames _)
    · exact ensureDir_frames _

theorem Fs.frames_writeAt (bytes : List UInt8) : (fs.writeAt l bytes).Frames fs := by
  unfold Fs.writeAt
  split
  · exact Fs.frames_put _
  · exact Out.frames_fail _

theorem write_frames (p : Path) (bytes : List UInt8) : (write cwd p bytes fs).Frames fs := by
  unfold write
  split
  · exact Out.frames_fail _
  split
  · exact Out.frames_fail _
  split
  · exact Fs.frames_writeAt _
  · exact Fs.frames_writeAt _
  · exact Out.frames_fail _

/-! ## What a call keeps -/

theorem Fs.IsDir.put (h : fs.IsDir l) : (fs.put m n).IsDir l := by
  unfold Fs.put
  split
  · rename_i hm
    have hne : l ≠ m := by rintro rfl; exact hm.2 h
    exact (Function.update_of_ne hne ..).trans h
  · exact h

theorem createDirAll_extends (hcwd : fs.IsDir cwd) (cs : List Component) :
    fs.Extends (createDirAll cwd ⟨cs, false⟩ fs).fs := by
  cases hn : hasNul cs with
  | true => rw [createDirAll_nul hn]; exact .refl fs
  | false =>
    have hag : Agrees [] (createDirAll cwd ⟨cs, false⟩ fs) (trail cwd cs fs) :=
      createDirAll_agrees hcwd cs hn
    rw [hag.fs]
    exact (trail_ok hcwd cs).1

theorem Fs.IsDir.writeAt (h : fs.IsDir l) (bytes : List UInt8) : (fs.writeAt m bytes).fs.IsDir l := by
  unfold Fs.writeAt
  split
  · exact h.put
  · exact h

theorem write_isDir {p : Path} {bytes : List UInt8} (h : fs.IsDir l) :
    (write cwd p bytes fs).fs.IsDir l := by
  unfold write
  split
  · exact h
  split
  · exact h
  split
  · exact h.writeAt _
  · exact h.writeAt _
  · exact h

/-! ## Writing and reading back -/

/-- Whether a node can be written to. -/
def Node.takes : Node → Bool
  | .file _ => true
  | .restricted access _ => access == .writeOnly
  | .special takes _ => takes
  | .dir | .symlink _ => false

theorem Node.takes_iff (bytes : List UInt8) : n.takes = true ↔ ∃ n', n.written bytes = .ok n' := by
  cases n with
  | dir | symlink => simp [Node.takes, Node.written]
  | file => simp [Node.takes, Node.written]
  | restricted access => cases access <;> simp [Node.takes, Node.written]
  | special takes gives => cases takes <;> simp [Node.takes, Node.written]

/-- **What takes a write**, and what is there afterwards: a file that may be written to holds the
bytes, and a device, a FIFO or a socket stays as it is. -/
theorem Node.written_cases {n' : Node} {bytes : List UInt8} (h : n.written bytes = .ok n') :
    (∃ old, n = .file old ∧ n' = .file bytes) ∨
      (∃ old, n = .restricted .writeOnly old ∧ n' = .restricted .writeOnly bytes) ∨
      ∃ gives, n = .special true gives ∧ n' = n := by
  cases n with
  | dir | symlink => cases h
  | file old => cases h; exact .inl ⟨old, rfl, rfl⟩
  | restricted access old => cases access <;> cases h; exact .inr (.inl ⟨old, rfl, rfl⟩)
  | special takes gives => cases takes <;> cases h; exact .inr (.inr ⟨gives, rfl, rfl⟩)

/-- **A write to a node changes what it holds only.** -/
theorem Node.blank_of_written {n' : Node} {bytes : List UInt8} (h : n.written bytes = .ok n') :
    n'.blank = n.blank := by
  rcases Node.written_cases h with ⟨old, rfl, rfl⟩ | ⟨old, rfl, rfl⟩ | ⟨gives, -, rfl⟩
  · rfl
  · rfl
  · rfl

/-- Whether something at a location can be written to, or a file made there. -/
def Fs.takes (fs : Fs) (l : Loc) : Bool := (fs.node l).all Node.takes

theorem Fs.takes_of_none (h : fs.node l = none) : fs.takes l = true := by
  unfold Fs.takes
  rw [h]; rfl

theorem Fs.written_of_some (bytes : List UInt8) (h : fs.node l = some n) : fs.written l bytes = n.written bytes := by
  unfold Fs.written
  rw [h]

theorem Fs.written_of_none (bytes : List UInt8) (h : fs.node l = none) : fs.written l bytes = .ok (.file bytes) := by
  unfold Fs.written
  rw [h]

theorem Fs.takes_iff (bytes : List UInt8) : fs.takes l = true ↔ ∃ n, fs.written l bytes = .ok n := by
  unfold Fs.takes Fs.written
  cases fs.node l with
  | none => exact iff_of_true rfl ⟨_, rfl⟩
  | some n => exact n.takes_iff bytes

/-- The place a walk opens for writing. -/
def Walk.opens (fs : Fs) : Walk → Option Loc
  | .found l _ => if fs.takes l then some l else none
  | .missing l x [] => some (l ++ [x])
  | _ => none

theorem write_opens {p : Path} (bytes : List UInt8) (hn : hasNul p.components = false)
    (hne : p.components ≠ []) (h : (walk fs maxLinks cwd p.os).opens fs = some l) :
    write cwd p bytes fs = fs.writeAt l bytes := by
  unfold write
  rw [if_neg (by rw [hn]; exact Bool.false_ne_true), if_neg hne]
  cases hw : walk fs maxLinks cwd p.os with
  | found m k =>
    rw [hw, Walk.opens] at h
    split at h
    · cases h; rfl
    · cases h
  | missing m x rest =>
    rw [hw] at h
    cases rest with
    | nil => cases h; rfl
    | cons c cs => cases h
  | notDir | loop => rw [hw] at h; cases h

theorem Fs.writeAt_ok {bytes : List UInt8} (h : fs.written l bytes = .ok n) :
    fs.writeAt l bytes = ⟨fs.put l n, [l], .ok ()⟩ := by
  unfold Fs.writeAt
  rw [h]

theorem Fs.writeAt_none (bytes : List UInt8) (h : fs.takes l = false) :
    ∃ e, fs.writeAt l bytes = .fail fs e := by
  unfold Fs.writeAt
  cases hw : fs.written l bytes with
  | error e => exact ⟨e, rfl⟩
  | ok n =>
    rw [(Fs.takes_iff bytes).2 ⟨n, hw⟩] at h
    cases h

/-- What a walk opens takes what is written. -/
theorem Walk.takes_of_opens {cs : List Component} (h : (walk fs k l cs).opens fs = some m) :
    fs.takes m = true := by
  cases hw : walk fs k l cs with
  | found m' j =>
    rw [hw, Walk.opens] at h
    split at h
    · rename_i ht
      cases h; exact ht
    · cases h
  | missing m' x rest =>
    rw [hw] at h
    cases rest with
    | cons c cs => cases h
    | nil =>
      cases h
      exact Fs.takes_of_none (walk_missing hw).2.1
  | notDir | loop => rw [hw] at h; cases h

/-- A write that opens nothing fails. -/
theorem write_opens_none {p : Path} (bytes : List UInt8) (h : (walk fs maxLinks cwd p.os).opens fs = none) :
    ∃ e, write cwd p bytes fs = .fail fs e := by
  unfold write
  split
  · exact ⟨_, rfl⟩
  split
  · exact ⟨_, rfl⟩
  split
  · rename_i m k hw
    rw [hw, Walk.opens] at h
    split at h
    · cases h
    · rename_i ht
      exact Fs.writeAt_none bytes (Bool.eq_false_iff.2 ht)
  · rename_i m x hw
    rw [hw] at h; cases h
  · exact ⟨_, rfl⟩

/-- Anything but a directory can be replaced. -/
theorem Fs.put_node {old : Node} (h : fs.node l = some old) (hd : old ≠ .dir) : (fs.put l n).node l = some n := by
  have hfree : ¬ fs.IsDir l := by
    intro hd'
    rw [hd'.node] at h
    exact hd (Option.some.inj h).symm
  refine Fs.put_self ?_ hfree
  rcases List.eq_nil_or_concat l with rfl | ⟨m, x, rfl⟩
  · exact absurd fs.root hfree
  · rw [List.concat_eq_append] at h ⊢
    rw [List.dropLast_concat]
    exact fs.parents m x (by rw [h]; rfl)

theorem Node.ne_dir_of_written {n' : Node} {bytes : List UInt8} (h : n.written bytes = .ok n') : n ≠ .dir := by
  rintro rfl
  cases h

/-- Writing to what is there changes what files hold only. -/
theorem Fs.alike_put {old : Node} {bytes : List UInt8} (h : fs.node l = some old) (hw : old.written bytes = .ok n) :
    fs.Alike (fs.put l n) := by
  intro m
  by_cases hm : m = l
  · subst hm
    rw [Fs.put_node h (Node.ne_dir_of_written hw), h, Option.map_some, Option.map_some, Node.blank_of_written hw]
  · rw [Fs.put_ne hm]

/-- **What a walk opened for writing is where it leads afterwards.** -/
theorem walk_opens {cs : List Component} {bytes : List UInt8} (hl : fs.IsDir l)
    (h : (walk fs k l cs).opens fs = some m) (hwritten : fs.written m bytes = .ok n) :
    (fs.put m n).node m = some n ∧ ∃ j, walk (fs.put m n) k l cs = .found m j := by
  cases hw : walk fs k l cs with
  | found m' j =>
    -- something that was there already
    rw [hw, Walk.opens] at h
    split at h
    · cases h
      obtain ⟨old, hold, -⟩ := walk_found hl Node.dir_ne_symlink hw
      rw [Fs.written_of_some bytes hold] at hwritten
      have halike := Fs.alike_put hold hwritten
      exact ⟨Fs.put_node hold (Node.ne_dir_of_written hwritten), j, by rw [walk_alike halike, hw]⟩
    · cases h
  | missing m' x rest =>
    -- a new file
    rw [hw] at h
    cases rest with
    | cons c cs => cases h
    | nil =>
      cases h
      obtain ⟨hm, hx, j, hj⟩ := walk_missing hw
      rw [Fs.written_of_none bytes hx] at hwritten
      cases hwritten
      have hnew : (fs.put (m' ++ [x]) (.file bytes)).node (m' ++ [x]) = some (.file bytes) :=
        Fs.put_entry hm hx
      refine ⟨hnew, j, ?_⟩
      rw [hj _ (Fs.extends_put hx), walk_hop hm.put (.normal hnew (Node.file_ne_symlink bytes)), walk_nil]
  | notDir | loop => rw [hw] at h; cases h

theorem canonicalize_of_walk {p : Path} (hn : hasNul p.components = false) (hne : p.components ≠ [])
    (h : walk fs maxLinks cwd p.os = .found l k) : canonicalize cwd p fs = .ok l := by
  unfold canonicalize
  rw [if_neg (by rw [hn]; exact Bool.false_ne_true), if_neg hne, h]

/-- **A path that was written to leads to what was written.** -/
theorem canonicalize_after {p : Path} {bytes : List UInt8} (hcwd : fs.IsDir cwd)
    (hn : hasNul p.components = false) (hne : p.components ≠ [])
    (h : (walk fs maxLinks cwd p.os).opens fs = some l) (hw : fs.written l bytes = .ok n) :
    (fs.put l n).node l = some n ∧ canonicalize cwd p (fs.put l n) = .ok l := by
  obtain ⟨hnode, j, hj⟩ := walk_opens hcwd h hw
  exact ⟨hnode, canonicalize_of_walk hn hne hj⟩

/-- What a write to a location touches. -/
theorem Fs.touched_writeAt {D : Loc → Prop} {bytes : List UInt8} :
    (∀ m ∈ (fs.writeAt l bytes).touched, D m) ↔ (fs.takes l = true → D l) := by
  cases ht : fs.takes l with
  | true =>
    obtain ⟨n, hn⟩ := (Fs.takes_iff bytes).1 ht
    rw [Fs.writeAt_ok hn, List.forall_mem_singleton]
    exact (imp_iff_right rfl).symm
  | false =>
    obtain ⟨e, he⟩ := Fs.writeAt_none bytes ht
    rw [he]
    simp [Out.fail]

/-- A write that succeeds touches a file. -/
theorem write_touches {p : Path} {bytes : List UInt8} (h : (write cwd p bytes fs).result = .ok ()) :
    (write cwd p bytes fs).touched ≠ [] := by
  have hat : ∀ l, (fs.writeAt l bytes).result = .ok () → (fs.writeAt l bytes).touched ≠ [] := by
    intro l hok
    unfold Fs.writeAt at hok ⊢
    split at hok
    · exact List.cons_ne_nil _ _
    · cases hok
  unfold write at h ⊢
  split at h
  · cases h
  split at h
  · cases h
  · rename_i hn hc
    rw [if_neg hn, if_neg hc]
    cases hw : walk fs maxLinks cwd p.os with
    | found l k =>
      rw [hw] at h
      exact hat l h
    | missing l x rest =>
      rw [hw] at h
      cases rest with
      | nil => exact hat _ h
      | cons c cs => cases h
    | notDir | loop => rw [hw] at h; cases h

/-! ## Staying in an area -/

/-- Opening `cs` from `l` for writing hits a place in `D`, if it hits one. -/
def OpensIn (D : Loc → Prop) (fs : Fs) (l : Loc) (k : ℕ) (cs : List Component) : Prop :=
  match walk fs k l cs with
  | .found m _ => fs.takes m = true → D m
  | .missing m x [] => D (m ++ [x])
  | _ => True

/-- Follow `dirs` from `l`, each missing name entered as a new directory, and open
`last` there: every missing name met and the place opened are in `D`. -/
def StaysIn (D : Loc → Prop) (last : List Component) : List Component → Fs → Loc → ℕ → Prop
  | [], fs, l, k => hasNul last = true ∨ OpensIn D fs l k last
  | .normal x :: dirs, fs, l, k =>
    if fs.node (l ++ [x]) = none then
      D (l ++ [x]) ∧ StaysIn D last dirs (fs.put (l ++ [x]) .dir) (l ++ [x]) k
    else
      match walk fs k l [.normal x] with
      | .found m k' => fs.IsDir m → StaysIn D last dirs fs m k'
      | _ => True
  | c :: dirs, fs, l, k => StaysIn D last dirs fs (lexStep l c) k

theorem touched_foldl_enter {m : Loc} {t : Trail} (hm : m ∈ t.touched) (cs : List Component) :
    m ∈ (cs.foldl Trail.enter t).touched := by
  induction cs generalizing t with
  | nil => exact hm
  | cons c cs ih =>
    refine ih ?_
    unfold Trail.enter
    split
    · exact hm
    split
    · split
      · exact List.mem_append_left _ hm
      · split <;> exact hm
    · exact hm

/-- **What staying means for a trail**: everything it makes is in `D`, and so is what
is opened where it ends. -/
theorem staysIn_iff_trail {D : Loc → Prop} {last : List Component} (hl : fs.IsDir l) {ts : List Loc}
    (hts : ∀ m ∈ ts, D m) (dirs : List Component) :
    StaysIn D last dirs fs l k ↔
      (∀ m ∈ (dirs.foldl Trail.enter ⟨fs, ts, some (l, k)⟩).touched, D m) ∧
      ∀ m k', (dirs.foldl Trail.enter ⟨fs, ts, some (l, k)⟩).pos = some (m, k') →
        hasNul last = true ∨ OpensIn D (dirs.foldl Trail.enter ⟨fs, ts, some (l, k)⟩).fs m k' last := by
  induction dirs generalizing fs l k ts with
  | nil =>
    refine ⟨fun h => ⟨hts, fun m k' hp => ?_⟩, fun h => h.2 l k rfl⟩
    cases hp; exact h
  | cons c dirs ih =>
    rw [List.foldl_cons]
    by_cases hc : ∃ x, c = .normal x ∧ fs.node (l ++ [x]) = none
    · -- a missing name is entered
      obtain ⟨x, rfl, hnone⟩ := hc
      have hstay : StaysIn D last (.normal x :: dirs) fs l k ↔
          D (l ++ [x]) ∧ StaysIn D last dirs (fs.put (l ++ [x]) .dir) (l ++ [x]) k := by
        rw [StaysIn, if_pos hnone]
      have hent : Trail.enter ⟨fs, ts, some (l, k)⟩ (.normal x) =
          ⟨fs.put (l ++ [x]) .dir, ts ++ [l ++ [x]], some (l ++ [x], k)⟩ := if_pos hnone
      rw [hstay, hent]
      by_cases hD : D (l ++ [x])
      · have hts' : ∀ m ∈ ts ++ [l ++ [x]], D m := by
          intro m hm
          rcases List.mem_append.1 hm with hm | hm
          · exact hts m hm
          · rwa [List.mem_singleton.1 hm]
        rw [ih (Fs.put_entry hl hnone) hts']
        exact and_iff_right hD
      · refine ⟨fun h => absurd h.1 hD, fun h => absurd (h.1 (l ++ [x]) ?_) hD⟩
        exact touched_foldl_enter (by simp) dirs
    · -- the component is followed on the tree as it is
      have hc' : ∀ x, c = .normal x → fs.node (l ++ [x]) ≠ none := fun x hx h => hc ⟨x, hx, h⟩
      have hstay : StaysIn D last (c :: dirs) fs l k ↔
          ∀ m k', (walk fs k l [c]).pos fs = some (m, k') → StaysIn D last dirs fs m k' := by
        cases c with
        | rootDir =>
          rw [walk_hop hl .rootDir, walk_nil, Walk.pos, if_pos (show fs.IsDir [] from fs.root)]
          exact (forall_pos_iff (Q := StaysIn D last dirs fs)).symm
        | curDir =>
          rw [walk_hop hl .curDir, walk_nil, Walk.pos, if_pos hl]
          exact (forall_pos_iff (Q := StaysIn D last dirs fs)).symm
        | parentDir =>
          rw [walk_hop hl .parentDir, walk_nil, Walk.pos, if_pos hl.dropLast]
          exact (forall_pos_iff (Q := StaysIn D last dirs fs)).symm
        | normal x =>
          rw [StaysIn, if_neg (hc' x rfl)]
          cases hw : walk fs k l [.normal x] with
          | found m k' => simp [Walk.pos, and_imp]
          | missing | notDir | loop => simp [Walk.pos]
      rw [hstay, Trail.enter_walk hl hc']
      cases hp : (walk fs k l [c]).pos fs with
      | none =>
        rw [foldl_enter_none]
        refine ⟨fun _ => ⟨hts, fun m k' h => ?_⟩, fun _ m k' h => ?_⟩ <;> cases h
      | some p =>
        obtain ⟨m, k'⟩ := p
        have hm : fs.IsDir m := (Walk.pos_some hp).2
        rw [← ih hm hts]
        exact forall_pos_iff

/-- **Making the parent of a path and writing to the path stays in `D`** exactly when
following the path does. -/
theorem staysIn_iff {D : Loc → Prop} {dirs : List Component} {c : Component} {slash : Bool}
    {bytes : List UInt8} (hcwd : fs.IsDir cwd) (hn : hasNul dirs = false) :
    (∀ m ∈ ((createDirAll cwd ⟨dirs, false⟩ fs).andThen (write cwd ⟨dirs ++ [c], slash⟩ bytes)).touched,
      D m) ↔ StaysIn D (Path.os ⟨[c], slash⟩) dirs fs cwd maxLinks := by
  have hag : Agrees [] (createDirAll cwd ⟨dirs, false⟩ fs) (trail cwd dirs fs) :=
    createDirAll_agrees hcwd dirs hn
  have hok := (trail_ok hcwd dirs).2
  rw [staysIn_iff_trail hcwd (show ∀ m ∈ ([] : List Loc), D m by simp)]
  change _ ↔ (∀ m ∈ (trail cwd dirs fs).touched, D m) ∧ ∀ m k', (trail cwd dirs fs).pos = some (m, k') →
    _ ∨ OpensIn D (trail cwd dirs fs).fs m k' _
  revert hag hok
  generalize createDirAll cwd ⟨dirs, false⟩ fs = out
  generalize trail cwd dirs fs = t
  obtain ⟨fs', ts, res⟩ := out
  obtain ⟨tfs, tts, tpos⟩ := t
  rintro ⟨rfl, rfl, hres⟩ hok
  cases tpos with
  | none =>
    -- the parent could not be made, so nothing is opened
    cases res with
    | error e => simp [Out.andThen]
    | ok u => exact absurd (hres.1 rfl) (by simp)
  | some p =>
    obtain ⟨m, k'⟩ := p
    obtain rfl : res = .ok () := hres.2 rfl
    obtain ⟨hw, hm⟩ := hok m k' rfl
    dsimp only at hw hm
    -- the write walks from where the trail stands
    have hlast : hasNul (dirs ++ [c]) = hasNul (Path.os ⟨[c], slash⟩) := by
      unfold hasNul at hn ⊢; rw [List.any_append, hn]; cases slash <;> simp [Path.os, Component.hasNul]
    have hwalk : walk fs' maxLinks cwd (Path.os ⟨dirs ++ [c], slash⟩) =
        walk fs' k' m (Path.os ⟨[c], slash⟩) := by
      have : Path.os ⟨dirs ++ [c], slash⟩ = dirs ++ Path.os ⟨[c], slash⟩ := by
        simp only [Path.os, List.append_assoc]
      rw [this, walk_append, hw]; rfl
    have hwrite : (∀ l ∈ (write cwd ⟨dirs ++ [c], slash⟩ bytes fs').touched, D l) ↔
        hasNul (Path.os ⟨[c], slash⟩) = true ∨ OpensIn D fs' m k' (Path.os ⟨[c], slash⟩) := by
      unfold write OpensIn
      rw [hlast, hwalk]
      by_cases hnl : hasNul (Path.os ⟨[c], slash⟩) = true
      · simp [hnl, Out.fail]
      · rw [if_neg hnl, if_neg (List.concat_ne_nil c dirs), or_iff_right hnl]
        cases hl : walk fs' k' m (Path.os ⟨[c], slash⟩) with
        | found l _ => exact Fs.touched_writeAt
        | missing l x rest =>
          cases rest with
          | cons => simp [Out.fail]
          | nil =>
            have ht : fs'.takes (l ++ [x]) = true := Fs.takes_of_none (walk_missing hl).2.1
            exact Fs.touched_writeAt.trans (imp_iff_right ht)
        | notDir | loop => simp [Out.fail]
    have happ : (Out.andThen ⟨fs', ts, .ok ()⟩ (write cwd ⟨dirs ++ [c], slash⟩ bytes)).touched =
        ts ++ (write cwd ⟨dirs ++ [c], slash⟩ bytes fs').touched := rfl
    rw [happ, List.nil_append, List.forall_mem_append, hwrite]
    have hpos := forall_pos_iff (l := m) (k := k')
      (Q := fun m k' => hasNul (Path.os ⟨[c], slash⟩) = true ∨ OpensIn D fs' m k' (Path.os ⟨[c], slash⟩))
    exact and_congr_right fun _ => hpos.symm

end Posix
