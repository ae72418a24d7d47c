import Auxlry.Posix.Path

/-!
# File trees and path walks

A file tree assigns a node to each location; the root is a directory, and what
exists lies in a directory. Symbolic links may dangle and may form loops. `walk`
follows a path from a directory as the kernel does: links are expanded in place, at
most `links` of them.

* `walk_append`: walks compose.
* `walk_found`: a walk that is not lost ends at an existing file that is no link.
* `walk_mono`: a tree that grows changes no walk that does not miss a name.
* `walk_missing`: with the name it missed, a walk goes on from there.
* `walk_alike`: what the files hold changes no walk.
* `walk_ofLoc`: an existing location is its own walk.
-/

namespace Posix

/-- What the process may do with a regular file, if not both read and write it. -/
inductive Access
  | readOnly
  | writeOnly
  | nothing
  deriving DecidableEq, Repr

/-- What a location holds. -/
inductive Node
  | dir
  | file (bytes : List UInt8)
  /-- a regular file that the process may not both read and write -/
  | restricted (access : Access) (bytes : List UInt8)
  /-- a device, a FIFO or a socket: whether it takes what is written to it, which it does not
  keep, and what a read gives, if it comes to an end -/
  | special (takes : Bool) (gives : Option (List UInt8))
  | symlink (target : Path)
  deriving DecidableEq, Repr

theorem Node.dir_ne_symlink (t : Path) : Node.dir ≠ .symlink t := by
  intro h; cases h

theorem Node.file_ne_symlink (bytes : List UInt8) (t : Path) : Node.file bytes ≠ .symlink t := by
  intro h; cases h

/-- A file tree. -/
@[ext] structure Fs where
  node : Loc → Option Node
  root : node [] = some .dir
  parents : ∀ l x, (node (l ++ [x])).isSome → node l = some .dir

/-- The tree of the root alone. -/
def Fs.empty : Fs where
  node l := if l = [] then some .dir else none
  root := rfl
  parents l x h := by simp at h

/-- The location `l` is a directory. -/
def Fs.IsDir (fs : Fs) (l : Loc) : Prop := fs.node l = some .dir

instance (fs : Fs) (l : Loc) : Decidable (fs.IsDir l) := inferInstanceAs (Decidable (_ = _))

theorem Fs.IsDir.node {fs : Fs} {l : Loc} (h : fs.IsDir l) : fs.node l = some .dir := h

theorem Fs.IsDir.dropLast {fs : Fs} {l : Loc} (h : fs.IsDir l) : fs.IsDir l.dropLast := by
  rcases List.eq_nil_or_concat l with rfl | ⟨m, x, rfl⟩
  · exact fs.root
  · rw [List.concat_eq_append] at h ⊢
    rw [List.dropLast_concat]
    exact fs.parents m x (by rw [h.node]; rfl)

/-- How a walk ends. -/
inductive Walk
  /-- at a location, with so many link expansions left -/
  | found (l : Loc) (links : ℕ)
  /-- at a directory without the next name -/
  | missing (l : Loc) (name : String) (rest : List Component)
  | notDir
  | loop
  deriving DecidableEq, Repr

theorem Walk.ne_missing {w : Walk} {l : Loc} {k : ℕ} (h : w = .found l k) (m : Loc) (x : String)
    (rest : List Component) : w ≠ .missing m x rest := by
  rw [h]
  intro h; cases h

/-- A walk up to its first symbolic link. -/
inductive Leg
  | found (l : Loc)
  | missing (l : Loc) (name : String) (rest : List Component)
  | notDir
  | link (l : Loc) (target : Path) (rest : List Component)

/-- Walk up to the first symbolic link. -/
def leg (fs : Fs) : Loc → List Component → Leg
  | l, [] => .found l
  | l, c :: cs =>
    if fs.IsDir l then
      match c with
      | .rootDir => leg fs [] cs
      | .curDir => leg fs l cs
      | .parentDir => leg fs l.dropLast cs
      | .normal x =>
        match fs.node (l ++ [x]) with
        | none => .missing l x cs
        | some (.symlink t) => .link l t cs
        | some _ => leg fs (l ++ [x]) cs
    else .notDir

/-- Walk from `l`, expanding at most `links` symbolic links. -/
def walk (fs : Fs) : ℕ → Loc → List Component → Walk
  | links, l, cs =>
    match leg fs l cs with
    | .found l' => .found l' links
    | .missing l' x rest => .missing l' x rest
    | .notDir => .notDir
    | .link l' t rest =>
      match links with
      | 0 => .loop
      | k + 1 => walk fs k l' (t.os ++ rest)

variable {fs : Fs} {k : ℕ} {l : Loc} {cs : List Component}

/-! ## One component at a time -/

/-- A step of a walk that expands no link. -/
inductive Hop (fs : Fs) (l : Loc) : Component → Loc → Prop
  | rootDir : Hop fs l .rootDir []
  | curDir : Hop fs l .curDir l
  | parentDir : Hop fs l .parentDir l.dropLast
  | normal {x : String} {n : Node} (hn : fs.node (l ++ [x]) = some n) (hs : ∀ t, n ≠ .symlink t) :
      Hop fs l (.normal x) (l ++ [x])

theorem walk_of_leg {l' : Loc} {cs' : List Component} (h : leg fs l cs = leg fs l' cs') :
    walk fs k l cs = walk fs k l' cs' := by cases k <;> (unfold walk; rw [h])

@[simp] theorem walk_nil : walk fs k l [] = .found l k := by cases k <;> rfl

theorem walk_notDir {c : Component} (h : ¬ fs.IsDir l) : walk fs k l (c :: cs) = .notDir := by
  cases k <;> (unfold walk; simp only [leg, if_neg h])

theorem walk_none {x : String} (h : fs.IsDir l) (hx : fs.node (l ++ [x]) = none) :
    walk fs k l (.normal x :: cs) = .missing l x cs := by
  cases k <;> (unfold walk; simp only [leg, if_pos h, hx])

theorem walk_hop {c : Component} {l' : Loc} (h : fs.IsDir l) (hc : Hop fs l c l') :
    walk fs k l (c :: cs) = walk fs k l' cs := by
  refine walk_of_leg ?_
  cases hc with
  | rootDir | curDir | parentDir => simp only [leg, if_pos h]
  | @normal x n hn hs =>
    cases n with
    | dir | file | restricted | special => simp only [leg, if_pos h, hn]
    | symlink t => exact absurd rfl (hs t)

theorem walk_symlink_zero {x : String} {t : Path} (h : fs.IsDir l)
    (hx : fs.node (l ++ [x]) = some (.symlink t)) : walk fs 0 l (.normal x :: cs) = .loop := by
  unfold walk; simp only [leg, if_pos h, hx]

theorem walk_symlink {x : String} {t : Path} (h : fs.IsDir l)
    (hx : fs.node (l ++ [x]) = some (.symlink t)) :
    walk fs (k + 1) l (.normal x :: cs) = walk fs k l (t.os ++ cs) := by
  rw [walk]; simp only [leg, if_pos h, hx]

/-- A step leads to an existing file that is no link. -/
theorem Hop.target {c : Component} {l' : Loc} (hc : Hop fs l c l') (h : fs.IsDir l) :
    ∃ n, fs.node l' = some n ∧ ∀ t, n ≠ .symlink t := by
  cases hc with
  | rootDir => exact ⟨_, fs.root, Node.dir_ne_symlink⟩
  | curDir => exact ⟨_, h, Node.dir_ne_symlink⟩
  | parentDir => exact ⟨_, h.dropLast, Node.dir_ne_symlink⟩
  | normal hn hs => exact ⟨_, hn, hs⟩

/-- **The induction rule for walks**: the empty path, a file where a directory is
wanted, a step without a link, a missing name, and a link with or without an
expansion left. -/
theorem walk_induct (fs : Fs) {Q : ℕ → Loc → List Component → Prop}
    (nil : ∀ k l, Q k l [])
    (notDir : ∀ k l c cs, ¬ fs.IsDir l → Q k l (c :: cs))
    (hop : ∀ k l l' c cs, fs.IsDir l → Hop fs l c l' → Q k l' cs → Q k l (c :: cs))
    (none : ∀ k l x cs, fs.IsDir l → fs.node (l ++ [x]) = none → Q k l (.normal x :: cs))
    (loop : ∀ l x t cs, fs.IsDir l → fs.node (l ++ [x]) = some (.symlink t) → Q 0 l (.normal x :: cs))
    (link : ∀ k l x t cs, fs.IsDir l → fs.node (l ++ [x]) = some (.symlink t) →
      Q k l (t.os ++ cs) → Q (k + 1) l (.normal x :: cs)) :
    ∀ k l cs, Q k l cs := by
  -- a link makes the path longer, but leaves one expansion less
  intro k
  induction k using Nat.strongRecOn with
  | _ k ihk =>
    intro l cs
    induction cs generalizing l with
    | nil => exact nil k l
    | cons c cs ih =>
      by_cases h : fs.IsDir l
      swap
      · exact notDir k l c cs h
      cases c with
      | rootDir => exact hop k l _ _ _ h .rootDir (ih _)
      | curDir => exact hop k l _ _ _ h .curDir (ih _)
      | parentDir => exact hop k l _ _ _ h .parentDir (ih _)
      | normal x =>
        cases hx : fs.node (l ++ [x]) with
        | none => exact none k l x cs h hx
        | some n =>
          cases n with
          | dir | file | restricted | special => exact hop k l _ _ _ h (.normal hx (by simp)) (ih _)
          | symlink t =>
            cases k with
            | zero => exact loop l x t cs h hx
            | succ k => exact link k l x t cs h hx (ihk k (Nat.lt_succ_self k) _ _)

/-! ## Where walks end -/

/-- A walk from an existing file that is no link ends in one. -/
theorem walk_found {l' : Loc} {k' : ℕ} {n : Node} (hl : fs.node l = some n)
    (hs : ∀ t, n ≠ .symlink t) (h : walk fs k l cs = .found l' k') :
    ∃ n', fs.node l' = some n' ∧ ∀ t, n' ≠ .symlink t := by
  induction k, l, cs using walk_induct fs generalizing n with
  | nil k l => rw [walk_nil] at h; cases h; exact ⟨n, hl, hs⟩
  | notDir k l c cs hd => rw [walk_notDir hd] at h; cases h
  | hop k l m c cs hd hc ih =>
    rw [walk_hop hd hc] at h
    obtain ⟨n', hn', hs'⟩ := hc.target hd
    exact ih hn' hs' h
  | none k l x cs hd hx => rw [walk_none hd hx] at h; cases h
  | loop l x t cs hd hx => rw [walk_symlink_zero hd hx] at h; cases h
  | link k l x t cs hd hx ih => rw [walk_symlink hd hx] at h; exact ih hl hs h

/-- Continue a walk. -/
def Walk.andThen (fs : Fs) (w : Walk) (ds : List Component) : Walk :=
  match w with
  | .found l k => walk fs k l ds
  | .missing l x rest => .missing l x (rest ++ ds)
  | .notDir => .notDir
  | .loop => .loop

/-- **Walks compose.** -/
theorem walk_append (fs : Fs) (k : ℕ) (l : Loc) (cs ds : List Component) :
    walk fs k l (cs ++ ds) = (walk fs k l cs).andThen fs ds := by
  induction k, l, cs using walk_induct fs with
  | nil k l => rw [walk_nil]; rfl
  | notDir k l c cs hd => rw [List.cons_append, walk_notDir hd, walk_notDir hd]; rfl
  | hop k l m c cs hd hc ih => rw [List.cons_append, walk_hop hd hc, walk_hop hd hc, ih]
  | none k l x cs hd hx => rw [List.cons_append, walk_none hd hx, walk_none hd hx]; rfl
  | loop l x t cs hd hx =>
    rw [List.cons_append, walk_symlink_zero hd hx, walk_symlink_zero hd hx]; rfl
  | link k l x t cs hd hx ih =>
    rw [List.cons_append, walk_symlink hd hx, walk_symlink hd hx, ← ih, List.append_assoc]

/-- A final separator leads nowhere else. -/
theorem walk_of_os {p : Path} {l' : Loc} {k' : ℕ} (h : walk fs k l p.os = .found l' k') :
    walk fs k l p.components = .found l' k' := by
  rw [Path.os, walk_append] at h
  cases hw : walk fs k l p.components with
  | found m j =>
    rw [hw, Walk.andThen] at h
    split at h
    · by_cases hm : fs.IsDir m
      · rwa [walk_hop hm .curDir, walk_nil] at h
      · rw [walk_notDir hm] at h; cases h
    · rwa [walk_nil] at h
  | _ => rw [hw] at h; cases h

/-! ## Growing a tree -/

/-- `fs'` has everything `fs` has. -/
def Fs.Extends (fs fs' : Fs) : Prop := ∀ l n, fs.node l = some n → fs'.node l = some n

theorem Fs.Extends.refl (fs : Fs) : fs.Extends fs := fun _ _ h => h

theorem Fs.Extends.trans {fs' fs'' : Fs} (h : fs.Extends fs') (h' : fs'.Extends fs'') :
    fs.Extends fs'' := fun l n hn => h' l n (h l n hn)

theorem Fs.Extends.not_isDir {fs' : Fs} (hx : fs.Extends fs') {n : Node} (hl : fs.node l = some n)
    (hd : ¬ fs.IsDir l) : ¬ fs'.IsDir l := by
  intro h
  rw [Fs.IsDir, hx l n hl] at h
  exact hd (hl.trans h)

theorem Hop.mono {fs' : Fs} (hx : fs.Extends fs') {c : Component} {l' : Loc} (hc : Hop fs l c l') :
    Hop fs' l c l' := by
  cases hc with
  | rootDir => exact .rootDir
  | curDir => exact .curDir
  | parentDir => exact .parentDir
  | normal hn hs => exact .normal (hx _ _ hn) hs

/-- **Growing a tree changes no walk that misses no name.** -/
theorem walk_mono {fs' : Fs} (hx : fs.Extends fs') {n : Node} (hl : fs.node l = some n)
    (h : ∀ m x rest, walk fs k l cs ≠ .missing m x rest) : walk fs' k l cs = walk fs k l cs := by
  induction k, l, cs using walk_induct fs generalizing n with
  | nil k l => rw [walk_nil, walk_nil]
  | notDir k l c cs hd => rw [walk_notDir hd, walk_notDir (hx.not_isDir hl hd)]
  | hop k l m c cs hd hc ih =>
    rw [walk_hop hd hc] at h ⊢
    rw [walk_hop (hx _ _ hd) (hc.mono hx)]
    obtain ⟨n', hn', -⟩ := hc.target hd
    exact ih hn' h
  | none k l x cs hd hy => exact absurd (walk_none hd hy) (h _ _ _)
  | loop l x t cs hd hy => rw [walk_symlink_zero hd hy, walk_symlink_zero (hx _ _ hd) (hx _ _ hy)]
  | link k l x t cs hd hy ih =>
    rw [walk_symlink hd hy] at h ⊢
    rw [walk_symlink (hx _ _ hd) (hx _ _ hy)]
    exact ih hl h

/-- **Where a name is missing**: a directory, and on a tree that has grown the walk
comes to the same place and looks for the name again. -/
theorem walk_missing {m : Loc} {x : String} {rest : List Component}
    (h : walk fs k l cs = .missing m x rest) :
    fs.IsDir m ∧ fs.node (m ++ [x]) = none ∧ ∃ j, ∀ fs', fs.Extends fs' →
      walk fs' k l cs = walk fs' j m (.normal x :: rest) := by
  induction k, l, cs using walk_induct fs with
  | nil k l => rw [walk_nil] at h; cases h
  | notDir k l c cs hd => rw [walk_notDir hd] at h; cases h
  | hop k l l' c cs hd hc ih =>
    rw [walk_hop hd hc] at h
    obtain ⟨hm, hx, j, hj⟩ := ih h
    refine ⟨hm, hx, j, fun fs' he => ?_⟩
    rw [walk_hop (he _ _ hd) (hc.mono he), hj fs' he]
  | none k l y cs hd hy =>
    rw [walk_none hd hy] at h
    cases h
    exact ⟨hd, hy, k, fun _ _ => rfl⟩
  | loop l y t cs hd hy => rw [walk_symlink_zero hd hy] at h; cases h
  | link k l y t cs hd hy ih =>
    rw [walk_symlink hd hy] at h
    obtain ⟨hm, hx, j, hj⟩ := ih h
    refine ⟨hm, hx, j, fun fs' he => ?_⟩
    rw [walk_symlink (he _ _ hd) (he _ _ hy), hj fs' he]

/-! ## What files hold -/

/-- A node, but for what a file holds. -/
def Node.blank : Node → Node
  | .file _ => .file []
  | .restricted access _ => .restricted access []
  | n => n

theorem Node.eq_dir_of_blank {n : Node} (h : n.blank = Node.blank .dir) : n = .dir := by
  cases n <;> first | rfl | cases h

theorem Node.eq_symlink_of_blank {n : Node} {t : Path} (h : n.blank = Node.blank (.symlink t)) :
    n = .symlink t := by
  cases n <;> first | exact h | cases h

/-- The trees differ in what their files hold only. -/
def Fs.Alike (fs fs' : Fs) : Prop := ∀ l, (fs.node l).map Node.blank = (fs'.node l).map Node.blank

variable {fs' : Fs}

theorem Fs.Alike.node (h : fs.Alike fs') {n : Node} (hn : fs.node l = some n)
    (hf : ∀ {n' : Node}, n'.blank = n.blank → n' = n) : fs'.node l = some n := by
  have hb := h l
  rw [hn] at hb
  cases hn' : fs'.node l with
  | none => rw [hn'] at hb; cases hb
  | some n' =>
    rw [hn'] at hb
    rw [hf (Option.some.inj hb).symm]

theorem Fs.Alike.symm (h : fs.Alike fs') : fs'.Alike fs := fun l => (h l).symm

theorem Fs.Alike.isDir (h : fs.Alike fs') : fs.IsDir l ↔ fs'.IsDir l :=
  ⟨fun hl => h.node hl Node.eq_dir_of_blank, fun hl => h.symm.node hl Node.eq_dir_of_blank⟩

theorem Fs.Alike.hop (h : fs.Alike fs') {c : Component} {l' : Loc} (hc : Hop fs l c l') :
    Hop fs' l c l' := by
  cases hc with
  | rootDir => exact .rootDir
  | curDir => exact .curDir
  | parentDir => exact .parentDir
  | @normal x n hn hs =>
    have hb := h (l ++ [x])
    rw [hn] at hb
    cases hn' : fs'.node (l ++ [x]) with
    | none => rw [hn'] at hb; cases hb
    | some n' =>
      refine .normal hn' fun t ht => hs t ?_
      subst ht
      exact Option.some.inj (hn.symm.trans (h.symm.node hn' Node.eq_symlink_of_blank))

/-- **What the files hold changes no walk.** -/
theorem walk_alike (h : fs.Alike fs') : walk fs' k l cs = walk fs k l cs := by
  induction k, l, cs using walk_induct fs with
  | nil k l => rw [walk_nil, walk_nil]
  | notDir k l c cs hd => rw [walk_notDir hd, walk_notDir (mt h.isDir.2 hd)]
  | hop k l m c cs hd hc ih => rw [walk_hop hd hc, walk_hop (h.isDir.1 hd) (h.hop hc), ih]
  | none k l x cs hd hx =>
    have hx' : fs'.node (l ++ [x]) = none := by simpa [hx] using (h (l ++ [x])).symm
    rw [walk_none hd hx, walk_none (h.isDir.1 hd) hx']
  | loop l x t cs hd hx =>
    rw [walk_symlink_zero hd hx, walk_symlink_zero (h.isDir.1 hd) (h.node hx Node.eq_symlink_of_blank)]
  | link k l x t cs hd hx ih =>
    rw [walk_symlink hd hx, walk_symlink (h.isDir.1 hd) (h.node hx Node.eq_symlink_of_blank), ih]

/-! ## Locations as paths -/

/-- Every location above an existing one is a directory. -/
theorem Fs.isDir_of_append (fs : Fs) {l m : Loc} (hm : m ≠ []) (h : (fs.node (l ++ m)).isSome) :
    fs.IsDir l := by
  induction m generalizing l with
  | nil => exact absurd rfl hm
  | cons x m ih =>
    rcases m with _ | ⟨y, m⟩
    · exact fs.parents _ _ h
    · -- more follows `x`, so `x` is a directory, and so is what it lies in
      have hd := ih (l := l ++ [x]) (by simp) (by simpa using h)
      exact fs.parents _ _ (by rw [hd.node]; rfl)

/-- **An existing location that is no link is its own walk.** -/
theorem walk_normals (fs : Fs) (k : ℕ) {l m : Loc} {n : Node} (h : fs.node (l ++ m) = some n)
    (hs : ∀ t, n ≠ .symlink t) : walk fs k l (m.map .normal) = .found (l ++ m) k := by
  induction m generalizing l with
  | nil => rw [List.map_nil, walk_nil, List.append_nil]
  | cons x m ih =>
    have hd : fs.IsDir l := fs.isDir_of_append (m := x :: m) (by simp) (by rw [h]; rfl)
    have hx : l ++ x :: m = l ++ [x] ++ m := by simp
    rw [hx] at h ⊢
    rw [List.map_cons]
    rcases m with _ | ⟨y, m⟩
    · rw [List.append_nil] at h ⊢
      rw [walk_hop hd (.normal h hs)]; exact walk_nil
    · have hy := fs.isDir_of_append (m := y :: m) (by simp) (by rw [h]; rfl)
      rw [walk_hop hd (.normal hy Node.dir_ne_symlink)]
      exact ih h

theorem walk_ofLoc (fs : Fs) (k : ℕ) {l m : Loc} {n : Node} (hl : fs.IsDir l)
    (h : fs.node m = some n) (hs : ∀ t, n ≠ .symlink t) :
    walk fs k l (ofLoc m).components = .found m k := by
  rw [ofLoc, walk_hop hl .rootDir]
  exact walk_normals fs k (l := []) h hs

end Posix
