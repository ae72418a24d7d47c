import Auxlry.Proof.Sandbox

/-!
# Searches and the sandbox

`search_files` checks the root it is given, and joins the pattern to it afterwards. An
absolute pattern replaces the root, `..` leaves it, a link below it may lead anywhere,
and so may what a wildcard in the root itself matches.

* `searchFiles_confined_iff`: a search shows only what lies in the workspace **exactly
  when** every branch of the joined pattern does.
* `branchesStay_names`: names below a literal root do, where there are no links.
* `searchFiles_escapes`: an absolute pattern.
-/

namespace Auxlry

open Posix

namespace LocalNode

/-- A path that goes through these places and leads to `l` stays below `real`, but for
names that the request spells. -/
def Kept (real : Loc) (request : Path) (es : List (Loc × Component)) (l : Loc) : Prop :=
  real <+: l ∧ ∀ m x, (m, .normal x) ∈ es → .normal x ∉ request.components → real <+: m ++ [x]

/-- The path shows nothing outside `real`: neither what it leads to, nor a name on the way. -/
def ShowsOnly (d : Disk) (real : Loc) (request path : Path) : Prop :=
  ∀ l, place d.fs maxLinks d.cwd path.components = some l →
    Kept real request (entries d.fs maxLinks d.cwd path.components) l

/-- Every branch of the pattern through the tree stays below `real`. -/
def BranchesStay (r : PatternRules) (d : Disk) (real : Loc) (pattern : Path) : Prop :=
  ∀ es l, Branch r d.fs maxLinks d.cwd pattern.components es l → es ≠ [] →
    (pattern.wantsDir → d.fs.IsDir l) → Kept real pattern es l

variable {n : LocalNode} {d : Disk} {r : PatternRules} {glob : Glob} {root pattern : String}
  {arg : Option String} {real : Loc}

/-- The place of a path that has a real location. -/
theorem place_of_canonicalize {p : Path} {l : Loc} (h : Posix.canonicalize d.cwd p d.fs = .ok l) :
    place d.fs maxLinks d.cwd p.components = some l := by
  obtain ⟨-, k, hw⟩ := canonicalize_ok h
  exact place_of_walk (walk_of_os hw)

theorem entries_eq_nil {fs : Fs} {k : ℕ} {l : Loc} {cs : List Component} :
    entries fs k l cs = [] ↔ cs = [] := by
  cases cs <;> simp [entries]

/-- **The branches of a pattern are what a search for it finds.** -/
theorem branchesStay_iff (pattern : Path) : BranchesStay r d real pattern ↔
    ∀ p, Finds r d pattern p → ShowsOnly d real pattern p := by
  constructor
  · rintro h p ⟨hne, hmatch, l, hplace, hdir⟩ l' hl'
    obtain rfl : l = l' := Option.some.inj (hplace.symm.trans hl')
    exact h _ l (hmatch.branch hplace) (by rwa [ne_eq, entries_eq_nil]) hdir
  · intro h es l hbranch hne hdir
    obtain ⟨cs, hmatch, hplace, rfl⟩ := branch_iff.1 hbranch
    rw [ne_eq, entries_eq_nil] at hne
    exact h ⟨cs, false⟩ ⟨hne, hmatch, l, hplace, hdir⟩ l hplace

/-! ## Patterns that stay -/

/-- The segments fit names only. -/
def OnlyNames (r : PatternRules) (ps : List Component) : Prop :=
  ∀ p ∈ ps, ∃ seg, p = .normal seg ∧ (seg ≠ "**" → ∀ c, r.fits seg c → ∃ x, c = .normal x)

/-- The segments fit nothing but themselves. -/
def Literal (r : PatternRules) (ps : List Component) : Prop :=
  ∀ seg, .normal seg ∈ ps → seg ≠ "**" ∧ ∀ c, r.fits seg c → c = .normal seg

variable {fs : Fs} {k k' : ℕ} {l e : Loc} {c : Component} {ps ps' base : List Component}
  {es : List (Loc × Component)}

theorem OnlyNames.takes (hps : OnlyNames r ps) (h : r.Takes ps c ps') :
    (∃ x, c = .normal x) ∧ OnlyNames r ps' := by
  induction h with
  | @same c ps hc =>
    obtain ⟨seg, rfl, -⟩ := hps _ List.mem_cons_self
    exact absurd rfl (hc seg)
  | fits hseg hc =>
    obtain ⟨seg, hp, hfits⟩ := hps _ List.mem_cons_self
    cases hp
    exact ⟨hfits hseg _ hc, fun p hp => hps p (List.mem_cons_of_mem _ hp)⟩
  | deep => exact ⟨⟨_, rfl⟩, hps⟩
  | last => exact ⟨⟨_, rfl⟩, fun p hp => hps p (List.mem_cons_of_mem _ hp)⟩
  | skip _ ih => exact ih fun p hp => hps p (List.mem_cons_of_mem _ hp)

/-- A pattern without components matches nothing but the empty path. -/
theorem matches_nil {cs : List Component} : r.Matches [] cs ↔ cs = [] := by
  constructor
  · intro h
    cases h with
    | nil => rfl
    | cons takes => cases takes
  · rintro rfl; exact .nil .nil

theorem Literal.takes {p : Component} (hp : Literal r (p :: base)) (h : r.Takes (p :: ps) c ps') :
    c = p ∧ ps' = ps := by
  cases h with
  | same => exact ⟨rfl, rfl⟩
  | fits hseg hc => exact ⟨(hp _ List.mem_cons_self).2 _ hc, rfl⟩
  | deep | last | skip => exact absurd rfl (hp _ List.mem_cons_self).1

/-- Segments that fit just themselves match just themselves. -/
theorem matches_literal {cs : List Component} (hps : Literal r ps)
    (hself : ∀ seg, .normal seg ∈ ps → r.fits seg (.normal seg)) : r.Matches ps cs ↔ cs = ps := by
  induction ps generalizing cs with
  | nil => exact matches_nil
  | cons p ps ih =>
    have htail : ∀ cs, r.Matches ps cs ↔ cs = ps := fun _ =>
      ih (fun seg hseg => hps seg (List.mem_cons_of_mem _ hseg)) fun seg hseg =>
        hself seg (List.mem_cons_of_mem _ hseg)
    constructor
    · intro h
      cases h with
      | nil done =>
        cases done
        exact absurd rfl (hps _ List.mem_cons_self).1
      | cons takes rest =>
        obtain ⟨rfl, rfl⟩ := hps.takes takes
        rw [(htail _).1 rest]
    · rintro rfl
      refine .cons ?_ ((htail _).2 rfl)
      cases p with
      | normal seg => exact .fits (hps seg List.mem_cons_self).1 (hself seg List.mem_cons_self)
      | _ => exact .same (by simp)

/-- A name that is no link leads to its own place. -/
theorem walk_name {x : String} {l' : Loc} (hlink : ∀ t, fs.node (l ++ [x]) ≠ some (.symlink t))
    (h : walk fs k l [.normal x] = .found l' k') : l' = l ++ [x] := by
  by_cases hd : fs.IsDir l
  · cases hx : fs.node (l ++ [x]) with
    | none => rw [walk_none hd hx] at h; cases h
    | some nd =>
      rw [walk_hop hd (.normal hx fun t ht => hlink t (ht ▸ hx)), walk_nil] at h
      cases h; rfl
  · rw [walk_notDir hd] at h; cases h

/-- From below `real`, where there are no links, names lead nowhere else. -/
theorem branch_below (hlinks : ∀ m, real <+: m → ∀ t, fs.node m ≠ some (.symlink t))
    (h : Branch r fs k l ps es e) (hps : OnlyNames r ps) (hl : real <+: l) :
    real <+: e ∧ ∀ m c, (m, c) ∈ es → real <+: m := by
  induction h with
  | nil => exact ⟨hl, by simp⟩
  | @cons k k' l l' e ps ps' c es takes walks rest ih =>
    obtain ⟨⟨x, rfl⟩, hps'⟩ := hps.takes takes
    have hx : real <+: l ++ [x] := hl.trans (List.prefix_append ..)
    obtain rfl := walk_name (hlinks _ hx) walks
    obtain ⟨he, hes⟩ := ih hps' hx
    refine ⟨he, fun m c hm => ?_⟩
    rcases List.mem_cons.1 hm with hm | hm
    · cases hm; exact hl
    · exact hes m c hm
  | @link k l ps ps' x takes done lost there =>
    refine ⟨hl.trans (List.prefix_append ..), fun m c hm => ?_⟩
    cases List.mem_singleton.1 hm
    exact hl

/-- A literal base is followed as it is spelled. -/
theorem branch_literal (hbase : Literal r base) (hwalk : walk fs k l base = .found real k')
    (h : Branch r fs k l (base ++ ps) es e) :
    ∃ es₁ es₂, es = es₁ ++ es₂ ∧ (∀ p ∈ es₁, p.2 ∈ base) ∧ Branch r fs k' real ps es₂ e := by
  induction base generalizing k l es with
  | nil =>
    rw [walk_nil] at hwalk
    cases hwalk
    exact ⟨[], es, rfl, by simp, h⟩
  | cons p base ih =>
    rw [← List.singleton_append, walk_append] at hwalk
    rw [List.cons_append] at h
    cases h with
    | nil done =>
      cases done
      exact absurd rfl (hbase _ List.mem_cons_self).1
    | @cons _ k₁ _ l₁ _ _ _ c es takes walks rest =>
      obtain ⟨rfl, rfl⟩ := hbase.takes takes
      rw [walks] at hwalk
      obtain ⟨es₁, es₂, rfl, hmem, hrest⟩ :=
        ih (fun seg hseg => hbase seg (List.mem_cons_of_mem _ hseg)) hwalk rest
      refine ⟨(l, c) :: es₁, es₂, rfl, fun p hp => ?_, hrest⟩
      rcases List.mem_cons.1 hp with rfl | hp
      · exact List.mem_cons_self
      · exact List.mem_cons_of_mem _ (hmem p hp)
    | link takes done lost there =>
      -- the base leads somewhere, so it does not end at a lost link
      obtain ⟨rfl, rfl⟩ := hbase.takes takes
      cases hw : walk fs k l [_] with
      | found l₁ k₁ => exact absurd hw (lost l₁ k₁)
      | _ => rw [hw] at hwalk; cases hwalk

/-- **Names below a literal root stay** where there are no links. -/
theorem branchesStay_names {pattern : Path} (hpattern : pattern.components = base ++ ps)
    (hbase : Literal r base) (hwalk : walk d.fs maxLinks d.cwd base = .found real k)
    (hps : OnlyNames r ps) (hlinks : ∀ m, real <+: m → ∀ t, d.fs.node m ≠ some (.symlink t)) :
    BranchesStay r d real pattern := by
  intro es l hbranch _ _
  rw [hpattern] at hbranch
  obtain ⟨es₁, es₂, rfl, hmem, hrest⟩ := branch_literal hbase hwalk hbranch
  obtain ⟨hl, hes⟩ := branch_below hlinks hrest hps List.prefix_rfl
  refine ⟨hl, fun m x hm hx => ?_⟩
  rcases List.mem_append.1 hm with hm | hm
  · -- a name of the base is spelled
    rw [hpattern] at hx
    exact absurd (List.mem_append_left ps (hmem _ hm)) hx
  · exact (hes m _ hm).trans (List.prefix_append ..)

/-- The empty pattern finds nothing. -/
theorem not_finds_empty (p : Path) : ¬ Finds r d (.parse "") p := by
  rintro ⟨hne, hmatch, -⟩
  have hempty : (Path.parse "").components = [] := rfl
  rw [hempty] at hmatch
  exact hne (matches_nil.1 hmatch)

/-- A search whose root is accepted returns something. -/
theorem searchFiles_accepted (n : LocalNode) (glob : Glob) (pattern : String) {start : String}
    (h : n.searchRoot d arg = .ok start) :
    ∃ paths, n.searchFiles glob d pattern arg = .ok paths := by
  unfold searchFiles
  rw [h]
  exact ⟨_, rfl⟩

/-- **What a search returns**, up to final separators. -/
theorem searchFiles_iff {start : String} {paths : List Path} (hdoc : glob.Documented r d (join start pattern))
    (hempty : glob.Documented r d "") (hstart : n.searchRoot d arg = .ok start)
    (h : n.searchFiles glob d pattern arg = .ok paths) (p : Path) :
    (∃ q ∈ paths, q.components = p.components) ↔
      r.wellFormed (join start pattern) = true ∧ Finds r d (.parse (join start pattern)) p := by
  unfold searchFiles at h
  rw [hstart] at h
  obtain rfl := Except.ok.inj h
  simp only [List.mem_filterMap, id_eq, exists_eq_right]
  rw [← hdoc.wellFormed]
  cases hfound : glob d (join start pattern) with
  | some found =>
    simp only [Option.getD_some, Option.isSome_some, true_and]
    constructor
    · rintro ⟨q, hq, hqp⟩
      have hfinds := hdoc.sound found hfound q hq
      unfold Finds at hfinds ⊢
      rwa [← hqp]
    · exact hdoc.complete found hfound p
  | none =>
    simp only [Option.getD_none, Option.isSome_none, Bool.false_eq_true, false_and, iff_false]
    rintro ⟨q, hq, -⟩
    cases hnone : glob d "" with
    | some found =>
      rw [hnone] at hq
      exact not_finds_empty q (hempty.sound found hnone q hq)
    | none =>
      rw [hnone] at hq
      cases hq

/-- **Exactly when a search shows only the workspace**, whatever its real location is. -/
theorem searchFiles_confined_iff (hdoc : ∀ start, n.searchRoot d arg = .ok start →
      glob.Documented r d (join start pattern)) (hempty : glob.Documented r d "") :
    ∀ real : Loc,
      (∀ start paths, n.searchRoot d arg = .ok start → n.searchFiles glob d pattern arg = .ok paths →
          ∀ p ∈ paths, ShowsOnly d real (.parse (join start pattern)) p) ↔
        ∀ start, n.searchRoot d arg = .ok start → r.wellFormed (join start pattern) = true →
          BranchesStay r d real (.parse (join start pattern)) := by
  -- beyond the root argument, the search does not look at the sandbox
  intro real
  constructor
  · intro h start hstart hwell
    rw [branchesStay_iff]
    intro p hp
    obtain ⟨paths, hsearch⟩ := n.searchFiles_accepted glob pattern hstart
    obtain ⟨q, hq, hqp⟩ :=
      (searchFiles_iff (hdoc start hstart) hempty hstart hsearch p).2 ⟨hwell, hp⟩
    unfold ShowsOnly
    rw [← hqp]
    exact h start paths hstart hsearch q hq
  · intro h start paths hstart hsearch p hp
    obtain ⟨hwell, hfinds⟩ :=
      (searchFiles_iff (hdoc start hstart) hempty hstart hsearch p).1 ⟨p, hp, rfl⟩
    exact (branchesStay_iff _).1 (h start hstart hwell) p hfinds

/-! ## Patterns without wildcards -/

/-- How patterns without wildcards are read. -/
def literalRules : PatternRules := ⟨fun _ => true, fun seg c => c = .normal seg, false⟩

/-- The only path that a pattern without wildcards matches, if it exists. -/
def literalPaths (d : Disk) (pattern : Path) : List Path :=
  match place d.fs maxLinks d.cwd pattern.components with
  | some l => if pattern.components ≠ [] ∧ (pattern.slash = true → d.fs.IsDir l) then [pattern] else []
  | none => []

/-- A search that reads every pattern as one without wildcards. -/
def literalGlob : Glob := fun d pattern => some ((literalPaths d (.parse pattern)).map some)

theorem literal_matches {ps cs : List Component} (hlit : .normal "**" ∉ ps) :
    literalRules.Matches ps cs ↔ cs = ps := by
  refine matches_literal (fun seg hseg => ⟨?_, fun c hc => hc⟩) fun seg _ => rfl
  rintro rfl
  exact hlit hseg

theorem mem_literalPaths {d : Disk} {pattern p : Path} : p ∈ literalPaths d pattern ↔
    p = pattern ∧ pattern.components ≠ [] ∧
      ∃ l, place d.fs maxLinks d.cwd pattern.components = some l ∧ (pattern.slash = true → d.fs.IsDir l) := by
  unfold literalPaths
  cases place d.fs maxLinks d.cwd pattern.components with
  | none => simp
  | some l =>
    simp only [Option.some.injEq, exists_eq_left']
    split
    · rename_i h
      rw [List.mem_singleton]
      exact ⟨fun hp => ⟨hp, h⟩, And.left⟩
    · rename_i h
      exact iff_of_false List.not_mem_nil fun hp => h hp.2

theorem literal_finds {d : Disk} {pattern p : Path} (hlit : .normal "**" ∉ pattern.components) :
    Finds literalRules d pattern p ↔ p.components = pattern.components ∧ pattern ∈ literalPaths d pattern := by
  have hlast : pattern.components.getLast? ≠ some (.normal "**") :=
    fun h => hlit (List.mem_of_getLast? h)
  unfold Finds Path.wantsDir
  rw [literal_matches hlit, or_iff_left hlast, mem_literalPaths]
  constructor
  · rintro ⟨hne, hcs, hl⟩
    exact ⟨hcs, rfl, hcs ▸ hne, hcs ▸ hl⟩
  · rintro ⟨hcs, -, hne, hl⟩
    exact ⟨hcs ▸ hne, hcs, hcs ▸ hl⟩

theorem literal_documented (d : Disk) {pattern : String}
    (hlit : .normal "**" ∉ (Path.parse pattern).components) :
    literalGlob.Documented literalRules d pattern where
  wellFormed := rfl
  sound := by
    rintro _ ⟨⟩ p hp
    have hmem : p ∈ literalPaths d (.parse pattern) := by simpa using hp
    obtain rfl := (mem_literalPaths.1 hmem).1
    exact (literal_finds hlit).2 ⟨rfl, hmem⟩
  complete := by
    rintro _ ⟨⟩ p hp
    obtain ⟨hcs, hmem⟩ := (literal_finds hlit).1 hp
    exact ⟨_, by simpa using hmem, hcs.symm⟩

/-! ## A pattern that leaves the workspace -/

/-- A machine with a file in the workspace `/w`, and one in `/etc`. -/
def twoFiles : Disk where
  fs := (((Fs.empty.put ["w"] .dir).put ["w", "a"] (.file [])).put ["etc"] .dir).put ["etc", "passwd"] (.file [])
  cwd := []
  cwdDir := by decide

theorem twoFiles_sandboxed : workspaceNode.Sandboxed twoFiles "/w" ["w"] := ⟨rfl, rfl, by decide⟩

/-- The condition at work: a search for a file of the workspace. -/
theorem searchFiles_confined_iff_inside :
    (∀ start paths, workspaceNode.searchRoot twoFiles none = .ok start →
        workspaceNode.searchFiles literalGlob twoFiles "a" none = .ok paths →
        ∀ p ∈ paths, ShowsOnly twoFiles ["w"] (.parse (join start "a")) p) ↔
      ∀ start, workspaceNode.searchRoot twoFiles none = .ok start →
        literalRules.wellFormed (join start "a") = true →
        BranchesStay literalRules twoFiles ["w"] (.parse (join start "a")) := by
  refine searchFiles_confined_iff (fun start hstart => ?_) (literal_documented _ (by decide)) ["w"]
  obtain rfl : "/w" = start := Except.ok.inj hstart
  exact literal_documented _ (by decide)

/-- **An absolute pattern** takes the search out of the workspace. -/
theorem searchFiles_escapes :
    workspaceNode.Sandboxed twoFiles "/w" ["w"] ∧
      literalGlob.Documented literalRules twoFiles (join "/w" "/etc/passwd") ∧
      workspaceNode.searchFiles literalGlob twoFiles "/etc/passwd" none = .ok [.parse "/etc/passwd"] ∧
      canonicalize twoFiles.cwd (.parse "/etc/passwd") twoFiles.fs = .ok ["etc", "passwd"] ∧
      ¬ ShowsOnly twoFiles ["w"] (.parse (join "/w" "/etc/passwd")) (.parse "/etc/passwd") := by
  have hreal : canonicalize twoFiles.cwd (.parse "/etc/passwd") twoFiles.fs = .ok ["etc", "passwd"] := by
    decide
  refine ⟨twoFiles_sandboxed, literal_documented _ (by decide), by decide, hreal, fun h => ?_⟩
  have hkept := (h _ (place_of_canonicalize hreal)).1
  revert hkept; decide

end LocalNode

end Auxlry
