import Auxlry.Proof.Search

/-!
# What a search finds

`search_files` is to find the paths below its root that match the pattern. It joins the
two texts and reads the result as one pattern: a root with wildcards in its name is
matched and not followed, and may lead to the files of others. A malformed pattern is
replaced by the empty one.

* `searchFiles_exact_iff`: a search finds what it is to find **exactly when** the pattern is
  well formed and nothing that exists tells the two readings of the root apart.
* `straight_of_literal`: that is so for relative patterns below a root without wildcards.
* `otherNode_searched`: the root of a node called `[ab]`, and a malformed pattern.
-/

namespace Auxlry

open Posix

namespace LocalNode

variable {n : LocalNode} {d : Disk} {r : PatternRules} {glob : Glob} {start pattern : String}
  {arg : Option String} {p : Path}

/-- The path exists, as a directory if one is asked for: by the pattern, or as the root itself. -/
def There (d : Disk) (root pattern : Path) (cs : List Component) : Prop :=
  cs ≠ [] ∧ ∃ l, place d.fs maxLinks d.cwd cs = some l ∧
    (pattern.wantsDir ∨ Path.below root pattern = [] → d.fs.IsDir l)

/-- The path is the root, followed by a relative path that matches the pattern. -/
def BelowRoot (r : PatternRules) (root : Path) (pattern : String) (cs : List Component) : Prop :=
  isAbsolute pattern = false ∧
    ∃ rel, cs = root.components ++ rel ∧ r.Matches (Path.below root (.parse pattern)) rel

/-- A search that is right: an error for a malformed pattern, and otherwise the existing paths
below the root that match it. -/
def SearchesRight (glob : Glob) (r : PatternRules) (n : LocalNode) (d : Disk) (pattern : String)
    (arg : Option String) : Prop :=
  ∀ start, n.searchRoot d arg = .ok start →
    (r.wellFormed pattern = false → ∃ e, n.searchFiles glob d pattern arg = .error e) ∧
      (r.wellFormed pattern = true → ∃ paths, n.searchFiles glob d pattern arg = .ok paths ∧
        ∀ p : Path, (∃ q ∈ paths, q.components = p.components) ↔
          There d (.parse start) (.parse pattern) p.components ∧
            BelowRoot r (.parse start) pattern p.components)

/-! ## The joined pattern -/

/-- The root, read as a pattern that the other follows, matches. -/
def ReadsAs (r : PatternRules) (root pattern : Path) (cs : List Component) : Prop :=
  (r.before (Path.below root pattern)).Matches root.components cs

/-- The path is one that the root, read as a pattern, matches, followed by one that the
pattern matches. -/
def Led (r : PatternRules) (root pattern : Path) (cs : List Component) : Prop :=
  ∃ as bs, cs = as ++ bs ∧ ReadsAs r root pattern as ∧ r.Matches (Path.below root pattern) bs

/-- **What the joined pattern finds**, for a relative one. -/
theorem finds_join (hrel : isAbsolute pattern = false) : Finds r d (.parse (join start pattern)) p ↔
    There d (.parse start) (.parse pattern) p.components ∧
      Led r (.parse start) (.parse pattern) p.components := by
  have hjoin := Path.components_join start hrel
  by_cases hstart : start = "" ∧ Path.below (.parse start) (.parse pattern) = []
  · -- nothing is named at all
    obtain ⟨rfl, hbelow⟩ := hstart
    rw [hbelow] at hjoin
    unfold Finds There Led ReadsAs
    rw [hjoin, hbelow]
    constructor
    · rintro ⟨hne, hmatch, -⟩
      exact absurd (matches_nil.1 hmatch) hne
    · rintro ⟨⟨hne, -⟩, as, bs, happ, has, hbs⟩
      obtain rfl := matches_nil.1 hbs
      rw [PatternRules.before_nil] at has
      obtain rfl : as = [] := matches_nil.1 has
      exact absurd happ hne
  · have hdir : (Path.parse (join start pattern)).wantsDir ↔
        (Path.parse pattern).wantsDir ∨ Path.below (.parse start) (.parse pattern) = [] := by
      by_cases hempty : start = ""
      · subst hempty
        have hself : join "" pattern = pattern := by simp [join, hrel]
        rw [hself, or_iff_left fun h => hstart ⟨rfl, h⟩]
      · exact wantsDir_join hempty hrel
    unfold Finds There Led ReadsAs
    rw [hjoin, PatternRules.matches_append, hdir]
    constructor
    · rintro ⟨hne, hled, hplace⟩
      exact ⟨⟨hne, hplace⟩, hled⟩
    · rintro ⟨⟨hne, hplace⟩, hled⟩
      exact ⟨hne, hled, hplace⟩

/-! ## When a search is right -/

/-- Nothing that exists tells the root, read as a pattern, from the root. -/
structure Straight (r : PatternRules) (d : Disk) (start pattern : String) : Prop where
  wellFormed : r.wellFormed pattern = true
  /-- an absolute pattern, which replaces the root, finds nothing -/
  absolute : isAbsolute pattern = true → ∀ p, ¬ Finds r d (.parse pattern) p
  /-- the joined text is well formed and lets the root through, if something is to be found -/
  reached : isAbsolute pattern = false →
    ∀ rel, r.Matches (Path.below (.parse start) (.parse pattern)) rel →
      There d (.parse start) (.parse pattern) ((Path.parse start).components ++ rel) →
      r.wellFormed (join start pattern) = true ∧
        Led r (.parse start) (.parse pattern) ((Path.parse start).components ++ rel)
  /-- where else the root leads, nothing is found -/
  elsewhere : isAbsolute pattern = false → r.wellFormed (join start pattern) = true →
    ∀ as bs, as ≠ (Path.parse start).components → ReadsAs r (.parse start) (.parse pattern) as →
      r.Matches (Path.below (.parse start) (.parse pattern)) bs →
      There d (.parse start) (.parse pattern) (as ++ bs) →
      BelowRoot r (.parse start) pattern (as ++ bs)

theorem join_absolute (start : String) (h : isAbsolute pattern = true) : join start pattern = pattern :=
  if_pos h

/-- **Below a root without wildcards** a relative pattern finds what it is to find. -/
theorem straight_of_literal (hwell : r.wellFormed pattern = true) (hrel : isAbsolute pattern = false)
    (hjoined : r.wellFormed (join start pattern) = true) (hroot : Literal r (Path.parse start).components)
    (hself : ∀ seg, .normal seg ∈ (Path.parse start).components → r.fits seg (.normal seg)) :
    Straight r d start pattern := by
  -- read as a pattern, the root is itself
  have hreads : ∀ cs, ReadsAs r (.parse start) (.parse pattern) cs ↔ cs = (Path.parse start).components :=
    fun cs => matches_literal hroot hself
  refine ⟨hwell, fun habs => ?_, fun _ rel hmatch _ => ?_, fun _ _ as bs hne has _ _ => ?_⟩
  · rw [hrel] at habs
    cases habs
  · exact ⟨hjoined, _, rel, rfl, (hreads _).2 rfl, hmatch⟩
  · exact absurd ((hreads as).1 has) hne

section

variable (hdoc : glob.Documented r d (join start pattern)) (hempty : glob.Documented r d "")
  (hstart : n.searchRoot d arg = .ok start)

include hdoc hempty hstart

/-- A search that is right shows that the condition is met. -/
theorem straight_of_right (h : SearchesRight glob r n d pattern arg) : Straight r d start pattern := by
  obtain ⟨hmalformed, hright⟩ := h start hstart
  have hwell : r.wellFormed pattern = true := by
    -- an accepted root never ends in an error
    obtain ⟨paths, hsearch⟩ := n.searchFiles_accepted glob pattern hstart
    by_contra hfalse
    obtain ⟨e, he⟩ := hmalformed (by simpa using hfalse)
    rw [hsearch] at he
    cases he
  obtain ⟨paths, hsearch, hpaths⟩ := hright hwell
  have hfound := fun p => (searchFiles_iff hdoc hempty hstart hsearch p).symm.trans (hpaths p)
  refine ⟨hwell, fun habs p hp => ?_, fun hrel rel hmatch hthere => ?_, ?_⟩
  · rw [join_absolute start habs] at hfound
    obtain ⟨-, hrel, -⟩ := (hfound p).1 ⟨hwell, hp⟩
    rw [habs] at hrel
    cases hrel
  · obtain ⟨hjoined, hfinds⟩ := (hfound ⟨_, false⟩).2 ⟨hthere, hrel, rel, rfl, hmatch⟩
    exact ⟨hjoined, ((finds_join hrel).1 hfinds).2⟩
  · intro hrel hjoined as bs _ has hbs hthere
    have hfinds : Finds r d (.parse (join start pattern)) ⟨as ++ bs, false⟩ :=
      (finds_join hrel).2 ⟨hthere, as, bs, rfl, has, hbs⟩
    exact ((hfound _).1 ⟨hjoined, hfinds⟩).2

/-- Where the condition is met, the paths returned are those that are to be found. -/
theorem found_of_straight (hs : Straight r d start pattern) {paths : List Path}
    (hsearch : n.searchFiles glob d pattern arg = .ok paths) (p : Path) :
    (∃ q ∈ paths, q.components = p.components) ↔
      There d (.parse start) (.parse pattern) p.components ∧
        BelowRoot r (.parse start) pattern p.components := by
  rw [searchFiles_iff hdoc hempty hstart hsearch p]
  cases hrel : isAbsolute pattern with
  | true =>
    rw [join_absolute start hrel]
    constructor
    · rintro ⟨-, hfinds⟩
      exact absurd hfinds (hs.absolute hrel p)
    · rintro ⟨-, hfalse, -⟩
      rw [hrel] at hfalse
      cases hfalse
  | false =>
    rw [finds_join hrel]
    constructor
    · rintro ⟨hjoined, hthere, as, bs, hp, has, hbs⟩
      refine ⟨hthere, ?_⟩
      rw [hp] at hthere ⊢
      by_cases hroot : as = (Path.parse start).components
      · exact ⟨hrel, bs, by rw [hroot], hbs⟩
      · exact hs.elsewhere hrel hjoined as bs hroot has hbs hthere
    · rintro ⟨hthere, -, rel, hp, hmatch⟩
      obtain ⟨hjoined, hled⟩ := hs.reached hrel rel hmatch (hp ▸ hthere)
      exact ⟨hjoined, hthere, hp ▸ hled⟩

end

/-- **Exactly when a search finds what it is to find.** -/
theorem searchFiles_exact_iff (hdoc : ∀ start, n.searchRoot d arg = .ok start →
      glob.Documented r d (join start pattern)) (hempty : glob.Documented r d "") :
    SearchesRight glob r n d pattern arg ↔
      ∀ start, n.searchRoot d arg = .ok start → Straight r d start pattern := by
  constructor
  · intro h start hstart
    exact straight_of_right (hdoc start hstart) hempty hstart h
  · intro h start hstart
    have hs := h start hstart
    refine ⟨fun hfalse => ?_, fun _ => ?_⟩
    · rw [hs.wellFormed] at hfalse
      cases hfalse
    · obtain ⟨paths, hsearch⟩ := n.searchFiles_accepted glob pattern hstart
      exact ⟨paths, hsearch, found_of_straight (hdoc start hstart) hempty hstart hs hsearch⟩

/-- The condition at work: a search for a file of the workspace. -/
theorem searchFiles_exact_iff_inside :
    workspaceNode.SearchesRight literalGlob literalRules twoFiles "a" none := by
  have hroot : ∀ start, workspaceNode.searchRoot twoFiles none = .ok start → "/w" = start :=
    fun start hstart => Except.ok.inj hstart
  refine (searchFiles_exact_iff (fun start hstart => ?_) (literal_documented _ (by decide))).2
    fun start hstart => ?_
  · obtain rfl := hroot start hstart
    exact literal_documented _ (by decide)
  · obtain rfl := hroot start hstart
    refine straight_of_literal rfl (by decide) rfl (fun seg hseg => ⟨?_, fun c hc => hc⟩) fun _ _ => rfl
    rintro rfl
    revert hseg; decide

/-! ## A root with wildcards -/

/-- What a component of a pattern fits, where `[ab]` is the only segment with a wildcard. -/
def choices : Component → List Component
  | .normal "[ab]" => [.normal "a", .normal "b"]
  | c => [c]

def spellings : List Component → List (List Component)
  | [] => [[]]
  | p :: ps => (spellings ps).flatMap fun cs => (choices p).map (· :: cs)

/-- How such patterns are read; an open bracket is to be closed. -/
def bracketRules : PatternRules where
  wellFormed s := s.toList.count '[' ≤ s.toList.count ']'
  fits seg c := c ∈ choices (.normal seg)
  bareFinal := false

/-- A search that reads patterns in this way. -/
def bracketGlob : Glob := fun d pattern =>
  if bracketRules.wellFormed pattern then
    some (((spellings (Path.parse pattern).components).flatMap fun cs =>
      literalPaths d ⟨cs, (Path.parse pattern).slash⟩).map some)
  else none

theorem mem_spellings {ps cs : List Component} (hlit : .normal "**" ∉ ps) :
    cs ∈ spellings ps ↔ bracketRules.Matches ps cs := by
  induction ps generalizing cs with
  | nil =>
    rw [matches_nil]
    exact List.mem_singleton
  | cons p ps ih =>
    obtain ⟨hp, hps⟩ := not_or.1 (mt List.mem_cons.2 hlit)
    have hmem : cs ∈ spellings (p :: ps) ↔
        ∃ rest c, bracketRules.Matches ps rest ∧ c ∈ choices p ∧ c :: rest = cs := by
      simp [spellings, ih hps]
    rw [hmem]
    constructor
    · rintro ⟨rest, c, hrest, hc, rfl⟩
      refine .cons ?_ hrest
      cases p with
      | normal seg => exact .fits (fun h => hp (by rw [h])) hc
      | _ =>
        obtain rfl := List.mem_singleton.1 hc
        exact .same (by simp)
    · intro h
      cases h with
      | nil done => cases done; exact absurd rfl hp
      | @cons _ _ rest c takes hrest =>
        cases takes with
        | same hc =>
          refine ⟨rest, p, hrest, ?_, rfl⟩
          cases p with
          | normal seg => exact absurd rfl (hc seg)
          | _ => exact List.mem_singleton_self _
        | fits _ hc => exact ⟨rest, c, hrest, hc, rfl⟩
        | deep | last | skip => exact absurd rfl hp

theorem bracket_finds {d : Disk} {pattern p : Path} (hlit : .normal "**" ∉ pattern.components) :
    Finds bracketRules d pattern p ↔ p.components ∈ spellings pattern.components ∧
      ⟨p.components, pattern.slash⟩ ∈ literalPaths d ⟨p.components, pattern.slash⟩ := by
  have hlast : pattern.components.getLast? ≠ some (.normal "**") :=
    fun h => hlit (List.mem_of_getLast? h)
  unfold Finds Path.wantsDir
  rw [← mem_spellings hlit, or_iff_left hlast, mem_literalPaths]
  constructor
  · rintro ⟨hne, hcs, hl⟩
    exact ⟨hcs, rfl, hne, hl⟩
  · rintro ⟨hcs, -, hne, hl⟩
    exact ⟨hne, hcs, hl⟩

theorem bracket_documented (d : Disk) {pattern : String}
    (hlit : .normal "**" ∉ (Path.parse pattern).components) :
    bracketGlob.Documented bracketRules d pattern := by
  have hmem : ∀ found, bracketGlob d pattern = some found → ∀ p, some p ∈ found ↔
      ∃ cs ∈ spellings (Path.parse pattern).components,
        p ∈ literalPaths d ⟨cs, (Path.parse pattern).slash⟩ := by
    intro found hfound p
    obtain ⟨-, hfound⟩ := Option.ite_none_right_eq_some.1 hfound
    rw [← Option.some.inj hfound]
    simp
  refine ⟨?_, fun found hfound p hp => ?_, fun found hfound p hp => ?_⟩
  · unfold bracketGlob
    split <;> simp_all
  · obtain ⟨cs, hcs, hpaths⟩ := (hmem found hfound p).1 hp
    obtain rfl := (mem_literalPaths.1 hpaths).1
    exact (bracket_finds hlit).2 ⟨hcs, hpaths⟩
  · obtain ⟨hcs, hpaths⟩ := (bracket_finds hlit).1 hp
    exact ⟨_, (hmem found hfound _).2 ⟨_, hcs, hpaths⟩, rfl⟩

/-- A machine with the workspaces of two nodes, `[ab]` and `a`, and a file in each. -/
def twoWorkspaces : Disk where
  fs := ((((Fs.empty.put ["ws"] .dir).put ["ws", "[ab]"] .dir).put ["ws", "[ab]", "x"] (.file [])).put
    ["ws", "a"] .dir).put ["ws", "a", "x"] (.file [])
  cwd := []
  cwdDir := by decide

/-- The node that is called `[ab]`. -/
def bracketNode : LocalNode := ⟨"[ab]", .workspace, some "/ws/[ab]"⟩

/-- **The root of a node called `[ab]`** is matched and not followed: the file that is to be
found is not, and that of the node `a` is. A malformed pattern finds nothing, without an error. -/
theorem otherNode_searched :
    (∀ pattern ∈ ["", join "/ws/[ab]" "x", join "/ws/[ab]" "["],
        bracketGlob.Documented bracketRules twoWorkspaces pattern) ∧
      bracketRules.wellFormed "x" = true ∧
      bracketNode.searchFiles bracketGlob twoWorkspaces "x" none = .ok [.parse "/ws/a/x"] ∧
      ¬ bracketNode.SearchesRight bracketGlob bracketRules twoWorkspaces "x" none ∧
      bracketRules.wellFormed "[" = false ∧
      bracketNode.searchFiles bracketGlob twoWorkspaces "[" none = .ok [] ∧
      ¬ bracketNode.SearchesRight bracketGlob bracketRules twoWorkspaces "[" none := by
  have hfound : bracketNode.searchFiles bracketGlob twoWorkspaces "x" none = .ok [.parse "/ws/a/x"] := by
    decide
  have hnothing : bracketNode.searchFiles bracketGlob twoWorkspaces "[" none = .ok [] := by decide
  refine ⟨?_, by decide, hfound, fun h => ?_, by decide, hnothing, fun h => ?_⟩
  · have hlit : ∀ pattern ∈ ["", join "/ws/[ab]" "x", join "/ws/[ab]" "["],
        .normal "**" ∉ (Path.parse pattern).components := by decide
    exact fun pattern hpattern => bracket_documented _ (hlit pattern hpattern)
  · obtain ⟨-, hright⟩ := h "/ws/[ab]" rfl
    obtain ⟨paths, hpaths, hiff⟩ := hright (by decide)
    rw [hfound] at hpaths
    obtain rfl := Except.ok.inj hpaths
    have hplain : ¬ ((Path.parse "x").wantsDir ∨
        Path.below (.parse "/ws/[ab]") (.parse "x") = []) := by unfold Path.wantsDir; decide
    have hmatch : bracketRules.Matches (Path.below (.parse "/ws/[ab]") (.parse "x")) [.normal "x"] := by
      have hfits : Component.normal "x" ∈ choices (.normal "x") := by decide
      exact .cons (.fits (by decide) hfits) (.nil .nil)
    -- the file of the node itself
    obtain ⟨q, hq, hcomps⟩ := (hiff (.parse "/ws/[ab]/x")).2
      ⟨⟨by decide, ["ws", "[ab]", "x"], by decide, fun h => absurd h hplain⟩, by decide,
        [.normal "x"], by decide, hmatch⟩
    obtain rfl := List.mem_singleton.1 hq
    revert hcomps; decide
  · obtain ⟨hmalformed, -⟩ := h "/ws/[ab]" rfl
    obtain ⟨e, he⟩ := hmalformed (by decide)
    rw [hnothing] at he
    cases he

end LocalNode

end Auxlry
