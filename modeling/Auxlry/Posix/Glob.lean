import Auxlry.Posix.Tree

/-!
# Path patterns

A path pattern is spelled like a path. Its names are segments that fit some components,
and the segment `**` stands for any number of names. Which components fit a segment, and
whether a final `**` may stand for no name at all, is left to `PatternRules`.

A path exists if it can be followed to its end, or if it ends at a link that cannot
(`place`). `Branch` follows a pattern through a tree: at each place it takes any component
that the pattern takes there.

* `place_of_walk`: the place of a path that can be followed.
* `branch_iff`: **the branches of a pattern** are the existing paths that match it.
* `matches_append`: a pattern in two parts matches the paths in two parts.
-/

namespace Posix

/-- How patterns are read. -/
structure PatternRules where
  wellFormed : String → Bool
  /-- the components that fit a segment other than `**` -/
  fits : String → Component → Prop
  /-- a final `**` may stand for no name -/
  bareFinal : Bool

namespace PatternRules

variable (r : PatternRules)

/-- The pattern `ps` takes `c`, and has `ps'` left. -/
inductive Takes : List Component → Component → List Component → Prop
  | same {c : Component} {ps : List Component} (hc : ∀ seg, c ≠ .normal seg) : Takes (c :: ps) c ps
  | fits {seg : String} {c : Component} {ps : List Component} (hseg : seg ≠ "**") (hc : r.fits seg c) :
      Takes (.normal seg :: ps) c ps
  /-- `**` goes on -/
  | deep {x : String} {ps : List Component} :
      Takes (.normal "**" :: ps) (.normal x) (.normal "**" :: ps)
  /-- `**` ends -/
  | last {x : String} {ps : List Component} : Takes (.normal "**" :: ps) (.normal x) ps
  /-- `**` stands for no name -/
  | skip {c : Component} {ps ps' : List Component} (rest : Takes ps c ps') :
      Takes (.normal "**" :: ps) c ps'

/-- The pattern may end here. -/
inductive Done : List Component → Prop
  | nil : Done []
  | skip {ps : List Component} (hps : ps ≠ [] ∨ r.bareFinal) (rest : Done ps) : Done (.normal "**" :: ps)

/-- The path `cs` matches the pattern `ps`. -/
inductive Matches : List Component → List Component → Prop
  | nil {ps : List Component} (done : r.Done ps) : Matches ps []
  | cons {ps ps' cs : List Component} {c : Component} (takes : r.Takes ps c ps')
      (rest : Matches ps' cs) : Matches ps (c :: cs)

end PatternRules

/-- The pattern matches directories only. -/
def Path.wantsDir (pattern : Path) : Prop :=
  pattern.slash = true ∨ pattern.components.getLast? = some (.normal "**")

/-- Where a final link lies. -/
def linkPlace (fs : Fs) (l : Loc) : Component → List Component → Option Loc
  | .normal x, [] => if (fs.node (l ++ [x])).isSome then some (l ++ [x]) else none
  | _, _ => none

/-- Where a path leads; a final link that leads nowhere is where it lies itself. -/
def place (fs : Fs) : ℕ → Loc → List Component → Option Loc
  | _, l, [] => some l
  | k, l, c :: cs =>
    match walk fs k l [c] with
    | .found l' k' => place fs k' l' cs
    | _ => linkPlace fs l c cs

/-- The components of a path, each with the place that it is taken in. -/
def entries (fs : Fs) : ℕ → Loc → List Component → List (Loc × Component)
  | _, _, [] => []
  | k, l, c :: cs =>
    (l, c) ::
      match walk fs k l [c] with
      | .found l' k' => entries fs k' l' cs
      | _ => []

/-- Following the pattern `ps` from `l`, taking these entries, one may end in `e`. -/
inductive Branch (r : PatternRules) (fs : Fs) :
    ℕ → Loc → List Component → List (Loc × Component) → Loc → Prop
  | nil {k : ℕ} {l : Loc} {ps : List Component} (done : r.Done ps) : Branch r fs k l ps [] l
  | cons {k k' : ℕ} {l l' e : Loc} {ps ps' : List Component} {c : Component} {es : List (Loc × Component)}
      (takes : r.Takes ps c ps') (walks : walk fs k l [c] = .found l' k')
      (rest : Branch r fs k' l' ps' es e) : Branch r fs k l ps ((l, c) :: es) e
  /-- at a link that leads nowhere -/
  | link {k : ℕ} {l : Loc} {ps ps' : List Component} {x : String} (takes : r.Takes ps (.normal x) ps')
      (done : r.Done ps') (lost : ∀ l' k', walk fs k l [.normal x] ≠ .found l' k')
      (there : (fs.node (l ++ [x])).isSome) : Branch r fs k l ps [(l, .normal x)] (l ++ [x])

variable {r : PatternRules} {fs : Fs} {k : ℕ} {l e : Loc} {c : Component} {cs ps : List Component}

/-! ## One component at a time -/

@[simp] theorem place_nil : place fs k l [] = some l := rfl

theorem place_found {l' : Loc} {k' : ℕ} (h : walk fs k l [c] = .found l' k') :
    place fs k l (c :: cs) = place fs k' l' cs := by rw [place, h]

theorem entries_found {l' : Loc} {k' : ℕ} (h : walk fs k l [c] = .found l' k') :
    entries fs k l (c :: cs) = (l, c) :: entries fs k' l' cs := by rw [entries, h]

theorem entries_lost (h : ∀ l' k', walk fs k l [c] ≠ .found l' k') :
    entries fs k l (c :: cs) = [(l, c)] := by
  rw [entries]
  split
  · rename_i l' k' hw
    exact absurd hw (h l' k')
  · rfl

theorem linkPlace_eq_some : linkPlace fs l c cs = some e ↔
    ∃ x, c = .normal x ∧ cs = [] ∧ (fs.node (l ++ [x])).isSome ∧ e = l ++ [x] := by
  constructor
  · intro h
    unfold linkPlace at h
    split at h
    · rename_i x
      obtain ⟨there, he⟩ := Option.ite_none_right_eq_some.1 h
      exact ⟨x, rfl, rfl, there, (Option.some.inj he).symm⟩
    · cases h
  · rintro ⟨x, rfl, rfl, there, rfl⟩
    exact if_pos there

/-- A component that cannot be followed is the last, and names a link. -/
theorem place_lost (h : ∀ l' k', walk fs k l [c] ≠ .found l' k') :
    place fs k l (c :: cs) = linkPlace fs l c cs := by
  rw [place]
  split
  · rename_i l' k' hw
    exact absurd hw (h l' k')
  · rfl

/-- **The place of a path that can be followed.** -/
theorem place_of_walk {k' : ℕ} (h : walk fs k l cs = .found e k') : place fs k l cs = some e := by
  induction cs generalizing k l with
  | nil =>
    rw [walk_nil] at h
    cases h; rfl
  | cons c cs ih =>
    rw [← List.singleton_append, walk_append] at h
    cases hw : walk fs k l [c] with
    | found l' k'' =>
      rw [hw] at h
      rw [place_found hw]
      exact ih h
    | _ => rw [hw] at h; cases h

/-! ## Branches -/

theorem Branch.matches {es : List (Loc × Component)} (h : Branch r fs k l ps es e) :
    ∃ cs, r.Matches ps cs ∧ place fs k l cs = some e ∧ entries fs k l cs = es := by
  induction h with
  | nil done => exact ⟨[], .nil done, rfl, rfl⟩
  | @cons k k' l l' e ps ps' c es takes walks rest ih =>
    obtain ⟨cs, hcs, hplace, hentries⟩ := ih
    refine ⟨c :: cs, .cons takes hcs, ?_, ?_⟩
    · rw [place_found walks, hplace]
    · rw [entries_found walks, hentries]
  | @link k l ps ps' x takes done lost there =>
    refine ⟨[.normal x], .cons takes (.nil done), ?_, entries_lost lost⟩
    exact (place_lost lost).trans (linkPlace_eq_some.2 ⟨x, rfl, rfl, there, rfl⟩)

theorem PatternRules.Matches.branch (h : r.Matches ps cs) (hplace : place fs k l cs = some e) :
    Branch r fs k l ps (entries fs k l cs) e := by
  induction h generalizing k l with
  | nil done =>
    obtain rfl : l = e := by simpa using hplace
    exact .nil done
  | @cons ps ps' cs c takes rest ih =>
    by_cases hw : ∃ l' k', walk fs k l [c] = .found l' k'
    · obtain ⟨l', k', hw⟩ := hw
      rw [place_found hw] at hplace
      rw [entries_found hw]
      exact .cons takes hw (ih hplace)
    · -- the walk is lost, so the path ends here, at a link
      have hlost : ∀ l' k', walk fs k l [c] ≠ .found l' k' := fun l' k' h => hw ⟨l', k', h⟩
      rw [place_lost hlost, linkPlace_eq_some] at hplace
      rw [entries_lost hlost]
      obtain ⟨x, rfl, rfl, there, rfl⟩ := hplace
      cases rest with
      | nil done => exact .link takes done hlost there

/-- **The branches of a pattern** are the existing paths that match it. -/
theorem branch_iff {es : List (Loc × Component)} : Branch r fs k l ps es e ↔
    ∃ cs, r.Matches ps cs ∧ place fs k l cs = some e ∧ entries fs k l cs = es := by
  constructor
  · exact Branch.matches
  · rintro ⟨cs, hcs, hplace, rfl⟩
    exact hcs.branch hplace

/-! ## Patterns in two parts -/

namespace PatternRules

variable {ps' qs as bs : List Component} {xs : List String}

/-- How the first part of a pattern is read when `qs` follows: its final `**` may stand for
no name. -/
def before (r : PatternRules) (qs : List Component) : PatternRules :=
  { r with bareFinal := r.bareFinal || !qs.isEmpty }

@[simp] theorem before_nil : r.before [] = r := by simp [before]

theorem before_bareFinal (hqs : qs ≠ []) : (r.before qs).bareFinal = true := by simp [before, hqs]

/-- What a pattern takes, it takes before others as well. -/
theorem Takes.append (h : (r.before qs).Takes ps c ps') : r.Takes (ps ++ qs) c (ps' ++ qs) := by
  induction h with
  | same hc => exact .same hc
  | fits hseg hc => exact .fits hseg hc
  | deep => exact .deep
  | last => exact .last
  | skip _ ih => exact .skip ih

/-- `**` stands for no name, -/
theorem Matches.skip (hps : ps ≠ [] ∨ r.bareFinal) (h : r.Matches ps cs) :
    r.Matches (.normal "**" :: ps) cs := by
  cases h with
  | nil done => exact .nil (.skip hps done)
  | cons takes rest => exact .cons (.skip takes) rest

/-- or for some. -/
theorem Matches.deep (h : r.Matches (.normal "**" :: ps) cs) (xs : List String) :
    r.Matches (.normal "**" :: ps) (xs.map .normal ++ cs) := by
  induction xs with
  | nil => exact h
  | cons x xs ih => exact .cons .deep ih

/-- `**` stands for names only. -/
theorem Matches.names (h : r.Matches (.normal "**" :: ps) cs) :
    ∃ (xs : List String) (rest : List Component), cs = xs.map .normal ++ rest ∧ r.Matches ps rest := by
  induction cs with
  | nil =>
    cases h with
    | nil done =>
      cases done with
      | skip _ done => exact ⟨[], [], rfl, .nil done⟩
  | cons c cs ih =>
    cases h with
    | cons takes rest =>
      cases takes with
      | same hc => exact absurd rfl (hc _)
      | fits hseg => exact absurd rfl hseg
      | @deep x _ =>
        obtain ⟨xs, tail, rfl, htail⟩ := ih rest
        exact ⟨x :: xs, tail, rfl, htail⟩
      | @last x _ => exact ⟨[x], cs, rfl, rest⟩
      | skip takes => exact ⟨[], c :: cs, rfl, .cons takes rest⟩

/-- Patterns that may end may be followed by others. -/
theorem Done.append (hqs : qs ≠ []) (hps : (r.before qs).Done ps) (h : r.Matches qs cs) :
    r.Matches (ps ++ qs) cs := by
  induction hps with
  | nil => exact h
  | skip _ _ ih => exact .skip (.inl (List.append_ne_nil_of_right_ne_nil _ hqs)) ih

/-- What a pattern in two parts matches has two parts. -/
theorem Matches.split (hqs : qs ≠ []) (h : r.Matches (ps ++ qs) cs) :
    ∃ as bs, cs = as ++ bs ∧ (r.before qs).Matches ps as ∧ r.Matches qs bs := by
  induction ps generalizing cs with
  | nil => exact ⟨[], cs, rfl, .nil .nil, h⟩
  | cons p ps ih =>
    by_cases hp : p = .normal "**"
    · subst hp
      obtain ⟨xs, rest, rfl, hrest⟩ := h.names
      obtain ⟨as, bs, rfl, has, hbs⟩ := ih hrest
      have hskip := has.skip (.inr (before_bareFinal hqs))
      exact ⟨_, bs, (List.append_assoc ..).symm, hskip.deep xs, hbs⟩
    · cases h with
      | nil done => cases done; exact absurd rfl hp
      | @cons _ ps' cs c takes rest =>
        cases takes with
        | same hc =>
          obtain ⟨as, bs, rfl, has, hbs⟩ := ih rest
          exact ⟨p :: as, bs, rfl, .cons (.same hc) has, hbs⟩
        | fits hseg hc =>
          obtain ⟨as, bs, rfl, has, hbs⟩ := ih rest
          exact ⟨c :: as, bs, rfl, .cons (.fits hseg hc) has, hbs⟩
        | deep | last | skip => exact absurd rfl hp

/-- What is matched in two parts, the pattern in two parts matches. -/
theorem Matches.append (hqs : qs ≠ []) (has : (r.before qs).Matches ps as) (hbs : r.Matches qs bs) :
    r.Matches (ps ++ qs) (as ++ bs) := by
  generalize hr : r.before qs = r' at has
  induction has with
  | nil done =>
    subst hr
    exact done.append hqs hbs
  | cons takes _ ih =>
    subst hr
    exact .cons takes.append ih

/-- **A pattern in two parts** matches the paths in two parts. -/
theorem matches_append : r.Matches (ps ++ qs) cs ↔
    ∃ as bs, cs = as ++ bs ∧ (r.before qs).Matches ps as ∧ r.Matches qs bs := by
  by_cases hqs : qs = []
  · -- nothing follows
    subst hqs
    rw [before_nil, List.append_nil]
    constructor
    · intro h
      exact ⟨cs, [], (List.append_nil cs).symm, h, .nil .nil⟩
    · rintro ⟨as, bs, rfl, has, hbs⟩
      cases hbs with
      | nil => rwa [List.append_nil]
      | cons takes => cases takes
  · constructor
    · exact Matches.split hqs
    · rintro ⟨as, bs, rfl, has, hbs⟩
      exact has.append hqs hbs

end PatternRules

/-- Joined to something, a name asks for directories if it does so itself, or names nothing. -/
theorem wantsDir_join {base name : String} (hbase : base ≠ "") (hname : isAbsolute name = false) :
    (Path.parse (join base name)).wantsDir ↔
      (Path.parse name).wantsDir ∨ Path.below (.parse base) (.parse name) = [] := by
  unfold Path.wantsDir
  rw [Path.slash_join hbase hname, Path.components_join base hname]
  by_cases hbelow : Path.below (.parse base) (.parse name) = []
  · simp [hbelow]
  · have hlast : (Path.parse name).components.getLast? =
        (Path.below (.parse base) (.parse name)).getLast? := by
      rcases Path.below_cases (.parse base) (.parse name) with h | h
      · rw [h]
      · rw [h, List.getLast?_cons_of_ne_nil hbelow]
    rw [hlast, List.getLast?_append_of_ne_nil _ hbelow]
    simp [hbelow]

end Posix
