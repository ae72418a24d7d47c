import Mathlib.Data.List.Basic

/-!
# Paths

Unix paths as `std::path` reads them: a path is the list of its components, and
whether its spelling ends in a separator. Repeated separators and inner `.`
segments are dropped, by the standard library and by the kernel alike; the final
one matters to the kernel, which then wants a directory (`Path.os`).

A location is the list of names from the root down to a file. `lexLoc` walks a path
from a location without looking at the tree.

* `lexLoc_parse`: the location of a spelled path, segment by segment.
* `lexLoc_join`: **`join` continues from its base**, unless the joined name is absolute.
* `components_join`: the components of the base, and then those of a relative name.
-/

namespace Posix

/-- A component of a path. -/
inductive Component
  | rootDir
  | curDir
  | parentDir
  | normal (name : String)
  deriving DecidableEq, Repr

/-- A path: its components, and whether it is spelled with a final `/` or `/.`. -/
structure Path where
  components : List Component
  slash : Bool
  deriving DecidableEq, Repr

/-- The component a segment between two separators stands for, if any. -/
def componentOf : List Char → Option Component
  | [] => none
  | ['.'] => none
  | ['.', '.'] => some .parentDir
  | cs => some (.normal (String.ofList cs))

/-- The segments of a spelling. -/
def segments (s : String) : List (List Char) := s.toList.splitOn '/'

/-- A final empty or `.` segment. -/
def endsInSlash (segs : List (List Char)) : Bool :=
  segs.getLast? = some [] || segs.getLast? = some ['.']

namespace Path

/-- Read a path from its spelling. A leading `.` of a relative path is kept. -/
def parse (s : String) : Path :=
  match segments s with
  | [] => ⟨[], false⟩
  | [] :: [] => ⟨[], false⟩
  | [] :: segs => ⟨.rootDir :: segs.filterMap componentOf, endsInSlash segs⟩
  | seg :: segs =>
    ⟨(if seg = ['.'] then [.curDir] else []) ++ (seg :: segs).filterMap componentOf, endsInSlash segs⟩

/-- The components the kernel walks: a final separator asks for a directory. -/
def os (p : Path) : List Component := p.components ++ if p.slash then [.curDir] else []

/-- `Path::starts_with`: component by component. -/
def startsWith (p base : Path) : Prop := base.components <+: p.components

instance (p base : Path) : Decidable (p.startsWith base) :=
  inferInstanceAs (Decidable (_ <+: _))

/-- `Path::parent`. -/
def parent (p : Path) : Option Path :=
  match p.components.getLast? with
  | none | some .rootDir => none
  | some _ => some ⟨p.components.dropLast, false⟩

/-- The last component, with what follows it. -/
def final (p : Path) : Path := ⟨p.components.getLast?.toList, p.slash⟩

end Path

/-- A component that no system call accepts. -/
def Component.hasNul : Component → Bool
  | .normal x => x.toList.contains '\x00'
  | _ => false

/-- Whether the spelling is absolute. -/
def isAbsolute (s : String) : Bool := s.toList.head? = some '/'

/-- `Path::join` on spellings: an absolute name replaces the base. -/
def join (base name : String) : String :=
  if isAbsolute name then name
  else if base = "" ∨ base.toList.getLast? = some '/' then base ++ name
  else base ++ "/" ++ name

/-! ## Locations -/

/-- A location: the names from the root down. -/
abbrev Loc := List String

/-- One component, without looking at the tree. -/
def lexStep (l : Loc) : Component → Loc
  | .rootDir => []
  | .curDir => l
  | .parentDir => l.dropLast
  | .normal x => l ++ [x]

/-- Where a path leads from `l` on a tree without symbolic links. -/
def lexLoc (l : Loc) (cs : List Component) : Loc := cs.foldl lexStep l

/-- The canonical spelling of a location, as components. -/
def ofLoc (l : Loc) : Path := ⟨.rootDir :: l.map .normal, false⟩

@[simp] theorem lexLoc_nil (l : Loc) : lexLoc l [] = l := rfl

@[simp] theorem lexLoc_cons (l : Loc) (c : Component) (cs : List Component) :
    lexLoc l (c :: cs) = lexLoc (lexStep l c) cs := rfl

theorem lexLoc_append (l : Loc) (cs ds : List Component) :
    lexLoc l (cs ++ ds) = lexLoc (lexLoc l cs) ds := List.foldl_append

/-- Where a list of segments leads. -/
def segLoc (l : Loc) (segs : List (List Char)) : Loc := lexLoc l (segs.filterMap componentOf)

theorem segLoc_cons_nil (l : Loc) (segs : List (List Char)) : segLoc l ([] :: segs) = segLoc l segs :=
  rfl

theorem segLoc_append (l : Loc) (a b : List (List Char)) :
    segLoc l (a ++ b) = segLoc (segLoc l a) b := by
  unfold segLoc; rw [List.filterMap_append, lexLoc_append]

theorem segments_append (a b : String) : segments (a ++ "/" ++ b) = segments a ++ segments b := by
  unfold segments
  rw [String.toList_append, String.toList_append, List.append_assoc]
  exact List.splitOnP_append_cons a.toList b.toList (show ('/' == '/') = true from rfl)

theorem segments_ne_nil (s : String) : segments s ≠ [] := List.splitOn_ne_nil _ _

theorem segments_sep (s : String) : segments (s ++ "/") = segments s ++ [[]] := by
  have := segments_append s ""
  rwa [String.append_empty] at this

/-- A spelling that ends in a separator. -/
theorem exists_sep {s : String} (h : s.toList.getLast? = some '/') : ∃ t, s = t ++ "/" := by
  have hcs : s.toList = s.toList.dropLast ++ ['/'] :=
    (List.dropLast_append_getLast? _ (by simpa using h)).symm
  refine ⟨String.ofList s.toList.dropLast, ?_⟩
  rw [← String.toList_inj, hcs, String.toList_append, String.toList_ofList]
  simp

/-- The first segment is empty exactly for the empty and the absolute spellings. -/
theorem isAbsolute_cases (s : String) :
    (isAbsolute s = true ∧ ∃ seg segs, segments s = [] :: seg :: segs) ∨
      (isAbsolute s = false ∧ (s = "" ∨ ∃ c seg segs, segments s = (c :: seg) :: segs)) := by
  unfold isAbsolute segments
  cases h : s.toList with
  | nil => right; exact ⟨rfl, .inl (String.toList_eq_nil_iff.1 h)⟩
  | cons c cs =>
    obtain ⟨seg, segs, hs⟩ := List.exists_cons_of_ne_nil (List.splitOn_ne_nil '/' cs)
    rw [List.splitOn_cons_eq_if_modifyHead, hs]
    by_cases hc : c = '/'
    · left; subst hc; exact ⟨rfl, seg, segs, rfl⟩
    · right
      refine ⟨by simp [hc], .inr ⟨c, seg, segs, ?_⟩⟩
      simp [hc]

/-- **The location of a spelled path**: its segments, from the root if it is absolute. -/
theorem lexLoc_parse (l : Loc) (s : String) :
    lexLoc l (Path.parse s).components = segLoc (if isAbsolute s then [] else l) (segments s) := by
  rcases isAbsolute_cases s with ⟨h, seg, segs, hs⟩ | ⟨h, rfl | ⟨c, seg, segs, hs⟩⟩
  · -- the empty first segment stands for the root
    rw [if_pos h, hs, segLoc_cons_nil]
    unfold Path.parse segLoc
    rw [hs, lexLoc_cons]; rfl
  · rfl
  · rw [if_neg (by simp [h]), hs]
    unfold Path.parse
    rw [hs]
    dsimp only
    split
    · rfl
    · rw [List.nil_append]; rfl

/-- The base of a `join`, up to its last separator, leads where the base does. -/
theorem lexLoc_parse_sep (l : Loc) {base : String} (h : base.toList.getLast? = some '/') (name : String) :
    lexLoc l (Path.parse (base ++ name)).components =
      segLoc (lexLoc l (Path.parse base).components) (segments name) := by
  obtain ⟨t, rfl⟩ := exists_sep h
  have habs : isAbsolute (t ++ "/" ++ name) = isAbsolute (t ++ "/") := by
    unfold isAbsolute
    rw [String.toList_append, String.toList_append]
    cases t.toList <;> simp
  rw [lexLoc_parse, lexLoc_parse, habs, segments_append, segments_sep, segLoc_append, segLoc_append]; rfl

/-- **`join` continues from its base**, unless the joined name is absolute. -/
theorem lexLoc_join (l : Loc) (base name : String) :
    lexLoc l (Path.parse (join base name)).components =
      segLoc (if isAbsolute name then [] else lexLoc l (Path.parse base).components) (segments name) := by
  unfold join
  split
  · rename_i h
    rw [lexLoc_parse, if_pos h]
  split
  · -- nothing is put in between
    rename_i h hb
    rcases hb with rfl | hb
    · rw [String.empty_append, lexLoc_parse, if_neg h]; rfl
    · exact lexLoc_parse_sep l hb name
  · -- the separator adds an empty segment to the base
    rename_i h hb
    have hsep : (base ++ "/").toList.getLast? = some '/' := by rw [String.toList_append]; simp
    have habs : isAbsolute (base ++ "/") = isAbsolute base := by
      unfold isAbsolute
      rw [String.toList_append]
      have : base.toList ≠ [] := fun he => hb (.inl (String.toList_eq_nil_iff.1 he))
      cases hl : base.toList with
      | nil => exact absurd hl this
      | cons c cs => rfl
    rw [lexLoc_parse_sep l hsep, lexLoc_parse l (base ++ "/"), lexLoc_parse l base, habs,
      segments_sep, segLoc_append]; rfl

/-! ## The components of a `join` -/

theorem componentOf_eq_none {seg : List Char} : componentOf seg = none ↔ seg = [] ∨ seg = ['.'] := by
  unfold componentOf
  split <;> simp_all

theorem componentOf_ne_curDir (seg : List Char) : componentOf seg ≠ some .curDir := by
  unfold componentOf
  split <;> simp

theorem endsInSlash_append (segs : List (List Char)) {segs' : List (List Char)} (h : segs' ≠ []) :
    endsInSlash (segs ++ segs') = endsInSlash segs' := by
  unfold endsInSlash
  rw [List.getLast?_append_of_ne_nil segs h]

/-- Segments that name nothing end in a separator. -/
theorem endsInSlash_of_filterMap {segs : List (List Char)} (hne : segs ≠ [])
    (h : segs.filterMap componentOf = []) : endsInSlash segs = true := by
  have hlast := List.filterMap_eq_nil_iff.1 h _ (List.getLast_mem hne)
  unfold endsInSlash
  rw [List.getLast?_eq_getLast_of_ne_nil hne]
  rcases componentOf_eq_none.1 hlast with h | h <;> simp [h]

/-- The segments of a relative name follow those of the base, up to its last separator. -/
theorem segments_join {base name : String} (hbase : base ≠ "") (hname : isAbsolute name = false) :
    ∃ segs, segs ≠ [] ∧ (segments base = segs ∨ segments base = segs ++ [[]]) ∧
      segments (join base name) = segs ++ segments name := by
  unfold join
  rw [if_neg (by simp [hname])]
  split
  · rename_i h
    obtain ⟨t, rfl⟩ := exists_sep (h.resolve_left hbase)
    exact ⟨segments t, segments_ne_nil t, .inr (segments_sep t), segments_append t name⟩
  · exact ⟨segments base, segments_ne_nil base, .inl rfl, segments_append base name⟩

/-- What the first segment of a path says beside its own component. -/
def lead (seg : List Char) : List Component :=
  if seg = [] then [.rootDir] else if seg = ['.'] then [.curDir] else []

namespace Path

/-- What `p` names when it is joined to `base`: after something, its leading `.` is dropped. -/
def below (base p : Path) : List Component :=
  match base.components, p.components with
  | _ :: _, .curDir :: cs => cs
  | _, cs => cs

theorem below_cases (base p : Path) :
    p.components = below base p ∨ p.components = .curDir :: below base p := by
  unfold below
  split
  · rename_i h; exact .inr h
  · exact .inl rfl

/-- Reading a spelling that is no single empty segment. -/
theorem parse_cons {s : String} {seg : List Char} {segs : List (List Char)} (h : segments s = seg :: segs)
    (hne : seg ≠ [] ∨ segs ≠ []) :
    parse s = ⟨lead seg ++ (seg :: segs).filterMap componentOf, endsInSlash segs⟩ := by
  unfold parse lead
  rw [h]
  cases seg with
  | nil =>
    cases segs with
    | nil => simp at hne
    | cons seg segs => rfl
  | cons c seg => simp

theorem segments_eq_nil_cons {s : String} (h : segments s = [[]]) : s = "" := by
  rcases isAbsolute_cases s with ⟨-, seg, segs, hs⟩ | ⟨-, rfl | ⟨c, seg, segs, hs⟩⟩
  · rw [h] at hs; simp at hs
  · rfl
  · rw [h] at hs; simp at hs

theorem components_ne_nil {s : String} (h : s ≠ "") : (parse s).components ≠ [] := by
  rcases isAbsolute_cases s with ⟨-, seg, segs, hs⟩ | ⟨-, rfl | ⟨c, seg, segs, hs⟩⟩
  · rw [parse_cons hs (.inr (by simp))]
    simp [lead]
  · exact absurd rfl h
  · rw [parse_cons hs (.inl (by simp))]
    intro hnil
    obtain ⟨hlead, hfilter⟩ := List.append_eq_nil_iff.1 hnil
    -- the first segment is no single `.`, so it names something
    have hnone := List.filterMap_eq_nil_iff.1 hfilter _ List.mem_cons_self
    rcases componentOf_eq_none.1 hnone with h | h
    · cases h
    · rw [h] at hlead; cases hlead

theorem slash_parse {s : String} {seg : List Char} {segs : List (List Char)} (h : segments s = seg :: segs) :
    (parse s).slash = endsInSlash segs := by
  by_cases hne : seg ≠ [] ∨ segs ≠ []
  · rw [parse_cons h hne]
  · rw [not_or, not_not, not_not] at hne
    obtain ⟨rfl, rfl⟩ := hne
    rw [segments_eq_nil_cons h]; rfl

/-- A relative name, joined to something, names its segments. -/
theorem below_parse {base : Path} {name : String} (hbase : base.components ≠ [])
    (hname : isAbsolute name = false) : below base (parse name) = (segments name).filterMap componentOf := by
  obtain ⟨b, bs, hb⟩ := List.exists_cons_of_ne_nil hbase
  unfold below
  rw [hb]
  rcases isAbsolute_cases name with ⟨h, -⟩ | ⟨-, rfl | ⟨c, seg, segs, hs⟩⟩
  · rw [hname] at h; cases h
  · rfl
  · rw [parse_cons hs (.inl (by simp)), hs]
    unfold lead
    rw [if_neg (by simp)]
    split_ifs with hdot
    · rw [hdot]; rfl
    · -- no segment stands for `.`
      rw [List.nil_append]
      split
      · rename_i h
        obtain ⟨-, x, -, -, -, hx, -⟩ := List.filterMap_eq_cons_iff.1 h
        exact absurd hx (componentOf_ne_curDir x)
      · rfl

/-- **The components of a join** with a relative name. -/
theorem parse_join {base name : String} (hbase : base ≠ "") (hname : isAbsolute name = false) :
    parse (join base name) =
      ⟨(parse base).components ++ (segments name).filterMap componentOf, endsInSlash (segments name)⟩ := by
  obtain ⟨segs, hne, hsegs, hjoin⟩ := segments_join hbase hname
  obtain ⟨seg, segs, rfl⟩ := List.exists_cons_of_ne_nil hne
  have hname' := segments_ne_nil name
  rw [parse_cons hjoin (.inr (List.append_ne_nil_of_right_ne_nil _ hname')),
    List.append_eq, endsInSlash_append _ hname']
  have hcomps : (parse base).components = lead seg ++ (seg :: segs).filterMap componentOf := by
    rcases hsegs with h | h
    · have hcase : seg ≠ [] ∨ segs ≠ [] := by
        by_contra hc
        rw [not_or, not_not, not_not] at hc
        obtain ⟨rfl, rfl⟩ := hc
        exact hbase (segments_eq_nil_cons h)
      rw [parse_cons h hcase]
    · rw [parse_cons h (.inr (by simp))]
      show _ ++ List.filterMap componentOf ((seg :: segs) ++ [[]]) = _
      rw [List.filterMap_append]
      exact congrArg _ (List.append_nil _)
  rw [hcomps, ← List.cons_append, List.filterMap_append, List.append_assoc]

theorem components_join (base : String) {name : String} (hname : isAbsolute name = false) :
    (parse (join base name)).components =
      (parse base).components ++ below (parse base) (parse name) := by
  by_cases hbase : base = ""
  · subst hbase
    have hjoin : join "" name = name := by simp [join, hname]
    rw [hjoin]; rfl
  · rw [parse_join hbase hname, below_parse (components_ne_nil hbase) hname]

/-- Joined to something, a name asks for a directory if it does so itself, or names nothing. -/
theorem slash_join {base name : String} (hbase : base ≠ "") (hname : isAbsolute name = false) :
    (parse (join base name)).slash = true ↔
      (parse name).slash = true ∨ below (parse base) (parse name) = [] := by
  obtain ⟨seg, segs, hs⟩ := List.exists_cons_of_ne_nil (segments_ne_nil name)
  rw [parse_join hbase hname, below_parse (components_ne_nil hbase) hname, slash_parse hs, hs]
  dsimp only
  by_cases hsegs : segs = []
  · subst hsegs
    have hlast : endsInSlash [seg] = true ↔ seg = [] ∨ seg = ['.'] := by simp [endsInSlash]
    have hnil : [seg].filterMap componentOf = [] ↔ componentOf seg = none := by
      simp [List.filterMap_eq_nil_iff]
    rw [hlast, hnil, componentOf_eq_none]
    exact (or_iff_right (by simp [endsInSlash])).symm
  · have hlast := endsInSlash_append [seg] hsegs
    rw [List.singleton_append] at hlast
    rw [hlast]
    refine ⟨.inl, fun h => h.elim id fun h => ?_⟩
    have := endsInSlash_of_filterMap (by simp) h
    rwa [hlast] at this

end Path

end Posix
