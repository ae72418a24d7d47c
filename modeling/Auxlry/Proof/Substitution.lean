import Auxlry.Proof.ConfigFields
import Auxlry.Proof.Interpolation
import Auxlry.Yaml.Slot

/-!
# Values from the environment

A line `key: ${VAR}` of the configuration file, and the configuration that is loaded from it.
The value of the variable is put into the text before that is parsed, so the parser sees the
characters of the value and not a string.

A value is **verbatim** if it is a plain scalar that stands for itself, or nothing where a
string may be that.

* `value_read_iff`: what is taken from the line is the value exactly if that is verbatim.
* `substituted_iff`: **the field of the line has the value, and all other fields are what the
  rest of the file says**, exactly if it is verbatim.
* `fits_congr`: the rest of the file is the same for every value, where the variable is not
  mentioned again.
* `truncated`: two values that are not verbatim, of which one is loaded in part.
-/

namespace Auxlry.Loader

open Yaml (At Flow IsLines Node PlainText Raw Reader Scalar Slot isBlank isBreak isPrintable scan)

variable {y : Reader}

/-- **A value that stands for itself** where a string is read. -/
structure Verbatim (y : Reader) (kind : StringKind) (v : String) : Prop where
  printable : v.toList.all isPrintable = true
  plain : kind = .text ∧ v = "" ∨ PlainText v.toList
  present : kind = .optional → Scalar.isNull ⟨v, true⟩ = false
  isText : kind = .buffered ∨ kind = .bufferedOptional → y.isText ⟨v, true⟩ = true

/-- Blanks in front do not make a node in another style its own text. -/
theorem other_ne {v : String} {skipped : List (List Char)} {s : Scalar}
    (h : y.other (v.toList.dropWhile isBlank) skipped = some (.scalar s)) : s.text ≠ v := by
  have hblanks : (v.toList.takeWhile isBlank).all isBlank = true := List.all_takeWhile
  have hne := y.indicators _ skipped s h _ hblanks
  rw [List.takeWhile_append_dropWhile] at hne
  exact fun he => hne (congrArg String.toList he)

/-- A text that is read from a scalar is that of the scalar. -/
theorem StringKind.text_of_read {kind : StringKind} {n : Node} {v : String} (h : kind.read y n = some (some v)) :
    ∃ s, n = .flow (.scalar s) ∧ s.text = v := by
  have hscalar : ∃ s, n.scalar = some s ∧ s.text = v := by
    cases kind with
    | text =>
      obtain ⟨t, ht, he⟩ := Option.map_eq_some_iff.1 h
      obtain ⟨s, hs, rfl⟩ := Option.map_eq_some_iff.1 ht
      exact ⟨s, hs, Option.some.inj he⟩
    | optional =>
      obtain ⟨s, hs, he⟩ := Option.map_eq_some_iff.1 h
      split at he
      · cases he
      · exact ⟨s, hs, Option.some.inj he⟩
    | buffered =>
      obtain ⟨t, ht, he⟩ := Option.map_eq_some_iff.1 h
      obtain ⟨s, hs, ht⟩ := Option.bind_eq_some_iff.1 ht
      split at ht
      · exact ⟨s, hs, (Option.some.inj ht).trans (Option.some.inj he)⟩
      · cases ht
    | bufferedOptional =>
      obtain ⟨s, hs, ht⟩ := Option.bind_eq_some_iff.1 h
      split at ht
      · cases ht
      · split at ht
        · exact ⟨s, hs, Option.some.inj (Option.some.inj ht)⟩
        · cases ht
  obtain ⟨s, hs, ht⟩ := hscalar
  refine ⟨s, ?_, ht⟩
  unfold Node.scalar at hs
  split at hs
  · rw [Option.some.inj hs]
  · cases hs

/-- A plain scalar is read as its text. -/
theorem StringKind.read_plain_iff (kind : StringKind) (v : String) :
    kind.read y (.flow (.scalar ⟨v, true⟩)) = some (some v) ↔
      (kind = .optional → Scalar.isNull ⟨v, true⟩ = false) ∧
      (kind = .buffered ∨ kind = .bufferedOptional → y.isText ⟨v, true⟩ = true) := by
  cases kind with
  | text => simp [StringKind.read, Node.text, Node.scalar]
  | optional => simp [StringKind.read, Node.optionalText, Node.scalar]
  | buffered => simp [StringKind.read, Reader.bufferedText, Node.scalar]
  | bufferedOptional =>
    -- what is null is no text
    have hnull : y.isText ⟨v, true⟩ = true → Scalar.isNull ⟨v, true⟩ = false := by
      intro h
      simp only [Reader.isText, Bool.and_eq_true, Bool.not_eq_true'] at h
      exact h.1.1
    cases h : y.isText ⟨v, true⟩ with
    | false => simp [StringKind.read, Reader.bufferedOptional, Node.scalar, h]
    | true => simp [StringKind.read, Reader.bufferedOptional, Node.scalar, hnull h, h]

/-- **What is taken from a line** is its value exactly if that stands for itself. -/
theorem value_read_iff (kind : StringKind) (skipped : List (List Char)) (v : String) :
    (∃ w, y.value skipped (scan (' ' :: v.toList)) = some w ∧
      kind.read y (.flow (w.getD .empty)) = some (some v)) ↔
    (kind = .text ∧ v = "" ∨ PlainText v.toList) ∧ (kind = .optional → Scalar.isNull ⟨v, true⟩ = false) ∧
      (kind = .buffered ∨ kind = .bufferedOptional → y.isText ⟨v, true⟩ = true) := by
  constructor
  · rintro ⟨w, hw, hread⟩
    obtain ⟨s, hs, rfl⟩ := StringKind.text_of_read hread
    cases hscan : scan (' ' :: s.text.toList) with
    | empty =>
      rw [hscan] at hw
      obtain rfl := Option.some.inj hw
      obtain rfl : s = ⟨"", true⟩ := (Flow.scalar.inj (Node.flow.inj hs)).symm
      obtain ⟨hnull, htext⟩ := (StringKind.read_plain_iff kind "").1 hread
      have hkind : kind = .text := by
        cases kind with
        | text => rfl
        | optional => cases hnull rfl
        | buffered => cases htext (.inl rfl)
        | bufferedOptional => cases htext (.inr rfl)
      exact ⟨.inl ⟨hkind, rfl⟩, hnull, htext⟩
    | plain text =>
      rw [hscan] at hw
      obtain rfl := Option.some.inj hw
      obtain rfl : s = ⟨String.ofList text, true⟩ := (Flow.scalar.inj (Node.flow.inj hs)).symm
      rw [show (String.ofList text).toList = text from String.toList_ofList] at hscan ⊢
      exact ⟨.inr ((Yaml.scan_plain text).1 hscan), (StringKind.read_plain_iff kind _).1 hread⟩
    | other text =>
      -- a node in another style is not its own text
      rw [hscan, Yaml.scan_other hscan] at hw
      obtain ⟨node, hnode, rfl⟩ := Option.map_eq_some_iff.1 hw
      obtain rfl : node = .scalar s := Node.flow.inj hs
      exact absurd rfl (other_ne hnode)
    | bad =>
      rw [hscan] at hw
      cases hw
  · rintro ⟨⟨rfl, rfl⟩ | hplain, hrest⟩
    · exact ⟨none, rfl, (StringKind.read_plain_iff .text "").2 hrest⟩
    · refine ⟨some (.scalar ⟨v, true⟩), ?_, (StringKind.read_plain_iff kind v).2 hrest⟩
      rw [(Yaml.scan_plain _).2 hplain, Reader.value, String.ofList_toList]

/-! ## The file -/

section

variable {env : String → Option String} {f : ConfigFile}

theorem loadConfig_of_read {raw : String} (h : f.file = some (some raw)) : loadConfig y env f =
    match (y.parse (interpolateEnv env raw).toList).bind (readConfig y) with
    | some config => .ok config
    | none => .error "failed to parse config YAML" := by
  have hsome : f.file.isNone = false := by rw [h]; rfl
  rw [loadConfig, hsome]
  simp only [Bool.false_eq_true, if_false, pure_bind, h]
  rfl

/-- A missing file is created, with the default configuration. -/
theorem loadConfig_of_missing (h : f.file = none) (hdir : f.parent = none ∨ f.createsDir = true)
    (hwrites : f.writes = true) :
    loadConfig y env f = loadConfig y env { f with file := some (some defaultContent) } := by
  have hcreate : createDefaultConfig f = .ok { f with file := some (some defaultContent) } := by
    rw [createDefaultConfig, hwrites]
    obtain hdir | hdir := hdir
    · rw [hdir]
      rfl
    · rw [hdir]
      cases f.parent <;> rfl
  have hnone : f.file.isNone = true := by rw [h]; rfl
  rw [loadConfig, hnone, if_pos rfl, hcreate]
  rfl

end

/-! ## A line of the file -/

/-- **A line `key: ${VAR}`** for a string field of a configuration file, and the document
around it. -/
structure ConfigLine (y : Reader) (f : StringField) where
  before : List Char
  name : List Char
  after : List Char
  starts : IsLines before
  isName : isName name = true
  /-- what is parsed, with a place for the value -/
  slot : Slot y
  wellFormed : ∀ w, (slot.forest w).wellFormed = true
  /-- the place is that of the field -/
  atField : At f.path fun w => (slot.forest w).node

namespace ConfigLine

variable {f : StringField} (L : ConfigLine y f) {env : String → Option String}

/-- The text of the file. -/
def raw : String :=
  String.ofList (L.before ++ (L.slot.margin ++ (L.slot.key ++ ':' :: ' ' :: (refText L.name ++ L.after))))

/-- The value of the variable. -/
def value (env : String → Option String) : String := (env (String.ofList L.name)).getD ""

/-- The lines around it are what the document has there. -/
structure Fits (env : String → Option String) : Prop where
  before : interpolate env 0 L.before = L.slot.before
  after : interpolate env 0 L.after = L.slot.after

/-- What the file says with a text in the place, which is then the value of the field. -/
def Says (x : String) (c : Config) : Prop :=
  (∀ ch ∈ x.toList, isBreak ch = false) ∧
    (y.parse (L.slot.text x.toList)).bind (readConfig y) = some c ∧ f.get c = some x

/-- Where the variable is mentioned in its line only, its value does not matter elsewhere. -/
theorem fits_congr {env' : String → Option String} (h : L.Fits env) (hbefore : ¬ refText L.name <:+: L.before)
    (hafter : ¬ refText L.name <:+: L.after) (henv : ∀ n, n ≠ String.ofList L.name → env n = env' n) :
    L.Fits env' :=
  ⟨by rw [← h.before, interpolate_congr henv hbefore], by rw [← h.after, interpolate_congr henv hafter]⟩

/-- The value is put in place of the reference, and is not looked at again. -/
theorem interpolateEnv_raw (h : L.Fits env) :
    (interpolateEnv env L.raw).toList = L.slot.text (L.value env).toList := by
  obtain ⟨-, -, -, -, hword⟩ := L.slot.key_cons
  have hmargin : '$' ∉ L.slot.margin := by
    intro hc
    obtain hc | hc := Yaml.eq_of_mem_margin L.slot.isMargin _ hc <;> cases hc
  have hkey : '$' ∉ L.slot.key := by
    intro hc
    have := List.all_eq_true.1 hword _ hc
    cases this
  have hcolon : '$' ∉ [':', ' '] := by decide
  rw [interpolateEnv, raw, String.toList_ofList, String.toList_ofList, interpolate_lines L.starts,
    interpolate_append hmargin, interpolate_append hkey,
    show ':' :: ' ' :: (refText L.name ++ L.after) = [':', ' '] ++ (refText L.name ++ L.after) from rfl,
    interpolate_append hcolon, interpolate_reference L.isName, h.before, h.after, Slot.text, Slot.line,
    List.append_assoc, List.append_assoc]
  rfl

/-- **The document with a text in the place** is read as a configuration with that text
exactly if it stands for itself there. -/
theorem parse_text_iff {x : String} {c : Config} (hdoc : L.Says x c) {v : String}
    (hvalue : ∀ ch ∈ v.toList, isBreak ch = false) :
    (y.parse (L.slot.text v.toList)).bind (readConfig y) = some (f.set v c) ↔ Verbatim y f.kind v := by
  obtain ⟨hx, hload, hget⟩ := hdoc
  have hbaseline : ∃ w₀, readConfig y (L.slot.forest w₀).node = some c := by
    rw [L.slot.parse_text hx L.wellFormed] at hload
    split at hload
    · obtain ⟨n, hn, hread⟩ := Option.bind_eq_some_iff.1 hload
      obtain ⟨w₀, -, rfl⟩ := Option.map_eq_some_iff.1 hn
      exact ⟨w₀, hread⟩
    · cases hload
  obtain ⟨w₀, hw₀⟩ := hbaseline
  have hreads : ∀ w, readConfig y (L.slot.forest w).node = some (f.set v c) ↔
      f.kind.read y (.flow (w.getD .empty)) = some (some v) :=
    fun w => reads_iff f L.atField hw₀ hget w v
  rw [L.slot.parse_text hvalue L.wellFormed]
  constructor
  · intro h
    split at h
    · rename_i hprint
      obtain ⟨n, hn, hread⟩ := Option.bind_eq_some_iff.1 h
      obtain ⟨w, hw, rfl⟩ := Option.map_eq_some_iff.1 hn
      obtain ⟨hplain, hpresent, htext⟩ := (value_read_iff _ _ v).1 ⟨w, hw, (hreads w).1 hread⟩
      exact ⟨hprint, hplain, hpresent, htext⟩
    · cases h
  · rintro ⟨hprint, hplain, hpresent, htext⟩
    obtain ⟨w, hw, hread⟩ := (value_read_iff f.kind L.slot.skipped v).2 ⟨hplain, hpresent, htext⟩
    rw [if_pos hprint, hw]
    exact (hreads w).2 hread

/-- **The field of the line has the value, and all other fields are what the file says**,
exactly if the value stands for itself. -/
theorem substituted_iff (h : L.Fits env) (hvalue : ∀ ch ∈ (L.value env).toList, isBreak ch = false)
    {x : String} {c : Config} (hdoc : L.Says x c) {file : ConfigFile} (hfile : file.file = some (some L.raw)) :
    (∃ c', loadConfig y env file = .ok c' ∧ f.get c' = some (L.value env) ∧ ∀ w, f.set w c' = f.set w c) ↔
      Verbatim y f.kind (L.value env) := by
  have hload : ∀ c', loadConfig y env file = .ok c' ↔
      (y.parse (L.slot.text (L.value env).toList)).bind (readConfig y) = some c' := by
    intro c'
    rw [loadConfig_of_read hfile, L.interpolateEnv_raw h]
    cases (y.parse (L.slot.text (L.value env).toList)).bind (readConfig y) <;> simp
  rw [← L.parse_text_iff hdoc hvalue, ← hload]
  constructor
  · rintro ⟨c', hc', his⟩
    rw [hc', (StringField.eq_set_iff hdoc.2.2 _).2 his]
  · intro hc'
    exact ⟨_, hc', (StringField.eq_set_iff hdoc.2.2 _).1 rfl⟩

end ConfigLine

/-! ## Values that do not stand for themselves -/

/-- The lines `models:` and `  api_key: ${KEY}`. -/
def keyLine : ConfigLine .decimal .apiKey where
  before := "models:\n".toList
  name := "KEY".toList
  after := "\n".toList
  starts := .inr ⟨"models:".toList, '\n', rfl, rfl⟩
  isName := rfl
  slot :=
    { before := "models:\n".toList
      margin := "  ".toList
      key := "api_key".toList
      after := "\n".toList
      above := [(0, .entry "models".toList none)]
      below := []
      starts := .inr ⟨"models:".toList, '\n', rfl, rfl⟩
      ends := fun c hc => by cases hc; rfl
      isMargin := rfl
      isKey := by decide
      printable := by decide
      readsAbove := rfl
      readsBelow := rfl }
  wellFormed := fun w => by cases w <;> rfl
  atField := by
    have hmodels : At [.key "api_key"] fun w => .block (.cons 4 (.entry "api_key".toList w) .nil .nil) :=
      @At.key _ _ _ [] [] _ .here fun w => by cases w <;> rfl
    exact @At.key _ _ _ [] [] _ hmodels fun _ => rfl

/-- Where the variable has this value. -/
def keyEnv (v : String) (name : String) : Option String := if name = "KEY" then some v else none

def keyFile : ConfigFile :=
  { path := "config.yml", parent := none, file := some (some keyLine.raw), createsDir := true, writes := true }

theorem not_isBreak_of_all {cs : List Char} (h : cs.all (fun c => !isBreak c) = true) :
    ∀ c ∈ cs, isBreak c = false := by
  simpa using h

theorem substituted_key : ∃ c, loadConfig .decimal (keyEnv "sk-or-v1-0c4f") keyFile = .ok c ∧
    c.models.apiKey = "sk-or-v1-0c4f" ∧ ∀ w, StringField.apiKey.set w c = StringField.apiKey.set w {} := by
  have hfits : keyLine.Fits (keyEnv "sk-or-v1-0c4f") := ⟨rfl, rfl⟩
  have hdoc : keyLine.Says "x" { models := { apiKey := "x" } } :=
    ⟨not_isBreak_of_all (by decide), by decide +kernel, rfl⟩
  have hverbatim : Verbatim .decimal (StringField.kind .apiKey) "sk-or-v1-0c4f" :=
    ⟨by decide, .inr (by decide), by decide, by decide⟩
  have hline := not_isBreak_of_all (show "sk-or-v1-0c4f".toList.all (fun c => !isBreak c) = true by decide)
  have hfile : keyFile.file = some (some keyLine.raw) := rfl
  obtain ⟨c, hc, hget, hset⟩ := (keyLine.substituted_iff hfits hline hdoc hfile).2 hverbatim
  exact ⟨c, hc, Option.some.inj hget, hset⟩

/-- What looks like a comment is cut off, and a value with a key in it is not loaded. -/
theorem truncated : keyLine.value (keyEnv "s3cr3t #1") = "s3cr3t #1" ∧
    (∃ c, loadConfig .decimal (keyEnv "s3cr3t #1") keyFile = .ok c ∧ StringField.apiKey.get c = some "s3cr3t") ∧
    loadConfig .decimal (keyEnv "user: s3cr3t") keyFile = .error "failed to parse config YAML" := by
  refine ⟨rfl, ⟨{ models := { apiKey := "s3cr3t" } }, ?_, rfl⟩, ?_⟩
  · rw [loadConfig_of_read rfl]
    decide +kernel
  · rw [loadConfig_of_read rfl]
    decide +kernel

end Auxlry.Loader
