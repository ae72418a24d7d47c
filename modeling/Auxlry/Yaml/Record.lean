import Auxlry.Yaml.Document
import Mathlib.Data.List.Basic
import Mathlib.Logic.Function.Basic

/-!
# Reading records

How a deserializer with derived code takes values from the nodes of a document. A record
starts from its defaults, and each key of the mapping sets its field; unknown keys are
ignored, and a key of the record must not stand there twice. A scalar can be read as a text
whatever it looks like, but where the node was buffered before its type was known, a plain
scalar that is null, a boolean or a number is no text.

`At` is the place of a value in a node: `At path M` says that the node `M value` has the
value at the path, and is the same around it for every value.

* `At.record`, `At.list`: **a reader follows the path**. If it reads a record or a list for
  one value, then for each it reads what is there, and sets that alone.
-/

namespace Yaml

variable {A B C T σ : Type}

/-! ## Nodes as scalars and collections -/

/-- The keys of a block with their nodes. -/
def Forest.entries : Forest Item → Option (List (String × Node))
  | .nil => some []
  | .cons _ (.entry key value) kids rest =>
    rest.entries.map ((String.ofList key, value.elim kids.node .flow) :: ·)
  | _ => none

/-- The list items of a block. -/
def Forest.elements : Forest Item → Option (List Node)
  | .nil => some []
  | .cons _ .dash kids rest => rest.elements.map (kids.node :: ·)
  | _ => none

/-- A node as a mapping; no node is an empty one. -/
def Node.entries : Node → Option (List (String × Node))
  | .flow (.mapping es) => some (es.map fun e => (e.1, .flow e.2))
  | .flow (.scalar s) => if s = ⟨"", true⟩ then some [] else none
  | .flow (.sequence _) => none
  | .block forest => forest.entries

/-- A node as a sequence; no node is an empty one. -/
def Node.elements : Node → Option (List Node)
  | .flow (.sequence nodes) => some (nodes.map .flow)
  | .flow (.scalar s) => if s = ⟨"", true⟩ then some [] else none
  | .flow (.mapping _) => none
  | .block forest => forest.elements

def Node.scalar : Node → Option Scalar
  | .flow (.scalar s) => some s
  | _ => none

/-- A plain scalar that stands for no value. -/
def Scalar.isNull (s : Scalar) : Bool := s.plain && ["", "null", "Null", "NULL", "~"].contains s.text

def Scalar.isBool (s : Scalar) : Bool :=
  s.plain && ["true", "True", "TRUE", "false", "False", "FALSE"].contains s.text

/-- A scalar that is a text where the node was buffered. -/
def Reader.isText (y : Reader) (s : Scalar) : Bool :=
  !s.isNull && !s.isBool && !(s.plain && y.isNumber s.text)

/-- A `String`. -/
def Node.text (n : Node) : Option String := n.scalar.map Scalar.text

/-- An `Option<String>`. -/
def Node.optionalText (n : Node) : Option (Option String) :=
  n.scalar.map fun s => if s.isNull then none else some s.text

/-- A `String` in a buffered node. -/
def Reader.bufferedText (y : Reader) (n : Node) : Option String :=
  n.scalar.bind fun s => if y.isText s then some s.text else none

/-- An `Option<String>` in a buffered node. -/
def Reader.bufferedOptional (y : Reader) (n : Node) : Option (Option String) :=
  n.scalar.bind fun s => if s.isNull then some none else if y.isText s then some (some s.text) else none

/-- An unsigned integer below a bound. -/
def Reader.unsigned (y : Reader) (bound : ℕ) (n : Node) : Option ℕ :=
  n.scalar.bind fun s => if s.plain then (y.integer s.text).filter (· < bound) else none

/-- A `Vec`. -/
def readList (rd : Node → Option A) (n : Node) : Option (List A) := n.elements.bind (·.mapM rd)

/-- A `Vec` in a buffered node, which must be there. -/
def readBufferedList (rd : Node → Option A) (n : Node) : Option (List A) :=
  if n.scalar.isSome then none else readList rd n

/-! ## Records -/

/-- A field of a record, that can be read and set. -/
structure Lens (A B : Type) where
  get : A → B
  set : B → A → A
  get_set : ∀ b a, get (set b a) = b
  set_set : ∀ b c a, set b (set c a) = set b a

/-- A field that has the laws by definition. -/
def Lens.of (get : A → B) (set : B → A → A) (get_set : ∀ b a, get (set b a) = b := by intros; rfl)
    (set_set : ∀ b c a, set b (set c a) = set b a := by intros; rfl) : Lens A B :=
  ⟨get, set, get_set, set_set⟩

/-- What a key of a mapping does to a record. -/
structure RecordField (A : Type) where
  key : String
  required : Bool
  read : Node → Option (A → A)

/-- A key that sets a field of the record. -/
def RecordField.of (key : String) (rd : Node → Option B) (l : Lens A B) (required : Bool := false) : RecordField A :=
  ⟨key, required, fun n => (rd n).map l.set⟩

/-- The effect of the entries of a mapping under one key. -/
def RecordField.apply (f : RecordField A) (es : List (String × Node)) : Option (A → A) :=
  match es.filter (·.1 == f.key) with
  | [] => if f.required then none else some id
  | [e] => f.read e.2
  | _ => none

def readFields : List (RecordField A) → List (String × Node) → A → Option A
  | [], _, a => some a
  | f :: fields, es, a => (f.apply es).bind fun g => readFields fields es (g a)

/-- A record, from its defaults. -/
def readRecord (fields : List (RecordField A)) (a : A) (n : Node) : Option A :=
  n.entries.bind fun es => readFields fields es a

/-- The two can be applied in either order. -/
def RecordField.Commutes (f g : RecordField A) : Prop :=
  ∀ n m h k, f.read n = some h → g.read m = some k → ∀ a, h (k a) = k (h a)

/-- The keys of a record are different, and set different fields. -/
def Lawful (fields : List (RecordField A)) : Prop := fields.Pairwise fun f g => f.key ≠ g.key ∧ f.Commutes g

/-- Two keys that set different fields. -/
theorem apart_of {key key' : String} {rd : Node → Option B} {rd' : Node → Option C} {l : Lens A B} {l' : Lens A C}
    {required required' : Bool} (hkey : key ≠ key')
    (h : ∀ b c a, l.set b (l'.set c a) = l'.set c (l.set b a)) :
    (RecordField.of key rd l required).key ≠ (RecordField.of key' rd' l' required').key ∧
      (RecordField.of key rd l required).Commutes (.of key' rd' l' required') := by
  refine ⟨hkey, fun n m f g hf hg a => ?_⟩
  obtain ⟨b, -, rfl⟩ := Option.map_eq_some_iff.1 hf
  obtain ⟨c, -, rfl⟩ := Option.map_eq_some_iff.1 hg
  exact h b c a

/-! ## One key of a record -/

section

variable {before after : List (String × Node)} {key : String}

theorem apply_of_ne {f : RecordField A} (h : f.key ≠ key) (n m : Node) :
    f.apply (before ++ (key, n) :: after) = f.apply (before ++ (key, m) :: after) := by
  have hkey : (key == f.key) = false := beq_eq_false_iff_ne.2 h.symm
  rw [RecordField.apply, RecordField.apply]
  simp only [List.filter_append, List.filter_cons, hkey, Bool.false_eq_true, if_false]

theorem apply_of_eq {f : RecordField A} {n : Node} {g : A → A}
    (h : f.apply (before ++ (f.key, n) :: after) = some g) (m : Node) :
    f.apply (before ++ (f.key, m) :: after) = f.read m := by
  rw [RecordField.apply] at h ⊢
  simp only [List.filter_append, List.filter_cons, beq_self_eq_true, if_true] at h ⊢
  cases hbefore : before.filter (·.1 == f.key) with
  | nil =>
    rw [hbefore] at h
    cases hafter : after.filter (·.1 == f.key) with
    | nil => rfl
    | cons e es =>
      rw [hafter] at h
      cases h
  | cons e es =>
    rw [hbefore] at h
    cases es <;> cases h

/-- A change that commutes with every key. -/
theorem readFields_comm {fields : List (RecordField A)} {es : List (String × Node)} {s : A → A}
    (h : ∀ f ∈ fields, ∀ n g, f.read n = some g → ∀ a, g (s a) = s (g a)) (a : A) :
    readFields fields es (s a) = (readFields fields es a).map s := by
  induction fields generalizing a with
  | nil => rfl
  | cons f fields ih =>
    obtain ⟨hf, hfields⟩ := List.forall_mem_cons.1 h
    rw [readFields, readFields]
    cases hg : f.apply es with
    | none => rfl
    | some g =>
      have hcomm : g (s a) = s (g a) := by
        rw [RecordField.apply] at hg
        split at hg
        · split at hg <;> cases hg
          rfl
        · exact hf _ g hg a
        · cases hg
      simp only [Option.bind_some]
      rw [hcomm, ih hfields]

theorem readFields_of_ne {fields : List (RecordField A)} (h : ∀ f ∈ fields, f.key ≠ key) (n m : Node) (a : A) :
    readFields fields (before ++ (key, n) :: after) a = readFields fields (before ++ (key, m) :: after) a := by
  induction fields generalizing a with
  | nil => rfl
  | cons f fields ih =>
    obtain ⟨hf, hfields⟩ := List.forall_mem_cons.1 h
    simp only [readFields, apply_of_ne hf n m, ih hfields]

/-- **One key of a record** sets its field, and nothing else depends on its node. -/
theorem readFields_key {fields : List (RecordField A)} (hlaw : Lawful fields) {rd : Node → Option B} {l : Lens A B}
    {required : Bool} (hmem : RecordField.of key rd l required ∈ fields) {n : Node} {a₀ a : A}
    (h : readFields fields (before ++ (key, n) :: after) a₀ = some a) : rd n = some (l.get a) ∧
      ∀ m, readFields fields (before ++ (key, m) :: after) a₀ = (rd m).map (l.set · a) := by
  induction fields generalizing a₀ with
  | nil => cases hmem
  | cons f fields ih =>
    obtain ⟨hhead, htail⟩ := List.pairwise_cons.1 hlaw
    rw [readFields] at h
    obtain ⟨g, hg, h⟩ := Option.bind_eq_some_iff.1 h
    rcases List.mem_cons.1 hmem with rfl | hmem
    · have hne : ∀ f ∈ fields, f.key ≠ key := fun f hf => (hhead f hf).1.symm
      have happly : ∀ m, (RecordField.of key rd l required).apply (before ++ (key, m) :: after) = (rd m).map l.set :=
        fun m => apply_of_eq hg m
      have hcomm : ∀ m b, rd m = some b → ∀ a, readFields fields (before ++ (key, m) :: after) (l.set b a) =
          (readFields fields (before ++ (key, n) :: after) a).map (l.set b) := by
        intro m b hb a
        rw [readFields_of_ne hne m n]
        have hset : (RecordField.of key rd l required).read m = some (l.set b) := congrArg (Option.map l.set) hb
        exact readFields_comm (fun f hf n' g hg a => ((hhead f hf).2 m n' (l.set b) g hset hg a).symm) a
      rw [happly] at hg
      obtain ⟨b, hb, rfl⟩ := Option.map_eq_some_iff.1 hg
      rw [hcomm n b hb] at h
      obtain ⟨a', ha', rfl⟩ := Option.map_eq_some_iff.1 h
      refine ⟨by rw [hb, l.get_set], fun m => ?_⟩
      rw [readFields, happly]
      cases hm : rd m with
      | none => rfl
      | some c => simp only [Option.map_some, Option.bind_some, hcomm m c hm, ha', l.set_set]
    · have hne : f.key ≠ key := (hhead _ hmem).1
      obtain ⟨hget, hall⟩ := ih htail hmem h
      refine ⟨hget, fun m => ?_⟩
      rw [readFields, apply_of_ne hne m n, hg]
      exact hall m

end

/-! ## The place of a value -/

/-- A step from a node to one of its children. -/
inductive Step
  | key (key : String)
  | index (i : ℕ)
  deriving DecidableEq, Repr

/-- **The place of a value** in a node that has it on a line of its own. -/
inductive At : List Step → (Option Flow → Node) → Prop
  | here : At [] fun w => .flow (w.getD .empty)
  | key {p : List Step} {N M : Option Flow → Node} {before after : List (String × Node)} (key : String)
      (h : At p N) (hM : ∀ w, (M w).entries = some (before ++ (key, N w) :: after)) : At (.key key :: p) M
  | index {p : List Step} {N M : Option Flow → Node} {before after : List Node} (h : At p N)
      (hM : ∀ w, (M w).elements = some (before ++ N w :: after)) : At (.index before.length :: p) M

/-- `F` fails where `leaf` does, and keeps what `leaf` returns: different results stay different. -/
structure Carries (F : σ → Option A) (leaf : σ → Option T) (put : T → A) : Prop where
  eq : ∀ w, F w = (leaf w).map put
  inj : Function.Injective put

theorem Carries.trans {F : σ → Option A} {G : σ → Option B} {leaf : σ → Option T} {put : B → A} {put' : T → B}
    (h : Carries F G put) (h' : Carries G leaf put') : Carries F leaf (put ∘ put') :=
  ⟨fun w => by rw [h.eq, h'.eq, Option.map_map], h.inj.comp h'.inj⟩

/-- What is carried arrives exactly if it is read. -/
theorem Carries.eq_some_iff {F : σ → Option A} {leaf : σ → Option T} {put : T → A} (h : Carries F leaf put)
    (w : σ) (t : T) : F w = some (put t) ↔ leaf w = some t := by
  rw [h.eq, Option.map_eq_some_iff]
  constructor
  · rintro ⟨u, hu, he⟩
    rw [hu, h.inj he]
  · intro ht
    exact ⟨t, ht, rfl⟩

theorem Lens.set_injective (l : Lens A B) (a : A) : Function.Injective (l.set · a) := by
  intro b c h
  have := congrArg l.get h
  simpa only [l.get_set] using this

theorem At.nil {M : Option Flow → Node} (h : At [] M) (w : Option Flow) : M w = .flow (w.getD .empty) := by
  cases h
  rfl

/-- **A record with the place in it.** -/
theorem At.record {key : String} {p : List Step} {M : Option Flow → Node} (h : At (.key key :: p) M)
    {fields : List (RecordField A)} (hlaw : Lawful fields) {rd : Node → Option B} {l : Lens A B} {required : Bool}
    (hmem : RecordField.of key rd l required ∈ fields) {w : Option Flow} {a₀ a : A}
    (hread : readRecord fields a₀ (M w) = some a) : ∃ N, At p N ∧ rd (N w) = some (l.get a) ∧
      Carries (fun w => readRecord fields a₀ (M w)) (fun w => rd (N w)) (l.set · a) := by
  cases h with
  | @key _ N _ before after _ h hM =>
    rw [readRecord, hM, Option.bind_some] at hread
    obtain ⟨hget, hall⟩ := readFields_key hlaw hmem hread
    refine ⟨N, h, hget, fun w => ?_, l.set_injective a⟩
    rw [readRecord, hM, Option.bind_some, hall]

theorem mapM_length {as : List A} {f : A → Option B} {bs : List B} (h : as.mapM f = some bs) :
    bs.length = as.length := by
  induction as generalizing bs with
  | nil =>
    cases h
    rfl
  | cons a as ih =>
    rw [List.mapM_cons] at h
    obtain ⟨b, -, h⟩ := Option.bind_eq_some_iff.1 h
    obtain ⟨cs, hcs, h⟩ := Option.bind_eq_some_iff.1 h
    cases h
    rw [List.length_cons, List.length_cons, ih hcs]

/-- **A list with the place in it.** -/
theorem At.list {i : ℕ} {p : List Step} {M : Option Flow → Node} (h : At (.index i :: p) M)
    {rd : Node → Option A} {w : Option Flow} {as : List A} (hread : readList rd (M w) = some as) :
    ∃ N a, At p N ∧ as[i]? = some a ∧ rd (N w) = some a ∧
      Carries (fun w => readList rd (M w)) (fun w => rd (N w)) (as.set i ·) := by
  cases h with
  | @index _ N _ before after h hM =>
    have hall : ∀ w, readList rd (M w) =
        (before.mapM rd).bind fun bs => (rd (N w)).bind fun b => (after.mapM rd).map (bs ++ b :: ·) := by
      intro w
      rw [readList, hM, Option.bind_some, List.mapM_append, List.mapM_cons]
      cases before.mapM rd <;> cases rd (N w) <;> cases after.mapM rd <;> rfl
    rw [hall] at hread
    obtain ⟨bs, hbs, hread⟩ := Option.bind_eq_some_iff.1 hread
    obtain ⟨b, hb, hread⟩ := Option.bind_eq_some_iff.1 hread
    obtain ⟨cs, hcs, rfl⟩ := Option.map_eq_some_iff.1 hread
    have hlen := mapM_length hbs
    refine ⟨N, b, h, ?_, hb, fun w => ?_, ?_⟩
    · rw [← hlen]
      simp
    · rw [hall, hbs, hcs, ← hlen]
      cases rd (N w) <;> simp
    · intro c d hcd
      have := congrArg (·[before.length]?) hcd
      rw [← hlen] at this
      simpa using this

end Yaml
