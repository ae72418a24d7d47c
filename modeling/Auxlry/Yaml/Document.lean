import Auxlry.Yaml.Scan
import Mathlib.Data.Nat.Notation

/-!
# Block documents

A YAML document in block style: lines of keys, of list items and of plain scalars, nested
by indentation (`parse`). Nodes in another style stand on one line, and are left to a
`Reader`: quoted scalars, flow collections, tags, anchors, block scalars without text.
Directives, document markers and scalars over several lines are not read.

A list item may start in the column of the key above it, and has its own content further
right; with dashes in odd columns and everything else in even ones, the nesting is the
outline of the columns.
-/

namespace Yaml

/-- A scalar, and whether it is in plain style, which leaves its type open. -/
structure Scalar where
  text : String
  plain : Bool
  deriving DecidableEq, Repr

/-- A node that stands on a line. -/
inductive Flow
  | scalar (s : Scalar)
  | sequence (nodes : List Flow)
  | mapping (entries : List (String × Flow))

/-- No node at all is an empty plain scalar. -/
def Flow.empty : Flow := .scalar ⟨"", true⟩

/-- **A reader** of the nodes in other styles, and of numbers. -/
structure Reader where
  /-- the node that a text on a line is, followed by these blank lines and comments -/
  other : List Char → List (List Char) → Option Flow
  /-- a plain scalar that is an integer or a floating point number -/
  isNumber : String → Bool
  /-- the value of a plain scalar that is an unsigned integer -/
  integer : String → Option ℕ
  /-- the indicators of another style are not content -/
  indicators : ∀ cs skipped s, other cs skipped = some (.scalar s) →
    ∀ blanks : List Char, blanks.all isBlank = true → s.text.toList ≠ blanks ++ cs

/-- A reader of decimal integers, and of no other style. -/
def Reader.decimal : Reader where
  other := fun _ _ => none
  isNumber := fun s => !s.isEmpty && s.toList.all Char.isDigit
  integer := fun s =>
    if s.toList.all Char.isDigit then some (s.toList.foldl (fun n c => 10 * n + (c.toNat - 48)) 0) else none
  indicators := by
    intro cs skipped s h
    cases h

/-- What a document consists of. -/
inductive Item
  | dash
  | entry (key : List Char) (value : Option Flow)
  | text (node : Flow)

/-- A forest: the first tree, with its column, its children and the trees after it. -/
inductive Forest (α : Type)
  | nil
  | cons (col : ℕ) (a : α) (kids rest : Forest α)

variable {α : Type}

/-- The trees at the front that are right of a column. -/
def Forest.deeper (col : ℕ) : Forest α → Forest α
  | .nil => .nil
  | .cons c a kids rest => if col < c then .cons c a kids (rest.deeper col) else .nil

/-- The trees from the first one on that is not right of a column. -/
def Forest.after (col : ℕ) : Forest α → Forest α
  | .nil => .nil
  | .cons c a kids rest => if col < c then rest.after col else .cons c a kids rest

/-- **The outline** of items in columns: each is the parent of those that follow it further
right, up to the next one that is not. -/
def outline : List (ℕ × α) → Forest α
  | [] => .nil
  | (col, a) :: items => .cons col a ((outline items).deeper col) ((outline items).after col)

/-! ## Lines -/

/-- The lines of a text; between a carriage return and a line feed is one more, without content. -/
def splitLines : List Char → List (List Char)
  | [] => [[]]
  | c :: cs =>
    if isBreak c then [] :: splitLines cs
    else match splitLines cs with
      | l :: ls => (c :: l) :: ls
      | [] => [[c]]

/-- A line without content. -/
def isSkipped (l : List Char) : Bool :=
  match l.dropWhile isBlank with
  | [] => true
  | c :: _ => c == '#'

/-- The lines without content at the front, and the others, each with those that follow it. -/
def contentLines : List (List Char) → List (List Char) × List (List Char × List (List Char))
  | [] => ([], [])
  | l :: ls =>
    if isSkipped l then (l :: (contentLines ls).1, (contentLines ls).2)
    else ([], (l, (contentLines ls).1) :: (contentLines ls).2)

/-- `---` or `...`, on its own. -/
def isMarker : List Char → Bool
  | '-' :: '-' :: '-' :: cs => atBlank cs
  | '.' :: '.' :: '.' :: cs => atBlank cs
  | _ => false

variable (y : Reader)

/-- The value that was scanned; there may be none. -/
def Reader.value (skipped : List (List Char)) : Raw → Option (Option Flow)
  | .empty => some none
  | .plain text => some (some (.scalar ⟨String.ofList text, true⟩))
  | .other text => (y.other text skipped).map some
  | .bad => none

/-- The content of a line: a key with its value, or a node. -/
def Reader.content (skipped : List (List Char)) (col : ℕ) (cs : List Char) : Option (List (ℕ × Item)) :=
  if cs.head? = some '#' then some []
  else if col = 0 ∧ isMarker cs = true then none
  else match (if startsPlain cs then splitKey false cs else none) with
    | some (key, rest) => (y.value skipped (scan rest)).map fun w => [(2 * col, .entry (trimEnd key) w)]
    | none => (y.value skipped (scanFrom cs)).bind fun w => w.map fun node => [(2 * col, .text node)]

/-- The items of a line, from a column on. -/
def Reader.lineItems (skipped : List (List Char)) : ℕ → List Char → Option (List (ℕ × Item))
  | _, [] => some []
  | col, ' ' :: cs => Reader.lineItems skipped (col + 1) cs
  | col, '-' :: ' ' :: cs => (Reader.lineItems skipped (col + 2) cs).map ((2 * col + 1, .dash) :: ·)
  | col, ['-'] => some [(2 * col + 1, .dash)]
  | col, c :: cs => y.content skipped col (c :: cs)

/-- The items of the lines of a document. -/
def Reader.items : List (List Char × List (List Char)) → Option (List (ℕ × Item))
  | [] => some []
  | (l, skipped) :: ls => (y.lineItems skipped 0 l).bind fun as => (Reader.items ls).map (as ++ ·)

/-! ## Nodes -/

/-- The tree can be the next one of those that follow it in the same block. -/
def Forest.continues (col : ℕ) : Item → Forest Item → Bool
  | _, .nil => true
  | .dash, .cons c .dash _ _ => c == col
  | .entry _ _, .cons c (.entry _ _) _ _ => c == col
  | _, _ => false

/-- A block has one kind of items in one column; what stands on a line has nothing below. -/
def Forest.wellFormed : Forest Item → Bool
  | .nil => true
  | .cons col item kids rest =>
    (match item, kids with
      | .entry _ (some _), .cons .. => false
      | .text _, .cons .. => false
      | _, _ => true) && rest.continues col item && kids.wellFormed && rest.wellFormed

/-- A node: on a line, or a block. -/
inductive Node
  | flow (node : Flow)
  | block (forest : Forest Item)

def Forest.node : Forest Item → Node
  | .nil => .flow .empty
  | .cons _ (.text node) _ _ => .flow node
  | forest => .block forest

/-- **Parse** a document. -/
def Reader.parse (text : List Char) : Option Node :=
  if text.all isPrintable then
    match y.items (contentLines (splitLines text)).2 with
    | some items => if (outline items).wellFormed then some (outline items).node else none
    | none => none
  else none

end Yaml
