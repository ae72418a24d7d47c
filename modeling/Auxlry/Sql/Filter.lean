import Mathlib.Data.List.Basic

/-!
# Filter conditions

The condition of a filter as text: comparisons of a column with a literal and with a list
of literals, related by `AND` and `OR`. A literal stands between single quotes, and a
doubled quote in it is a quote. Spaces separate words, and nothing else is special.

* `tokens_escape`: **the text of a literal**, its quotes doubled, is read back, whatever it is.
* `tokens_list`: a list of literals is read back.
-/

namespace Sql

inductive Token
  | word (text : String)
  | literal (text : String)
  | equals
  | opens
  | closes
  | comma
  deriving DecidableEq, Repr

/-! ## Reading tokens -/

/-- Where a reader is, with the characters it has read of a word or a literal. -/
inductive Mode
  | outside
  | word (read : List Char)
  | literal (read : List Char)
  /-- after a quote that ends a literal, or is the first of two -/
  | quote (read : List Char)
  deriving DecidableEq, Repr

def wordChar (c : Char) : Bool := c.isAlphanum || c == '_'

/-- A character that begins something. -/
def enter (c : Char) : Option (List Token × Mode) :=
  if c = '\'' then some ([], .literal [])
  else if c = ' ' then some ([], .outside)
  else if wordChar c then some ([], .word [c])
  else if c = '=' then some ([.equals], .outside)
  else if c = '(' then some ([.opens], .outside)
  else if c = ')' then some ([.closes], .outside)
  else if c = ',' then some ([.comma], .outside)
  else none

namespace Mode

/-- What ends here. -/
def finish : Mode → Option (List Token)
  | .outside => some []
  | .word read => some [.word (String.ofList read)]
  | .literal _ => none
  | .quote read => some [.literal (String.ofList read)]

/-- Read a character: the tokens that end before it or with it, and the mode after it. -/
def next (c : Char) : Mode → Option (List Token × Mode)
  | .outside => enter c
  | .word read =>
    if wordChar c then some ([], .word (read ++ [c]))
    else (enter c).map fun (ts, m) => (.word (String.ofList read) :: ts, m)
  | .literal read => if c = '\'' then some ([], .quote read) else some ([], .literal (read ++ [c]))
  | .quote read =>
    if c = '\'' then some ([], .literal (read ++ [c]))
    else (enter c).map fun (ts, m) => (.literal (String.ofList read) :: ts, m)

end Mode

/-- The tokens of a text. -/
def tokens : Mode → List Char → Option (List Token)
  | m, [] => m.finish
  | m, c :: cs => (m.next c).bind fun (ts, m') => (tokens m' cs).map (ts ++ ·)

/-! ## Conditions -/

/-- A comparison of a column. -/
inductive Atom
  | eq (column value : String)
  | isIn (column : String) (values : List String)
  deriving DecidableEq, Repr

/-- A disjunction of conjunctions. -/
abbrev Condition := List (List Atom)

def Atom.holds (row : String → Option String) : Atom → Bool
  | .eq column value => row column == some value
  | .isIn column values => (row column).any values.contains

/-- A row matches a condition. -/
def Condition.holds (c : Condition) (row : String → Option String) : Bool :=
  c.any fun atoms => atoms.all (Atom.holds row)

/-- A keyword, in any case. -/
def isKeyword (k : String) : Token → Bool
  | .word w => w.toList.map Char.toUpper == k.toList
  | _ => false

/-- `'a', 'b')`: the rest of a list of literals. -/
def literals : List Token → Option (List String)
  | [.literal v, .closes] => some [v]
  | .literal v :: .comma :: ts => (literals ts).map (v :: ·)
  | _ => none

def atom : List Token → Option Atom
  | [.word column, .equals, .literal value] => some (.eq column value)
  | .word column :: k :: .opens :: ts =>
    if isKeyword "IN" k then (literals ts).map (.isIn column) else none
  | _ => none

def condition (ts : List Token) : Option Condition :=
  (ts.splitOnP (isKeyword "OR")).mapM fun ts => (ts.splitOnP (isKeyword "AND")).mapM atom

/-- The condition that a text denotes. -/
def parse (text : String) : Option Condition := (tokens .outside text.toList).bind condition

theorem tokens_cons {m m' : Mode} {c : Char} {ts : List Token} (h : m.next c = some (ts, m'))
    (cs : List Char) : tokens m (c :: cs) = (tokens m' cs).map (ts ++ ·) := by
  rw [tokens, h]
  rfl

/-- A character that ends nothing. -/
theorem tokens_skip {m m' : Mode} {c : Char} (h : m.next c = some ([], m')) (cs : List Char) :
    tokens m (c :: cs) = tokens m' cs := by
  rw [tokens_cons h]
  exact Option.map_id'

/-! ## Literals -/

/-- Double the quotes of a text. -/
def escape (s : String) : List Char := s.toList.flatMap fun c => if c = '\'' then ['\'', '\''] else [c]

/-- **A literal is read back**: the quote behind it is the first that is not doubled. -/
theorem tokens_escape (s : String) (rest : List Char) :
    tokens (.literal []) (escape s ++ '\'' :: rest) = tokens (.quote s.toList) rest := by
  have hread : ∀ (cs read : List Char), tokens (.literal read)
      ((cs.flatMap fun c => if c = '\'' then ['\'', '\''] else [c]) ++ '\'' :: rest) =
        tokens (.quote (read ++ cs)) rest := by
    intro cs
    induction cs with
    | nil =>
      intro read
      rw [List.append_nil]
      exact tokens_skip rfl rest
    | cons c cs ih =>
      intro read
      have hrest := ih (read ++ [c])
      rw [List.append_assoc, List.singleton_append] at hrest
      rw [List.flatMap_cons, List.append_assoc, ← hrest]
      by_cases hc : c = '\''
      · -- two quotes, read as one
        subst hc
        exact (tokens_skip rfl _).trans (tokens_skip rfl _)
      · have hnext : Mode.next c (.literal read) = some ([], .literal (read ++ [c])) := if_neg hc
        rw [if_neg hc]
        exact tokens_skip hnext _
  exact hread s.toList []

/-- A character behind a literal ends it, unless it is a quote. -/
theorem tokens_quote_cons (s : String) {c : Char} (hc : c ≠ '\'') (rest : List Char) :
    tokens (.quote s.toList) (c :: rest) = (tokens .outside (c :: rest)).map (.literal s :: ·) := by
  have hnext : Mode.next c (.quote s.toList) = (enter c).map fun (ts, m) => (.literal s :: ts, m) := by
    simp [Mode.next, hc]
  have houter : Mode.next c .outside = enter c := rfl
  unfold tokens
  rw [hnext, houter]
  cases enter c with
  | none => rfl
  | some r =>
    simp only [Option.map_some, Option.bind_some]
    cases tokens r.2 rest with
    | none => rfl
    | some ts => rfl

/-- The text of a literal. -/
def quoted (s : String) : String := "'" ++ String.ofList (escape s) ++ "'"

theorem tokens_quoted (s : String) {c : Char} (hc : c ≠ '\'') (rest : List Char) :
    tokens .outside ((quoted s).toList ++ c :: rest) =
      (tokens .outside (c :: rest)).map (.literal s :: ·) := by
  have htext : (quoted s).toList ++ c :: rest = '\'' :: (escape s ++ '\'' :: c :: rest) := by
    unfold quoted
    simp
  rw [htext, tokens_skip rfl, tokens_escape, tokens_quote_cons s hc]

theorem tokens_quoted_end (s : String) : tokens .outside (quoted s).toList = some [.literal s] := by
  have htext : (quoted s).toList = '\'' :: (escape s ++ '\'' :: []) := by
    unfold quoted
    simp
  rw [htext, tokens_skip rfl, tokens_escape]
  simp [tokens, Mode.finish]

/-! ## Lists of literals -/

/-- The tokens of a list of literals, up to the parenthesis that closes it. -/
def listTokens (first : String) : List String → List Token
  | [] => [.literal first, .closes]
  | s :: rest => .literal first :: .comma :: listTokens s rest

theorem literals_listTokens (first : String) (rest : List String) :
    literals (listTokens first rest) = some (first :: rest) := by
  induction rest generalizing first with
  | nil => rfl
  | cons s rest ih =>
    have hrest := ih s
    unfold listTokens literals
    rw [hrest]
    rfl

theorem atom_isIn {k : String} (h : isKeyword "IN" (.word k) = true) (column first : String)
    (rest : List String) :
    atom (.word column :: .word k :: .opens :: listTokens first rest) =
      some (.isIn column (first :: rest)) := by
  have hif : atom (.word column :: .word k :: .opens :: listTokens first rest) =
      if isKeyword "IN" (.word k) then (literals (listTokens first rest)).map (.isIn column) else none := rfl
  rw [hif, if_pos h, literals_listTokens]
  rfl

/-- **A list of literals is read back.** -/
theorem tokens_list (first : String) (rest : List String) :
    tokens .outside ((", ".intercalate ((first :: rest).map quoted)).toList ++ [')']) =
      some (listTokens first rest) := by
  induction rest generalizing first with
  | nil =>
    rw [List.map_singleton, String.intercalate_singleton, tokens_quoted first (by decide), tokens_cons rfl]
    rfl
  | cons s rest ih =>
    have hrest := ih s
    rw [List.map_cons] at hrest
    have htext : (", ".intercalate ((first :: s :: rest).map quoted)).toList ++ [')'] =
        (quoted first).toList ++ ',' :: ' ' :: ((", ".intercalate (quoted s :: rest.map quoted)).toList ++ [')']) := by
      rw [List.map_cons, List.map_cons, String.intercalate_cons_cons]
      simp
    rw [htext, tokens_quoted first (by decide), tokens_cons rfl, tokens_skip rfl, hrest]
    rfl

/-! ## Comparisons on their own -/

/-- Without `OR` and `AND` there is one comparison. -/
theorem condition_of_atom {ts : List Token} {a : Atom} (h : atom ts = some a)
    (hor : ∀ t ∈ ts, isKeyword "OR" t = false) (hand : ∀ t ∈ ts, isKeyword "AND" t = false) :
    condition ts = some [[a]] := by
  unfold condition
  rw [List.splitOnP_eq_singleton hor]
  simp [List.splitOnP_eq_singleton hand, h]

theorem isKeyword_listTokens (k first : String) (rest : List String) :
    ∀ t ∈ listTokens first rest, isKeyword k t = false := by
  induction rest generalizing first with
  | nil =>
    intro t ht
    simp only [listTokens, List.mem_cons, List.not_mem_nil, or_false] at ht
    rcases ht with rfl | rfl <;> rfl
  | cons s rest ih =>
    intro t ht
    rcases List.mem_cons.1 ht with rfl | ht
    · rfl
    · rcases List.mem_cons.1 ht with rfl | ht
      · rfl
      · exact ih s t ht

end Sql
