import Auxlry.Yaml.Document

/-!
# One line of a document

A `Slot` is a place for a value in a document: a line `key: ` of its own, behind spaces and
dashes, with the lines before and after it.

* `parse_text`: **the document** with a text without line breaks in the place is the outline
  of the items above, this one and the items below, whatever the text. Only the value
  depends on it.
-/

namespace Yaml

variable (y : Reader)

/-! ## Splitting and joining -/

/-- A line, and what follows from its break on. -/
theorem splitLines_line {l after : List Char} (hl : ∀ c ∈ l, isBreak c = false)
    (hafter : ∀ c, after.head? = some c → isBreak c = true) :
    splitLines (l ++ after) = l :: (splitLines after).tail := by
  induction l with
  | nil =>
    cases after with
    | nil => rfl
    | cons c cs => rw [List.nil_append, splitLines, if_pos (hafter c rfl), List.tail_cons]
  | cons c l ih =>
    have hc : ¬ isBreak c = true := by rw [hl c List.mem_cons_self]; exact Bool.false_ne_true
    rw [List.cons_append, splitLines, if_neg hc, ih fun d hd => hl d (List.mem_cons_of_mem _ hd)]

theorem splitLines_break {b : Char} (hb : isBreak b = true) (cs : List Char) :
    ∃ l ls, ∀ after, splitLines (cs ++ b :: after) = l :: ls ++ splitLines after := by
  induction cs with
  | nil => exact ⟨[], [], fun after => by rw [List.nil_append, splitLines, if_pos hb]; rfl⟩
  | cons c cs ih =>
    obtain ⟨l, ls, h⟩ := ih
    by_cases hc : isBreak c = true
    · exact ⟨[], l :: ls, fun after => by rw [List.cons_append, splitLines, if_pos hc, h]; rfl⟩
    · exact ⟨c :: l, ls, fun after => by rw [List.cons_append, splitLines, if_neg hc, h]; rfl⟩

/-- Whole lines: a text that is empty or ends in a break. -/
def IsLines (cs : List Char) : Prop := cs = [] ∨ ∃ as b, cs = as ++ [b] ∧ isBreak b = true

/-- The lines of whole lines, and of what follows. -/
theorem splitLines_append {before : List Char} (h : IsLines before) (after : List Char) :
    splitLines (before ++ after) = (splitLines before).dropLast ++ splitLines after := by
  obtain rfl | ⟨cs, b, rfl, hb⟩ := h
  · rfl
  · obtain ⟨l, ls, h⟩ := splitLines_break hb cs
    rw [List.append_assoc, List.singleton_append, h after, h [], splitLines, List.dropLast_concat]

/-- A line with content does not belong to those without. -/
theorem contentLines_append {l : List Char} (hl : isSkipped l = false) (above below : List (List Char)) :
    contentLines (above ++ l :: below) = ((contentLines above).1,
      (contentLines above).2 ++ (l, (contentLines below).1) :: (contentLines below).2) := by
  induction above with
  | nil =>
    have hneg : ¬ isSkipped l = true := by rw [hl]; exact Bool.false_ne_true
    show contentLines (l :: below) = ([], (l, (contentLines below).1) :: (contentLines below).2)
    rw [contentLines, if_neg hneg]
  | cons a above ih =>
    rw [List.cons_append, contentLines, contentLines, ih]
    split <;> rfl

theorem items_append (as bs : List (List Char × List (List Char))) :
    y.items (as ++ bs) = (y.items as).bind fun is => (y.items bs).map (is ++ ·) := by
  induction as with
  | nil => cases h : y.items bs <;> simp [Reader.items, h]
  | cons a as ih =>
    rw [List.cons_append, Reader.items, Reader.items, ih]
    cases y.lineItems a.2 0 a.1 with
    | none => rfl
    | some is => cases y.items as <;> cases y.items bs <;> simp

/-! ## A line of a document -/

/-- Spaces and dashes in front of a key. -/
def isMargin : List Char → Bool
  | [] => true
  | ' ' :: cs => isMargin cs
  | '-' :: ' ' :: cs => isMargin cs
  | _ => false

/-- The list items that a margin opens. -/
def marginItems : ℕ → List Char → List (ℕ × Item)
  | col, ' ' :: cs => marginItems (col + 1) cs
  | col, '-' :: ' ' :: cs => (2 * col + 1, .dash) :: marginItems (col + 2) cs
  | _, _ => []

def isWord (c : Char) : Bool := c.isAlphanum || c == '_'

/-- A key made of a word. -/
def isKey (cs : List Char) : Bool := !cs.isEmpty && cs.all isWord

/-- What a letter, a digit or an underscore is not. -/
theorem ne_of_isWord {c d : Char} (h : isWord c = true) (hd : isWord d = false) : c ≠ d := by
  rintro rfl
  rw [h] at hd
  cases hd

theorem not_isBlank_of_isWord {c : Char} (h : isWord c = true) : isBlank c = false := by
  have hspace := ne_of_isWord h (show isWord ' ' = false by decide)
  have htab := ne_of_isWord h (show isWord '\t' = false by decide)
  simp [isBlank, hspace, htab]

theorem lineItems_margin {margin : List Char} (h : isMargin margin = true) (cs : List Char)
    (skipped : List (List Char)) (col : ℕ) :
    y.lineItems skipped col (margin ++ cs) =
      (y.lineItems skipped (col + margin.length) cs).map (marginItems col margin ++ ·) := by
  induction margin using isMargin.induct generalizing col with
  | case1 => cases h : y.lineItems skipped col cs <;> simp [marginItems, h]
  | case2 margin ih =>
    rw [List.cons_append, Reader.lineItems, ih h, marginItems, List.length_cons]
    rw [show col + 1 + margin.length = col + (margin.length + 1) by omega]
  | case3 margin ih =>
    rw [List.cons_append, List.cons_append, Reader.lineItems, ih h, marginItems, List.length_cons,
      List.length_cons, show col + 2 + margin.length = col + (margin.length + 1 + 1) by omega, Option.map_map]
    rfl
  | case4 margin h₁ h₂ h₃ =>
    rw [isMargin.eq_4 margin h₁ h₂ h₃] at h
    cases h

theorem splitKey_key {key : List Char} (h : key.all isWord = true) (cs : List Char) :
    splitKey false (key ++ ':' :: ' ' :: cs) = some (key, ' ' :: cs) := by
  induction key with
  | nil => rfl
  | cons c key ih =>
    rw [List.all_cons, Bool.and_eq_true] at h
    obtain ⟨hc, hkey⟩ := h
    have hcomment : ¬ (c = '#' ∧ false = true) := fun hc => by cases hc.2
    have hcolon : ¬ (c = ':' ∧ atBlank (key ++ ':' :: ' ' :: cs) = true) :=
      fun he => ne_of_isWord hc (by decide) he.1
    rw [List.cons_append, splitKey, if_neg hcomment, if_neg hcolon, not_isBlank_of_isWord hc, ih hkey]
    rfl

theorem startsPlain_of_isWord {c : Char} (h : isWord c = true) (cs : List Char) :
    startsPlain (c :: cs) = true := by
  have hdash := ne_of_isWord h (show isWord '-' = false by decide)
  have hquestion := ne_of_isWord h (show isWord '?' = false by decide)
  have hcolon := ne_of_isWord h (show isWord ':' = false by decide)
  have hindicator : isIndicator c = false := by
    refine Bool.eq_false_iff.2 fun hc => ?_
    rw [isIndicator, List.contains_iff_mem] at hc
    simp only [List.mem_cons, List.not_mem_nil, or_false] at hc
    rcases hc with rfl | rfl | rfl | rfl | rfl | rfl | rfl | rfl | rfl | rfl | rfl | rfl | rfl | rfl | rfl | rfl <;>
      exact absurd h (by decide)
  simp [startsPlain, hdash, hquestion, hcolon, hindicator, not_isBlank_of_isWord h]

theorem trimEnd_word {cs : List Char} (h : cs.all isWord = true) : trimEnd cs = cs := by
  refine (trimEnd_eq_self_iff cs).2 ?_
  rintro as c rfl
  rw [List.all_append, Bool.and_eq_true] at h
  exact not_isBlank_of_isWord (by simpa using h.2)

theorem lineItems_key {key : List Char} (h : isKey key = true) (cs : List Char) (skipped : List (List Char))
    (col : ℕ) : y.lineItems skipped col (key ++ ':' :: ' ' :: cs) =
      (y.value skipped (scan (' ' :: cs))).map fun w => [(2 * col, .entry key w)] := by
  rw [isKey, Bool.and_eq_true] at h
  cases key with
  | nil => cases h.1
  | cons c key =>
    have hc : isWord c = true := by
      have := h.2
      rw [List.all_cons, Bool.and_eq_true] at this
      exact this.1
    have hline : y.lineItems skipped col (c :: (key ++ ':' :: ' ' :: cs)) =
        y.content skipped col (c :: (key ++ ':' :: ' ' :: cs)) := by
      have hspace := ne_of_isWord hc (show isWord ' ' = false by decide)
      have hdash := ne_of_isWord hc (show isWord '-' = false by decide)
      rw [Reader.lineItems]
      · exact hspace
      · exact fun _ he => absurd he hdash
      · exact fun he => absurd he hdash
    have hhead : ¬ (c :: (key ++ ':' :: ' ' :: cs)).head? = some '#' := by
      have hhash := ne_of_isWord hc (show isWord '#' = false by decide)
      simpa using hhash
    have hmarker : ¬ (col = 0 ∧ isMarker (c :: (key ++ ':' :: ' ' :: cs)) = true) := by
      have hdash := ne_of_isWord hc (show isWord '-' = false by decide)
      have hdot := ne_of_isWord hc (show isWord '.' = false by decide)
      rintro ⟨-, hm⟩
      unfold isMarker at hm
      split at hm
      · rename_i he
        exact hdash (List.cons.inj he).1
      · rename_i he
        exact hdot (List.cons.inj he).1
      · cases hm
    rw [List.cons_append, hline, Reader.content, if_neg hhead, if_neg hmarker,
      if_pos (startsPlain_of_isWord hc _), ← List.cons_append, splitKey_key h.2]
    simp only [trimEnd_word h.2]

theorem isSkipped_margin {margin : List Char} (h : isMargin margin = true) {c : Char} (hc : isWord c = true)
    (cs : List Char) : isSkipped (margin ++ c :: cs) = false := by
  induction margin using isMargin.induct with
  | case1 =>
    have hhash := ne_of_isWord hc (show isWord '#' = false by decide)
    simp [isSkipped, not_isBlank_of_isWord hc, hhash]
  | case2 margin ih => exact ih h
  | case3 margin ih => rfl
  | case4 margin h₁ h₂ h₃ =>
    rw [isMargin.eq_4 margin h₁ h₂ h₃] at h
    cases h

/-- The ranges of the characters of words. -/
theorem isWord_cases {c : Char} (h : isWord c = true) :
    'A' ≤ c ∧ c ≤ 'Z' ∨ 'a' ≤ c ∧ c ≤ 'z' ∨ '0' ≤ c ∧ c ≤ '9' ∨ c = '_' := by
  have hranges : (decide ('A'.val ≤ c.val ∧ c.val ≤ 'Z'.val) || decide ('a'.val ≤ c.val) && decide (c.val ≤ 'z'.val) ||
      decide ('0'.val ≤ c.val) && decide (c.val ≤ '9'.val) || c == '_') = true := h
  simp only [Bool.or_eq_true, Bool.and_eq_true, decide_eq_true_eq, beq_iff_eq, or_assoc] at hranges
  exact hranges

theorem isPrintable_of_isWord {c : Char} (h : isWord c = true) : isPrintable c = true := by
  have hle : ' ' ≤ c ∧ c ≤ '~' := by
    obtain ⟨hl, hu⟩ | ⟨hl, hu⟩ | ⟨hl, hu⟩ | rfl := isWord_cases h
    · exact ⟨Char.le_trans (by decide) hl, Char.le_trans hu (by decide)⟩
    · exact ⟨Char.le_trans (by decide) hl, Char.le_trans hu (by decide)⟩
    · exact ⟨Char.le_trans (by decide) hl, Char.le_trans hu (by decide)⟩
    · decide
  simp [isPrintable, hle.1, hle.2]

/-- A margin is made of spaces and dashes. -/
theorem eq_of_mem_margin {margin : List Char} (h : isMargin margin = true) : ∀ c ∈ margin, c = ' ' ∨ c = '-' := by
  induction margin using isMargin.induct with
  | case1 => simp
  | case2 margin ih => exact List.forall_mem_cons.2 ⟨.inl rfl, ih h⟩
  | case3 margin ih => exact List.forall_mem_cons.2 ⟨.inr rfl, List.forall_mem_cons.2 ⟨.inl rfl, ih h⟩⟩
  | case4 margin h₁ h₂ h₃ =>
    rw [isMargin.eq_4 margin h₁ h₂ h₃] at h
    cases h

theorem isPrintable_margin {margin : List Char} (h : isMargin margin = true) :
    margin.all isPrintable = true := by
  refine List.all_eq_true.2 fun c hc => ?_
  obtain rfl | rfl := eq_of_mem_margin h c hc <;> decide

theorem not_isBreak_of_isWord {c : Char} (h : isWord c = true) : isBreak c = false := by
  refine Bool.eq_false_iff.2 fun hc => ?_
  simp only [isBreak, Bool.or_eq_true, beq_iff_eq] at hc
  rcases hc with (((rfl | rfl) | rfl) | rfl) | rfl <;> exact absurd h (by decide)

theorem not_isBreak_margin {margin : List Char} (h : isMargin margin = true) :
    ∀ c ∈ margin, isBreak c = false := by
  intro c hc
  obtain rfl | rfl := eq_of_mem_margin h c hc <;> decide

/-- **A place for a value** in a document: a line `key: ` of its own, behind a margin. -/
structure Slot where
  before : List Char
  margin : List Char
  key : List Char
  after : List Char
  above : List (ℕ × Item)
  below : List (ℕ × Item)
  starts : IsLines before
  ends : ∀ c, after.head? = some c → isBreak c = true
  isMargin : isMargin margin = true
  isKey : isKey key = true
  printable : before.all isPrintable = true ∧ after.all isPrintable = true
  /-- what the lines before and after are read as -/
  readsAbove : y.items (contentLines (splitLines before).dropLast).2 = some above
  readsBelow : y.items (contentLines (splitLines after).tail).2 = some below

namespace Slot

variable {y} (S : Slot y)

/-- The line of the place, with a text. -/
def line (value : List Char) : List Char := S.margin ++ (S.key ++ ':' :: ' ' :: value)

/-- The document with a text in the place. -/
def text (value : List Char) : List Char := S.before ++ (S.line value ++ S.after)

/-- The outline with a value in the place. -/
def forest (value : Option Flow) : Forest Item :=
  outline (S.above ++ (marginItems 0 S.margin ++ (2 * S.margin.length, .entry S.key value) :: S.below))

/-- The lines without content right below. -/
def skipped : List (List Char) := (contentLines (splitLines S.after).tail).1

theorem key_cons : ∃ c cs, S.key = c :: cs ∧ isWord c = true ∧ S.key.all isWord = true := by
  have h := S.isKey
  rw [Yaml.isKey, Bool.and_eq_true] at h
  cases hkey : S.key with
  | nil =>
    rw [hkey] at h
    cases h.1
  | cons c cs =>
    rw [hkey] at h
    have hall := h.2
    rw [List.all_cons, Bool.and_eq_true] at hall
    exact ⟨c, cs, rfl, hall.1, h.2⟩

theorem not_isBreak_line {value : List Char} (hvalue : ∀ c ∈ value, isBreak c = false) :
    ∀ c ∈ S.line value, isBreak c = false := by
  obtain ⟨-, -, -, -, hword⟩ := S.key_cons
  simp only [line, List.forall_mem_append, List.forall_mem_cons]
  refine ⟨not_isBreak_margin S.isMargin, fun c hc => ?_, by decide, by decide, hvalue⟩
  exact not_isBreak_of_isWord (List.all_eq_true.1 hword c hc)

theorem items_text {value : List Char} (hvalue : ∀ c ∈ value, isBreak c = false) :
    y.items (contentLines (splitLines (S.text value))).2 = (y.value S.skipped (scan (' ' :: value))).map fun w =>
      S.above ++ (marginItems 0 S.margin ++ (2 * S.margin.length, .entry S.key w) :: S.below) := by
  obtain ⟨c, cs, hkey, hc, -⟩ := S.key_cons
  have hskip : isSkipped (S.line value) = false := by
    rw [line, hkey]
    exact isSkipped_margin S.isMargin hc _
  have hitems : y.lineItems S.skipped 0 (S.line value) = (y.value S.skipped (scan (' ' :: value))).map fun w =>
      marginItems 0 S.margin ++ [(2 * S.margin.length, .entry S.key w)] := by
    rw [line, lineItems_margin y S.isMargin, lineItems_key y S.isKey, Option.map_map, Nat.zero_add]
    rfl
  rw [text, splitLines_append S.starts, splitLines_line (S.not_isBreak_line hvalue) S.ends,
    contentLines_append hskip, items_append, S.readsAbove, Reader.items]
  rw [← skipped, hitems, S.readsBelow]
  cases y.value S.skipped (scan (' ' :: value)) <;> simp

/-- **The document is read** as the outline of the items above, this one and those below. -/
theorem parse_text {value : List Char} (hvalue : ∀ c ∈ value, isBreak c = false)
    (hform : ∀ w, (S.forest w).wellFormed = true) :
    y.parse (S.text value) = if value.all isPrintable then
      (y.value S.skipped (scan (' ' :: value))).map fun w => (S.forest w).node else none := by
  obtain ⟨-, -, -, -, hword⟩ := S.key_cons
  have hkey : S.key.all isPrintable = true :=
    List.all_eq_true.2 fun c hc => isPrintable_of_isWord (List.all_eq_true.1 hword c hc)
  have hprint : (S.text value).all isPrintable = value.all isPrintable := by
    simp only [text, line, List.all_append, List.all_cons, S.printable.1, S.printable.2,
      isPrintable_margin S.isMargin, hkey, Bool.true_and, Bool.and_true]
    rfl
  rw [Reader.parse, hprint, S.items_text hvalue]
  split
  · cases y.value S.skipped (scan (' ' :: value)) with
    | none => rfl
    | some w => exact if_pos (hform w)
  · rfl

end Slot

end Yaml
