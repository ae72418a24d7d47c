import Mathlib.Data.List.Basic

/-!
# Plain scalars on a line

The characters of YAML 1.1 and what is read from one line: the value behind a key, and the
key of a line. A plain scalar is its own text, and ends at a comment or at the end of the
line; a colon before a blank, or at the end, would make it a key.

* `PlainText`: the texts that stand for themselves.
* `scan_plain`: **a value is scanned as itself** exactly if it is such a text.
-/

namespace Yaml

def isBlank (c : Char) : Bool := c == ' ' || c == '\t'

/-- Line breaks: line feed, carriage return, next line, and the line and paragraph separators. -/
def isBreak (c : Char) : Bool :=
  c == '\n' || c == '\r' || c == '\x85' || c == '\u2028' || c == '\u2029'

/-- The characters that a document may have. -/
def isPrintable (c : Char) : Bool :=
  c == '\t' || c == '\n' || c == '\r' || (' ' ≤ c && c ≤ '~') || c == '\x85' ||
    ('\xa0' ≤ c && c != '\ufeff' && c != '\ufffe' && c != '\uffff')

/-- A blank, or the end of the line. -/
def atBlank : List Char → Bool
  | [] => true
  | c :: _ => isBlank c

/-- The characters that no plain scalar starts with, whatever follows. -/
def isIndicator (c : Char) : Bool :=
  [',', '[', ']', '\x7b', '\x7d', '#', '&', '*', '!', '|', '>', '\x27', '\x22', '%', '@', '\x60'].contains c

/-- A plain scalar starts here. -/
def startsPlain : List Char → Bool
  | [] => false
  | c :: cs =>
    if c == '-' || c == '?' || c == ':' then !atBlank cs
    else !isBlank c && !isIndicator c

/-- The rest of a plain scalar, up to a comment; `none` at a colon that makes it a key. -/
def plainRest : Bool → List Char → Option (List Char)
  | _, [] => some []
  | afterBlank, c :: cs =>
    if c = '#' ∧ afterBlank = true then some []
    else if c = ':' ∧ atBlank cs = true then none
    else (plainRest (isBlank c) cs).map (c :: ·)

/-- Without the blanks at the end. -/
def trimEnd (cs : List Char) : List Char := (cs.reverse.dropWhile isBlank).reverse

/-- What stands behind a key. -/
inductive Raw
  /-- nothing -/
  | empty
  | plain (text : List Char)
  /-- a node in another style, or none -/
  | other (text : List Char)
  /-- a key where none may be -/
  | bad
  deriving DecidableEq, Repr

/-- The value that starts here, after the blanks. -/
def scanFrom (cs : List Char) : Raw :=
  if cs = [] ∨ cs.head? = some '#' then .empty
  else if startsPlain cs then
    match plainRest false cs with
    | some text => .plain (trimEnd text)
    | none => .bad
  else .other cs

/-- The value in the rest of a line. -/
def scan (cs : List Char) : Raw := scanFrom (cs.dropWhile isBlank)

/-- The plain key of a line, and what follows its colon. -/
def splitKey : Bool → List Char → Option (List Char × List Char)
  | _, [] => none
  | afterBlank, c :: cs =>
    if c = '#' ∧ afterBlank = true then none
    else if c = ':' ∧ atBlank cs = true then some ([], cs)
    else (splitKey (isBlank c) cs).map fun p => (c :: p.1, p.2)

/-! ## Plain text -/

/-- **A text that stands for itself** as a plain scalar: it starts one, has no comment and
no key in it, and does not end in a blank. -/
structure PlainText (cs : List Char) : Prop where
  starts : startsPlain cs = true
  comment : ∀ as c bs, cs = as ++ c :: '#' :: bs → isBlank c = false
  mapping : ∀ as bs, cs = as ++ ':' :: bs → atBlank bs = false
  ends : ∀ as c, cs = as ++ [c] → isBlank c = false

theorem plainRest_prefix {afterBlank : Bool} {cs p : List Char} (h : plainRest afterBlank cs = some p) :
    p <+: cs := by
  induction cs generalizing afterBlank p with
  | nil =>
    cases h
    exact List.prefix_rfl
  | cons c cs ih =>
    rw [plainRest] at h
    split at h
    · cases h
      exact List.nil_prefix
    · split at h
      · cases h
      · obtain ⟨q, hq, rfl⟩ := Option.map_eq_some_iff.1 h
        exact (List.prefix_cons_inj c).2 (ih hq)

theorem comment_cons (c : Char) (cs : List Char) :
    (∀ as d bs, c :: cs = as ++ d :: '#' :: bs → isBlank d = false) ↔
      (isBlank c = true → cs.head? ≠ some '#') ∧ ∀ as d bs, cs = as ++ d :: '#' :: bs → isBlank d = false := by
  constructor
  · intro h
    refine ⟨fun hc hhead => ?_, fun as d bs he => h (c :: as) d bs (by rw [he, List.cons_append])⟩
    obtain ⟨bs, rfl⟩ := List.head?_eq_some_iff.1 hhead
    have := h [] c bs rfl
    rw [hc] at this
    cases this
  · rintro ⟨hc, h⟩ as d bs he
    cases as with
    | nil =>
      obtain ⟨rfl, rfl⟩ := List.cons.inj he
      exact Bool.eq_false_iff.2 fun hd => hc hd rfl
    | cons a as => exact h as d bs (List.cons.inj he).2

theorem mapping_cons (c : Char) (cs : List Char) :
    (∀ as bs, c :: cs = as ++ ':' :: bs → atBlank bs = false) ↔
      (c = ':' → atBlank cs = false) ∧ ∀ as bs, cs = as ++ ':' :: bs → atBlank bs = false := by
  constructor
  · intro h
    exact ⟨fun hc => h [] cs (by rw [hc]; rfl), fun as bs he => h (c :: as) bs (by rw [he, List.cons_append])⟩
  · rintro ⟨hc, h⟩ as bs he
    cases as with
    | nil =>
      obtain ⟨rfl, rfl⟩ := List.cons.inj he
      exact hc rfl
    | cons a as => exact h as bs (List.cons.inj he).2

/-- What a text needs to be taken to its end. -/
theorem plainRest_eq_self_iff (afterBlank : Bool) (cs : List Char) :
    plainRest afterBlank cs = some cs ↔ (afterBlank = true → cs.head? ≠ some '#') ∧
      (∀ as c bs, cs = as ++ c :: '#' :: bs → isBlank c = false) ∧
      ∀ as bs, cs = as ++ ':' :: bs → atBlank bs = false := by
  induction cs generalizing afterBlank with
  | nil => simp [plainRest]
  | cons c cs ih =>
    rw [comment_cons, mapping_cons, plainRest]
    split
    · rename_i hc
      simp [hc.1, hc.2]
    · rename_i hcomment
      split
      · rename_i hc
        simp [hc.1, hc.2]
      · rename_i hmapping
        have hhead : afterBlank = true → (c :: cs).head? ≠ some '#' :=
          fun hb hc => hcomment ⟨Option.some.inj hc, hb⟩
        have hcolon : c = ':' → atBlank cs = false := fun hc => Bool.eq_false_iff.2 fun hb => hmapping ⟨hc, hb⟩
        have hmap : (plainRest (isBlank c) cs).map (c :: ·) = some (c :: cs) ↔
            plainRest (isBlank c) cs = some cs := by simp
        rw [hmap, ih, and_iff_right hhead, and_iff_right hcolon, and_assoc]

theorem trimEnd_prefix (cs : List Char) : trimEnd cs <+: cs := by
  obtain ⟨bs, hbs⟩ := List.dropWhile_suffix isBlank (l := cs.reverse)
  exact ⟨bs.reverse, by rw [trimEnd, ← List.reverse_append, hbs, List.reverse_reverse]⟩

theorem trimEnd_eq_self_iff (cs : List Char) :
    trimEnd cs = cs ↔ ∀ as c, cs = as ++ [c] → isBlank c = false := by
  rcases List.eq_nil_or_concat cs with rfl | ⟨bs, d, rfl⟩
  · simp [trimEnd]
  · rw [List.concat_eq_append, trimEnd, List.reverse_append]
    cases hd : isBlank d with
    | false => simp [hd]
    | true =>
      refine iff_of_false (fun h => ?_) fun h => ?_
      · have hlen := congrArg List.length h
        have hle := (List.dropWhile_suffix isBlank (l := bs.reverse)).length_le
        simp [hd] at hlen hle
        omega
      · have := h bs d rfl
        rw [hd] at this
        cases this

/-- A plain scalar starts with a character of its own. -/
theorem head_of_startsPlain {cs : List Char} (h : startsPlain cs = true) :
    ∃ c r, cs = c :: r ∧ isBlank c = false ∧ c ≠ '#' := by
  cases cs with
  | nil => cases h
  | cons c r =>
    refine ⟨c, r, rfl, ?_⟩
    rw [startsPlain] at h
    split at h
    · rename_i hc
      simp only [Bool.or_eq_true, beq_iff_eq] at hc
      rcases hc with (rfl | rfl) | rfl <;> decide
    · simp only [Bool.and_eq_true, Bool.not_eq_true'] at h
      refine ⟨h.1, ?_⟩
      rintro rfl
      exact absurd h.2 (by decide)

theorem scanFrom_of_startsPlain {cs : List Char} (h : startsPlain cs = true) :
    scanFrom cs = match plainRest false cs with
      | some text => .plain (trimEnd text)
      | none => .bad := by
  obtain ⟨c, r, rfl, -, hc⟩ := head_of_startsPlain h
  rw [scanFrom, if_neg (by simp [hc]), if_pos h]

/-- A plain value is a part of the line, from its start on. -/
theorem scanFrom_eq_plain {cs text : List Char} (h : scanFrom cs = .plain text) :
    startsPlain cs = true ∧ ∃ p, plainRest false cs = some p ∧ text = trimEnd p := by
  rw [scanFrom] at h
  split at h
  · cases h
  · split at h
    · rename_i hstart
      refine ⟨hstart, ?_⟩
      split at h
      · rename_i p hp
        cases h
        exact ⟨p, hp, rfl⟩
      · cases h
    · cases h

theorem scan_blank (cs : List Char) : scan (' ' :: cs) = scanFrom (cs.dropWhile isBlank) := rfl

/-- **A value is scanned as itself** exactly if it is a plain text. -/
theorem scan_plain (cs : List Char) : scan (' ' :: cs) = .plain cs ↔ PlainText cs := by
  rw [scan_blank]
  constructor
  · intro h
    obtain ⟨hstart, p, hp, htrim⟩ := scanFrom_eq_plain h
    have hdrop := (List.dropWhile_suffix isBlank (l := cs)).length_le
    have hprefix := plainRest_prefix hp
    have hend : cs <+: p := htrim ▸ trimEnd_prefix p
    -- each of them is a part of the one before, and the last is as long as the first
    have hcs : cs.dropWhile isBlank = cs :=
      (List.dropWhile_suffix isBlank).eq_of_length (by have := hprefix.length_le; have := hend.length_le; omega)
    rw [hcs] at hstart hp hprefix
    obtain rfl : cs = p := hend.eq_of_length_le hprefix.length_le
    obtain ⟨-, hcomment, hmapping⟩ := (plainRest_eq_self_iff false cs).1 hp
    exact ⟨hstart, hcomment, hmapping, (trimEnd_eq_self_iff cs).1 htrim.symm⟩
  · intro h
    obtain ⟨c, r, hcs, hc, -⟩ := head_of_startsPlain h.starts
    have hdrop : cs.dropWhile isBlank = cs := by
      rw [hcs, List.dropWhile_cons_of_neg (by rw [hc]; exact Bool.false_ne_true)]
    have hrest : plainRest false cs = some cs :=
      (plainRest_eq_self_iff false cs).2 ⟨by simp, h.comment, h.mapping⟩
    rw [hdrop, scanFrom_of_startsPlain h.starts, hrest]
    simp only [(trimEnd_eq_self_iff cs).2 h.ends]

instance : DecidablePred PlainText := fun cs => decidable_of_iff _ (scan_plain cs)

/-- What is in another style starts after the blanks. -/
theorem scan_other {cs text : List Char} (h : scan (' ' :: cs) = .other text) : text = cs.dropWhile isBlank := by
  rw [scan_blank, scanFrom] at h
  split at h
  · cases h
  · split at h
    · split at h <;> cases h
    · cases h
      rfl

end Yaml
