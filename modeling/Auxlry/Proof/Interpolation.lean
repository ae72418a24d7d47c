import Auxlry.Spec.Config
import Auxlry.Yaml.Slot

/-!
# Interpolation

References to variables lie within a line, and what stands between them is copied. So the
text before a line, the line and the text after it are interpolated on their own.

* `interpolate_break`: **up to the end of a line**.
* `interpolate_reference`: a reference is replaced by the value, which is not looked at again.
* `interpolate_congr`: the other variables do not matter.
-/

namespace Auxlry.Loader

open Yaml (IsLines isBreak)

variable {env env' : String → Option String}

/-! ## References -/

/-- The reference to a variable. -/
def refText (name : List Char) : List Char := '$' :: '\x7b' :: (name ++ ['\x7d'])

/-- A name that can be referred to. -/
def isName : List Char → Bool
  | [] => false
  | c :: cs => isNameStart c && cs.all isNameChar

theorem refText_of_reference {cs name : List Char} (h : reference cs = some name) : refText name <+: cs := by
  unfold reference at h
  split at h
  · rename_i c cs
    split at h
    · rename_i hc
      cases h
      obtain ⟨r, hr⟩ := List.head?_eq_some_iff.1 hc.2
      have hcs := List.takeWhile_append_dropWhile (p := isNameChar) (l := cs)
      rw [hr] at hcs
      have htext : refText (c :: cs.takeWhile isNameChar) ++ r =
          '$' :: '\x7b' :: c :: (cs.takeWhile isNameChar ++ '\x7d' :: r) := by simp [refText]
      exact ⟨r, by rw [htext, hcs]⟩
    · cases h
  · cases h

theorem reference_length {cs name : List Char} (h : reference cs = some name) : name.length + 3 ≤ cs.length := by
  have hle := (refText_of_reference h).length_le
  simp only [refText, List.length_cons, List.length_append, List.length_nil] at hle
  omega

theorem reference_refText {name : List Char} (h : isName name = true) (cs : List Char) :
    reference (refText name ++ cs) = some name := by
  cases name with
  | nil => cases h
  | cons c name =>
    rw [isName, Bool.and_eq_true] at h
    have hname := List.all_eq_true.1 h.2
    have htext : refText (c :: name) ++ cs = '$' :: '\x7b' :: c :: (name ++ '\x7d' :: cs) := by simp [refText]
    have hbrace : isNameChar '\x7d' = false := by decide
    have htake : (name ++ '\x7d' :: cs).takeWhile isNameChar = name := by
      rw [List.takeWhile_append_of_pos hname, List.takeWhile_cons_of_neg (by simp [hbrace]), List.append_nil]
    have hdrop : (name ++ '\x7d' :: cs).dropWhile isNameChar = '\x7d' :: cs := by
      rw [List.dropWhile_append_of_pos hname, List.dropWhile_cons_of_neg (by simp [hbrace])]
    rw [htext, reference, htake, hdrop, if_pos ⟨h.1, rfl⟩]

theorem reference_of_not {c d : Char} (h : ¬ (c = '$' ∧ d = '\x7b')) (cs : List Char) :
    reference (c :: d :: cs) = none := by
  unfold reference
  split
  · rename_i he
    obtain ⟨hc, he⟩ := List.cons.inj he
    exact absurd ⟨hc, (List.cons.inj he).1⟩ h
  · rfl

theorem reference_singleton (c : Char) : reference [c] = none := by
  unfold reference
  split
  · rename_i he
    cases (List.cons.inj he).2
  · rfl

theorem reference_of_ne {c : Char} (hc : c ≠ '$') (cs : List Char) : reference (c :: cs) = none := by
  cases cs with
  | nil => exact reference_singleton c
  | cons d cs => exact reference_of_not (fun h => hc h.1) cs

/-- What a line break is not. -/
theorem of_isBreak {b : Char} (h : isBreak b = true) :
    b ≠ '$' ∧ b ≠ '\x7b' ∧ b ≠ '\x7d' ∧ isNameChar b = false := by
  simp only [isBreak, Bool.or_eq_true, beq_iff_eq] at h
  rcases h with (((rfl | rfl) | rfl) | rfl) | rfl <;> decide

/-- A reference ends in its line. -/
theorem reference_break {cs : List Char} (h : cs ≠ []) {b : Char} (hb : isBreak b = true) (after : List Char) :
    reference (cs ++ b :: after) = reference cs := by
  obtain ⟨-, hopen, hclose, hname⟩ := of_isBreak hb
  match cs, h with
  | [c], _ =>
    rw [reference_singleton]
    exact reference_of_not (fun h => hopen h.2) after
  | [c, d], _ =>
    by_cases hcd : c = '$' ∧ d = '\x7b'
    · obtain ⟨rfl, rfl⟩ := hcd
      have hstop : ¬ (isNameStart b = true ∧ (after.dropWhile isNameChar).head? = some '\x7d') := by
        rintro ⟨hstart, -⟩
        have : isNameChar b = true := by
          simp only [isNameStart, isNameChar, Char.isAlphanum, Bool.or_eq_true] at hstart ⊢
          exact hstart.imp_left .inl
        rw [hname] at this
        cases this
      exact if_neg hstop
    · rw [reference_of_not hcd]
      exact reference_of_not hcd _
  | c :: d :: e :: cs, _ =>
    by_cases hcd : c = '$' ∧ d = '\x7b'
    · obtain ⟨rfl, rfl⟩ := hcd
      have hneg : ¬ isNameChar b = true := by
        rw [hname]
        exact Bool.false_ne_true
      have hbreak : (b :: after).dropWhile isNameChar = b :: after := List.dropWhile_cons_of_neg hneg
      have hstop : (b :: after).takeWhile isNameChar = [] := List.takeWhile_cons_of_neg hneg
      simp only [List.cons_append, reference, List.dropWhile_append, List.takeWhile_append, hbreak, hstop]
      cases hdrop : cs.dropWhile isNameChar with
      | nil => simp [hclose]
      | cons x xs =>
        have hlen := congrArg List.length (List.takeWhile_append_dropWhile (p := isNameChar) (l := cs))
        rw [hdrop, List.length_append, List.length_cons] at hlen
        have hne : ¬ (cs.takeWhile isNameChar).length = cs.length := by omega
        simp [hne]
    · rw [reference_of_not hcd]
      exact reference_of_not hcd _

/-! ## Interpolation in parts -/

theorem interpolate_skip (skip : ℕ) (cs : List Char) :
    interpolate env skip cs = interpolate env 0 (cs.drop skip) := by
  induction cs generalizing skip with
  | nil => cases skip <;> rfl
  | cons c cs ih =>
    cases skip with
    | zero => rfl
    | succ skip => rw [interpolate, ih, List.drop_succ_cons]

/-- A text without references is copied. -/
theorem interpolate_append {cs : List Char} (h : '$' ∉ cs) (after : List Char) :
    interpolate env 0 (cs ++ after) = cs ++ interpolate env 0 after := by
  induction cs with
  | nil => rfl
  | cons c cs ih =>
    rw [List.mem_cons, not_or] at h
    rw [List.cons_append, interpolate, reference_of_ne (Ne.symm h.1)]
    simp only [ih h.2, List.cons_append]

/-- **Up to the end of a line**, the text is interpolated on its own. -/
theorem interpolate_break (cs after : List Char) {b : Char} (hb : isBreak b = true) {skip : ℕ}
    (h : skip ≤ cs.length) :
    interpolate env skip (cs ++ b :: after) = interpolate env skip cs ++ b :: interpolate env 0 after := by
  induction cs generalizing skip with
  | nil =>
    obtain rfl : skip = 0 := Nat.le_zero.1 h
    have hcopy : interpolate env 0 (b :: after) = b :: interpolate env 0 after := by
      rw [interpolate, reference_of_ne (of_isBreak hb).1 after]
    exact hcopy
  | cons c cs ih =>
    cases skip with
    | succ skip =>
      rw [List.cons_append, interpolate, interpolate]
      exact ih (Nat.le_of_succ_le_succ h)
    | zero =>
      have href := reference_break (List.cons_ne_nil c cs) hb after
      rw [List.cons_append] at href
      rw [List.cons_append, interpolate, interpolate, href]
      cases hname : reference (c :: cs) with
      | none => simp only [ih (Nat.zero_le _), List.cons_append]
      | some name =>
        have hlen := reference_length hname
        rw [List.length_cons] at hlen
        simp only [ih (show name.length + 2 ≤ cs.length by omega), List.append_assoc]

/-- Whole lines are interpolated on their own. -/
theorem interpolate_lines {before : List Char} (h : IsLines before) (after : List Char) :
    interpolate env 0 (before ++ after) = interpolate env 0 before ++ interpolate env 0 after := by
  obtain rfl | ⟨cs, b, rfl, hb⟩ := h
  · rfl
  · have hcs : interpolate env 0 (cs ++ [b]) = interpolate env 0 cs ++ [b] :=
      interpolate_break cs [] hb (Nat.zero_le _)
    rw [List.append_assoc, List.singleton_append, interpolate_break cs after hb (Nat.zero_le _), hcs,
      List.append_assoc, List.singleton_append]

/-- **A reference** is replaced by the value, which is not looked at again. -/
theorem interpolate_reference {name : List Char} (h : isName name = true) (after : List Char) :
    interpolate env 0 (refText name ++ after) = varOrDefault env name ++ interpolate env 0 after := by
  have href := reference_refText h after
  rw [refText, List.cons_append] at href ⊢
  rw [interpolate, href]
  simp only [interpolate_skip (name.length + 2)]
  simp

theorem interpolate_congr {name : List Char} (henv : ∀ n, n ≠ String.ofList name → env n = env' n)
    {cs : List Char} (h : ¬ refText name <:+: cs) (skip : ℕ) :
    interpolate env skip cs = interpolate env' skip cs := by
  induction cs generalizing skip with
  | nil => cases skip <;> rfl
  | cons c cs ih =>
    have htail : ¬ refText name <:+: cs := fun ht => h (ht.trans (List.suffix_cons c cs).isInfix)
    cases skip with
    | succ skip => exact ih htail skip
    | zero =>
      rw [interpolate, interpolate]
      cases href : reference (c :: cs) with
      | none => simp only [ih htail]
      | some m =>
        have hne : String.ofList m ≠ String.ofList name := by
          intro he
          rw [String.ofList_inj] at he
          subst he
          exact h (refText_of_reference href).isInfix
        simp only [varOrDefault, henv _ hne, ih htail]

end Auxlry.Loader
