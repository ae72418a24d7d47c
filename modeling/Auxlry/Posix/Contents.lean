import Auxlry.Posix.Calls

/-!
# What files hold, and where paths lead

The files of a tree are a map from locations to what they hold. The calls that write change it
at one location at most; and since they remove nothing, a path that leads to something still
leads there afterwards.

* `write_cases`: **a write fails and changes nothing**, or puts its bytes where its path leads,
  if what is there keeps them.
* `createDirAll_content`: making directories changes no file.
-/

namespace Posix

variable {fs fs' : Fs} {cwd l m : Loc} {k : ℕ} {p : Path} {bytes : List UInt8}

/-- What a regular file holds, whether or not the process may read it. -/
def Node.holds : Node → Option (List UInt8)
  | .file bytes => some bytes
  | .restricted _ bytes => some bytes
  | _ => none

/-- The files, and what each holds. -/
def Fs.content (fs : Fs) (l : Loc) : Option (List UInt8) := (fs.node l).bind Node.holds

/-- **A write to a file replaces what it holds**; nothing else holds anything. -/
theorem Node.holds_written {n n' : Node} (h : n.written bytes = .ok n') :
    n'.holds = n.holds.map fun _ => bytes := by
  rcases Node.written_cases h with ⟨old, rfl, rfl⟩ | ⟨old, rfl, rfl⟩ | ⟨gives, rfl, rfl⟩
  · rfl
  · rfl
  · rfl

/-- A new directory is no file. -/
theorem Fs.content_put_dir (hm : fs.node m = none) : (fs.put m .dir).content = fs.content := by
  funext l
  unfold Fs.content
  by_cases hl : l = m
  · subst hl
    have hput : (fs.put l .dir).node l = some .dir ∨ (fs.put l .dir).node l = none := by
      unfold Fs.put
      split
      · exact .inl (Function.update_self ..)
      · exact .inr hm
    rw [hm]
    rcases hput with hput | hput
    · rw [hput]; rfl
    · rw [hput]
  · rw [Fs.put_ne hl]

/-- What was written is what the file holds; a device, a FIFO or a socket keeps nothing. -/
theorem Fs.content_put_written {n : Node} (hw : fs.written m bytes = .ok n) (h : (fs.put m n).node m = some n) :
    (fs.put m n).content m = none ∧ (fs.put m n).content = fs.content ∨
      (fs.put m n).content = Function.update fs.content m (some bytes) := by
  have hself : (fs.put m n).content m = n.holds := by
    unfold Fs.content
    rw [h, Option.bind_some]
  have hne : ∀ l, l ≠ m → (fs.put m n).content l = fs.content l := by
    intro l hl
    unfold Fs.content
    rw [Fs.put_ne hl]
  have hkept : n.holds = none ∧ fs.content m = none ∨ n.holds = some bytes := by
    unfold Fs.content
    cases hm : fs.node m with
    | none =>
      rw [Fs.written_of_none bytes hm] at hw
      cases hw
      exact .inr rfl
    | some old =>
      rw [Fs.written_of_some bytes hm] at hw
      rw [Option.bind_some, Node.holds_written hw]
      cases old.holds with
      | none => exact .inl ⟨rfl, rfl⟩
      | some held => exact .inr rfl
  rcases hkept with ⟨hn, hm⟩ | hn
  · refine .inl ⟨hself.trans hn, ?_⟩
    funext l
    by_cases hl : l = m
    · rw [hl, hself, hn, hm]
    · exact hne l hl
  · refine .inr ?_
    funext l
    by_cases hl : l = m
    · rw [hl, hself, hn, Function.update_self]
    · rw [hne l hl, Function.update_of_ne hl]

/-! ## Making directories -/

theorem mkdir_content (cs : List Component) : (mkdir cwd cs fs).fs.content = fs.content := by
  unfold mkdir
  split
  · rfl
  split
  · split
    · split
      · rfl
      · split
        · rename_i hnone
          exact Fs.content_put_dir hnone
        · rfl
      · rfl
    · rfl
  · rfl

theorem ensureDir_content (cs : List Component) : (ensureDir cwd cs fs).fs.content = fs.content := by
  have h : (mkdir cwd cs fs).fs.content = fs.content := mkdir_content cs
  unfold ensureDir
  split
  · rename_i he; rw [he] at h; exact h
  · split <;> rfl

theorem createDirAll_content (p : Path) : (createDirAll cwd p fs).fs.content = fs.content := by
  unfold createDirAll
  induction p.components.reverse with
  | nil => rfl
  | cons c ps ih =>
    unfold createDirAllRev
    split
    · unfold Out.andThen
      split
      · exact ih
      · exact (ensureDir_content _).trans ih
    · exact ensureDir_content _

/-! ## Paths that lead somewhere -/

/-- What leads to a location still does so on a tree that has grown. -/
theorem canonicalize_mono (hcwd : fs.IsDir cwd) (hx : fs.Extends fs') (h : canonicalize cwd p fs = .ok l) :
    canonicalize cwd p fs' = .ok l := by
  unfold canonicalize at h
  split at h
  · cases h
  split at h
  · cases h
  · rename_i hn hne
    split at h
    · rename_i l' k hw
      cases h
      refine canonicalize_of_walk (Bool.eq_false_iff.2 hn) hne (k := k) ?_
      rw [walk_mono hx hcwd (Walk.ne_missing hw), hw]
    · cases h

theorem canonicalize_alike (h : fs.Alike fs') : canonicalize cwd p fs' = canonicalize cwd p fs := by
  unfold canonicalize
  rw [walk_alike h]

/-- **What a write does**: nothing, or its bytes go to the location its path then leads to, and to no
other; and what led to something leads there still. -/
theorem write_cases (hcwd : fs.IsDir cwd) (p : Path) (bytes : List UInt8) :
    (∃ e, write cwd p bytes fs = .fail fs e) ∨
      ∃ l fs', write cwd p bytes fs = ⟨fs', [l], .ok ()⟩ ∧ canonicalize cwd p fs' = .ok l ∧
        (fs'.content l = none ∧ fs'.content = fs.content ∨
          fs'.content = Function.update fs.content l (some bytes)) ∧
        ∀ q m, canonicalize cwd q fs = .ok m → canonicalize cwd q fs' = .ok m := by
  by_cases hn : hasNul p.components = true
  · exact .inl ⟨_, if_pos hn⟩
  by_cases hne : p.components = []
  · exact .inl ⟨.notFound, by unfold write; rw [if_neg hn, if_pos hne]⟩
  cases ho : (walk fs maxLinks cwd p.os).opens fs with
  | none => exact .inl (write_opens_none bytes ho)
  | some l =>
    have hn := Bool.eq_false_iff.2 hn
    obtain ⟨n, hw⟩ := (Fs.takes_iff bytes).1 (Walk.takes_of_opens ho)
    obtain ⟨hnode, hleads⟩ := canonicalize_after hcwd hn hne ho hw
    have hwrite : write cwd p bytes fs = ⟨fs.put l n, [l], .ok ()⟩ :=
      (write_opens bytes hn hne ho).trans (Fs.writeAt_ok hw)
    refine .inr ⟨l, _, hwrite, hleads, Fs.content_put_written hw hnode, fun q m hq => ?_⟩
    cases hl : fs.node l with
    | none => exact canonicalize_mono hcwd (Fs.extends_put hl) hq
    | some old =>
      rw [Fs.written_of_some bytes hl] at hw
      rw [canonicalize_alike (Fs.alike_put hl hw)]
      exact hq

end Posix
