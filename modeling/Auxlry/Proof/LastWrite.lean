import Auxlry.Posix.Contents
import Auxlry.Proof.Proxy
import Auxlry.Proof.ReadBack
import Auxlry.Spec.NodeDisk

/-!
# The last write

Whatever happens to its connection, a node is a store of files: what it was asked for is done
one operation after another, and a file holds what was written to it last. Two paths may lead to
one file, and where they lead does not change as long as nothing but writes, reads and listings
happens (`Happening.Quiet`).

* `LocalNode.writeFile_cases`: what one write does to the files, and to the paths.
* `Sequential.content`: **what a file holds** after any number of operations.
* `Served.reads_last_write`: what a caller on the connection reads.
-/

namespace Auxlry

open Posix

namespace LocalNode

variable {n : LocalNode} {d : Disk} {path content : String}

/-- The bytes have been written to a location: a file there holds them, and anything else nothing. -/
def Holds (fs fs' : Fs) (l : Loc) (bytes : List UInt8) : Prop :=
  fs'.content l = none ∧ fs'.content = fs.content ∨ fs'.content = Function.update fs.content l (some bytes)

/-- Directories are made; nothing is written, or the bytes go where the path then leads to. -/
theorem save_cases (p : Path) (content : String) :
    (∀ q m, Posix.canonicalize d.cwd q d.fs = .ok m → Posix.canonicalize d.cwd q (save d p content).fs = .ok m) ∧
      ((save d p content).result ≠ .ok () ∧ (save d p content).fs.content = d.fs.content ∨
        (save d p content).result = .ok () ∧ ∃ l, Posix.canonicalize d.cwd p (save d p content).fs = .ok l ∧
          Holds d.fs (save d p content).fs l (Utf8.bytes content)) := by
  have hx : d.fs.Extends (makeParent d p).fs := makeParent_extends p
  have hmade : (makeParent d p).fs.content = d.fs.content := by
    unfold makeParent
    split
    · exact createDirAll_content _
    · rfl
  have hcwd : (makeParent d p).fs.IsDir d.cwd := hx _ _ d.cwdDir
  have hkeeps : ∀ q m, Posix.canonicalize d.cwd q d.fs = .ok m →
      Posix.canonicalize d.cwd q (makeParent d p).fs = .ok m := fun q m => canonicalize_mono d.cwdDir hx
  unfold save
  generalize makeParent d p = made at hmade hcwd hkeeps
  obtain ⟨fs, ts, res⟩ := made
  dsimp only at hmade hcwd hkeeps
  cases res with
  | error e => exact ⟨hkeeps, .inl ⟨(by intro h; cases h), hmade⟩⟩
  | ok u =>
    unfold Out.andThen
    dsimp only
    rcases write_cases hcwd p (Utf8.bytes content) with ⟨e, hw⟩ | ⟨l, fs', hw, hleads, hcontent, hkeeps'⟩
    · rw [hw]
      exact ⟨hkeeps, .inl ⟨(by intro h; cases h), hmade⟩⟩
    · rw [hw]
      refine ⟨fun q m hq => hkeeps' q m (hkeeps q m hq), .inr ⟨rfl, l, hleads, ?_⟩⟩
      unfold Holds
      rw [← hmade]
      exact hcontent

/-- **What a write does**: a path that leads to something leads there afterwards; and the write
fails and leaves every file as it was, or its text goes to where its path then leads. -/
theorem writeFile_cases (n : LocalNode) (d : Disk) (path content : String) :
    (∀ q m, Posix.canonicalize d.cwd q d.fs = .ok m →
        Posix.canonicalize d.cwd q (n.writeFile d path content).fs = .ok m) ∧
      ((n.writeFile d path content).result ≠ .ok () ∧ (n.writeFile d path content).fs.content = d.fs.content ∨
        (n.writeFile d path content).result = .ok () ∧ ∃ l,
          Posix.canonicalize d.cwd (.parse path) (n.writeFile d path content).fs = .ok l ∧
          Holds d.fs (n.writeFile d path content).fs l (Utf8.bytes content)) := by
  cases hc : n.checkSandbox d path with
  | error e =>
    rw [writeFile_refused hc]
    exact ⟨fun _ _ h => h, .inl ⟨(by intro h; cases h), rfl⟩⟩
  | ok p =>
    obtain ⟨hfs, -, hiff⟩ := writeFile_checked content hc
    have hp : p = resolve d path := by
      unfold checkSandbox at hc
      split at hc
      · split at hc
        · cases hc; rfl
        · cases hc
      · cases hc; rfl
    subst hp
    obtain ⟨hkeeps, hcases⟩ := save_cases (d := d) (resolve d path) content
    rw [hfs, Ne, hiff]
    refine ⟨hkeeps, hcases.imp_right ?_⟩
    rintro ⟨hok, l, hleads, hcontent⟩
    refine ⟨hok, l, ?_, hcontent⟩
    cases hpath : Posix.canonicalize d.cwd (.parse path) d.fs with
    | error e =>
      rw [resolve_eq_error hpath] at hleads ⊢
      exact hleads
    | ok m =>
      -- what was written is the file the path had led to
      have hkept := hkeeps _ _ hpath
      rw [resolve_eq_ok hpath] at hleads hkept
      let d' : Disk := ⟨(save d (ofLoc m) content).fs, d.cwd, save_cwdDir _⟩
      obtain ⟨-, k, hw⟩ := canonicalize_ok hkept
      obtain ⟨nd, hnd, hlink⟩ := walk_found d'.cwdDir Node.dir_ne_symlink hw
      have hsame : l = m := canonicalize_ofLoc (d := d') hnd hlink hleads
      rw [resolve_eq_ok hpath, hsame]
      exact hkept

end LocalNode

/-! ## One operation after another -/

/-- What happened is what the operations of `m` do on one disk after another, from `d` to the last. -/
inductive Sequential (m : NodeHost) : Disk → List Happening → Disk → Prop
  | nil (d : Disk) : Sequential m d [] d
  | operation {d d' d'' : Disk} {es : List Happening} {sh : ShellEffect} (i : ℕ) {call : NodeCall}
      (hd : d.change (m.leaves sh d call) = some d') (h : Sequential m d' es d'') :
      Sequential m d (⟨d, some ⟨i, call, m.executor sh d call⟩⟩ :: es) d''
  | outside {d d' d'' : Disk} {es : List Happening} {fs : Fs} (hd : d.change fs = some d')
      (h : Sequential m d' es d'') : Sequential m d (⟨d, none⟩ :: es) d''

namespace Happening

/-- An operation that is no command. -/
def Quiet (e : Happening) : Prop := ∃ x, e.operation = some x ∧ ∀ command cwd, x.call ≠ .runCommand command cwd

/-- The text of a write that succeeded, if its path leads to `l` on the disk `d`. -/
def writes (d : Disk) (l : Loc) (e : Happening) : Option String :=
  match e.operation with
  | some ⟨_, .writeFile path content, .ok ()⟩ =>
    if Posix.canonicalize d.cwd (.parse path) d.fs = .ok l then some content else none
  | _ => none

end Happening

/-- The text that was last written to `l`. -/
def lastWritten (d : Disk) (l : Loc) (es : List Happening) : Option String :=
  (es.filterMap (·.writes d l)).getLast?

/-- The working directory is the same, and paths that led to something lead there still. -/
def Disk.Keeps (d d' : Disk) : Prop :=
  d'.cwd = d.cwd ∧ ∀ q k, Posix.canonicalize d.cwd q d.fs = .ok k → Posix.canonicalize d'.cwd q d'.fs = .ok k

theorem Disk.Keeps.refl (d : Disk) : d.Keeps d := ⟨rfl, fun _ _ h => h⟩

theorem Disk.Keeps.trans {d d' d'' : Disk} (h : d.Keeps d') (h' : d'.Keeps d'') : d.Keeps d'' :=
  ⟨h'.1.trans h.1, fun q k hq => h'.2 q k (h.2 q k hq)⟩

namespace Sequential

variable {m : NodeHost} {d d' d'' : Disk} {es es' : List Happening} {e : Happening}

theorem append (h : Sequential m d es d') (h' : Sequential m d' es' d'') : Sequential m d (es ++ es') d'' := by
  induction h with
  | nil d => exact h'
  | operation i hd _ ih => exact .operation i hd (ih h')
  | outside hd _ ih => exact .outside hd (ih h')

theorem change_eq {d : Disk} {fs : Fs} (h : d.change fs = some d') : d'.fs = fs ∧ d'.cwd = d.cwd := by
  unfold Disk.change at h
  split at h
  · cases h; exact ⟨rfl, rfl⟩
  · cases h

/-- **One quiet operation**: it loses no path, and every file is as it was, but for the one that a
write that succeeds leads to, then and later. -/
theorem quiet_step {sh : ShellEffect} {i : ℕ} {call : NodeCall}
    (hquiet : Happening.Quiet ⟨d, some ⟨i, call, m.executor sh d call⟩⟩)
    (hd : d.change (m.leaves sh d call) = some d') :
    d.Keeps d' ∧ ∀ last, d'.Keeps last → ∀ l held, d'.fs.content l = some held →
      ((Happening.writes last l ⟨d, some ⟨i, call, m.executor sh d call⟩⟩).map Utf8.bytes).or
        (d.fs.content l) = some held := by
  obtain ⟨hfs, hcwd⟩ := change_eq hd
  cases call with
  | runCommand command cwd =>
    obtain ⟨x, hx, hne⟩ := hquiet
    cases hx
    exact absurd rfl (hne command cwd)
  | readFile | listDir | searchFiles =>
    refine ⟨⟨hcwd, fun q k hq => ?_⟩, fun last _ l held hheld => ?_⟩
    · rw [hfs, hcwd]
      exact hq
    · rw [hfs] at hheld
      exact hheld
  | writeFile path content =>
    obtain ⟨hkeeps, hcases⟩ := LocalNode.writeFile_cases m.node d path content
    have hfs : d'.fs = (m.node.writeFile d path content).fs := hfs
    refine ⟨⟨hcwd, fun q k hq => ?_⟩, fun last hlast l held hheld => ?_⟩
    · rw [hfs, hcwd]
      exact hkeeps q k hq
    · unfold Happening.writes
      dsimp only [NodeHost.executor]
      rw [hfs] at hheld
      rcases hcases with ⟨hfail, hcontent⟩ | ⟨hok, k, hleads, hholds⟩
      · cases hr : (m.node.writeFile d path content).result with
        | ok u => exact absurd hr hfail
        | error e =>
          rw [hcontent] at hheld
          exact hheld
      · rw [hok]
        rw [← hfs, ← hcwd] at hleads
        have hlater := hlast.2 _ _ hleads
        have hother : l ≠ k → d.fs.content l = some held := by
          intro hl
          rcases hholds with ⟨-, hsame⟩ | hupdate
          · rwa [hsame] at hheld
          · rwa [hupdate, Function.update_of_ne hl] at hheld
        dsimp only
        by_cases hl : l = k
        · -- the file that was written to
          subst hl
          rw [if_pos hlater]
          rcases hholds with ⟨hnone, -⟩ | hupdate
          · rw [hnone] at hheld
            cases hheld
          · rwa [hupdate, Function.update_self] at hheld
        · have hne : Posix.canonicalize last.cwd (.parse path) last.fs ≠ .ok l := by
            intro hl'
            rw [hlater] at hl'
            cases hl'
            exact hl rfl
          rw [if_neg hne]
          exact hother hl

theorem lastWritten_cons (last : Disk) (l : Loc) (e : Happening) (es : List Happening) :
    lastWritten last l (e :: es) = (lastWritten last l es).or (e.writes last l) := by
  unfold lastWritten
  cases h : e.writes last l with
  | none => rw [List.filterMap_cons_none h, Option.or_none]
  | some text =>
    rw [List.filterMap_cons_some h, List.getLast?_cons]
    cases (es.filterMap (·.writes last l)).getLast? <;> rfl

/-- **What a file holds** after quiet operations: the text last written to it, or what it held. -/
theorem content (h : Sequential m d es d') (hquiet : ∀ e ∈ es, e.Quiet) :
    d.Keeps d' ∧ ∀ last, d'.Keeps last → ∀ l held, d'.fs.content l = some held →
      ((lastWritten last l es).map Utf8.bytes).or (d.fs.content l) = some held := by
  induction h with
  | nil d => exact ⟨.refl d, fun last _ l held hheld => hheld⟩
  | operation i hd h ih =>
    obtain ⟨hkeeps, hstep⟩ := quiet_step (hquiet _ List.mem_cons_self) hd
    obtain ⟨hkeeps', hrest⟩ := ih fun e he => hquiet e (List.mem_cons_of_mem _ he)
    refine ⟨hkeeps.trans hkeeps', fun last hlast l held hheld => ?_⟩
    have hlater := hrest last hlast l held hheld
    rw [lastWritten_cons, Option.map_or, Option.or_assoc]
    cases hlast' : lastWritten last l _ with
    | some text =>
      rw [hlast'] at hlater
      exact hlater
    | none =>
      rw [hlast'] at hlater
      exact hstep last (hkeeps'.trans hlast) l held hlater
  | outside hd h ih =>
    obtain ⟨x, hx, -⟩ := hquiet _ List.mem_cons_self
    cases hx

end Sequential

/-! ## The connection -/

/-- Only handling a message executes something. -/
theorem Proxy.executed_eq {codec : Bincode} {debug : ProtocolMessage → String} {d : Dispatcher} {s s' : Proxy}
    {a : Proxy.Action} (h : Proxy.step codec debug d s a = some s') (ha : ∀ node, a ≠ .handle node) : s'.executed = s.executed := by
  cases a with
  | handle node => exact absurd rfl (ha node)
  | request call room =>
    simp only [Proxy.step] at h
    split at h <;> cases h
    rfl
  | arriveRequest | arriveResponse | breakRequest | breakResponse | close =>
    cases h
    rfl
  | accept =>
    simp only [Proxy.step] at h
    split at h
    · split at h <;> cases h
      rfl
    · cases h
  | recv =>
    simp only [Proxy.step] at h
    split at h
    · obtain ⟨received, -, rfl⟩ := Option.map_eq_some_iff.1 h
      cases received <;> rfl
    · cases h
  | respond room =>
    simp only [Proxy.step] at h
    split at h <;> cases h
    rfl
  | exit =>
    simp only [Proxy.step] at h
    split at h
    · split at h <;> cases h
      rfl
    · cases h
  | receive i =>
    simp only [Proxy.step] at h
    obtain ⟨c, -, h⟩ := Option.bind_eq_some_iff.1 h
    split at h
    · cases h
    · obtain ⟨received, -, rfl⟩ := Option.map_eq_some_iff.1 h
      rfl

namespace Served

variable {codec : Bincode} {debug : ProtocolMessage → String} {d : Dispatcher} {m : NodeHost} {s s' : Served}
  {disk : Disk} {a : Action}

/-- The history is what the peer executed, and how the disk became what it is. -/
structure Recorded (m : NodeHost) (disk : Disk) (s : Served) : Prop where
  sequential : Sequential m disk s.history s.disk
  executed : s.proxy.executed = s.history.filterMap (·.operation)

/-- **What a step does**: one of the connection, in which the node does one thing at most, or a
change from outside. -/
theorem step_cases (h : s.step codec debug d m a = some s') :
    ((∃ b, Proxy.step codec debug d s.proxy b = some s'.proxy) ∧ s'.disk = s.disk ∧ s'.history = s.history ∧
        s'.proxy.executed = s.proxy.executed) ∨
      (∃ b, Proxy.step codec debug d s.proxy b = some s'.proxy) ∧ (∃ sh i call,
        s.disk.change (m.leaves sh s.disk call) = some s'.disk ∧
        s'.history = s.history ++ [⟨s.disk, some ⟨i, call, m.executor sh s.disk call⟩⟩] ∧
        s'.proxy.executed = s.proxy.executed ++ [⟨i, call, m.executor sh s.disk call⟩]) ∨
      s'.proxy = s.proxy ∧ (∃ fs, s.disk.change fs = some s'.disk) ∧
        s'.history = s.history ++ [⟨s.disk, none⟩] := by
  cases a with
  | connection b =>
    have hb : (∀ node, b ≠ .handle node) ∧
        (Proxy.step codec debug d s.proxy b).map (fun proxy => { s with proxy := proxy }) = some s' := by
      cases b <;> simp_all [step]
    obtain ⟨hne, h⟩ := hb
    obtain ⟨proxy, hproxy, rfl⟩ := Option.map_eq_some_iff.1 h
    exact .inl ⟨⟨b, hproxy⟩, rfl, rfl, Proxy.executed_eq hproxy hne⟩
  | handle sh =>
    simp only [step] at h
    split at h
    · rename_i i msg hphase
      obtain ⟨proxy, hproxy, h⟩ := Option.bind_eq_some_iff.1 h
      have hexecuted : proxy.executed =
          s.proxy.executed ++ msg.asked.toList.map fun call => ⟨i, call, m.executor sh s.disk call⟩ := by
        simp only [Proxy.step, hphase] at hproxy
        cases hproxy
        rfl
      cases hasked : msg.asked with
      | none =>
        rw [hasked] at h hexecuted
        cases h
        exact .inl ⟨⟨_, hproxy⟩, rfl, rfl, hexecuted.trans (List.append_nil _)⟩
      | some call =>
        rw [hasked] at h hexecuted
        obtain ⟨disk, hdisk, rfl⟩ := Option.map_eq_some_iff.1 h
        exact .inr (.inl ⟨⟨_, hproxy⟩, sh, i, call, hdisk, rfl, hexecuted⟩)
    · cases h
  | outside fs =>
    simp only [step] at h
    obtain ⟨disk, hdisk, rfl⟩ := Option.map_eq_some_iff.1 h
    exact .inr (.inr ⟨rfl, ⟨fs, hdisk⟩, rfl⟩)

theorem Recorded.step (hR : Recorded m disk s) (h : s.step codec debug d m a = some s') : Recorded m disk s' := by
  obtain ⟨hsequential, hexecuted⟩ := hR
  rcases step_cases h with ⟨-, hdisk, hhistory, hexec⟩ | ⟨-, sh, i, call, hdisk, hhistory, hexec⟩ |
    ⟨hproxy, ⟨fs, hdisk⟩, hhistory⟩
  · refine ⟨?_, ?_⟩
    · rw [hdisk, hhistory]
      exact hsequential
    · rw [hexec, hhistory]
      exact hexecuted
  · refine ⟨?_, ?_⟩
    · rw [hhistory]
      exact hsequential.append (.operation i hdisk (.nil _))
    · rw [hexec, hhistory, hexecuted, List.filterMap_append]
      rfl
  · refine ⟨?_, ?_⟩
    · rw [hhistory]
      exact hsequential.append (.outside hdisk (.nil _))
    · rw [hproxy, hhistory, hexecuted, List.filterMap_append]
      exact (List.append_nil _).symm

end Served

end Auxlry
