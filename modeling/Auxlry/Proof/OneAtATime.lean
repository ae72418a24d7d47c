import Auxlry.Proof.MemoryRows

/-!
# Memory calls that do not overlap

Calls of different ids do not meet in the table of memories. So it is enough that no id has
two calls at once: each call then finds the rows of its id as the one before has left them
(`Ready`, `Sole`).

* `unique_of_oneAtATime`: **calls that never overlap on an id** leave each memory one row, and
  none when it is deleted.
-/

namespace Auxlry

variable {V : Type}

namespace Deleting

open MemoryCalls

variable {s s' : Deleting V} {a : Action V}

/-- No other call of the id is running, and a call that deletes no rows has a new id. -/
def OneAtATime (s : Deleting V) : Action V → Prop
  | .start _ (.operation op) _ _ =>
    (∀ k op' e left, s.calls.call k = .running (.operation op') e left → op'.id ≠ op.id) ∧
      (SubStep.deleteRows ∉ op.program → s.deleted op.id = false ∧ ∀ row ∈ s.calls.stores.memories, row.id ≠ op.id)
  | _ => True

/-- What is left of an operation finds the rows as it needs them: an id that it is going to add a row
of is not deleted, and once it has deleted the rows there are none. -/
structure Ready (memories : Multiset (MemoryRow V)) (deleted : String → Bool) (op : MemoryOp)
    (left : List CallStep) : Prop where
  live : CallStep.sub .addRow ∈ left → deleted op.id = false
  cleared : CallStep.sub .deleteRows ∉ left → CallStep.sub .addRow ∈ left ∨ op = .toolDelete op.id →
    ∀ row ∈ memories, row.id ≠ op.id

/-- No id has two calls, and what is left of each finds the rows as it needs them. -/
structure Sole (call : ℕ → CallState V) (memories : Multiset (MemoryRow V)) (deleted : String → Bool) : Prop where
  alone : ∀ j k op op' e e' left left', call j = .running (.operation op) e left →
    call k = .running (.operation op') e' left' → j ≠ k → op.id ≠ op'.id
  ready : ∀ k op e left, call k = .running (.operation op) e left → Ready memories deleted op left

variable {memories : Multiset (MemoryRow V)} {deleted deleted' : String → Bool} {op op' : MemoryOp}
  {left rest : List CallStep}

/-- After its row is added, an operation adds none and has deleted what it deletes. -/
theorem addRow_suffix (h : (CallStep.sub .addRow :: rest) <:+ op.program.map .sub) :
    CallStep.sub .addRow ∉ rest ∧ CallStep.sub .deleteRows ∉ rest ∧ op ≠ .toolDelete op.id := by
  have htails := (List.mem_tails _ _).2 h
  cases op <;> simp [MemoryOp.program] at htails <;> simp [htails]

/-- The sub-steps of another operation. -/
theorem Ready.other (h : Ready memories deleted op left) {s : Stores V} (hs : s.memories = memories) (e : Env V)
    {q : SubStep} (hq : q ∈ op'.program) (hne : op.id ≠ op'.id) (hdeleted : deleted' op.id = deleted op.id) :
    Ready (s.write e op' q).memories deleted' op left := by
  refine ⟨fun hadd => hdeleted.trans (h.live hadd), fun hdel hor row hrow => ?_⟩
  subst hs
  rcases memories_write s e hq with ⟨-, hsame | hfilter⟩ | ⟨-, row', hid, hadd⟩
  · exact h.cleared hdel hor row (hsame ▸ hrow)
  · rw [hfilter] at hrow
    exact h.cleared hdel hor row (Multiset.mem_of_mem_filter hrow)
  · rw [hadd] at hrow
    rcases Multiset.mem_cons.1 hrow with rfl | hrow
    · rw [hid]
      exact hne.symm
    · exact h.cleared hdel hor row hrow

/-- The next sub-step of the operation itself. -/
theorem Ready.own {s : Stores V} {q : SubStep} (h : Ready s.memories deleted op (.sub q :: rest)) (e : Env V)
    (hq : q ∈ op.program) (hsuffix : (CallStep.sub q :: rest) <:+ op.program.map .sub) :
    Ready (s.write e op q).memories deleted op rest := by
  refine ⟨fun hadd => h.live (List.mem_cons_of_mem _ hadd), fun hdel hor row hrow => ?_⟩
  by_cases hq' : q = .addRow
  · subst hq'
    obtain ⟨hadd, -, hne⟩ := addRow_suffix hsuffix
    rcases hor with hor | hor
    · exact absurd hor hadd
    · exact absurd hor hne
  by_cases hq'' : q = .deleteRows
  · subst hq''
    exact (Multiset.mem_filter.1 hrow).2
  have hold : ∀ row ∈ s.memories, row.id ≠ op.id := by
    refine h.cleared (fun hmem => ?_) (hor.imp_left (List.mem_cons_of_mem _))
    rcases List.mem_cons.1 hmem with he | hmem
    · cases he
      exact hq'' rfl
    · exact hdel hmem
  rcases memories_write s e hq with ⟨-, hsame | hfilter⟩ | ⟨hadd, -⟩
  · exact hold row (hsame ▸ hrow)
  · rw [hfilter] at hrow
    exact hold row (Multiset.mem_of_mem_filter hrow)
  · exact absurd hadd hq'

/-- One call goes on, and the others are as they were. -/
theorem Sole.update {call : ℕ → CallState V} {memories' : Multiset (MemoryRow V)} {k : ℕ} {c : CallState V}
    (h : Sole call memories deleted)
    (hothers : ∀ j op e left, call j = .running (.operation op) e left → j ≠ k →
      Ready memories deleted op left → Ready memories' deleted' op left)
    (hown : ∀ op e left, c = .running (.operation op) e left → Ready memories' deleted' op left ∧
      ∀ j op' e' left', call j = .running (.operation op') e' left' → j ≠ k → op'.id ≠ op.id) :
    Sole (Function.update call k c) memories' deleted' := by
  constructor
  · intro i j op op' e e' left left' hi hj hne
    rcases eq_or_ne i k with rfl | hik
    · rw [Function.update_self] at hi
      rw [Function.update_of_ne hne.symm] at hj
      exact ((hown op e left hi).2 j op' e' left' hj hne.symm).symm
    · rw [Function.update_of_ne hik] at hi
      rcases eq_or_ne j k with rfl | hjk
      · rw [Function.update_self] at hj
        exact (hown op' e' left' hj).2 i op e left hi hik
      · rw [Function.update_of_ne hjk] at hj
        exact h.alone i j op op' e e' left left' hi hj hne
  · intro j op e left hj
    rcases eq_or_ne j k with rfl | hjk
    · rw [Function.update_self] at hj
      exact (hown op e left hj).1
    · rw [Function.update_of_ne hjk] at hj
      exact hothers j op e left hj hjk (h.ready j op e left hj)

/-- The ids that a call is not about stay deleted or not. -/
theorem deletedAfter_ne {k : ℕ} {e : Env V} {result : Except String Unit}
    (running : s.calls.call k = .running (.operation op) e left) {id : String} (hne : id ≠ op.id) :
    s.deletedAfter (.sub k result) id = s.deleted id := by
  cases result with
  | error => rfl
  | ok =>
    -- only the last sub-step of a delete
    rcases op with _ | _ | _ | id'
    · simp only [deletedAfter, running]
    · simp only [deletedAfter, running]
    · simp only [deletedAfter, running]
    · rcases left with _ | ⟨p, _ | ⟨q, rest⟩⟩
      · simp only [deletedAfter, running]
      · simp only [deletedAfter, running]
        exact Function.update_of_ne hne ..
      · simp only [deletedAfter, running]

/-- A call that goes on deletes nothing. -/
theorem deletedAfter_continues {k : ℕ} {e : Env V} {p q : CallStep} {result : Except String Unit} {call : MemoryCall}
    (running : s.calls.call k = .running call e (p :: q :: rest)) : s.deletedAfter (.sub k result) = s.deleted := by
  cases result with
  | error => rfl
  | ok => simp only [deletedAfter, running]

theorem sole_start {k : ℕ} {call : MemoryCall} {now : String} {vector : V} {c : CallState V}
    (hS : Sole s.calls.call s.calls.stores.memories s.deleted) (hg : s.OneAtATime (.start k call now vector))
    (hc : ∀ op e left, c = .running (.operation op) e left → call = .operation op ∧ left = op.program.map .sub) :
    Sole (Function.update s.calls.call k c) s.calls.stores.memories
      (s.deletedAfter (.start k call now vector)) := by
  refine hS.update (fun j op e left running _ hready => ⟨fun hadd => ?_, hready.cleared⟩) fun op e left he => ?_
  · -- a start takes ids out of the deleted ones only
    have hlive := hready.live hadd
    rcases call with (_ | _ | ⟨id, content, memoryType⟩ | _) | _ | _
    · exact hlive
    · exact hlive
    · rcases eq_or_ne op.id id with heq | hne
      · exact (congrArg _ heq).trans (Function.update_self ..)
      · exact (Function.update_of_ne hne ..).trans hlive
    · exact hlive
    · exact hlive
    · exact hlive
  · obtain ⟨rfl, rfl⟩ := hc op e left he
    obtain ⟨hothers, hnew⟩ := hg
    refine ⟨?_, fun j op' e' left' running _ => hothers j op' e' left' running⟩
    cases op with
    | toolUpdate id content memoryType =>
      exact ⟨fun _ => Function.update_self .., fun hdel => absurd (by simp [MemoryOp.program]) hdel⟩
    | toolDelete id =>
      exact ⟨fun hadd => absurd hadd (by simp [MemoryOp.program]), fun hdel => absurd (by simp [MemoryOp.program]) hdel⟩
    | toolStore | httpStore =>
      obtain ⟨hlive, hnone⟩ := hnew (by simp [MemoryOp.program])
      exact ⟨fun _ => hlive, fun _ _ => hnone⟩

/-- A sub-step of the call `k` that has written `memories'`, and what is left. -/
theorem sole_proceed {memories' : Multiset (MemoryRow V)} {k : ℕ} {e : Env V} {p : CallStep} {call : MemoryCall}
    (result : Except String Unit) {c : CallState V} (hS : Sole s.calls.call s.calls.stores.memories s.deleted)
    (running : s.calls.call k = .running call e (p :: rest))
    (hothers : ∀ op left, Ready s.calls.stores.memories s.deleted op left →
      (∀ op', call = .operation op' → op.id ≠ op'.id) →
      Ready memories' (s.deletedAfter (.sub k result)) op left)
    (hown : ∀ op e' left, c = .running (.operation op) e' left →
      call = .operation op ∧ Ready memories' (s.deletedAfter (.sub k result)) op left) :
    Sole (Function.update s.calls.call k c) memories' (s.deletedAfter (.sub k result)) := by
  refine hS.update (fun j op e' left hj hjk hready => hothers op left hready ?_) fun op e' left he => ?_
  · rintro op' rfl
    exact hS.alone j k op op' e' e left _ hj running hjk
  · obtain ⟨rfl, hready⟩ := hown op e' left he
    exact ⟨hready, fun j op' e'' left' hj hjk => hS.alone j k op' op e'' e left' _ hj running hjk⟩

theorem sole_step (hJ : s.calls.Scripted) (hS : Sole s.calls.call s.calls.stores.memories s.deleted)
    (hg : s.OneAtATime a) (h : s.step a = some s') : Sole s'.calls.call s'.calls.stores.memories s'.deleted := by
  obtain ⟨calls, hcalls, rfl⟩ := Option.map_eq_some_iff.1 h
  cases step_move hcalls with
  | @start k call now vector left absent starts =>
    refine sole_start hS hg fun op e left' he => ?_
    cases he
    cases starts
    exact ⟨rfl, rfl⟩
  | @refused k call now vector reply =>
    refine sole_start hS hg fun op e left' he => ?_
    cases he
  | @failed k call e p rest text running =>
    refine sole_proceed (.error text) hS running (fun op left hready _ => hready) fun op e' left he => ?_
    cases he
  | @dropped k call e p rest text running drops =>
    cases rest with
    | nil =>
      refine sole_proceed (.error text) hS running (fun op left hready _ => hready) fun op e' left he => ?_
      cases he
    | cons q rest =>
      refine sole_proceed (.error text) hS running (fun op left hready _ => hready) fun op e' left he => ?_
      cases he
      obtain ⟨p, rfl, hp, hsuffix⟩ := hJ.next running
      have hready := (hS.ready k op e _ running).own e hp hsuffix
      refine ⟨rfl, ?_⟩
      -- only the metadata of a store may be dropped
      cases p <;> cases op <;> first | exact hready | cases drops
  | @done k call e p rest running =>
    cases call with
    | operation op =>
      obtain ⟨p, rfl, hp, hsuffix⟩ := hJ.next running
      have hothers : ∀ op' left, Ready s.calls.stores.memories s.deleted op' left →
          (∀ op'', MemoryCall.operation op = .operation op'' → op'.id ≠ op''.id) →
          Ready (s.calls.stores.write e op p).memories (s.deletedAfter (.sub k (.ok ()))) op' left := by
        intro op' left hready hne
        exact hready.other rfl e hp (hne op rfl) (deletedAfter_ne running (hne op rfl))
      cases rest with
      | nil =>
        refine sole_proceed (.ok ()) hS running hothers fun op' e' left he => ?_
        cases he
      | cons q rest =>
        refine sole_proceed (.ok ()) hS running hothers fun op' e' left he => ?_
        cases he
        rw [deletedAfter_continues running]
        exact ⟨rfl, (hS.ready k op e _ running).own e hp hsuffix⟩
    | toolCreateEdge | httpCreateEdge =>
      have hdeleted : s.deletedAfter (.sub k (.ok ())) = s.deleted := by simp only [deletedAfter, running]
      rw [stores_proceed, memories_write_edge s.calls (fun op h => by cases h)]
      cases rest <;>
      · unfold MemoryCalls.proceed setCall
        dsimp only
        rw [call_write]
        refine sole_proceed (.ok ()) hS running (fun op left hready _ => hdeleted ▸ hready) fun op e' left he => ?_
        cases he

/-- So a row is added where its id has none, and a delete returns where its id has none. -/
theorem addsAlone_of_sole (hJ : s.calls.Scripted) (hS : Sole s.calls.call s.calls.stores.memories s.deleted)
    (a : Action V) : s.AddsAlone a := by
  unfold AddsAlone
  split
  · split
    · rename_i id e p running
      obtain ⟨q, rfl, -, hsuffix⟩ := hJ.next running
      obtain rfl := delete_last hsuffix
      exact (hS.ready _ _ e _ running).cleared (by simp) (.inr rfl)
    · rename_i e rest _ running
      obtain ⟨q, hq, -, hsuffix⟩ := hJ.next running
      cases hq
      obtain ⟨-, hdel, -⟩ := addRow_suffix hsuffix
      have hready := hS.ready _ _ _ _ running
      exact ⟨hready.live List.mem_cons_self, hready.cleared (by simpa using hdel) (.inl List.mem_cons_self)⟩
    · trivial
  · trivial

/-- **Calls that never overlap on an id** keep the rows unique. -/
theorem unique_of_oneAtATime (stores : Stores V) (hstores : (stores.memories.map (·.id)).Nodup) (edgeSeq : ℕ)
    (as : List (Action V)) (hone : ∀ t a, Sys.Takes step (init stores edgeSeq) as t a → t.OneAtATime a)
    {t : Deleting V} (h : Sys.Visits step (init stores edgeSeq) as t) : t.RowsUnique := by
  have hstart : Sole (init stores edgeSeq).calls.call stores.memories (init stores edgeSeq).deleted := by
    constructor
    · intro j k op op' e e' left left' hj
      cases hj
    · intro k op e left hk
      cases hk
  have hinv : t.calls.Scripted ∧ Sole t.calls.call t.calls.stores.memories t.deleted ∧ t.RowsUnique := by
    refine h.inv_of (P := fun s : Deleting V => s.calls.Scripted ∧
      Sole s.calls.call s.calls.stores.memories s.deleted ∧ s.RowsUnique) hone (fun s a s' hs hg hstep => ?_)
      ⟨scripted_init stores edgeSeq, hstart, hstores, fun id hid => by cases hid⟩
    obtain ⟨hJ, hS, hP⟩ := hs
    have hscripted : s'.calls.Scripted := by
      obtain ⟨calls, hcalls, rfl⟩ := Option.map_eq_some_iff.1 hstep
      exact hJ.step hcalls
    exact ⟨hscripted, sole_step hJ hS hg hstep, (unique_step hJ hP hstep).2 (addsAlone_of_sole hJ hS a)⟩
  exact hinv.2.2

end Deleting

end Auxlry
