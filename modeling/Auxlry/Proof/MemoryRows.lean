import Auxlry.Proof.MemoryCalls
import Mathlib.Data.Multiset.Dedup

/-!
# One row for each memory

The table of memories has no key. An update deletes the rows of its id and adds one after it
has embedded the new content; other calls come in between. `deleted` is bookkeeping: the ids
for which a delete has returned, and no update has started since.

* `unique_iff`: no id has two rows, and none that is deleted has one, **exactly in the runs
  where** a row is added only if its id has none and is not deleted, and a delete returns
  only when its id has none.
* `updates_duplicate`, `update_restores`: two updates of a memory, and an update and a delete.
-/

namespace Auxlry

variable {V : Type}

/-- The rows of the ids are unique, and there is none for what is deleted. -/
structure Unique (memories : Multiset (MemoryRow V)) (deleted : String → Bool) : Prop where
  nodup : (memories.map (·.id)).Nodup
  gone : ∀ id, deleted id = true → ∀ row ∈ memories, row.id ≠ id

namespace Unique

variable {memories : Multiset (MemoryRow V)} {deleted : String → Bool}

theorem cons_iff (h : Unique memories deleted) (row : MemoryRow V) :
    Unique (row ::ₘ memories) deleted ↔ deleted row.id = false ∧ ∀ r ∈ memories, r.id ≠ row.id := by
  constructor
  · rintro ⟨hnodup, hgone⟩
    rw [Multiset.map_cons, Multiset.nodup_cons, Multiset.mem_map] at hnodup
    refine ⟨?_, fun r hr he => hnodup.1 ⟨r, hr, he⟩⟩
    by_contra hdeleted
    exact hgone row.id (by simpa using hdeleted) row (Multiset.mem_cons_self ..) rfl
  · rintro ⟨hdeleted, hnew⟩
    refine ⟨?_, fun id hid r hr => ?_⟩
    · rw [Multiset.map_cons, Multiset.nodup_cons, Multiset.mem_map]
      refine ⟨?_, h.nodup⟩
      rintro ⟨r, hr, he⟩
      exact hnew r hr he
    · rcases Multiset.mem_cons.1 hr with rfl | hr
      · rintro rfl
        rw [hdeleted] at hid
        cases hid
      · exact h.gone id hid r hr

theorem filter (h : Unique memories deleted) (p : MemoryRow V → Prop) [DecidablePred p] :
    Unique (memories.filter p) deleted where
  nodup := Multiset.nodup_of_le (Multiset.map_le_map (Multiset.filter_le p memories)) h.nodup
  gone := fun id hid row hrow => h.gone id hid row (Multiset.mem_of_mem_filter hrow)

theorem delete_iff (h : Unique memories deleted) (id : String) :
    Unique memories (Function.update deleted id true) ↔ ∀ row ∈ memories, row.id ≠ id := by
  constructor
  · intro h'
    exact h'.gone id (Function.update_self ..)
  · intro hnone
    refine ⟨h.nodup, fun id' hid' => ?_⟩
    rcases eq_or_ne id' id with rfl | hne
    · exact hnone
    · rw [Function.update_of_ne hne] at hid'
      exact h.gone id' hid'

theorem update (h : Unique memories deleted) (id : String) :
    Unique memories (Function.update deleted id false) := by
  refine ⟨h.nodup, fun id' hid' => ?_⟩
  rcases eq_or_ne id' id with rfl | hne
  · rw [Function.update_self] at hid'
    cases hid'
  · rw [Function.update_of_ne hne] at hid'
    exact h.gone id' hid'

end Unique

/-- What a sub-step does to the rows of an operation that has it. -/
theorem memories_write (s : Stores V) (e : Env V) {op : MemoryOp} {p : SubStep} (hp : p ∈ op.program) :
    p ≠ .addRow ∧ ((s.write e op p).memories = s.memories ∨
        (s.write e op p).memories = s.memories.filter (·.id ≠ op.id)) ∨
      p = .addRow ∧ ∃ row, row.id = op.id ∧ (s.write e op p).memories = row ::ₘ s.memories := by
  cases p with
  | addRow =>
    right
    refine ⟨rfl, ?_⟩
    cases op with
    | toolDelete id => simp [MemoryOp.program] at hp
    | toolStore | httpStore | toolUpdate => exact ⟨_, rfl, rfl⟩
  | deleteRows =>
    refine .inl ⟨fun h => ?_, .inr rfl⟩
    cases h
  | _ =>
    refine .inl ⟨fun h => ?_, .inl (by cases op <;> rfl)⟩
    cases h

/-- Calls, with the ids that are deleted. -/
structure Deleting (V : Type) where
  calls : MemoryCalls V
  deleted : String → Bool

namespace Deleting

def init (stores : Stores V) (edgeSeq : ℕ) : Deleting V := ⟨.init stores edgeSeq, fun _ => false⟩

/-- The ids deleted after a step: a delete returns, or an update starts. -/
def deletedAfter (s : Deleting V) : MemoryCalls.Action V → String → Bool
  | .start _ (.operation (.toolUpdate id ..)) _ _ => Function.update s.deleted id false
  | .sub k (.ok ()) =>
    match s.calls.call k with
    | .running (.operation (.toolDelete id)) _ [_] => Function.update s.deleted id true
    | _ => s.deleted
  | _ => s.deleted

/-- A step of the calls. -/
def step (s : Deleting V) (a : MemoryCalls.Action V) : Option (Deleting V) :=
  (s.calls.step a).map fun calls => ⟨calls, s.deletedAfter a⟩

def RowsUnique (s : Deleting V) : Prop := Unique s.calls.stores.memories s.deleted

/-- A row is added where its id has none and is not deleted, and a delete returns where its id
has none. -/
def AddsAlone (s : Deleting V) : MemoryCalls.Action V → Prop
  | .sub k (.ok ()) =>
    match s.calls.call k with
    | .running (.operation (.toolDelete id)) _ [_] => ∀ row ∈ s.calls.stores.memories, row.id ≠ id
    | .running (.operation op) _ (.sub .addRow :: _) =>
      s.deleted op.id = false ∧ ∀ row ∈ s.calls.stores.memories, row.id ≠ op.id
    | _ => True
  | _ => True

end Deleting

namespace MemoryCalls

/-- A call has the last of its sub-steps left. -/
def Scripted (m : MemoryCalls V) : Prop :=
  ∀ k call e left, m.call k = .running call e left → ∃ steps, call.start = .ok steps ∧ left <:+ steps

variable {m m' : MemoryCalls V} {a : Action V}

theorem Scripted.setCall (hJ : m.Scripted) {k : ℕ} {c : CallState V}
    (hc : ∀ call e left, c = .running call e left → ∃ steps, call.start = .ok steps ∧ left <:+ steps)
    {stores : Stores V} {edgeSeq : ℕ} : (⟨stores, edgeSeq, Function.update m.call k c⟩ : MemoryCalls V).Scripted :=
  (Function.forall_update_iff m.call fun _ c => ∀ call e left, c = .running call e left →
    ∃ steps, call.start = .ok steps ∧ left <:+ steps).2 ⟨hc, fun k' _ => hJ k'⟩

theorem Scripted.proceed (hJ : m.Scripted) {k : ℕ} {call : MemoryCall} {e : Env V} {p : CallStep}
    {rest : List CallStep} (running : m.call k = .running call e (p :: rest)) {m₀ : MemoryCalls V}
    (hcall : m₀.call = m.call) : (m₀.proceed k call e rest).Scripted := by
  obtain ⟨steps, hstart, hsuffix⟩ := hJ k call e _ running
  obtain ⟨stores, edgeSeq, calls⟩ := m₀
  obtain rfl : calls = m.call := hcall
  cases rest with
  | nil =>
    refine hJ.setCall fun call' e' left he => ?_
    cases he
  | cons q rest =>
    refine hJ.setCall fun call' e' left he => ?_
    cases he
    exact ⟨steps, hstart, (List.suffix_cons p _).trans hsuffix⟩

theorem Scripted.step (hJ : m.Scripted) (h : m.step a = some m') : m'.Scripted := by
  cases step_move h with
  | start absent starts =>
    refine hJ.setCall fun call' e' left he => ?_
    cases he
    exact ⟨_, starts, List.suffix_refl _⟩
  | refused | failed =>
    refine hJ.setCall fun call' e' left he => ?_
    cases he
  | done running => exact hJ.proceed running (call_write ..)
  | dropped running => exact hJ.proceed running rfl

/-- The next sub-step of an operation is one of its own. -/
theorem Scripted.next (hJ : m.Scripted) {k : ℕ} {op : MemoryOp} {e : Env V} {p : CallStep} {rest : List CallStep}
    (running : m.call k = .running (.operation op) e (p :: rest)) :
    ∃ q, p = .sub q ∧ q ∈ op.program ∧ (p :: rest) <:+ op.program.map .sub := by
  obtain ⟨steps, hstart, hsuffix⟩ := hJ k _ e _ running
  cases hstart
  obtain ⟨q, hq, rfl⟩ := List.mem_map.1 (hsuffix.subset List.mem_cons_self)
  exact ⟨q, rfl, hq, hsuffix⟩

end MemoryCalls

namespace Deleting

open MemoryCalls

variable {s s' : Deleting V} {a : Action V}

/-- The last sub-step of a delete leaves the rows alone. -/
theorem delete_last {id : String} {p : SubStep} (h : [CallStep.sub p] <:+ (MemoryOp.toolDelete id).program.map .sub) :
    p = .deleteMetadata := by
  obtain ⟨pre, hpre⟩ := h
  have hlast := congrArg List.getLast? hpre
  simpa [MemoryOp.program] using hlast

/-- A call that starts deletes nothing. -/
theorem unique_start (hP : s.RowsUnique) (k : ℕ) (call : MemoryCall) (now : String) (vector : V) :
    Unique s.calls.stores.memories (s.deletedAfter (.start k call now vector)) := by
  cases call with
  | operation op =>
    cases op with
    | toolUpdate id content memoryType => exact hP.update id
    | _ => exact hP
  | _ => exact hP

/-- A sub-step of an operation. -/
theorem unique_operation (hJ : s.calls.Scripted) (hP : s.RowsUnique) {k : ℕ} {op : MemoryOp} {e : Env V}
    {p : CallStep} {rest : List CallStep} (running : s.calls.call k = .running (.operation op) e (p :: rest)) :
    Unique (s.calls.write (.operation op) e p).stores.memories (s.deletedAfter (.sub k (.ok ()))) ↔
      s.AddsAlone (.sub k (.ok ())) := by
  obtain ⟨q, rfl, hq, hsuffix⟩ := hJ.next running
  have hwrite := memories_write s.calls.stores e hq
  by_cases hlast : ∃ id, op = .toolDelete id ∧ rest = []
  · -- a delete returns
    obtain ⟨id, rfl, rfl⟩ := hlast
    obtain rfl := delete_last hsuffix
    simp only [deletedAfter, AddsAlone, running]
    exact hP.delete_iff id
  · have hdeleted : s.deletedAfter (.sub k (.ok ())) = s.deleted := by
      simp only [deletedAfter, running]
      split
      · rename_i id _ _ he
        cases he
        exact absurd ⟨id, rfl, rfl⟩ hlast
      · rfl
    rw [hdeleted]
    have hguard : s.AddsAlone (.sub k (.ok ())) ↔
        (q = .addRow → s.deleted op.id = false ∧ ∀ row ∈ s.calls.stores.memories, row.id ≠ op.id) := by
      simp only [AddsAlone, running]
      split
      · rename_i id _ _ he
        cases he
        exact absurd ⟨id, rfl, rfl⟩ hlast
      · rename_i he
        cases he
        exact ⟨fun h _ => h, fun h => h rfl⟩
      · rename_i hother
        refine iff_of_true trivial fun hadd => ?_
        subst hadd
        exact absurd rfl (hother op e rest)
    rw [hguard]
    rcases hwrite with ⟨hne, hsame | hfilter⟩ | ⟨rfl, row, hid, hadd⟩
    · refine iff_of_true ?_ fun he => absurd he hne
      exact (show (s.calls.write (.operation op) e (.sub q)).stores.memories = _ from hsame) ▸ hP
    · refine iff_of_true ?_ fun he => absurd he hne
      exact (show (s.calls.write (.operation op) e (.sub q)).stores.memories = _ from hfilter) ▸ hP.filter _
    · rw [show (s.calls.write (.operation op) e (.sub .addRow)).stores.memories = _ from hadd, hP.cons_iff, hid]
      exact ⟨fun h _ => h, fun h => h rfl⟩

/-- A call that relates memories leaves the rows alone. -/
theorem memories_write_edge (m : MemoryCalls V) {call : MemoryCall} (hcall : ∀ op, call ≠ .operation op)
    (e : Env V) (p : CallStep) : (m.write call e p).stores.memories = m.stores.memories := by
  cases p with
  | sub q =>
    cases call with
    | operation op => exact absurd rfl (hcall op)
    | _ => rfl
  | createEdge sourceId targetId t =>
    simp only [MemoryCalls.write, Stores.createEdge]
    split <;> rfl

/-- **One step** keeps the rows unique exactly when it adds and deletes alone. -/
theorem unique_step (hJ : s.calls.Scripted) (hP : s.RowsUnique) (h : s.step a = some s') :
    s'.RowsUnique ↔ s.AddsAlone a := by
  obtain ⟨calls, hcalls, rfl⟩ := Option.map_eq_some_iff.1 h
  unfold RowsUnique
  cases step_move hcalls with
  | @start k call now vector | @refused k call now vector =>
    exact iff_of_true (unique_start hP k call now vector) trivial
  | dropped | failed =>
    simp only [stores_proceed, stores_setCall]
    exact iff_of_true hP trivial
  | @done k call e p rest running =>
    simp only [stores_proceed]
    cases call with
    | operation op => exact unique_operation hJ hP running
    | toolCreateEdge | httpCreateEdge =>
      rw [memories_write_edge s.calls (fun op h => by cases h)]
      simp only [deletedAfter, AddsAlone, running]
      exact iff_of_true hP trivial

theorem scripted_init (stores : Stores V) (edgeSeq : ℕ) : (MemoryCalls.init stores edgeSeq).Scripted := by
  intro k call e left he
  cases he

/-- **Each memory has one row, and none when it is deleted**, throughout a run exactly if rows
are added alone and deletes return alone. -/
theorem unique_iff (stores : Stores V) (hstores : (stores.memories.map (·.id)).Nodup) (edgeSeq : ℕ)
    (as : List (Action V)) :
    (∀ t, Sys.Visits step (init stores edgeSeq) as t →
        (t.calls.stores.memories.map (·.id)).Nodup ∧
          ∀ id, t.deleted id = true → ∀ row ∈ t.calls.stores.memories, row.id ≠ id) ↔
      ∀ t a, Sys.Takes step (init stores edgeSeq) as t a → t.AddsAlone a := by
  have hJ : ∀ (t : Deleting V) (a : Action V) (t' : Deleting V), t.calls.Scripted → t.RowsUnique → t.AddsAlone a →
      step t a = some t' → t'.calls.Scripted := by
    intro t a t' hs _ _ h
    obtain ⟨calls, hcalls, rfl⟩ := Option.map_eq_some_iff.1 h
    exact hs.step hcalls
  have hstart : RowsUnique (init stores edgeSeq) := ⟨hstores, fun id hid => by cases hid⟩
  have hiff := Sys.visits_iff_takes hJ (fun t a t' hs hP h => unique_step hs hP h) as
    (scripted_init stores edgeSeq) hstart
  rw [← hiff]
  exact ⟨fun h t ht => ⟨(h t ht).1, (h t ht).2⟩, fun h t ht => ⟨(h t ht).1, (h t ht).2⟩⟩

/-! ## Updates that overlap -/

/-- One memory, without its embedding. -/
def oneMemory : Stores Unit := ⟨{⟨"m", "old", "", "fact", "1", ()⟩}, fun _ => none, 0⟩

/-- An update of it. -/
def updateTo (content : String) : MemoryCall := .operation (.toolUpdate "m" content (some "fact"))

/-- `n` sub-steps of a call that succeed. -/
def goOn (k n : ℕ) : List (Action Unit) := List.replicate n (.sub k (.ok ()))

/-- Both updates delete the old row before one of them adds its own. -/
def twoUpdates : List (Action Unit) :=
  [.start 0 (updateTo "a") "2" (), .start 1 (updateTo "b") "3" ()] ++ goOn 0 2 ++ goOn 1 2 ++ goOn 0 5 ++ goOn 1 5

theorem not_nodup_twoRows :
    ¬ (({⟨"m", "b", "", "fact", "3", ()⟩, ⟨"m", "a", "", "fact", "2", ()⟩} : Multiset (MemoryRow Unit)).map
      (·.id)).Nodup := by simp

/-- **Two rows of one memory**, and both updates return that all went well. -/
theorem updates_duplicate :
    ∃ s, Sys.run step (init oneMemory 0) twoUpdates = some s ∧
      s.calls.call 0 = .returned (updateTo "a") (.reply (.text "Updated memory m")) ∧
      s.calls.call 1 = .returned (updateTo "b") (.reply (.text "Updated memory m")) ∧
      s.calls.stores.memories = {⟨"m", "b", "", "fact", "3", ()⟩, ⟨"m", "a", "", "fact", "2", ()⟩} ∧
      ¬ (s.calls.stores.memories.map (·.id)).Nodup := by
  have hrun : Sys.run step (init oneMemory 0) twoUpdates = some _ := rfl
  exact ⟨_, hrun, rfl, rfl, rfl, not_nodup_twoRows⟩

/-- So one of them does not add its row alone. -/
theorem unique_iff_updates :
    ¬ ∀ t a, Sys.Takes step (init oneMemory 0) twoUpdates t a → t.AddsAlone a := by
  rw [← unique_iff oneMemory (by simp [oneMemory]) 0 twoUpdates]
  intro h
  have hrun : Sys.run step (init oneMemory 0) twoUpdates = some _ := rfl
  exact not_nodup_twoRows (h _ ⟨_, List.prefix_rfl, hrun⟩).1

/-- A delete from beginning to end, in the middle of an update. -/
def deleteInUpdate : List (Action Unit) :=
  [.start 0 (updateTo "a") "2" ()] ++ goOn 0 2 ++ [.start 1 (.operation (.toolDelete "m")) "3" ()] ++ goOn 1 4 ++
    goOn 0 5

/-- **A memory comes back** after its delete has returned. -/
theorem update_restores :
    ∃ s, Sys.run step (init oneMemory 0) deleteInUpdate = some s ∧
      s.calls.call 1 = .returned (.operation (.toolDelete "m")) (.reply (.text "Deleted memory m and its edges")) ∧
      s.deleted "m" = true ∧ s.calls.stores.memories = {⟨"m", "a", "", "fact", "2", ()⟩} := by
  have hrun : Sys.run step (init oneMemory 0) deleteInUpdate = some _ := rfl
  exact ⟨_, hrun, rfl, rfl, rfl⟩

end Deleting

end Auxlry
