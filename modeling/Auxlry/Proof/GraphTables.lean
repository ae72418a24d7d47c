import Auxlry.Spec.GraphTables
import Mathlib.Data.List.Nodup

/-!
# The tables of the memory graph refine maps

What memories have metadata, and how they are related, are maps: from an id to its metadata,
and from two ids and a relation to a weight. The statements of the code work on rows, and on
texts for relations. `Refines` relates the tables to both views of them: the stores that
memory operations work on, and the weights of the links.

* `Refines.call`: every statement keeps it.
* `graph_refines`: **after any calls, the queries and the graph of the dashboard show the maps**.
-/

namespace Auxlry

variable {V W K : Type}

/-- The weights of the links between memories. -/
abbrev Links (W : Type) := String × String × EdgeType → Option W

namespace GraphStatement

/-- What a statement does to the weights: the last one counts, until an end is deleted. -/
def links (l : Links W) : GraphStatement W → Links W
  | .createEdge sourceId targetId relationType weight _ =>
    Function.update l (sourceId, targetId, relationType) (some weight)
  | .deleteEdgesFor memoryId => fun link => if link.1 = memoryId ∨ link.2.1 = memoryId then none else l link
  | _ => l

/-- What a statement does to the stores, where an edge has this id. -/
def stores (s : Stores V) (now : String) (edgeId : ℕ) : GraphStatement W → Stores V
  | .createEdge sourceId targetId relationType _ _ => s.createEdge edgeId sourceId targetId relationType
  | .initMemoryMetadata memoryId memoryType =>
    s.setMetadata memoryId (some ((s.metadata memoryId).getD ⟨memoryType, 0, now, now⟩))
  | .recordMemoryAccess memoryId => s.recordMemoryAccess now memoryId
  | .updateMemoryType memoryId newType =>
    s.setMetadata memoryId ((s.metadata memoryId).map ({ · with memoryType := newType }))
  | .deleteMemoryMetadata memoryId => s.setMetadata memoryId none
  | .deleteEdgesFor memoryId => s.removeEdges memoryId

/-- The ids that are skipped before an edge. -/
def skipped : GraphStatement W → ℕ
  | .createEdge _ _ _ _ skipped => skipped
  | _ => 0

end GraphStatement

namespace GraphTables

/-- The tables hold the metadata and the edges of the stores, and the weights of the links. -/
structure Refines (t : GraphTables W) (s : Stores V) (l : Links W) : Prop where
  metadata : ∀ id, s.metadata id = (t.metadata.get id).map (·.toMetadataRow)
  edges : s.edges = (t.edges.rows.map (·.toMemoryEdge) : List MemoryEdge)
  weights : ∀ a b ty, (t.edges.get (a, b, ty.asStr)).map (·.weight) = l (a, b, ty)
  types : ∀ r ∈ t.edges.rows, ∃ ty : EdgeType, r.relationType = ty.asStr
  ids : (t.edges.rows.map (·.id)).Nodup
  le_seq : ∀ r ∈ t.edges.rows, r.id ≤ t.edgeSeq

variable {t : GraphTables W} {s : Stores V} {l : Links W}

theorem asStr_inj {a b : EdgeType} (h : a.asStr = b.asStr) : a = b := by
  have hparse := congrArg EdgeType.fromStr h
  rw [EdgeType.fromStr_asStr, EdgeType.fromStr_asStr] at hparse
  exact Option.some.inj hparse

/-! ## Metadata -/

theorem Refines.setMetadata (hR : t.Refines s l) {metadata : Sql.Table MemoryMetadata.id} {id : String}
    {row : Option MetadataRow} (hid : (metadata.get id).map (·.toMetadataRow) = row)
    (hne : ∀ k ≠ id, metadata.get k = t.metadata.get k) :
    Refines { t with metadata := metadata } (s.setMetadata id row) l := by
  refine { hR with metadata := fun k => ?_ }
  show Function.update s.metadata id row k = _
  by_cases hk : k = id
  · rw [hk, Function.update_self, hid]
  · rw [Function.update_of_ne hk, hR.metadata]
    exact congrArg _ (hne k hk).symm

theorem Refines.initMemoryMetadata (hR : t.Refines s l) (now memoryId memoryType : String) :
    (t.initMemoryMetadata now memoryId memoryType).Refines
      (s.setMetadata memoryId (some ((s.metadata memoryId).getD ⟨memoryType, 0, now, now⟩))) l := by
  refine hR.setMetadata ?_ fun k hk => ?_
  · rw [Sql.Table.get_upsert, Function.update_self, hR.metadata]
    cases t.metadata.get memoryId with
    | none => rfl
    | some m => rfl
  · rw [Sql.Table.get_upsert, Function.update_of_ne hk]

/-- An update of the row of a memory, if there is one. -/
theorem Refines.modify (hR : t.Refines s l) (memoryId : String) {f : MemoryMetadata → MemoryMetadata}
    (hf : ∀ m, (f m).id = m.id) {g : MetadataRow → MetadataRow}
    (hg : ∀ m, (f m).toMetadataRow = g m.toMetadataRow) :
    Refines { t with metadata := t.metadata.modify memoryId f hf }
      (s.setMetadata memoryId ((s.metadata memoryId).map g)) l := by
  refine hR.setMetadata ?_ fun k hk => ?_
  · rw [Sql.Table.get_modify, Function.update_self, hR.metadata]
    cases t.metadata.get memoryId with
    | none => rfl
    | some m => exact congrArg some (hg m)
  · rw [Sql.Table.get_modify, Function.update_of_ne hk]

theorem Refines.deleteMemoryMetadata (hR : t.Refines s l) (memoryId : String) :
    (t.deleteMemoryMetadata memoryId).Refines (s.setMetadata memoryId none) l := by
  have hget : ∀ k, (t.metadata.delete (·.id = memoryId)).get k = (t.metadata.get k).filter (¬ ·.id = memoryId) :=
    Sql.Table.get_delete t.metadata _
  refine hR.setMetadata ?_ fun k hk => ?_
  · rw [hget]
    cases h : t.metadata.get memoryId with
    | none => rfl
    | some m =>
      obtain ⟨-, hid⟩ := Sql.Table.get_eq_some.1 h
      rw [Option.filter_some, if_neg (by simp [hid])]
      rfl
  · rw [hget]
    cases h : t.metadata.get k with
    | none => rfl
    | some m =>
      obtain ⟨-, hid⟩ := Sql.Table.get_eq_some.1 h
      rw [Option.filter_some, if_pos (by simp [hid, hk])]

/-! ## Edges -/

/-- The row under two ids and a relation. -/
theorem get_ends_iff {a b relationType : String} :
    (t.edges.get (a, b, relationType) = none ↔
      ∀ r ∈ t.edges.rows, ¬ (r.sourceId = a ∧ r.targetId = b ∧ r.relationType = relationType)) := by
  rw [Sql.Table.get_eq_none]
  refine forall₂_congr fun r _ => ?_
  rw [EdgeRecord.ends, Ne, Prod.mk.injEq, Prod.mk.injEq]

/-- Two memories are related exactly when there is such a row. -/
theorem Refines.hasEdge_iff (hR : t.Refines s l) (a b : String) (ty : EdgeType) :
    s.HasEdge a b ty ↔ t.edges.get (a, b, ty.asStr) ≠ none := by
  rw [Ne, get_ends_iff, Stores.HasEdge, hR.edges]
  simp only [Multiset.mem_coe, List.mem_map]
  constructor
  · rintro ⟨edge, ⟨r, hr, rfl⟩, hedge⟩ hnone
    exact hnone r hr hedge
  · intro h
    by_contra hnone
    refine h fun r hr hedge => hnone ⟨r.toMemoryEdge, ⟨r, hr, rfl⟩, hedge⟩

theorem get_createEdge (t : GraphTables W) (now a b : String) (ty : EdgeType) (weight : W) (skipped : ℕ) :
    (t.createEdge now a b ty weight skipped).edges.get = Function.update t.edges.get (a, b, ty.asStr)
      (some ((t.edges.get (a, b, ty.asStr)).elim ⟨⟨t.edgeSeq + skipped + 1, a, b, ty.asStr⟩, weight, now⟩
        ({ · with weight := weight }))) :=
  Sql.Table.get_upsert ..

theorem get_deleteEdgesFor (t : GraphTables W) (memoryId : String) (ends : String × String × String) :
    (t.deleteEdgesFor memoryId).edges.get ends =
      (t.edges.get ends).filter fun r => ¬ (r.sourceId = memoryId ∨ r.targetId = memoryId) :=
  Sql.Table.get_delete ..

theorem Refines.createEdge (hR : t.Refines s l) (now a b : String) (ty : EdgeType) (weight : W) (skipped : ℕ) :
    (t.createEdge now a b ty weight skipped).Refines (s.createEdge (t.edgeSeq + skipped + 1) a b ty)
      (Function.update l (a, b, ty) (some weight)) := by
  have hweights : ∀ a' b' ty',
      ((t.createEdge now a b ty weight skipped).edges.get (a', b', ty'.asStr)).map (·.weight) =
        Function.update l (a, b, ty) (some weight) (a', b', ty') := by
    intro a' b' ty'
    rw [get_createEdge]
    by_cases hlink : (a', b', ty') = (a, b, ty)
    · cases hlink
      rw [Function.update_self, Function.update_self]
      cases t.edges.get (a, b, ty.asStr) with
      | none => rfl
      | some r => rfl
    · have hends : (a', b', ty'.asStr) ≠ (a, b, ty.asStr) := by
        intro he
        obtain ⟨ha, he⟩ := Prod.mk.inj he
        obtain ⟨hb, hty⟩ := Prod.mk.inj he
        exact hlink (by rw [ha, hb, asStr_inj hty])
      rw [Function.update_of_ne hends, Function.update_of_ne hlink, hR.weights]
  cases h : t.edges.get (a, b, ty.asStr) with
  | none =>
    have hrows : (t.createEdge now a b ty weight skipped).edges.rows =
        t.edges.rows ++ [⟨⟨t.edgeSeq + skipped + 1, a, b, ty.asStr⟩, weight, now⟩] :=
      Sql.Table.rows_upsert_of_none h _
    have hseq : (t.createEdge now a b ty weight skipped).edgeSeq = t.edgeSeq + skipped + 1 := if_pos h
    have hedge : ¬ s.HasEdge a b ty := by
      rw [hR.hasEdge_iff, not_not]
      exact h
    refine ⟨?_, ?_, hweights, fun r hr => ?_, ?_, fun r hr => ?_⟩
    · rw [Stores.createEdge, if_neg hedge]
      exact hR.metadata
    · rw [Stores.createEdge, if_neg hedge, hrows, List.map_append, hR.edges]
      exact Multiset.coe_eq_coe.2 (List.perm_append_singleton _ _).symm
    · rw [hrows] at hr
      rcases List.mem_append.1 hr with hr | hr
      · exact hR.types r hr
      · rw [List.mem_singleton.1 hr]
        exact ⟨ty, rfl⟩
    · rw [hrows, List.map_append, List.nodup_append]
      refine ⟨hR.ids, List.nodup_singleton _, fun i hi j hj => ?_⟩
      obtain ⟨r, hr, rfl⟩ := List.mem_map.1 hi
      have hle := hR.le_seq r hr
      rw [List.mem_singleton.1 hj]
      show r.id ≠ t.edgeSeq + skipped + 1
      omega
    · rw [hrows] at hr
      rw [hseq]
      rcases List.mem_append.1 hr with hr | hr
      · have hle := hR.le_seq r hr
        omega
      · rw [List.mem_singleton.1 hr]
  | some old =>
    -- the row keeps all but its weight
    have htable : (t.createEdge now a b ty weight skipped).edges =
        t.edges.modify (a, b, ty.asStr) ({ · with weight := weight }) fun _ => rfl := Sql.Table.upsert_of_some _ h _
    have hrows : (t.createEdge now a b ty weight skipped).edges.rows = t.edges.rows.map fun r =>
        if r.ends = (a, b, ty.asStr) then { r with weight := weight } else r := congrArg Sql.Table.rows htable
    have hkept : ∀ r ∈ (t.createEdge now a b ty weight skipped).edges.rows,
        ∃ r' ∈ t.edges.rows, r.toMemoryEdge = r'.toMemoryEdge := by
      intro r hr
      rw [hrows] at hr
      obtain ⟨r', hr', rfl⟩ := List.mem_map.1 hr
      refine ⟨r', hr', ?_⟩
      split <;> rfl
    have hmap : ∀ {β : Type} (g : MemoryEdge → β),
        (t.createEdge now a b ty weight skipped).edges.rows.map (fun r => g r.toMemoryEdge) =
          t.edges.rows.map fun r => g r.toMemoryEdge := by
      intro β g
      rw [hrows, List.map_map]
      refine List.map_congr_left fun r _ => ?_
      dsimp only [Function.comp_apply]
      split <;> rfl
    have hseq : (t.createEdge now a b ty weight skipped).edgeSeq = t.edgeSeq :=
      if_neg fun hnone => Option.some_ne_none old (h.symm.trans hnone)
    have hedge : s.HasEdge a b ty := by
      rw [hR.hasEdge_iff, h]
      exact Option.some_ne_none old
    refine ⟨?_, ?_, hweights, fun r hr => ?_, ?_, fun r hr => ?_⟩
    · rw [Stores.createEdge, if_pos hedge]
      exact hR.metadata
    · rw [Stores.createEdge, if_pos hedge, hR.edges]
      exact congrArg _ (hmap id).symm
    · obtain ⟨r', hr', heq⟩ := hkept r hr
      rw [heq]
      exact hR.types r' hr'
    · rw [hmap (·.id)]
      exact hR.ids
    · obtain ⟨r', hr', heq⟩ := hkept r hr
      rw [heq, hseq]
      exact hR.le_seq r' hr'

theorem Refines.deleteEdgesFor (hR : t.Refines s l) (memoryId : String) :
    (t.deleteEdgesFor memoryId).Refines (s.removeEdges memoryId)
      fun link => if link.1 = memoryId ∨ link.2.1 = memoryId then none else l link := by
  have hrows : ∀ {r}, r ∈ (t.deleteEdgesFor memoryId).edges.rows → r ∈ t.edges.rows :=
    fun hr => List.mem_of_mem_filter hr
  refine ⟨hR.metadata, ?_, fun a b ty => ?_, fun r hr => hR.types r (hrows hr), ?_, fun r hr => hR.le_seq r (hrows hr)⟩
  · show s.edges.filter _ = _
    rw [hR.edges, Multiset.filter_coe]
    show (((t.edges.rows.map _).filter _ : List MemoryEdge) : Multiset MemoryEdge) =
      (((t.edges.rows.filter _).map _ : List MemoryEdge) : Multiset MemoryEdge)
    rw [List.filter_map]
    rfl
  · rw [get_deleteEdgesFor, ← hR.weights]
    cases h : t.edges.get (a, b, ty.asStr) with
    | none => simp
    | some r =>
      obtain ⟨-, hends⟩ := Sql.Table.get_eq_some.1 h
      obtain ⟨ha, hb⟩ := Prod.mk.inj hends
      obtain ⟨hb, -⟩ := Prod.mk.inj hb
      rw [Option.filter_some, ha, hb]
      by_cases hdel : a = memoryId ∨ b = memoryId
      · simp [hdel]
      · simp [hdel]
  · exact hR.ids.sublist (List.filter_sublist.map _)

/-! ## Calls -/

theorem Refines.exec (hR : t.Refines s l) (now : String) (stmt : GraphStatement W) :
    (t.exec now stmt).Refines (stmt.stores s now (t.edgeSeq + stmt.skipped + 1)) (stmt.links l) := by
  cases stmt with
  | createEdge a b ty weight skipped => exact hR.createEdge now a b ty weight skipped
  | initMemoryMetadata memoryId memoryType => exact hR.initMemoryMetadata now memoryId memoryType
  | recordMemoryAccess memoryId =>
    exact hR.modify memoryId (f := fun m => { m with accessCount := m.accessCount + 1, lastAccessedAt := now })
      (fun _ => rfl) (g := fun md => { md with accessCount := md.accessCount + 1, lastAccessedAt := now })
      fun _ => rfl
  | updateMemoryType memoryId newType =>
    exact hR.modify memoryId (f := ({ · with memoryType := newType })) (fun _ => rfl)
      (g := ({ · with memoryType := newType })) fun _ => rfl
  | deleteMemoryMetadata memoryId => exact hR.deleteMemoryMetadata memoryId
  | deleteEdgesFor memoryId => exact hR.deleteEdgesFor memoryId

theorem refines_empty : (empty : GraphTables W).Refines (⟨0, fun _ => none, 0⟩ : Stores V) fun _ => none where
  metadata _ := rfl
  edges := rfl
  weights _ _ _ := rfl
  types r hr := by cases hr
  ids := List.nodup_nil
  le_seq r hr := by cases hr

/-! ## Queries -/

/-- A relation is shown as what it was. -/
theorem Refines.asStr_edge (hR : t.Refines s l) {r : EdgeRecord W} (hr : r ∈ t.edges.rows) :
    r.edge.relationType.asStr = r.relationType := by
  obtain ⟨ty, hty⟩ := hR.types r hr
  show ((EdgeType.fromStr r.relationType).getD .relatedTo).asStr = r.relationType
  rw [hty, EdgeType.fromStr_asStr]
  rfl

/-- The rows are the links with their weights. -/
theorem Refines.links_iff (hR : t.Refines s l) {a b : String} {ty : EdgeType} {w : W} :
    l (a, b, ty) = some w ↔ ∃ r ∈ t.edges.rows, r.sourceId = a ∧ r.targetId = b ∧ r.edge.relationType = ty ∧
      r.weight = w := by
  rw [← hR.weights, Option.map_eq_some_iff]
  constructor
  · rintro ⟨r, hr, rfl⟩
    obtain ⟨hmem, hends⟩ := Sql.Table.get_eq_some.1 hr
    obtain ⟨ha, hends⟩ := Prod.mk.inj hends
    obtain ⟨hb, hty⟩ := Prod.mk.inj hends
    exact ⟨r, hmem, ha, hb, asStr_inj ((hR.asStr_edge hmem).trans hty), rfl⟩
  · rintro ⟨r, hr, rfl, rfl, rfl, rfl⟩
    refine ⟨r, Sql.Table.get_eq_some.2 ⟨hr, ?_⟩, rfl⟩
    rw [EdgeRecord.ends, hR.asStr_edge hr]

/-- No two rows are of one link. -/
theorem Refines.nodup_links (hR : t.Refines s l) {rows : List (EdgeRecord W)} {p : EdgeRecord W → Bool}
    (hrows : rows.Perm (t.edges.rows.filter p)) :
    (rows.map fun r => (r.sourceId, r.targetId, r.edge.relationType)).Nodup := by
  have hends : (rows.map EdgeRecord.ends).Nodup :=
    (hrows.map _).nodup_iff.2 (t.edges.nodup.sublist (List.filter_sublist.map _))
  have hmap : rows.map EdgeRecord.ends = (rows.map fun r => (r.sourceId, r.targetId, r.edge.relationType)).map
      fun link => (link.1, link.2.1, link.2.2.asStr) := by
    rw [List.map_map]
    refine List.map_congr_left fun r hr => ?_
    have hmem : r ∈ t.edges.rows := List.mem_of_mem_filter (hrows.mem_iff.1 hr)
    show r.ends = (r.sourceId, r.targetId, r.edge.relationType.asStr)
    rw [hR.asStr_edge hmem]
    rfl
  rw [hmap] at hends
  exact hends.of_map _

theorem Refines.edgeCount_eq (hR : t.Refines s l) (id : String) : t.edgeCount id = (s.edgesAt id).card := by
  rw [Stores.edgesAt, hR.edges, Multiset.filter_coe, Multiset.coe_card, List.filter_map, List.length_map,
    edgeCount, List.countP_eq_length_filter]
  rfl

end GraphTables

/-- The tables with both views of them. -/
structure GraphRun (V W : Type) where
  tables : GraphTables W
  stores : Stores V
  links : Links W

namespace GraphRun

def init : GraphRun V W := ⟨.empty, ⟨0, fun _ => none, 0⟩, fun _ => none⟩

/-- One call; the stores and the links go with the tables. -/
def call (r : GraphRun V W) (c : GraphCall W) : GraphRun V W :=
  if c.queryOk then
    { tables := r.tables.call c
      stores := c.statement.stores r.stores c.now (r.tables.edgeSeq + c.statement.skipped + 1)
      links := c.statement.links r.links }
  else r

theorem tables_foldl (calls : List (GraphCall W)) (r : GraphRun V W) :
    (calls.foldl call r).tables = calls.foldl GraphTables.call r.tables := by
  induction calls generalizing r with
  | nil => rfl
  | cons c calls ih =>
    rw [List.foldl_cons, List.foldl_cons, ih]
    unfold call
    split
    · rfl
    · rename_i hfail
      rw [GraphTables.call, if_neg hfail]

theorem refines_foldl (calls : List (GraphCall W)) {r : GraphRun V W} (hr : r.tables.Refines r.stores r.links) :
    (calls.foldl call r).tables.Refines (calls.foldl call r).stores (calls.foldl call r).links := by
  induction calls generalizing r with
  | nil => exact hr
  | cons c calls ih =>
    rw [List.foldl_cons]
    refine ih ?_
    unfold call
    split
    · rename_i hok
      show (r.tables.call c).Refines _ _
      rw [GraphTables.call, if_pos hok]
      exact hr.exec c.now c.statement
    · exact hr

/-- After some calls. -/
def after (V : Type) (calls : List (GraphCall W)) : GraphRun V W := calls.foldl call init

theorem refines_after (V : Type) (calls : List (GraphCall W)) :
    (after V calls).tables.Refines (after V calls).stores (after V calls).links :=
  refines_foldl calls GraphTables.refines_empty

end GraphRun

/-- The ends and the relation of an edge. -/
def GraphEdge.link (e : GraphEdge W) : String × String × EdgeType := (e.sourceId, e.targetId, e.relationType)

def GraphLink.ends (e : GraphLink W) : String × String × EdgeType := (e.source, e.target, e.relationType)

/-- The content of a node is one that was fetched for it, if there is one. -/
theorem contentOf_cases (fetched : List (SearchResult K)) (id : String) :
    (∃ x ∈ fetched, x.id = id ∧ contentOf fetched id = x.content) ∨
      ((∀ x ∈ fetched, x.id ≠ id) ∧ contentOf fetched id = "") := by
  unfold contentOf
  cases h : fetched.reverse.find? (·.id = id) with
  | none =>
    refine .inr ⟨fun x hx he => ?_, rfl⟩
    have hnone := List.find?_eq_none.1 h x (List.mem_reverse.2 hx)
    simp [he] at hnone
  | some x =>
    have hx := List.mem_of_find?_eq_some h
    have hid := List.find?_some h
    exact .inl ⟨x, List.mem_reverse.1 hx, of_decide_eq_true hid, rfl⟩

namespace GraphTables

variable {t : GraphTables W} {s : Stores V} {l : Links W}

/-- What the query for the edges of a memory shows. -/
theorem Refines.edgesFor_spec (hR : t.Refines s l) {id : String} {rows : List (EdgeRecord W)}
    (h : t.EdgesAnswer id rows) :
    ((edgesFor rows).map (·.link)).Nodup ∧ ∀ a b ty w,
      (∃ e ∈ edgesFor rows, e.link = (a, b, ty) ∧ e.weight = w) ↔ (a = id ∨ b = id) ∧ l (a, b, ty) = some w := by
  constructor
  · have hnodup := hR.nodup_links h
    unfold edgesFor
    rw [List.map_map]
    exact hnodup
  · intro a b ty w
    rw [hR.links_iff]
    constructor
    · rintro ⟨e, he, hlink, hweight⟩
      obtain ⟨r, hr, rfl⟩ := List.mem_map.1 he
      obtain ⟨hmem, htouch⟩ := List.mem_filter.1 (h.mem_iff.1 hr)
      obtain ⟨ha, hlink⟩ := Prod.mk.inj hlink
      obtain ⟨hb, hty⟩ := Prod.mk.inj hlink
      refine ⟨?_, r, hmem, ha, hb, hty, hweight⟩
      rw [← ha, ← hb]
      exact of_decide_eq_true htouch
    · rintro ⟨htouch, r, hmem, rfl, rfl, rfl, rfl⟩
      refine ⟨r.edge, List.mem_map.2 ⟨r, h.mem_iff.2 ?_, rfl⟩, rfl, rfl⟩
      exact List.mem_filter.2 ⟨hmem, decide_eq_true htouch⟩

/-- What the dashboard shows of the graph. -/
theorem Refines.memoriesGraph_spec (hR : t.Refines s l) {ms : List MemoryMetadata} {es : List (EdgeRecord W)}
    (hms : ms.Perm t.metadata.rows) (hes : es.Perm t.edges.rows) (fetched : List (SearchResult K)) :
    (((memoriesGraph ms es fetched).1.map (·.id)).Nodup ∧
      ∀ node, node ∈ (memoriesGraph ms es fetched).1 ↔ ∃ md, s.metadata node.id = some md ∧
        node = ⟨node.id, md.memoryType, md.accessCount, contentOf fetched node.id, md.createdAt⟩) ∧
    ((memoriesGraph ms es fetched).2.map (·.ends)).Nodup ∧
      ∀ link, link ∈ (memoriesGraph ms es fetched).2 ↔ l link.ends = some link.weight := by
  refine ⟨⟨?_, fun node => ?_⟩, ?_, fun link => ?_⟩
  · unfold memoriesGraph
    rw [List.map_map]
    exact (hms.map _).nodup_iff.2 t.metadata.nodup
  · rw [hR.metadata]
    constructor
    · intro hnode
      obtain ⟨m, hm, rfl⟩ := List.mem_map.1 hnode
      have hget := Sql.Table.mem_rows.1 (hms.mem_iff.1 hm)
      exact ⟨m.toMetadataRow, congrArg (Option.map _) hget, rfl⟩
    · rintro ⟨md, hmd, hnode⟩
      obtain ⟨m, hm, rfl⟩ := Option.map_eq_some_iff.1 hmd
      obtain ⟨hmem, hid⟩ := Sql.Table.get_eq_some.1 hm
      refine List.mem_map.2 ⟨m, hms.mem_iff.2 hmem, ?_⟩
      rw [hnode, hid]
  · have hall : es.Perm (t.edges.rows.filter fun _ => true) := by
      rw [List.filter_true]
      exact hes
    have hnodup := hR.nodup_links hall
    unfold memoriesGraph
    rw [List.map_map, List.map_map]
    exact hnodup
  · obtain ⟨a, b, ty, w⟩ := link
    show _ ↔ l (a, b, ty) = some w
    rw [hR.links_iff]
    constructor
    · intro hlink
      obtain ⟨e, he, heq⟩ := List.mem_map.1 hlink
      obtain ⟨r, hr, rfl⟩ := List.mem_map.1 he
      obtain ⟨ha, hb, hty, hw⟩ := GraphLink.mk.inj heq
      exact ⟨r, hes.mem_iff.1 hr, ha, hb, hty, hw⟩
    · rintro ⟨r, hr, rfl, rfl, rfl, rfl⟩
      exact List.mem_map.2 ⟨r.edge, List.mem_map.2 ⟨r, hes.mem_iff.2 hr, rfl⟩, rfl⟩

end GraphTables

/-- **The tables refine the maps.** After any calls, some of which fail: the metadata of a memory
is that of the stores; its edges are its links, each once, with the last weight, and the
relation that it was created with, and `edge_count` is their number; and the graph of the
dashboard has the memories with metadata as nodes and all links between. -/
theorem graph_refines (V : Type) (calls : List (GraphCall W)) :
    (GraphRun.after V calls).tables = calls.foldl GraphTables.call .empty ∧
      (∀ id, ((GraphRun.after V calls).tables.memoryMetadata id).toOption.map (·.toMetadataRow) =
        (GraphRun.after V calls).stores.metadata id) ∧
      (∀ id rows, (GraphRun.after V calls).tables.EdgesAnswer id rows →
        (rows.length = (GraphRun.after V calls).tables.edgeCount id ∧
          rows.length = ((GraphRun.after V calls).stores.edgesAt id).card) ∧
        ((GraphTables.edgesFor rows).map (·.link)).Nodup ∧
        ∀ a b ty w, (∃ e ∈ GraphTables.edgesFor rows, e.link = (a, b, ty) ∧ e.weight = w) ↔
          (a = id ∨ b = id) ∧ (GraphRun.after V calls).links (a, b, ty) = some w) ∧
      ∀ ms es (fetched : List (SearchResult K)), ms.Perm (GraphRun.after V calls).tables.metadata.rows →
        es.Perm (GraphRun.after V calls).tables.edges.rows →
        (((memoriesGraph ms es fetched).1.map (·.id)).Nodup ∧
          ∀ node, node ∈ (memoriesGraph ms es fetched).1 ↔
            ∃ md, (GraphRun.after V calls).stores.metadata node.id = some md ∧
              node = ⟨node.id, md.memoryType, md.accessCount, contentOf fetched node.id, md.createdAt⟩) ∧
        ((memoriesGraph ms es fetched).2.map (·.ends)).Nodup ∧
          ∀ link, link ∈ (memoriesGraph ms es fetched).2 ↔
            (GraphRun.after V calls).links link.ends = some link.weight := by
  have hR := GraphRun.refines_after V calls
  refine ⟨GraphRun.tables_foldl calls .init, fun id => ?_, fun id rows h => ⟨?_, hR.edgesFor_spec h⟩,
    fun ms es fetched hms hes => hR.memoriesGraph_spec hms hes fetched⟩
  · rw [hR.metadata, GraphTables.memoryMetadata]
    cases (GraphRun.after V calls).tables.metadata.get id with
    | none => rfl
    | some m => rfl
  · have hlength : rows.length = (GraphRun.after V calls).tables.edgeCount id := by
      rw [h.length_eq, GraphTables.edgeCount, List.countP_eq_length_filter]
    exact ⟨hlength, hlength.trans (hR.edgeCount_eq id)⟩

/-- Two memories, an edge between them whose weight changes, and one that is deleted. -/
def twoRelated : List (GraphCall ℕ) :=
  [⟨.initMemoryMetadata "m1" "fact", "t0", true⟩, ⟨.initMemoryMetadata "m2" "event", "t0", true⟩,
    ⟨.createEdge "m1" "m2" .supersedes 1 0, "t1", true⟩, ⟨.createEdge "m1" "m3" .partOf 1 0, "t1", true⟩,
    ⟨.createEdge "m1" "m2" .supersedes 2 0, "t2", true⟩, ⟨.deleteEdgesFor "m3", "t3", true⟩,
    ⟨.recordMemoryAccess "m2", "t4", true⟩, ⟨.deleteEdgesFor "m1", "t5", false⟩]

theorem graph_refines_twoRelated :
    ((GraphRun.after ℕ twoRelated).stores.metadata "m2").map (·.accessCount) = some 1 ∧
      (∃ e ∈ GraphTables.edgesFor (GraphRun.after ℕ twoRelated).tables.edges.rows,
        e.link = ("m1", "m2", .supersedes) ∧ e.weight = 2) ∧
      (GraphRun.after ℕ twoRelated).tables.edges.rows.length = 1 := by
  have hlinks : (GraphRun.after ℕ twoRelated).links ("m1", "m2", .supersedes) = some 2 := by decide
  obtain ⟨-, -, hedges, -⟩ := graph_refines (K := ℚ) ℕ twoRelated
  obtain ⟨-, -, hshown⟩ := hedges "m2" (GraphRun.after ℕ twoRelated).tables.edges.rows
    (by unfold GraphTables.EdgesAnswer; decide)
  exact ⟨by decide, (hshown "m1" "m2" .supersedes 2).2 ⟨.inr rfl, hlinks⟩, by decide⟩

end Auxlry
