import Auxlry.Sql.OrderBy
import Auxlry.Time.DateTime
import Mathlib.Data.String.Basic

/-!
# The event log

The `events` table of the core's database. An event is stored with its payload as JSON and
its time as an RFC 3339 text, and the query for the recent events sorts by that text. The
functions that make these texts, and read them, are those of other packages.
-/

namespace Auxlry

open Time

/-- An event of the bus, as it is persisted. -/
structure Event (P : Type) where
  id : String
  timestamp : DateTime
  payload : P

/-- A row of `events`. -/
structure EventRow where
  id : String
  kind : String
  payload : String
  createdAt : String
  deriving DecidableEq, Repr

/-- The kind of a payload, and its text and that of a time, written and read. -/
structure EventCodec (P : Type) where
  kind : P → String
  toJson : P → Option String
  fromJson : String → Option P
  toRfc3339 : DateTime → String
  /-- `parse_from_rfc3339`, and then `to_utc` -/
  parseFromRfc3339 : String → Option DateTime

namespace EventCodec

variable {P : Type} (c : EventCodec P)

/-- Insert an event record; its id is the primary key. -/
def insertEvent (t : List EventRow) (event : Event P) (queryOk : Bool) : Except String (List EventRow) :=
  match c.toJson event.payload with
  | none => .error "failed to serialize event payload"
  | some payload =>
    if queryOk ∧ ∀ r ∈ t, r.id ≠ event.id then
      .ok (t ++ [⟨event.id, c.kind event.payload, payload, c.toRfc3339 event.timestamp⟩])
    else .error "failed to insert event"

/-- A sequence of calls, each with whether its statement succeeds; one that fails changes nothing. -/
def insertAll (t : List EventRow) (calls : List (Event P × Bool)) : List EventRow :=
  calls.foldl (fun t call => (c.insertEvent t call.1 call.2).toOption.getD t) t

/-- What the query may return: a negative limit is none. -/
def Answers (t : List EventRow) (limit : ℤ) (rows : List EventRow) : Prop :=
  ∃ order, Sql.OrderBy EventRow.createdAt t order ∧
    rows = if limit < 0 then order else order.take limit.toNat

/-- The event of a row, if its texts can be read. -/
def readRow (row : EventRow) : Option (Event P) :=
  (c.fromJson row.payload).bind fun payload =>
    (c.parseFromRfc3339 row.createdAt).map fun timestamp => ⟨row.id, timestamp, payload⟩

/-- Recent events, newest first, from the rows that the query returned. -/
def recentEvents (rows : List EventRow) : Option (List (Event P)) := rows.mapM c.readRow

end EventCodec

/-! ## Counts -/

/-- What SQLite makes of times: the hour and the day of a text, and the time some hours or
days ago, `datetime('now', '-N unit')`, which is NULL if it is not a time. -/
structure SqliteTime where
  hour : String → String
  day : String → String
  back : (unit : String) → ℤ → Option String

/-- What a query may return with `GROUP BY bucket, kind ORDER BY bucket`: a row for each bucket
and kind there is, with a count. -/
structure Grouped (bucket : String → String) (rows : List EventRow) (out : List (String × String × ℕ)) :
    Prop where
  ordered : out.Pairwise fun a b => a.1 ≤ b.1
  nodup : (out.map fun r => (r.1, r.2.1)).Nodup
  counts : ∀ b kind n, (b, kind, n) ∈ out ↔
    n = rows.countP (fun r => bucket r.createdAt = b ∧ r.kind = kind) ∧ 0 < n

/-- The rows of some kinds that are not before a cutoff; none, if that is NULL. -/
def eventsSince (t : List EventRow) (kinds : List String) (cutoff : Option String) : List EventRow :=
  t.filter fun r => r.kind ∈ kinds ∧ cutoff.any (· ≤ r.createdAt)

/-- What counting events by bucket and kind may return. -/
def CountedSince (bucket : String → String) (t : List EventRow) (kinds : List String)
    (cutoff : Option String) (out : List (String × String × ℕ)) : Prop :=
  if kinds = [] then out = [] else Grouped bucket (eventsSince t kinds cutoff) out

/-- Count events grouped by hour and kind for the last N hours. -/
def EventsByHour (sql : SqliteTime) (t : List EventRow) (kinds : List String) (hours : ℤ)
    (out : List (String × String × ℕ)) : Prop :=
  CountedSince sql.hour t kinds (sql.back "hours" hours) out

/-- Count events grouped by day and kind for the last N days. -/
def EventsByDay (sql : SqliteTime) (t : List EventRow) (kinds : List String) (days : ℤ)
    (out : List (String × String × ℕ)) : Prop :=
  CountedSince sql.day t kinds (sql.back "days" days) out

end Auxlry
