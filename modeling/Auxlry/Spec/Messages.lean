import Auxlry.Sql.OrderBy

/-!
# The message history

The `messages` table of the core's database. Ids count up and are never used again, and
`created_at` is the time of the insert in whole seconds, as a text that sorts like the
time. The query for the recent messages sorts by that time only.
-/

namespace Auxlry

/-- A row of `messages`. -/
structure MessageRow where
  id : ℕ
  interface : String
  channel : String
  author : String
  content : String
  direction : String
  createdAt : ℕ
  deriving DecidableEq, Repr

/-- A stored message, as the query returns it. -/
structure StoredMessage where
  author : String
  content : String
  direction : String
  createdAt : ℕ
  deriving DecidableEq, Repr

def MessageRow.stored (r : MessageRow) : StoredMessage := ⟨r.author, r.content, r.direction, r.createdAt⟩

/-- The table, and the last id it has given out. -/
structure MessageTable where
  rows : List MessageRow
  seq : ℕ
  deriving DecidableEq, Repr

/-- A call of `insert_message`: its arguments, the time, and whether the statement succeeds. -/
structure InsertCall where
  interface : String
  channel : String
  author : String
  content : String
  direction : String
  now : ℕ
  queryOk : Bool
  deriving DecidableEq, Repr

namespace MessageTable

def empty : MessageTable := ⟨[], 0⟩

/-- Insert a message record; the table checks the direction. -/
def insertMessage (t : MessageTable) (m : InsertCall) : Except String MessageTable :=
  if m.queryOk ∧ (m.direction = "inbound" ∨ m.direction = "outbound") then
    .ok ⟨t.rows ++ [⟨t.seq + 1, m.interface, m.channel, m.author, m.content, m.direction, m.now⟩], t.seq + 1⟩
  else .error "failed to insert message"

/-- A sequence of calls; one that fails changes nothing. -/
def insertAll (t : MessageTable) (calls : List InsertCall) : MessageTable :=
  calls.foldl (fun t m => (t.insertMessage m).toOption.getD t) t

/-- The rows of an interface and a channel. -/
def select (t : MessageTable) (interface channel : String) : List MessageRow :=
  t.rows.filter fun r => r.interface = interface ∧ r.channel = channel

/-- What the query may return: a negative limit is none. -/
def Answers (t : MessageTable) (interface channel : String) (limit : ℤ) (rows : List MessageRow) : Prop :=
  ∃ order, Sql.OrderBy MessageRow.createdAt (t.select interface channel) order ∧
    rows = if limit < 0 then order else order.take limit.toNat

/-- Recent messages, oldest first, from the rows that the query returned. -/
def getRecentMessages (rows : List MessageRow) : List StoredMessage := (rows.map MessageRow.stored).reverse

end MessageTable

end Auxlry
