import Auxlry.Spec.Memory
import Auxlry.Sql.Filter

/-!
# Filters on the ids of memories

The rows of the vector store are selected by the text of a condition, which the store
builds from ids.
-/

namespace Auxlry

variable {V : Type}

/-- `replace('\'', "''")`. -/
def replaceQuotes (s : String) : String :=
  String.ofList (s.toList.flatMap fun c => if c = '\'' then ['\'', '\''] else [c])

/-- The filter of `MemoryStore::delete` and `MemoryStore::update`. -/
def idFilter (id : String) : String := "id = '" ++ replaceQuotes id ++ "'"

/-- The filter of `MemoryStore::fetch_by_ids`. -/
def idsFilter (ids : List String) : String :=
  let quoted := ids.map fun id => "'" ++ replaceQuotes id ++ "'"
  "id IN (" ++ ", ".intercalate quoted ++ ")"

/-- A column of a row; the embedding is no text. -/
def MemoryRow.column (row : MemoryRow V) : String → Option String
  | "id" => some row.id
  | "content" => some row.content
  | "source" => some row.source
  | "memory_type" => some row.memoryType
  | "created_at" => some row.createdAt
  | _ => none

/-- The rows that a filter selects, if its text is a condition. -/
def selected (filter : String) (rows : Multiset (MemoryRow V)) : Option (Multiset (MemoryRow V)) :=
  (Sql.parse filter).map fun c => rows.filter fun row => c.holds row.column

end Auxlry
