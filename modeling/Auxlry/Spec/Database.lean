import Mathlib.Data.Nat.Notation

/-!
# Link codes and node tokens

The two tables of the core's database that admit nodes. A query that fails leaves them
as they are; whether it fails is up to the caller of the model.
-/

namespace Auxlry

/-- A row of `pending_link_codes`, with the time it was inserted. -/
structure PendingCode where
  code : String
  createdAt : ℕ
  deriving DecidableEq, Repr

/-- A row of `node_tokens`. -/
structure NodeToken where
  nodeName : String
  token : String
  deriving DecidableEq, Repr

structure Database where
  pendingLinkCodes : List PendingCode
  nodeTokens : List NodeToken
  deriving DecidableEq, Repr

namespace Database

/-- Store a pending one-time link code; the code is the primary key. -/
def storePendingCode (db : Database) (code : String) (now : ℕ) : Option Database :=
  if db.pendingLinkCodes.any (·.code = code) then none
  else some { db with pendingLinkCodes := db.pendingLinkCodes ++ [⟨code, now⟩] }

/-- Consume a pending link code: whether the code existed, and the tables without it. -/
def consumePendingCode (db : Database) (code : String) : Bool × Database :=
  (db.pendingLinkCodes.any (·.code = code),
    { db with pendingLinkCodes := db.pendingLinkCodes.filter (·.code ≠ code) })

/-- `INSERT OR REPLACE` of a node's token; the node name is the primary key. -/
def storeNodeToken (db : Database) (nodeName token : String) : Database :=
  { db with nodeTokens := db.nodeTokens.filter (·.nodeName ≠ nodeName) ++ [⟨nodeName, token⟩] }

/-- The node that a token was issued to. -/
def findNodeByToken (db : Database) (token : String) : Option String :=
  (db.nodeTokens.find? (·.token = token)).map (·.nodeName)

end Database

end Auxlry
