import Mathlib.Data.Nat.Notation

/-!
# Protocol messages

What the core and its remote nodes send each other.
-/

namespace Auxlry

/-- Result of a command execution on a node. -/
structure ExecResult where
  stdout : String
  stderr : String
  exitCode : Int
  deriving DecidableEq, Repr

/-- Result of a file read operation. -/
structure FileContent where
  path : String
  content : String
  deriving DecidableEq, Repr

/-- Directory listing entry. -/
structure DirEntry where
  name : String
  isDir : Bool
  size : ℕ
  deriving DecidableEq, Repr

inductive ProtocolMessage
  | authRequest (code name : String)
  | authResponse (success : Bool) (token : Option String)
  | tokenAuth (token : String)
  | tokenAuthResponse (success : Bool)
  | runCommand (command : String) (cwd : Option String)
  | runCommandResult (result : ExecResult)
  | readFile (path : String)
  | readFileResult (content : FileContent)
  | writeFile (path content : String)
  | writeFileResult (success : Bool) (error : Option String)
  | listDir (path : String)
  | listDirResult (entries : List DirEntry)
  | searchFiles (pattern : String) (root : Option String)
  | searchFilesResult (paths : List String)
  | error (message : String)
  | ping
  | pong
  deriving DecidableEq, Repr

end Auxlry
