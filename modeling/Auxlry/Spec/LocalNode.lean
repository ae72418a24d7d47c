import Auxlry.Posix.Calls
import Auxlry.Posix.Glob
import Auxlry.Spec.Protocol
import Auxlry.Utf8.Bytes

/-!
# Local node executor

`LocalNode` runs file operations on the machine it lives on. In workspace mode
`checkSandbox` is to confine them to the workspace root.

`searchFiles` leaves the search to the `glob` crate, which is a parameter; `Documented`
is what the crate says about a search. What the kernel lists in a directory and what a
shell does in one are parameters too (`Listing`, `Shell`).
-/

namespace Auxlry

open Posix

/-- Where the file operations of a process run: the tree and the working directory. -/
structure Disk where
  fs : Fs
  cwd : Loc
  cwdDir : fs.IsDir cwd

inductive NodeMode
  | workspace
  | system
  deriving DecidableEq, Repr

/-- Local node executor with optional sandbox enforcement. -/
structure LocalNode where
  nodeName : String
  mode : NodeMode
  workspaceRoot : Option String
  deriving DecidableEq, Repr

namespace LocalNode

/-- The path a request is checked and run with: its canonical form if it has one. -/
def resolve (d : Disk) (path : String) : Path :=
  match canonicalize d.cwd (.parse path) d.fs with
  | .ok l => ofLoc l
  | .error _ => .parse path

/-- Check if a path is within the sandbox (workspace mode only). -/
def checkSandbox (n : LocalNode) (d : Disk) (path : String) : Except String Path :=
  match n.mode, n.workspaceRoot with
  | .workspace, some root =>
    if (resolve d path).startsWith (.parse root) then .ok (resolve d path)
    else .error ("path '" ++ path ++ "' is outside workspace sandbox '" ++ root ++ "'")
  | _, _ => .ok (resolve d path)

/-- The text of the path a request is run with. -/
def resolvedText (d : Disk) (path : String) : String :=
  match canonicalize d.cwd (.parse path) d.fs with
  | .ok l => "/" ++ "/".intercalate l
  | .error _ => path

/-- What a file operation leaves: the tree, the locations touched, its result. -/
structure Saved where
  fs : Fs
  touched : List Loc
  result : Except String Unit

/-- Make the directory a file is to lie in, if its path has a parent. -/
def makeParent (d : Disk) (resolved : Path) : Out :=
  match resolved.parent with
  | some parent => createDirAll d.cwd parent d.fs
  | none => ⟨d.fs, [], .ok ()⟩

/-- `write_file`: check, make the parent, write. -/
def writeFile (n : LocalNode) (d : Disk) (path content : String) : Saved :=
  match n.checkSandbox d path with
  | .error e => ⟨d.fs, [], .error e⟩
  | .ok resolved =>
    let made := makeParent d resolved
    let out := made.andThen (write d.cwd resolved (Utf8.bytes content))
    { fs := out.fs
      touched := out.touched
      result := match made.result, out.result with
        | .error e, _ => .error e.message
        | _, .error _ => .error ("failed to write file: " ++ path)
        | _, .ok () => .ok () }

/-! ## Reading, listing, running -/

/-- What an operation opens or enters, and what it returns. -/
structure Opened (α : Type) where
  opened : Option Loc
  result : Except String α

/-- `read_file`: check, and read what the resolved path names. -/
def readFile (n : LocalNode) (d : Disk) (path : String) : Opened FileContent :=
  match n.checkSandbox d path with
  | .error e => ⟨none, .error e⟩
  | .ok resolved =>
    match Posix.read d.cwd resolved d.fs with
    | .error _ => ⟨none, .error ("failed to read file: " ++ path)⟩
    | .ok (l, bytes) =>
      match Utf8.decode bytes with
      | none => ⟨some l, .error ("failed to read file: " ++ path)⟩
      | some content => ⟨some l, .ok ⟨resolvedText d path, content⟩⟩

/-- What the kernel lists in an open directory. -/
def Listing : Type := Fs → Loc → Except IoError (List DirEntry)

/-- `list_dir`: check, and list what the resolved path names. -/
def listDir (listing : Listing) (n : LocalNode) (d : Disk) (path : String) : Opened (List DirEntry) :=
  match n.checkSandbox d path with
  | .error e => ⟨none, .error e⟩
  | .ok resolved =>
    match openDir d.cwd resolved d.fs with
    | .error _ => ⟨none, .error ("failed to read directory: " ++ path)⟩
    | .ok l => ⟨some l, (listing d.fs l).mapError IoError.message⟩

/-- What `sh -c` does in a directory, unless it cannot be started. -/
def Shell : Type := Loc → String → Option ExecResult

/-- The directory a command asks for: what was checked is dropped, and the spelling kept. -/
def commandDir (n : LocalNode) (d : Disk) : Option String → Except String (Option String)
  | some dir => (n.checkSandbox d dir).map fun _ => some dir
  | none => .ok (match n.mode with
    | .workspace => n.workspaceRoot
    | .system => none)

/-- `run_command`: enter the directory asked for, if there is one, and run. -/
def runCommand (sh : Shell) (n : LocalNode) (d : Disk) (command : String) (cwd : Option String) :
    Opened ExecResult :=
  match n.commandDir d cwd with
  | .error e => ⟨none, .error e⟩
  | .ok dir =>
    match dir.elim (.ok d.cwd) fun dir => openDir d.cwd (.parse dir) d.fs with
    | .error _ => ⟨none, .error "failed to execute command"⟩
    | .ok l =>
      match sh l command with
      | none => ⟨some l, .error "failed to execute command"⟩
      | some result => ⟨some l, .ok result⟩

/-! ## Searches -/

/-- `glob::glob`: the paths found and the errors met, or nothing for a malformed pattern. -/
def Glob : Type := Disk → String → Option (List (Option Path))

/-- The path exists and matches the pattern. -/
def Finds (r : PatternRules) (d : Disk) (pattern path : Path) : Prop :=
  path.components ≠ [] ∧ r.Matches pattern.components path.components ∧
    ∃ l, place d.fs maxLinks d.cwd path.components = some l ∧ (pattern.wantsDir → d.fs.IsDir l)

/-- The crate finds all the paths that match a pattern, and no others. -/
structure Glob.Documented (glob : Glob) (r : PatternRules) (d : Disk) (pattern : String) : Prop where
  wellFormed : (glob d pattern).isSome = r.wellFormed pattern
  sound : ∀ found, glob d pattern = some found → ∀ p, some p ∈ found → Finds r d (.parse pattern) p
  complete : ∀ found, glob d pattern = some found → ∀ p, Finds r d (.parse pattern) p →
    ∃ q, some q ∈ found ∧ q.components = p.components

/-- Where a search starts: at the root asked for, or at the workspace root. -/
def searchRoot (n : LocalNode) (d : Disk) : Option String → Except String String
  | some root => (n.checkSandbox d root).map fun _ => resolvedText d root
  | none => .ok (n.workspaceRoot.getD ".")

/-- `search_files`; a path is returned as its text. -/
def searchFiles (glob : Glob) (n : LocalNode) (d : Disk) (pattern : String) (root : Option String) :
    Except String (List Path) :=
  match n.searchRoot d root with
  | .error e => .error e
  | .ok start =>
    -- a malformed pattern is replaced by the empty one, and errors are passed over
    .ok (((glob d (join start pattern)).getD ((glob d "").getD [])).filterMap id)

end LocalNode

end Auxlry
