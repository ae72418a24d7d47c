import Auxlry.Spec.Text
import Auxlry.Sys.Calls
import Mathlib.Data.Nat.Notation

/-!
# The signals of the core commands

`core start`, `stop`, `restart`, `status` and `link` as the calls they make, one process on
its own: the file system, the PID file and the process table give any answers, also
different ones to the same question. The commands find the core by the number in the PID
file, which they read as a `u32` and pass to `libc::kill` as an `i32`.

`killTarget` is whom `kill` addresses, by the sign of its argument. In `CoreMachine` a
command always reaches the process with the number it has read.
-/

namespace Auxlry

/-- Whom a call of `kill` addresses. -/
inductive KillTarget
  | process (pid : ℕ)
  /-- every process in the group of the caller -/
  | ownGroup
  /-- every process that the caller may signal -/
  | everyone
  | group (pgid : ℕ)
  deriving DecidableEq, Repr

/-- `kill(2)`: a positive argument is a process, `-1` stands for all of them, and zero and
the other negative numbers for a process group. -/
def killTarget (pid : Int32) : KillTarget :=
  if 0 < pid.toInt then .process pid.toInt.toNat
  else if pid.toInt = 0 then .ownGroup
  else if pid.toInt = -1 then .everyone
  else .group (-pid.toInt).toNat

/-- `str::parse::<u32>`: decimal digits after an optional plus sign. -/
def parseU32 (s : String) : Option UInt32 :=
  let digits := match s.toList with
    | '+' :: cs => cs
    | cs => cs
  if !digits.isEmpty && digits.all Char.isDigit then
    let n := Nat.ofDigitChars 10 digits 0
    if n < UInt32.size then some (UInt32.ofNat n) else none
  else none

namespace CoreCmd

/-- What the commands ask for. -/
inductive Call
  /-- `AuxlryPaths::new` -/
  | newPaths
  /-- whether there is a PID file -/
  | pidExists
  | readPidFile
  | removePidFile
  | kill (pid signal : Int32)
  /-- run the daemon in this process, to its end -/
  | runDaemon
  /-- spawn `core start --foreground` -/
  | spawnDaemon
  | sleep (ms : ℕ)
  | openDatabase
  | storePendingCode (code : String)
  | generateLinkCode
  /-- the configured `quic_port` -/
  | loadConfig
  | localIp
  | println (line : String)
  deriving DecidableEq, Repr

/-- The answers: `kill` returns 0 on success, and what can fail an error. -/
abbrev Call.Answer : Call → Type
  | .newPaths | .runDaemon | .openDatabase | .storePendingCode _ => Except String Unit
  | .pidExists => Bool
  | .readPidFile => Except String String
  | .generateLinkCode => String
  | .removePidFile | .sleep _ | .println _ => Unit
  | .kill _ _ => Int32
  | .spawnDaemon => Except String UInt32
  | .loadConfig => Except String UInt16
  | .localIp => Option String

/-- A command. -/
abbrev Cmd (α : Type) := Sys.Prog Call.Answer α

/-! ## The calls -/

def newPaths : Cmd Unit := .call .newPaths .ofExcept

def pidExists : Cmd Bool := .call .pidExists .done

def readPidFile : Cmd String := .call .readPidFile .ofExcept

def removePidFile : Cmd Unit := .call .removePidFile .done

def kill (pid signal : Int32) : Cmd Int32 := .call (.kill pid signal) .done

def runDaemon : Cmd Unit := .call .runDaemon .ofExcept

def spawnDaemon : Cmd UInt32 := .call .spawnDaemon .ofExcept

def sleep (ms : ℕ) : Cmd Unit := .call (.sleep ms) .done

def openDatabase : Cmd Unit := .call .openDatabase .ofExcept

def storePendingCode (code : String) : Cmd Unit := .call (.storePendingCode code) .ofExcept

def generateLinkCode : Cmd String := .call .generateLinkCode .done

def loadConfig : Cmd UInt16 := .call .loadConfig .ofExcept

def getLocalIp : Cmd (Option String) := .call .localIp .done

def println (line : String) : Cmd Unit := .call (.println line) .done

/-! ## The commands -/

def sigterm : Int32 := 15

/-- The number in a PID file. -/
def parsePid (content : String) : Option UInt32 := parseU32 (trim content)

/-- `read_pid`. -/
def readPid : Cmd (Option UInt32) := do
  if ← pidExists then
    let content ← readPidFile
    match parsePid content with
    | none => .fail "invalid PID file"
    | some pid => pure (some pid)
  else pure none

/-- `is_process_running`: signal 0 checks if the process exists. -/
def isProcessRunning (pid : UInt32) : Cmd Bool := do
  let r ← kill pid.toInt32 0
  pure (r == 0)

/-- `start`. -/
def start (foreground : Bool) : Cmd Unit := do
  newPaths
  match ← readPid with
  | none => pure ()
  | some pid =>
    if ← isProcessRunning pid then .fail s!"core is already running (PID {pid})"
    -- a stale file
    else removePidFile
  if foreground then runDaemon
  else
    let child ← spawnDaemon
    println s!"auxlry core started (PID {child})"

/-- The loop of `stop`: wait briefly for graceful shutdown. -/
def awaitShutdown (pid : UInt32) : ℕ → Cmd Unit
  | 0 => pure ()
  | polls + 1 => do
    sleep 100
    if ← isProcessRunning pid then awaitShutdown pid polls else pure ()

/-- `stop`. -/
def stop : Cmd Unit := do
  newPaths
  match ← readPid with
  | none => .fail "core is not running (no PID file)"
  | some pid =>
    if ← isProcessRunning pid then
      let _ ← kill pid.toInt32 sigterm
      awaitShutdown pid 30
      if ← pidExists then removePidFile else pure ()
      println "auxlry core stopped"
    else
      removePidFile
      .fail "core is not running (stale PID file removed)"

/-- `status`. -/
def status : Cmd Unit := do
  newPaths
  match ← readPid with
  | some pid =>
    if ← isProcessRunning pid then
      println s!"auxlry core is running (PID {pid})"
      println "  API: http://localhost:8400"
    else
      removePidFile
      println "auxlry core is not running (stale PID cleaned up)"
  | none => println "auxlry core is not running"

/-- `restart`. -/
def restart (foreground : Bool) : Cmd Unit := do
  newPaths
  match ← readPid with
  | some pid => if ← isProcessRunning pid then stop else pure ()
  | none => pure ()
  start foreground

/-- `link`: a one-time code for a remote node. -/
def link : Cmd Unit := do
  newPaths
  match ← readPid with
  | none => .fail "core is not running — start it first"
  | some pid =>
    if ← isProcessRunning pid then
      openDatabase
      let code ← generateLinkCode
      storePendingCode code
      let quicPort ← loadConfig
      let localIp := (← getLocalIp).getD "127.0.0.1"
      println "link code generated — give this to the remote node:\n"
      println s!"  auxlry node link {localIp}:{quicPort} {code}"
      println ""
    else
      removePidFile
      .fail "core is not running (stale PID file removed)"

/-- The subcommands of `auxlry core`. -/
inductive CoreAction
  | start (foreground : Bool)
  | stop
  | restart (foreground : Bool)
  | status
  | link
  deriving DecidableEq, Repr

/-- What a subcommand does. -/
def CoreAction.run : CoreAction → Cmd Unit
  | .start foreground => CoreCmd.start foreground
  | .stop => CoreCmd.stop
  | .restart foreground => CoreCmd.restart foreground
  | .status => CoreCmd.status
  | .link => CoreCmd.link

end CoreCmd

end Auxlry
