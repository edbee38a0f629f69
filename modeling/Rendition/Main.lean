import Rendition.Options
import Rendition.Time.IsoDate
import Std.Internal.UV.TCP
import Std.Time.DateTime.Timestamp

/-!
# Rendition.Main

The program: it reads the command line and starts the server on the machine it runs on, up to the
moment at which it listens. All that it decides is decided by `Invocation.ofWords` and
`Startup.start`; this module only makes the calls.
-/

namespace Rendition

open Net Time

namespace LocalMachine

/-- The reason and the number of a refusal by the system. -/
def reasonOf : IO.Error → String × UInt32
  | .alreadyExists _ code reason | .otherError code reason | .resourceBusy code reason
  | .resourceVanished code reason | .unsupportedOperation code reason
  | .hardwareFault code reason | .unsatisfiedConstraints code reason
  | .illegalOperation code reason | .protocolError code reason | .timeExpired code reason
  | .interrupted _ code reason | .noFileOrDirectory _ code reason
  | .invalidArgument _ code reason | .permissionDenied _ code reason
  | .resourceExhausted _ code reason | .inappropriateType _ code reason
  | .noSuchThing _ code reason => (reason, code)
  | .unexpectedEof => ("unexpected end of file", 0)
  | .userError reason => (reason, 0)

/-- The refusal that an exception reports; some calls report numbers with the sign turned. -/
def refusalOf (e : IO.Error) : OsError :=
  let (reason, code) := reasonOf e
  .ofCode (if code < 0x80000000 then code.toNat else UInt32.size - code.toNat) reason

/-- The outcome of calls of the system. -/
def attempt {α : Type} (call : IO α) : IO (Except OsError α) := do
  try pure (.ok (← call))
  catch e => pure (.error (refusalOf e))

/-- Opens and reads a file. -/
def openFile (path : String) : IO (Except OsError (Option ByteArray)) := do
  match ← attempt (IO.FS.Handle.mk path .read) with
  | .error e => pure (.error e)
  | .ok handle => pure (.ok (← attempt handle.readBinToEnd).toOption)

/-- The point of time that the clock of the system shows. -/
def now : IO Timestamp := do
  let t ← Std.Time.Timestamp.now
  pure ((Timestamp.ofNanos? t.toNanosecondsSinceUnixEpoch.val).getD .epoch)

/-- Adds an event to the log. -/
def log (file : IO.Ref (Option IO.FS.Handle)) (event : LogEvent) : IO Unit := do
  let line := event.datedLine (isoDate (← now)) ++ "\n"
  match ← file.get with
  | some handle =>
    handle.putStr line
    handle.flush
  | none => IO.eprint line

/-- Makes a directory the one from which relative paths start. All paths of a start are absolute
from then on, so that it is a directory is all there is to see to. -/
def enter (path : String) : IO (Except OsError Unit) :=
  attempt do
    unless ← (← IO.FS.realPath path).isDir do
      throw (.inappropriateType (some path) 20 "Not a directory")

/-- The address in the form of the system. -/
def socketAddress (address : Address) (port : UInt16) : Std.Net.SocketAddress :=
  match address with
  | .v4 octets => .v4 ⟨⟨Vector.ofFn fun i : Fin 4 => octets.getD i 0⟩, port⟩
  | .v6 groups => .v6 ⟨⟨Vector.ofFn fun i : Fin 8 => groups.getD i 0⟩, port⟩

/-- How many clients may wait. -/
def backlog : UInt32 := 1024

/-- The machine that the program runs on. -/
def machine (file : IO.Ref (Option IO.FS.Handle)) : Machine IO where
  openFile := openFile
  openLog path := attempt do file.set (some (← IO.FS.Handle.mk path .append))
  log := log file
  realPath path := attempt do pure (← IO.FS.realPath path).toString
  enter := enter
  readBelow root path := do
    let path := underRoot root path
    match ← (attempt (IO.FS.readBinFile path) : IO _) with
    | .ok bytes => pure (.bytes bytes)
    | .error _ => throw (LocalFiles.refused "read" path)
  watch path := attempt do
    let below ← (← IO.FS.realPath path).walkDir
    pure (path :: (← below.toList.filterM (·.isDir)).map (·.toString))
  listen address port := attempt do
    let socket ← Std.Internal.UV.TCP.Socket.new
    socket.bind (socketAddress address port)
    socket.listen backlog

end LocalMachine

/-- What the program does, with its exit code. -/
def run (words : List String) : IO UInt32 := do
  match Invocation.ofWords words with
  | .help => IO.print helpText; pure 0
  | .version => IO.print versionText; pure 0
  | .misuse word =>
    IO.eprintln ("error: unexpected argument or value: " ++ word)
    pure 2
  | .start options =>
    let file ← IO.mkRef none
    match ← (Startup.start (LocalMachine.machine file) options).run with
    | .ok _ => pure 0
    | .error failure =>
      IO.eprintln ("Error: " ++ failure.report)
      pure 1

end Rendition

/-- The program. -/
def main (words : List String) : IO UInt32 :=
  Rendition.run words
