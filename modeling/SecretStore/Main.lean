import SecretStore.Command
import SecretStore.Log.Moment
import SecretStore.Net.Http1
import Std.Async.DNS
import Std.Async.TCP

/-!
# Command line

The outer layer of the program: it looks at the environment and at files, exchanges bytes with
servers and prints. What it does with them is decided by `Command`. Connections are plain; an
address that asks for encryption gets no answer, and so any file will do for a certificate. The
names of hosts are those of plain ASCII.
-/

namespace SecretStore.Main

open SecretStore.Command
open Config.Environment (Variable)

/-! ### Files and variables -/

/-- The reason why a file could not be read. -/
def fileError : IO.Error → FileError
  | .noFileOrDirectory .. => .notFound
  | .permissionDenied .. => .denied
  | .inappropriateType _ code _ =>
    if code = 20 then .notDirectory else .isDirectory
  | e => .other e.toString

/-- The contents of a file. -/
def readFile (path : String) : IO (Except FileError Bytes) := do
  try
    let bytes ← IO.FS.readBinFile path
    pure (.ok bytes.toList)
  catch e => pure (.error (fileError e))

/-- The contents of files. -/
def readFiles (paths : List String) : IO (List (String × Except FileError Bytes)) :=
  paths.mapM fun path => do pure (path, ← readFile path)

/-- The definition that bytes spell, if they are text. -/
def definition? (bytes : Bytes) : Option Variable := do
  let name ← Bytes.toString? (bytes.takeWhile (· ≠ 0x3D))
  let value ← Bytes.toString? ((bytes.dropWhile (· ≠ 0x3D)).drop 1)
  pure ⟨name, value⟩

/-- The definitions that stand between zeros. -/
def definitions (bytes : Bytes) : List Variable :=
  (bytes.splitOn 0).filterMap fun part => if part.isEmpty then none else definition? part

/-- The variables of the environment. -/
def readVariables : IO (List Variable) := do
  match ← readFile "/proc/self/environ" with
  | .ok bytes => pure (definitions bytes)
  | .error _ => pure []

/-! ### Servers -/

/-- The addresses of the host of a web address. -/
def addressesOf (host : String) : IO (List Std.Net.IPAddr) := do
  match Std.Net.IPv4Addr.ofString host with
  | some a => pure [.v4 a]
  | none => pure (← (Std.Async.DNS.getAddrInfo host "").block).toList

/-- An address with a port. -/
def socketAddress (port : UInt16) : Std.Net.IPAddr → Std.Net.SocketAddress
  | .v4 a => .v4 ⟨a, port⟩
  | .v6 a => .v6 ⟨a, port⟩

/-- The bytes that arrive before the other side closes the connection. -/
partial def receive (socket : Std.Async.TCP.Socket.Client) (read : ByteArray) : IO ByteArray := do
  match ← (socket.recv? 65536).block with
  | some bytes => receive socket (read ++ bytes)
  | none => pure read

/-- Sends bytes to an address and answers those that come back. -/
def talk (address : Std.Net.SocketAddress) (bytes : ByteArray) : IO ByteArray := do
  let socket ← Std.Async.TCP.Socket.Client.mk
  (socket.connect address).block
  (socket.send bytes).block
  receive socket .empty

/-- The port of a web address. -/
def portOf (url : Net.Url) : UInt16 := UInt16.ofNat (url.serverPort?.getD 80)

/-- The first of some actions that succeeds. -/
def firstOf (failure : IO α) : List (IO α) → IO α
  | [] => failure
  | a :: rest => do try a catch _ => firstOf failure rest

/-- The response of the server that a message is for. -/
def answer (m : Net.Message) : IO (Option Net.Response) := do
  if m.url.scheme ≠ "http".toList then return none
  try
    let host := String.ofList ((m.url.host.getD []).filter fun c => c ≠ '[' ∧ c ≠ ']')
    let bytes := ByteArray.mk m.bytes.toArray
    let talks := (← addressesOf host).map fun a => talk (socketAddress (portOf m.url) a) bytes
    let reply ← firstOf (throw (.userError "no address")) talks
    pure (Net.Response.read? reply.toList)
  catch _ => pure none

/-! ### The program -/

/-- No name but the plain ones, and no look at certificates. -/
def primitives : Net.Primitives := ⟨fun _ => none, fun _ => .ok (), fun _ => .ok ()⟩

/-- The present moment. -/
def now : IO Log.Moment := do
  let t ← Std.Time.Timestamp.now
  pure ⟨(t.toNanosecondsSinceUnixEpoch.val / 1000).toNat⟩

/-- Prints the log line of an event if the event is logged. The time since the health check was
asked for stands in its result. -/
def log (session : Session) (asked : IO.Ref Nat) (e : Log.Event) : IO Unit := do
  let clock ← IO.monoMsNow
  if e = .healthAsked then asked.set clock
  match session.record? (some (clock - (← asked.get))) e with
  | none => pure ()
  | some r => IO.eprintln (r.written session.logsForMachines (← now))

/-- Carries out a procedure over messages. -/
def perform (note : Log.Event → IO Unit) : Net.Traffic α → IO α
  | .done a => pure a
  | .ask m next => do perform note (next (← answer m))
  | .note e rest => do
    note e
    perform note rest

/-- Reads the configuration together with all files that the run looks at. -/
def prepare : IO (Except Failure Session) := do
  let directory := Files.names (← IO.currentDir).toString
  let candidates := fun path => Files.candidates directory path
  let ownVariables ← readVariables
  let dotenv ← readFiles (candidates ".env")
  let given : Config.Surroundings := ⟨.ofList dotenv, directory, ownVariables⟩
  let found ← readFiles ((configurationFiles (withFileVariables given)).flatMap candidates)
  match begin primitives { given with files := .ofList (dotenv ++ found) } with
  | .error failure => pure (.error failure)
  | .ok session => do
    let needed ← readFiles session.paths
    pure (.ok { session with files := .ofList needed })

/-- The whole run, which answers the exit code. -/
def run : IO UInt32 := do
  match ← prepare with
  | .error failure => do
    IO.eprintln failure.text
    pure failure.exitCode.toUInt32
  | .ok session => do
    let asked ← IO.mkRef 0
    let ending ← perform (log session asked) session.run
    IO.print ending.stdout
    pure ending.exitCode.toUInt32

end SecretStore.Main

/-- Runs the program. -/
def main : IO UInt32 := SecretStore.Main.run
