import Vyper.Check
import Vyper.Server.JsonText
import Vyper.Server.State

/-!
# Command line

`check FILE` builds one file and says what is wrong with it; `serve` talks to an editor over
standard input and output. Files are read here and handed on as values.
-/

namespace Vyper.Main

inductive Command where
  | check (file : String)
  | serve (logLevel : String) (debounceMs : Option Nat)

def usage : String :=
  "usage: vyper-lsp check FILE\n       vyper-lsp serve [--log-level FILTER] [--debounce-ms MS]"

/-- The settings of the server, each given as two words. -/
def readFlags (logLevel : String) (debounceMs : Option Nat) : List String → Option Command
  | [] => some (.serve logLevel debounceMs)
  | "--log-level" :: value :: rest => readFlags value debounceMs rest
  | "--debounce-ms" :: value :: rest =>
    match value.toNat? with
    | some ms => readFlags logLevel (some ms) rest
    | none => none
  | _ => none

def Command.read? : List String → Option Command
  | ["check", file] => some (.check file)
  | "serve" :: flags | "lsp" :: flags => readFlags "info" none flags
  | _ => none

/-- The bytes of a file, if it can be read. -/
def readBytes? (path : String) : IO (Option ByteArray) := do
  try
    return some (← IO.FS.readBinFile path)
  catch _ => return none

/-- The files among some paths. -/
def readFiles (paths : List Path) : IO FileSystem := do
  let found ← paths.filterMapM fun path => do
    return (← readBytes? path.text).map (path, ·)
  return .ofTable found

def reportDiagnostic (file : String) (d : Diagnostic) : IO Unit :=
  IO.eprintln s!"{file}:{d.range.start.line + 1}:{d.range.start.character + 1}: {d.message}"

def runCheck (file : String) : IO UInt32 := do
  match ← readBytes? file with
  | none =>
    IO.eprintln s!"Error reading file: {file}"
    return 1
  | some bytes =>
    let path : Path := ⟨(← IO.FS.realPath file).toString⟩
    let text := ((String.fromUTF8? bytes).getD "").toList
    let others := (importCandidates text path.parent?.toList).filter (· ≠ path)
    let files ← readFiles (path :: others)
    let report := Vyper.check files path
    match report with
    | .unreadable => IO.eprintln s!"Error reading file: {file}"
    | .built ds => ds.forM (reportDiagnostic file)
    IO.print report.output
    return UInt32.ofNat report.exitCode

/-- The length a header line announces. -/
def contentLength? (line : String) : Option Nat :=
  match Search.dropFront? "content-length:".toList (line.toList.map Char.toLower) with
  | some value => (String.ofList (CharClass.trim value)).toNat?
  | none => none

/-- Reads header lines up to an empty one. -/
partial def readHeader (input : IO.FS.Stream) (length : Option Nat) : IO (Option Nat) := do
  let line ← input.getLine
  if line.isEmpty then return none
  else if (CharClass.trim line.toList).isEmpty then return length
  else readHeader input ((contentLength? line).or length)

/-- Reads exactly so many bytes, unless the input ends. -/
partial def readExactly (input : IO.FS.Stream) (length : Nat) (read : ByteArray) :
    IO ByteArray := do
  if read.size ≥ length then return read
  let more ← input.read (USize.ofNat (length - read.size))
  if more.isEmpty then return read else readExactly input length (read ++ more)

/-- The next message, or nothing at the end of the input. -/
def readMessage (input : IO.FS.Stream) : IO (Option Json) := do
  match ← readHeader input none with
  | none => return none
  | some length =>
    let bytes ← readExactly input length ByteArray.empty
    return (String.fromUTF8? bytes).bind fun s => Json.parse s.toList

def send (output : IO.FS.Stream) (message : Outgoing) : IO Unit := do
  let body := (Json.obj (("jsonrpc", .str "2.0") :: message.members)).render
  output.putStr s!"Content-Length: {body.utf8ByteSize}\r\n\r\n{body}"
  output.flush

/-- Rebuilds what is due. -/
def rebuild (output : IO.FS.Stream) (s : Server) : IO Server := do
  let now ← IO.monoMsNow
  match s.nextDeadline? with
  | some deadline =>
    if now < deadline then return s
    let workingDirectory : Option Path := some ⟨(← IO.currentDir).toString⟩
    let files ← readFiles (s.documents.flatMap fun o =>
      importCandidates o.document.text (o.document.searchPaths workingDirectory))
    let (s, out) := s.rebuildDue (.builtIn files) workingDirectory now
    out.forM (send output)
    return s
  | none => return s

/-- Serves messages and rebuilds until the session ends. -/
partial def serveLoop (input output : IO.FS.Stream) (s : Server)
    (next : Task (Except IO.Error (Option Json))) : IO Unit := do
  if ← IO.hasFinished next then
    match next.get with
    | .ok (some j) =>
      let now ← IO.monoMsNow
      let (s, out) := ((Incoming.ofJson? j).map (s.receive now)).getD (s, [])
      out.forM (send output)
      if s.running then serveLoop input output s (← IO.asTask (readMessage input) .dedicated)
    | _ => return
  else
    let s ← rebuild output s
    IO.sleep 2
    serveLoop input output s next

/-- Waits for the request that opens a session, and returns its options. -/
partial def handshake (input output : IO.FS.Stream) : IO (Option (Option Json)) := do
  match ← readMessage input with
  | none => return none
  | some j =>
    match Incoming.ofJson? j with
    | some (.request id "initialize" params) =>
      send output (Server.greeting id)
      let _ ← readMessage input
      return some (params.get? "initializationOptions")
    | _ => handshake input output

def runServe (logLevel : String) (debounceMs : Option Nat) : IO UInt32 := do
  let input ← IO.getStdin
  let output ← IO.getStdout
  match ← handshake input output with
  | none => return 1
  | some options =>
    let (s, out) := Server.start options debounceMs (LogFilter.ofText logLevel)
    out.forM (send output)
    serveLoop input output s (← IO.asTask (readMessage input) .dedicated)
    return 0

end Vyper.Main

def main (args : List String) : IO UInt32 := do
  match Vyper.Main.Command.read? args with
  | some (.check file) => Vyper.Main.runCheck file
  | some (.serve logLevel debounceMs) => Vyper.Main.runServe logLevel debounceMs
  | none =>
    IO.eprintln Vyper.Main.usage
    return 2
