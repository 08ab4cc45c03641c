import Glob.CommandLine.Run
/-!
# The program as it runs

Collects the surroundings, runs the program in them, and carries out what it comes to: the log, the
two output streams and the exit code.  Of the files it looks only at those that may hold the
configuration, and at what is on the way to them and to the directory for the log.
-/
namespace Glob.Main

def toText (s : String) : Text := Text.of s

def toBytes (t : Text) : ByteArray :=
  match Utf8.encode t with
  | .ok bytes => ⟨bytes.toArray⟩
  | .error _ => ByteArray.empty

def toName (t : Text) : String := t.toString?.getD ""

def variableNames : List String :=
  ["HOME", "PATHGLOB_CONFIG_DIR", "XDG_CONFIG_HOME", "PATHGLOB_DEBUG", "PATHGLOB_DEBUG_LEVEL"]

def environment : IO (List (Text × Text)) :=
  variableNames.filterMapM fun name => do
    return (← IO.getEnv name).map fun value => (toText name, toText value)

/-- What is at a path.  A file that cannot be read is of no more use than a directory. -/
def look (p : FilePath) : IO (Option Entry) := do
  match (← (IO.FS.readBinFile (toName p.toText)).toBaseIO) with
  | .ok bytes => return some (.file bytes.toList)
  | .error e =>
    match e with
    | .noFileOrDirectory .. => return none
    | .inappropriateType _ 21 _ => return some .directory
    | .inappropriateType .. => return none
    | .invalidArgument .. => return none
    | _ => return some .directory

def withPaths (s : Surroundings) (paths : List FilePath) : IO Surroundings :=
  (paths.flatMap fun p => p.ancestors ++ [p]).foldlM (fun s p => do
    match (← look p) with
    | some e => return { s with files := s.files.write (s.files.named p) e }
    | none => return s) s

def surroundings : IO Surroundings := do
  let directory := (FilePath.parse (toText (← IO.currentDir).toString)).components
  let s : Surroundings := {
    program := toText "pathglob"
    files := (FileTree.mk directory []).write directory .directory
    environment := ← environment
    homes := [] }
  let s ← withPaths s (Config.candidates s ++ (s.home.toOption.map (·.child ".pathglobrc")).toList)
  match (Config.ask s (Config.logDirectory s)).2 with
  | .ok directory => withPaths s [directory]
  | .error _ => return s

partial def readAll (stream : IO.FS.Stream) (before : ByteArray) : IO ByteArray := do
  let more ← stream.read 65536
  if more.isEmpty then return before else readAll stream (before ++ more)

def writeLines (stream : IO.FS.Stream) (lines : List Text) : IO Unit := do
  stream.write (toBytes (lines.flatMap (· ++ [Mark.newline])))
  stream.flush

def writeLog (log : CommandLine.LogFile) (records : List Log.Record) : IO Unit := do
  let name := fun (location : Location) => toName (FilePath.toText ⟨1, location⟩)
  IO.FS.createDirAll (name log.location.dropLast)
  IO.FS.withFile (name log.location) .append fun handle =>
    handle.write (toBytes (records.flatMap fun r => r.line ++ [Mark.newline]))

def carryOut (arguments : List Text) : IO UInt32 := do
  let input ←
    if (CommandLine.Reading.ofArguments arguments).needsInput then
      readAll (← IO.getStdin) ByteArray.empty
    else pure ByteArray.empty
  let o := CommandLine.run (← surroundings) arguments (Utf8.decodeLossless input.toList)
  if let some log := o.log then writeLog log o.records
  writeLines (← IO.getStdout) o.outputLines
  writeLines (← IO.getStderr) o.errorLines
  if let .failed f := o.ending then writeLines (← IO.getStderr) [f.message]
  return o.exitCode.toUInt32

end Glob.Main

def main (arguments : List String) : IO UInt32 :=
  Glob.Main.carryOut (arguments.map Glob.Main.toText)
