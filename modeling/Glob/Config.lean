import Glob.Log
import Glob.Options
import Glob.FilePath
import Glob.Surroundings
import Glob.Toml.Document
/-!
# The configuration

What the user has set is in a TOML file, in a directory that the environment names or else in the
home directory.  `Config.load` lays it over the defaults.  A file that cannot be read, or that is no
TOML, leaves the defaults as they are and makes a warning.  A file that is not even text is an error,
and so are a number in it with too many digits and a path too long to look for a file there.

Nothing is checked when the file is loaded: a value may be of any type.  `verbosity`, `logDirectory`
and `options` read the values that the program needs, and find out then what a value is good for.
The file is loaded anew each time something is asked (`Config.ask`), so a warning may come again.
-/
namespace Glob.Config

inductive Failure
  | noHome (e : NoHome)
  | notText (e : Utf8.DecodeError)
  /-- A value stands where the program looks for a table. -/
  | notATable (v : Setting)
  | notAPath (e : NotAPath)
  | tooLong (e : Whole.TooLong)
  | files (f : FileFailure)

def Failure.message : Failure → Text
  | .noHome e => e.message
  | .notText e => e.message
  | .notATable v => v.notATableMessage
  | .notAPath e => e.message
  | .tooLong e => e.message
  | .files f => f.message

/-! ## The names of the entries -/

def logger : Text := Text.of "logger"
def verbosityKey : Text := Text.of "verbosity"
def pathKey : Text := Text.of "path"
def matching : Text := Text.of "match"
def caseKey : Text := Text.of "case_sensitive"
def separatorKey : Text := Text.of "require_literal_separator"
def leadingDotKey : Text := Text.of "require_literal_leading_dot"

def defaults : Table := [
  (logger, .table [(verbosityKey, .text (Text.of "INFO")), (pathKey, .unset)]),
  (matching, .table [
    (caseKey, .boolean true),
    (separatorKey, .boolean true),
    (leadingDotKey, .boolean false)])]

/-! ## Loading -/

/-- The files in directories that the environment names; the first one that is there counts. -/
def candidates (s : Surroundings) : List FilePath :=
  [(s.env? "PATHGLOB_CONFIG_DIR").map fun d => (FilePath.parse d).child "pathglobrc",
    (s.env? "XDG_CONFIG_HOME").map fun d =>
      ((FilePath.parse d).child "pathglob").child "pathglobrc"].filterMap id

/-- A path that may hang on a home directory, which there has to be then. -/
def located (p : Except NoHome FilePath) : Except Failure FilePath := p.mapError .noHome

def isThere (s : Surroundings) (p : FilePath) : Except Failure Bool :=
  (s.files.holds p).mapError .files

def firstThere (s : Surroundings) : List FilePath → Except Failure (Option FilePath)
  | [] => .ok none
  | p :: rest =>
    match isThere s p with
    | .error f => .error f
    | .ok true => .ok (some p)
    | .ok false => firstThere s rest

/-- The path of the configuration file, which need not be there. -/
def path (s : Surroundings) : Except Failure FilePath :=
  match firstThere s (candidates s) with
  | .error f => .error f
  | .ok (some p) => .ok p
  | .ok none => located (s.home.map (·.child ".pathglobrc"))

structure Loaded where
  table : Table
  ignored : Option FilePath

def ofFile (p : FilePath) (bytes : Bytes) : Except Failure Loaded :=
  match Utf8.decode? bytes with
  | .error e => .error (.notText e)
  | .ok text =>
    match Toml.read text with
    | .error .malformed => .ok ⟨defaults, some p⟩
    | .error (.tooLong e) => .error (.tooLong e)
    | .ok table => .ok ⟨defaults.merge table, none⟩

def load (s : Surroundings) : Except Failure Loaded :=
  match path s with
  | .error f => .error f
  | .ok p =>
    match isThere s p with
    | .error f => .error f
    | .ok _ =>
      match s.files.find? p with
      | none => .ok ⟨defaults, none⟩
      | some .directory => .ok ⟨defaults, some p⟩
      | some (.file bytes) => ofFile p bytes

def Loaded.warning (l : Loaded) : Option Log.Record :=
  l.ignored.map fun p => ⟨.warning, Text.of "Error loading config from " ++ p.toText⟩

/-- Loads the configuration to read something from it; also gives the warning, if there was one. -/
def ask {α : Type} (s : Surroundings) (reading : Table → Except Failure α) :
    Option Log.Record × Except Failure α :=
  match load s with
  | .error f => (none, .error f)
  | .ok l => (l.warning, reading l.table)

/-! ## Reading -/

def division (key : Text) (t : Table) : Except Failure Table :=
  match (t.get? key).getD .unset with
  | .table entries => .ok entries
  | v => .error (.notATable v)

def entry (division key : Text) (t : Table) : Except Failure Setting :=
  (fun entries => (Table.get? entries key).getD .unset) <$> Config.division division t

/-- How much is logged: the written form of any value that has one. -/
def verbosity (t : Table) : Except Failure Text :=
  match entry logger verbosityKey t with
  | .error f => .error f
  | .ok v => if v.isWritable then .ok v.toText else .error (.tooLong ⟨none⟩)

def logDirectory (s : Surroundings) (t : Table) : Except Failure FilePath :=
  match entry logger pathKey t with
  | .error f => .error f
  | .ok v =>
    if v.isTrue then
      match v with
      | .text t => located (s.expandHome (FilePath.parse t))
      | v => .error (.notAPath ⟨v.typeName⟩)
    else located (s.home.map (·.child ".pathglob"))

/-- The matching options: any value counts as yes or as no. -/
def options (t : Table) : Except Failure Options :=
  match division matching t with
  | .error f => .error f
  | .ok entries =>
    let isSet := fun key => ((Table.get? entries key).getD .unset).isTrue
    .ok ⟨isSet caseKey, isSet separatorKey, isSet leadingDotKey⟩

end Glob.Config
