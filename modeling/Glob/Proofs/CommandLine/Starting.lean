import Glob.CommandLine.Run
import Glob.Proofs.CommandLine.Switches
import Glob.Proofs.Configuration
/-!
# How a run comes to its command

Before it does its command a run makes the directory for the log, opens the log and reads the configuration.  In
surroundings that are `Ready` nothing of this fails, and nothing of it is shown: whatever the command shows (`Shows`), the
run shows (`Ready.run_shows`).  The command is done with the options of which the flags say the last word, and the
configuration where they say nothing (`chosen`).
-/
namespace Glob.CommandLine

/-! ## What is shown -/

def Event.printed? : Event → Option Text
  | .printed line => some line
  | _ => none

def Event.complaint? : Event → Option Text
  | .complaint line => some line
  | _ => none

def AllLogged (events : List Event) : Prop := ∀ e ∈ events, ∃ r, e = .logged r

/-- The lines on the two streams and the exit code of what happened; its log, if it has one, is not shown. -/
structure Outcome.Shows (o : Outcome) (output errors : List Text) (code : Nat) : Prop where
  quiet : ∀ log ∈ o.log, log.isShown = false
  output : o.events.filterMap Event.printed? = output
  errors : o.events.filterMap Event.complaint? = errors
  ending : o.ending = .exit code

variable {o : Outcome} {events : List Event} {output errors : List Text} {code : Nat} {log : LogFile}

namespace Outcome

theorem Shows.outputLines (h : o.Shows output errors code) : o.outputLines = output := by
  have hlines : o.outputLines = o.events.filterMap Event.printed? := by
    refine congrArg (o.events.filterMap ·) (funext fun e => ?_)
    cases e <;> rfl
  rw [hlines, h.output]

theorem Shows.errorLines (h : o.Shows output errors code) : o.errorLines = errors := by
  have hlines : o.errorLines = o.events.filterMap Event.complaint? := by
    refine congrArg (o.events.filterMap ·) (funext fun e => ?_)
    cases e with
    | printed | complaint => rfl
    | logged r =>
      cases hlog : o.log with
      | none => rfl
      | some log => simp [h.quiet log hlog, Event.complaint?]
  rw [hlines, h.errors]

/-- Records before it do not change what is shown. -/
theorem Shows.after (h : o.Shows output errors code) (hevents : AllLogged events) :
    (o.after events).Shows output errors code := by
  have hlogged : ∀ view : Event → Option Text, (∀ r, view (.logged r) = none) →
      (events ++ o.events).filterMap view = o.events.filterMap view := by
    intro view hview
    have hnone : events.filterMap view = [] := List.filterMap_eq_nil_iff.2 fun e he => by
      obtain ⟨r, rfl⟩ := hevents e he
      exact hview r
    rw [List.filterMap_append, hnone, List.nil_append]
  exact ⟨h.quiet, (hlogged _ fun _ => rfl).trans h.output, (hlogged _ fun _ => rfl).trans h.errors, h.ending⟩

/-- A log that is not shown does not change what is shown. -/
theorem Shows.withLog (h : o.Shows output errors code) (hlog : log.isShown = false) :
    ({ o with log := some log } : Outcome).Shows output errors code := by
  refine ⟨?_, h.output, h.errors, h.ending⟩
  rintro log' ⟨⟩
  exact hlog

end Outcome

/-! ## Opening the log -/

/-- The surroundings of a run that comes to its command.  The user has a home directory, in which the directory for the log
is or can be made, and the log can be opened there.  The configuration says the same before and after that: nothing of the
log, and of matching nothing else than a table. -/
structure Ready (s : Surroundings) (home : FilePath) (files : FileTree) (user : Table) : Prop where
  resident : s.home = .ok home
  made : s.files.makeDirectories (home.child ".pathglob") = .ok files
  short : Utf8.size (FilePath.toText ⟨max 1 (home.child ".pathglob").root,
    files.named ((home.child ".pathglob").child logName)⟩) ≤ pathLimit
  free : files.isDirectory (files.named ((home.child ".pathglob").child logName)) = false
  before : Config.Says s user
  after : Config.Says { s with files } user
  logger : user.get? Config.logger = none
  matching : user.Sectioned Config.matching

namespace Ready

variable {s : Surroundings} {home : FilePath} {files : FileTree} {user : Table}

/-- Where the user says nothing of the log, the defaults say it. -/
theorem setting_logger (h : Ready s home files user) (k : Text) :
    Config.setting user Config.logger k = (Config.defaults.at? [Config.logger, k]).getD .unset := by
  have hnone : user.at? [Config.logger, k] = none := by
    rw [Table.at?, Setting.at?_table, h.logger]
    rfl
  rw [Config.setting, hnone, Option.none_or]

theorem sectioned_logger (h : Ready s home files user) : user.Sectioned Config.logger := by
  intro v hv
  cases h.logger.symm.trans hv

theorem ask_logDirectory (h : Ready s home files user) :
    Config.ask s (Config.logDirectory s) = (none, .ok (home.child ".pathglob")) := by
  have hnames : Config.Names s (Config.setting user Config.logger Config.pathKey) (home.child ".pathglob") := by
    rw [h.setting_logger]
    exact .inr ⟨rfl, home, h.resident, rfl⟩
  rw [h.before.ask, (Config.logDirectory_defaults h.before.distinct s).2 ⟨h.sectioned_logger, hnames⟩]

theorem exists_logLevel (h : Ready s home files user) : ∃ level, logLevel { s with files } = (none, .ok level) := by
  have hverbosity : Config.verbosity (Config.defaults.merge user) = .ok (Text.of "INFO") := by
    refine (Config.verbosity_defaults h.after.distinct).2 ⟨h.sectioned_logger, ?_⟩
    rw [h.setting_logger]
    exact ⟨rfl, rfl⟩
  unfold logLevel
  dsimp only
  split
  · exact ⟨_, rfl⟩
  · rw [h.after.ask, hverbosity]
    exact ⟨_, rfl⟩

/-- **The log is opened**, and is shown exactly if the flags say so. -/
theorem openLog (h : Ready s home files user) (flags : Flags) :
    ∃ log, openLog s flags = ([], .ok (log, { s with files })) ∧ log.isShown = flags.debug := by
  obtain ⟨level, hlevel⟩ := h.exists_logLevel
  let directory := home.child ".pathglob"
  let log : LogFile := ⟨files.named (directory.child logName), directory.inside logName, level, flags.debug⟩
  have hopen : openLogIn { s with files } flags directory = ([], .ok log) := by
    have hfree : ¬ files.isDirectory (files.named (directory.child logName)) = true := by
      rw [h.free]
      nofun
    simp only [openLogIn, hlevel]
    rw [if_neg (Nat.not_lt.2 h.short), if_neg hfree]
    rfl
  refine ⟨log, ?_, rfl⟩
  simp only [CommandLine.openLog, h.ask_logDirectory, h.made]
  rw [hopen]
  rfl

end Ready

/-- A home directory with nothing in it but a configuration file about matching is such surroundings. -/
theorem homeWith_ready {bytes : Bytes} {text : Text} {user : Table} (htext : Utf8.decode? bytes = .ok text)
    (hread : Toml.read text = .ok user) (hlogger : user.get? Config.logger = none)
    (hmatching : user.Sectioned Config.matching) :
    Ready (Config.homeWith bytes) ⟨1, [Text.of "h"]⟩
      ((Config.homeWith bytes).files.put [Text.of "h", Text.of ".pathglob"] .directory) user where
  resident := rfl
  made := rfl
  short := by
    show Utf8.size (FilePath.toText ⟨1, [Text.of "h", Text.of ".pathglob", Text.of logName]⟩) ≤ pathLimit
    decide
  free := rfl
  before := .file (Config.homeWith_found bytes) htext hread
  after := .file ⟨rfl, rfl⟩ htext hread
  logger := hlogger
  matching := hmatching

/-! ## Doing the command -/

/-- The options of a run: as the last flag about each says or, where there is none, as the truth value of what is set. -/
def chosen (flags : List Flag) (user : Table) : Options where
  caseSensitive := (Flag.last? flags .letterCase).getD (Config.setting user Config.matching Config.caseKey).isTrue
  literalSeparator := (Flag.last? flags .separator).getD (Config.setting user Config.matching Config.separatorKey).isTrue
  literalLeadingDot :=
    (Flag.last? flags .leadingDot).getD (Config.setting user Config.matching Config.leadingDotKey).isTrue

variable {s : Surroundings} {home : FilePath} {files : FileTree} {user : Table} {flags : List Flag}

theorem options_chosen (flags : List Flag) (user : Table) :
    (flags.foldl Flag.set {}).options ⟨(Config.setting user Config.matching Config.caseKey).isTrue,
      (Config.setting user Config.matching Config.separatorKey).isTrue,
      (Config.setting user Config.matching Config.leadingDotKey).isTrue⟩ = chosen flags user := by
  have hsaid : ∀ x, (flags.foldl Flag.set {}).said x = Flag.last? flags x := by
    intro x
    rw [said_foldl_set]
    cases x <;> exact Option.or_none
  have hcase : (flags.foldl Flag.set {}).caseSensitive = Flag.last? flags .letterCase := hsaid .letterCase
  have hseparator : (flags.foldl Flag.set {}).literalSeparator = Flag.last? flags .separator := hsaid .separator
  have hdot : (flags.foldl Flag.set {}).literalLeadingDot = Flag.last? flags .leadingDot := hsaid .leadingDot
  rw [Flags.options, hcase, hseparator, hdot, chosen]

/-- **A run comes to its command**, which is done with the chosen options; before it there are only records for the log. -/
theorem Ready.run (h : Ready s home files user) (flags : List Flag) :
    ∃ before log, AllLogged before ∧ log.isShown = false ∧ ∀ arguments task input, Requests flags arguments task →
      CommandLine.run s arguments input =
        { (task.perform (chosen flags user) input).after before with log := some log } := by
  obtain ⟨log, hopen, hlog⟩ := h.openLog (flags.foldl Flag.set {})
  have hoptions : Config.ask { s with files } Config.options = (none, .ok _) :=
    (h.after.ask _).trans (congrArg _ ((Config.options_defaults h.after.distinct).2 ⟨h.matching, rfl⟩))
  let before := [note .info (Text.of "Logging configured. Log file: " ++ log.name),
    note .info (Text.of "Log level set to: " ++ Text.of log.level.name),
    note .debug (Text.of "Matching with " ++ (chosen flags user).display)]
  have hbefore : AllLogged before := by
    simp [AllLogged, before, note]
  refine ⟨before, log, hbefore, hlog.trans (foldl_set_others flags {}).1, fun arguments task input hrequests => ?_⟩
  have harguments : Reading.ofArguments arguments = .start (flags.foldl Flag.set {}) (.ok (.perform task)) := hrequests
  simp only [CommandLine.run, harguments, hopen, work, hoptions, options_chosen]
  rfl

/-- What the command shows the run shows. -/
theorem Ready.run_shows (h : Ready s home files user) {arguments : List Text} {task : Task} {input : Text}
    (hrequests : Requests flags arguments task)
    (hshows : (task.perform (chosen flags user) input).Shows output errors code) :
    (CommandLine.run s arguments input).Shows output errors code := by
  obtain ⟨before, log, hbefore, hlog, hrun⟩ := h.run flags
  rw [hrun arguments task input hrequests]
  exact (hshows.after hbefore).withLog hlog

end Glob.CommandLine
