import Glob.Proofs.ByteOffset
import Glob.Proofs.CommandLine.Starting
import Glob.Proofs.Text.Lines
import Glob.Proofs.Text.Styling
/-!
# What the command that selects paths comes to

The candidates are the paths, or the lines of standard input if there are none.  Those that a matcher of the pattern with
the chosen options accepts are printed in order, and the exit code says whether there were any; if the pattern has no
matcher, the error is shown and the exit code is 2, as it is with the other commands (`run_select`).  Only styling
sequences are not printed.  Where there is a matcher, nothing is said of standard error: an engine may remark there on
what it is given.
-/
namespace Glob.CommandLine

def Task.pattern : Task → Text
  | .translate pattern | .check pattern | .select pattern _ => pattern

variable {o : Options} {pattern : Text} {e : GlobError} {m : Matcher} {next : Outcome} {output errors ls : List Text}
  {code : Nat}

/-! ## Printing -/

/-- Lines without surrogates are printed, without their styling. -/
theorem print_shows (hls : ∀ l ∈ ls, ∀ c ∈ l, Text.isSurrogate c = false) (h : next.Shows output errors code) :
    (print ls next).Shows (ls.map Text.withoutStyling ++ output) errors code := by
  induction ls with
  | nil => exact h
  | cons l ls ih =>
    obtain ⟨hl, hls⟩ := List.forall_mem_cons.1 hls
    have hnone : Utf8.surrogates? l.withoutStyling = none :=
      Utf8.surrogates?_eq_none fun c hc => hl c ((Text.withoutStyling_sublist l).subset hc)
    have hrest := ih hls
    simp only [print, hnone]
    exact ⟨hrest.quiet, congrArg _ hrest.output, hrest.errors, hrest.ending⟩

/-- Printing ends as it goes on, unless a line cannot be printed. -/
theorem ending_print (ls : List Text) (next : Outcome) :
    (print ls next).ending = next.ending ∨ ∃ f, (print ls next).ending = .failed f := by
  induction ls with
  | nil => exact .inl rfl
  | cons l ls ih =>
    simp only [print]
    split
    · exact ih
    · exact .inr ⟨_, rfl⟩

/-! ## Compiling -/

def report (e : GlobError) : List Text := [e.caret.withoutStyling, (Text.of "error: " ++ e.message).withoutStyling]

theorem withMatcher_rejected (h : Matcher.ofPattern? o pattern = .error (.rejected e)) (goOn : Matcher → Outcome) :
    (withMatcher o pattern goOn).Shows [] (report e) 2 := by
  simp only [withMatcher, h]
  exact ⟨nofun, rfl, rfl, rfl⟩

theorem withMatcher_shows {goOn : Matcher → Outcome} (h : Matcher.ofPattern? o pattern = .ok m)
    (hgo : (goOn m).Shows output errors code) : (withMatcher o pattern goOn).Shows output errors code := by
  simp only [withMatcher, h]
  exact (hgo.after (by simp [AllLogged, note])).after (by simp [AllLogged, note])

/-- What goes on with a matcher does not end with 2, so only a pattern that has none does. -/
theorem withMatcher_exit_two {goOn : Matcher → Outcome} (hgo : ∀ m, (goOn m).ending ≠ .exit 2) :
    (withMatcher o pattern goOn).ending = .exit 2 ↔ ∃ e, Matcher.ofPattern? o pattern = .error (.rejected e) := by
  cases h : Matcher.ofPattern? o pattern with
  | ok m =>
    have hending : (withMatcher o pattern goOn).ending = (goOn m).ending := by
      simp only [withMatcher, h]
      rfl
    rw [hending]
    exact ⟨fun htwo => absurd htwo (hgo m), nofun⟩
  | error f =>
    obtain ⟨e, rfl, -⟩ := ofPattern?_error h
    exact ⟨fun _ => ⟨e, rfl⟩, fun _ => (withMatcher_rejected h goOn).ending⟩

theorem print_exit_two (hnext : next.ending ≠ .exit 2) (ls : List Text) : (print ls next).ending ≠ .exit 2 := by
  rcases ending_print ls next with h | ⟨f, h⟩
  · rwa [h]
  · rw [h]
    nofun

/-! ## Commands -/

/-- **Every command ends with 2 exactly if its pattern is rejected.** -/
theorem perform_exit_two (task : Task) (input : Text) :
    (task.perform o input).ending = .exit 2 ↔ ∃ e, Matcher.ofPattern? o task.pattern = .error (.rejected e) := by
  cases task with
  | translate | check => exact withMatcher_exit_two fun m => print_exit_two (by simp) _
  | select pattern paths =>
    have hcode : ∀ matched : List Text, (if matched = [] then 1 else 0) ≠ 2 := fun matched => by split <;> decide
    exact withMatcher_exit_two fun m => print_exit_two (fun hexit => hcode _ (Ending.exit.inj hexit)) _

/-- The texts that are tried: the paths, or else the lines of the input. -/
def candidates (paths : List Text) (input : Text) : List Text := if paths = [] then input.lines else paths

theorem select_shows (h : Matcher.ofPattern? o pattern = .ok m) {paths : List Text} {input : Text}
    (hplain : ∀ t ∈ input :: paths, ∀ c ∈ t, Text.isSurrogate c = false) :
    ((Task.select pattern paths).perform o input).Shows
      (((candidates paths input).filter m.accepts).map Text.withoutStyling) []
      (if (candidates paths input).any m.accepts then 0 else 1) := by
  obtain ⟨hinput, hpaths⟩ := List.forall_mem_cons.1 hplain
  have hcandidates : ∀ t ∈ candidates paths input, ∀ c ∈ t, Text.isSurrogate c = false := by
    unfold candidates
    split
    · exact fun t ht c hc => hinput c (Text.mem_of_mem_lines ht hc)
    · exact hpaths
  have hcode : (if (candidates paths input).filter m.accepts = [] then 1 else 0) =
      if (candidates paths input).any m.accepts then 0 else 1 := by
    by_cases hany : (candidates paths input).any m.accepts = true <;> simp_all
  refine withMatcher_shows h ?_
  rw [← List.append_nil (List.map _ _)]
  exact print_shows (fun l hl => hcandidates l (List.mem_filter.1 hl).1) ⟨nofun, rfl, rfl, congrArg _ hcode⟩

/-- The candidates are all that counts of the paths and the input. -/
theorem perform_select_congr {paths paths' : List Text} {input input' : Text}
    (h : candidates paths input = candidates paths' input') :
    (Task.select pattern paths).perform o input = (Task.select pattern paths').perform o input' := by
  unfold candidates at h
  simp only [Task.perform, h]

/-! ## Runs -/

variable {s : Surroundings} {home : FilePath} {files : FileTree} {user : Table} {flags : List Flag}
  {arguments arguments' paths : List Text} {input input' : Text} {task task' : Task}

theorem requests_select (hflags : Flag.AllWritten flags arguments)
    (hdash : ∀ t ∈ pattern :: paths, t.head? ≠ some Mark.dash) :
    Requests flags (arguments ++ Text.of "match" :: pattern :: paths) (.select pattern paths) :=
  ofArguments_command .select hflags hdash

/-- With a pattern alone, every command is requested to do something with it. -/
theorem exists_requests (c : Command) (hflags : Flag.AllWritten flags arguments) (hdash : pattern.head? ≠ some Mark.dash) :
    ∃ task : Task, task.pattern = pattern ∧ Requests flags (arguments ++ [Text.of c.name, pattern]) task := by
  have hoperands : ∀ t ∈ [pattern], t.head? ≠ some Mark.dash := List.forall_mem_singleton.2 hdash
  cases c with
  | translate => exact ⟨.translate pattern, rfl, ofArguments_command .translate hflags hoperands⟩
  | check => exact ⟨.check pattern, rfl, ofArguments_command .check hflags hoperands⟩
  | select => exact ⟨.select pattern [], rfl, ofArguments_command .select hflags hoperands⟩

/-- **A run ends with 2 exactly if the pattern is rejected**, whatever is done with the pattern. -/
theorem run_exit_two (h : Ready s home files user) (hrequests : Requests flags arguments task) :
    (CommandLine.run s arguments input).ending = .exit 2 ↔
      ∃ e, Matcher.ofPattern? (chosen flags user) task.pattern = .error (.rejected e) := by
  obtain ⟨before, log, -, -, hrun⟩ := h.run flags
  rw [hrun arguments task input hrequests]
  exact perform_exit_two task input

/-- Runs that do the same are the same. -/
theorem run_congr (h : Ready s home files user) (hrequests : Requests flags arguments task)
    (hrequests' : Requests flags arguments' task')
    (hperform : task.perform (chosen flags user) input = task'.perform (chosen flags user) input') :
    CommandLine.run s arguments input = CommandLine.run s arguments' input' := by
  obtain ⟨before, log, -, -, hrun⟩ := h.run flags
  rw [hrun arguments task input hrequests, hrun arguments' task' input' hrequests', hperform]

/-- **What a run of `match` comes to.**  If the pattern has no matcher, nothing is printed, the error is shown and the exit
code is 2, which it is for the same patterns with the other commands.  Otherwise the candidates that the matcher accepts
are printed in order, without styling, and the exit code says whether there are any.  And paths may as well be given as the
lines of standard input. -/
theorem run_select (h : Ready s home files user) (hflags : Flag.AllWritten flags arguments)
    (hdash : ∀ t ∈ pattern :: paths, t.head? ≠ some Mark.dash)
    (hplain : ∀ t ∈ input :: paths, ∀ c ∈ t, Text.isSurrogate c = false) :
    let o := chosen flags user
    let run := CommandLine.run s
    let outcome := run (arguments ++ Text.of "match" :: pattern :: paths) input
    ((∃ e, Matcher.ofPattern? o pattern = .error (.rejected e) ∧
        outcome.outputLines = [] ∧ outcome.errorLines = report e ∧ outcome.ending = .exit 2) ∨
      ∃ m, Matcher.ofPattern? o pattern = .ok m ∧
        outcome.outputLines = ((candidates paths input).filter m.accepts).map Text.withoutStyling ∧
        outcome.ending = .exit (if (candidates paths input).any m.accepts then 0 else 1)) ∧
    (∀ c, (run (arguments ++ [Text.of (Command.name c), pattern]) input).ending = .exit 2 ↔ outcome.ending = .exit 2) ∧
    ((∀ t ∈ paths, Text.IsLine t) → ∀ ending ∈ Text.lineEnds,
      (paths ≠ [] → run (arguments ++ [Text.of "match", pattern]) (Text.written ending paths) = outcome) ∧
      ∀ init last, paths = init ++ [last] → last ≠ [] →
        run (arguments ++ [Text.of "match", pattern]) (Text.written ending init ++ last) = outcome) := by
  have hselect : Requests flags (arguments ++ Text.of "match" :: pattern :: paths) (.select pattern paths) :=
    requests_select hflags hdash
  have hpattern : pattern.head? ≠ some Mark.dash := (List.forall_mem_cons.1 hdash).1
  intro o run outcome
  refine ⟨?_, fun c => ?_, fun hpaths ending hending => ?_⟩
  · cases hm : Matcher.ofPattern? o pattern with
    | error f =>
      obtain ⟨e, rfl, -⟩ := ofPattern?_error hm
      have hshows : outcome.Shows [] (report e) 2 := h.run_shows hselect (withMatcher_rejected hm _)
      exact .inl ⟨e, rfl, hshows.outputLines, hshows.errorLines, hshows.ending⟩
    | ok m =>
      have hshows := h.run_shows hselect (select_shows hm hplain)
      exact .inr ⟨m, rfl, hshows.outputLines, hshows.ending⟩
  · obtain ⟨task, htask, hrequests⟩ := exists_requests c hflags hpattern
    have hpatterns : (∃ e, Matcher.ofPattern? o task.pattern = .error (.rejected e)) ↔
        ∃ e, Matcher.ofPattern? o pattern = .error (.rejected e) := by rw [htask]
    exact (run_exit_two h hrequests).trans (hpatterns.trans (run_exit_two h hselect).symm)
  · -- what is read as the paths makes the same candidates
    have hsame : ∀ stdin : Text, paths ≠ [] → stdin.lines = paths →
        run (arguments ++ [Text.of "match", pattern]) stdin = outcome := by
      intro stdin hne hlines
      have hcandidates : candidates [] stdin = candidates paths input := by
        rw [candidates, if_pos rfl, hlines, candidates, if_neg hne]
      exact run_congr h (requests_select hflags (List.forall_mem_singleton.2 hpattern)) hselect
        (perform_select_congr hcandidates)
    refine ⟨fun hne => hsame _ hne (Text.lines_written hending hpaths), ?_⟩
    rintro init last rfl hlast
    obtain ⟨hinit, hline⟩ := List.forall_mem_append.1 hpaths
    exact hsame _ (by simp) (Text.lines_written_last hending hinit (hline last List.mem_cons_self) hlast)

/-- A letter flag that is taken back, an option that only the configuration has and one that only a flag has; the paths are
given by themselves and as lines. -/
theorem run_select_lines :
    let s := Config.homeWith ((Text.of "[match]\nrequire_literal_separator = 0\n").map UInt8.ofNat)
    let arguments := [Text.of "-si", Text.of "--literal-leading-dot", Text.of "match", Text.of "A*"]
    let outcome := CommandLine.run s (arguments ++ [Text.of "x", Text.of "a/b", Text.of "a/b"]) []
    outcome.outputLines = [Text.of "a/b", Text.of "a/b"] ∧ outcome.ending = .exit 0 ∧
      CommandLine.run s arguments (Text.of "x\r\na/b\r\na/b") = outcome := by
  have htext : Utf8.decode? ((Text.of "[match]\nrequire_literal_separator = 0\n").map UInt8.ofNat) =
      .ok (Text.of "[match]\nrequire_literal_separator = 0\n") := by cbv
  have hread : Toml.read (Text.of "[match]\nrequire_literal_separator = 0\n") =
      .ok [(Config.matching, .table [(Config.separatorKey, .integer 0)])] := by cbv
  have hready := homeWith_ready htext hread rfl (fun v hv => ⟨_, (Option.some.inj hv).symm⟩)
  have hflags : Flag.AllWritten ([true, false].map (⟨.letterCase, ·⟩) ++ ([⟨.leadingDot, true⟩] ++ []))
      [Text.of "-si", Text.of "--literal-leading-dot"] :=
    .cons (.letters [true, false] (List.cons_ne_nil _ _)) (.cons (.full ⟨.leadingDot, true⟩) .nil)
  have hm : ∃ m, Matcher.ofPattern? ⟨false, false, true⟩ (Text.of "A*") = .ok m ∧
      [Text.of "x", Text.of "a/b", Text.of "a/b"].filter m.accepts = [Text.of "a/b", Text.of "a/b"] := by
    refine ⟨_, rfl, ?_⟩
    decide
  have hdash : ∀ t ∈ [Text.of "A*", Text.of "x", Text.of "a/b", Text.of "a/b"], t.head? ≠ some Mark.dash := by decide
  have hplain : ∀ t ∈ [[], Text.of "x", Text.of "a/b", Text.of "a/b"], ∀ c ∈ t, Text.isSurrogate c = false := by decide
  have hlines : ∀ t ∈ [Text.of "x", Text.of "a/b", Text.of "a/b"], Text.IsLine t := by
    unfold Text.IsLine
    decide
  have hstdin : Text.of "x\r\na/b\r\na/b" =
      Text.written [Mark.carriageReturn, Mark.newline] [Text.of "x", Text.of "a/b"] ++ Text.of "a/b" := by decide
  intro s arguments outcome
  obtain ⟨hcontract, -, hsame⟩ := run_select hready hflags hdash hplain
  obtain ⟨m, hm, hmatched⟩ := hm
  rcases hcontract with ⟨e, he, -⟩ | ⟨m', hm', houtput, hending⟩
  · cases hm.symm.trans he
  · obtain rfl := Except.ok.inj (hm.symm.trans hm')
    have hany : [Text.of "x", Text.of "a/b", Text.of "a/b"].any m.accepts = true := by
      rw [List.any_eq_true]
      exact ⟨Text.of "a/b", by decide, (List.mem_filter.1 (hmatched ▸ List.mem_cons_self)).2⟩
    refine ⟨houtput.trans ?_, hending.trans ?_, ?_⟩
    · exact congrArg (List.map Text.withoutStyling) hmatched
    · exact congrArg (fun any : Bool => Ending.exit (if any then 0 else 1)) hany
    · rw [hstdin]
      exact (hsame hlines [Mark.carriageReturn, Mark.newline] (by decide)).2 [Text.of "x", Text.of "a/b"] _ rfl (by decide)

/-- A path with a styling sequence is accepted, but not printed as it is. -/
theorem styling_left_out :
    let path := Text.of "\x1b[31mred"
    (∃ home files, Ready (Config.homeWith []) home files []) ∧ chosen [] [] = {} ∧
      ∃ m, Matcher.ofPattern? {} (Text.of "*") = .ok m ∧ m.accepts path = true ∧
        (CommandLine.run (Config.homeWith []) [Text.of "match", Text.of "*", path] []).outputLines = [Text.of "red"] := by
  have htext : Utf8.decode? [] = .ok [] := rfl
  have hready := homeWith_ready htext (show Toml.read [] = .ok [] from rfl) rfl nofun
  have hm : ∃ m, Matcher.ofPattern? {} (Text.of "*") = .ok m ∧
      [Text.of "\x1b[31mred"].filter m.accepts = [Text.of "\x1b[31mred"] := by
    refine ⟨_, rfl, ?_⟩
    decide
  have hplain : ∀ t ∈ [[], Text.of "\x1b[31mred"], ∀ c ∈ t, Text.isSurrogate c = false := by decide
  have harguments : Requests [] ([] ++ Text.of "match" :: Text.of "*" :: [Text.of "\x1b[31mred"])
      (.select (Text.of "*") [Text.of "\x1b[31mred"]) := requests_select .nil (by decide)
  obtain ⟨m, hm, hmatched⟩ := hm
  intro path
  refine ⟨⟨_, _, hready⟩, rfl, m, hm, (List.mem_filter.1 (hmatched ▸ List.mem_cons_self)).2, ?_⟩
  have hshows := hready.run_shows harguments (select_shows hm hplain)
  exact hshows.outputLines.trans (congrArg (List.map Text.withoutStyling) hmatched)

end Glob.CommandLine
