import Mathlib
import Glob.Config
import Glob.Proofs.Toml
/-!
# What a configuration file comes to

A file is laid over the defaults.  As far as it has tables where the defaults have them, an entry is what the file says
or else what it is by default (`Config.at?_defaults`), so the readers of the configuration can be told by what the file
says (`Config.entry_defaults`).

`Config.load_reports` says exactly which contents of the file the program gets along with.  One that is no TOML leaves
the defaults and makes a warning.  But bytes that are not UTF-8 and numbers with too many digits end in a failure, and
so does a value of a wrong kind where a table, or a directory for the log, is looked for.
-/
namespace Glob

/-- There is nothing under the key, or a table. -/
def Table.Sectioned (t : Table) (key : Text) : Prop := ∀ v ∈ t.get? key, v.IsTable

theorem Table.at?_one (t : Table) (key : Text) : t.at? [key] = t.get? key := by
  rw [Table.at?, Setting.at?_table]
  cases t.get? key with
  | none => rfl
  | some v => exact v.at?_nil

namespace Config

variable {s : Surroundings} {p : FilePath} {bytes : Bytes} {t user : Table} {d k : Text} {v w : Setting}

/-! ## Entries -/

/-- What is set: by the user, or else by default. -/
def setting (user : Table) (d k : Text) : Setting := ((user.at? [d, k]).or (defaults.at? [d, k])).getD .unset

/-- No entry is a table by default. -/
theorem defaults_plain (h : defaults.at? [d, k] = some w) : ¬ w.IsTable := by
  obtain ⟨v, hv, hw⟩ := Option.bind_eq_some_iff.1 ((Setting.at?_table defaults d [k]).symm.trans h)
  have hsection := Table.mem_of_get? hv
  simp only [defaults, List.mem_cons, List.not_mem_nil, or_false, Prod.mk.injEq] at hsection
  rcases hsection with ⟨-, rfl⟩ | ⟨-, rfl⟩
  all_goals
    have hentry := Table.mem_of_get? ((Table.at?_one _ k).symm.trans hw)
    simp only [List.mem_cons, List.not_mem_nil, or_false, Prod.mk.injEq] at hentry
  · rcases hentry with ⟨-, rfl⟩ | ⟨-, rfl⟩ <;> rintro ⟨_, ⟨⟩⟩
  · rcases hentry with ⟨-, rfl⟩ | ⟨-, rfl⟩ | ⟨-, rfl⟩ <;> rintro ⟨_, ⟨⟩⟩

/-- Where the user has tables, whatever decides on an entry is there. -/
theorem exists_of_decides (hd : user.Sectioned d) (h : user.Decides [d, k]) : ∃ v, user.at? [d, k] = some v := by
  obtain ⟨v, hv, hdecides⟩ := Setting.decides_table.1 h
  obtain ⟨entries, rfl⟩ := hd v hv
  obtain ⟨w, hw, -⟩ := Setting.decides_table.1 hdecides
  refine ⟨w, ?_⟩
  rw [Table.at?, Setting.at?_table, hv, Option.bind_some, Setting.at?_table, hw, Option.bind_some, Setting.at?_nil]

/-- **Over the defaults, an entry is what the user says or else what it is by default.** -/
theorem at?_defaults (hdistinct : user.Distinct) (hd : user.Sectioned d) (k : Text) :
    (defaults.merge user).at? [d, k] = (user.at? [d, k]).or (defaults.at? [d, k]) := by
  have htable : (Setting.table user).Distinct := hdistinct
  by_cases hdecides : user.Decides [d, k]
  · obtain ⟨v, hv⟩ := exists_of_decides hd hdecides
    have hmerged : (defaults.merge user).at? [d, k] = user.at? [d, k] :=
      Setting.at?_over_of_decides htable hdecides (some (.table defaults))
    rw [hmerged, hv]
    rfl
  · have hmerged : (defaults.merge user).at? [d, k] =
        ((user.at? [d, k]).map (Setting.over (defaults.at? [d, k]))).or (defaults.at? [d, k]) :=
      Setting.at?_over_of_not_decides htable hdecides (some (.table defaults))
    rw [hmerged]
    cases user.at? [d, k] with
    | none => rfl
    | some v =>
      have hover : Setting.over (defaults.at? [d, k]) v = v :=
        Setting.over_of_not_both fun ⟨_, _, hold, _⟩ => defaults_plain hold ⟨_, rfl⟩
      exact congrArg some hover

/-- The tables of the defaults are tables still, unless the user has put something else in their place. -/
theorem table_defaults (hdistinct : user.Distinct) (hd : d ∈ [logger, matching]) :
    (∃ entries, (defaults.merge user).get? d = some (.table entries)) ↔ user.Sectioned d := by
  have hdefault : ∃ entries, defaults.get? d = some (.table entries) := by
    simp only [List.mem_cons, List.not_mem_nil, or_false] at hd
    rcases hd with rfl | rfl <;> exact ⟨_, rfl⟩
  rw [Table.get?_merge hdistinct, Table.Sectioned]
  cases user.get? d with
  | none =>
    refine ⟨fun _ => ?_, fun _ => hdefault⟩
    rintro _ ⟨⟩
  | some v =>
    simp only [Option.map_some, Option.some_or, Option.some.injEq, Option.mem_def, forall_eq']
    constructor
    · rintro ⟨entries, hentries⟩
      by_contra hplain
      rw [Setting.over_of_not_both fun hboth => hplain (hboth.elim fun _ h => h.imp fun _ h => h.2)] at hentries
      exact hplain ⟨entries, hentries⟩
    · rintro ⟨entries, rfl⟩
      exact Setting.over_isTable _ entries

theorem setting_eq (hdistinct : user.Distinct) (hd : d ∈ [logger, matching]) {entries : Table}
    (h : (defaults.merge user).get? d = some (.table entries)) (k : Text) :
    (entries.get? k).getD .unset = setting user d k := by
  have hsection : user.Sectioned d := (table_defaults hdistinct hd).1 ⟨entries, h⟩
  rw [setting, ← at?_defaults hdistinct hsection k, Table.at?, Setting.at?_table, h, Option.bind_some, ← Table.at?_one]
  rfl

/-! ## Readers -/

theorem division_eq_ok {entries : Table} : division d t = .ok entries ↔ t.get? d = some (.table entries) := by
  unfold division
  cases t.get? d with
  | none => simp
  | some v => cases v <;> simp

/-- **What the readers find under a key.** -/
theorem entry_defaults (hdistinct : user.Distinct) (hd : d ∈ [logger, matching]) :
    entry d k (defaults.merge user) = .ok v ↔ user.Sectioned d ∧ v = setting user d k := by
  rw [← table_defaults hdistinct hd, entry]
  cases hdivision : division d (defaults.merge user) with
  | error f =>
    refine ⟨nofun, ?_⟩
    rintro ⟨⟨entries, hentries⟩, -⟩
    cases (division_eq_ok.2 hentries).symm.trans hdivision
  | ok entries =>
    have hentries := division_eq_ok.1 hdivision
    rw [← setting_eq hdistinct hd hentries]
    refine ⟨fun h => ⟨⟨entries, hentries⟩, (Except.ok.inj h).symm⟩, ?_⟩
    rintro ⟨-, rfl⟩
    rfl

theorem not_sectioned {f : Failure} (hdistinct : user.Distinct) (hd : d ∈ [logger, matching])
    (h : entry d k (defaults.merge user) = .error f) : ¬ user.Sectioned d := by
  intro hsection
  cases ((entry_defaults hdistinct hd).2 ⟨hsection, rfl⟩).symm.trans h

/-- The level of the log is the written form of what is set, which a number with too many digits has not. -/
theorem verbosity_defaults (hdistinct : user.Distinct) {level : Text} :
    verbosity (defaults.merge user) = .ok level ↔ user.Sectioned logger ∧
      (setting user logger verbosityKey).isWritable = true ∧ level = (setting user logger verbosityKey).toText := by
  have hd : logger ∈ [logger, matching] := List.mem_cons_self
  unfold verbosity
  cases hentry : entry logger verbosityKey (defaults.merge user) with
  | error f => simp [not_sectioned hdistinct hd hentry]
  | ok v =>
    obtain ⟨hsection, rfl⟩ := (entry_defaults hdistinct hd).1 hentry
    by_cases h : (setting user logger verbosityKey).isWritable = true
    · simp [h, hsection, eq_comm]
    · simp [h]

/-- The directory for the log that a value names: a path is one, also one that leads on from a home directory; and what
counts as no leaves the log to the home directory. -/
def Names (s : Surroundings) (v : Setting) (directory : FilePath) : Prop :=
  (v.isTrue = true ∧ ∃ t, v = .text t ∧ s.expandHome (FilePath.parse t) = .ok directory) ∨
  (v.isTrue = false ∧ ∃ home, s.home = .ok home ∧ directory = home.child ".pathglob")

theorem located_eq_ok {o : Except NoHome FilePath} : located o = .ok p ↔ o = .ok p := by
  cases o <;> simp [located, Except.mapError]

theorem logDirectory_defaults (hdistinct : user.Distinct) (s : Surroundings) {directory : FilePath} :
    logDirectory s (defaults.merge user) = .ok directory ↔
      user.Sectioned logger ∧ Names s (setting user logger pathKey) directory := by
  have hd : logger ∈ [logger, matching] := List.mem_cons_self
  unfold logDirectory
  cases hentry : entry logger pathKey (defaults.merge user) with
  | error f => simp [not_sectioned hdistinct hd hentry]
  | ok v =>
    obtain ⟨hsection, hv⟩ := (entry_defaults hdistinct hd).1 hentry
    rw [← hv, and_iff_right hsection, Names]
    by_cases htrue : v.isTrue = true
    · simp only [htrue, if_true]
      cases v with
      | text t => simp [located_eq_ok]
      | _ => simp
    · cases hhome : s.home <;> simp [htrue, located, Except.map, Except.mapError, eq_comm]

/-- By default the log is in the home directory. -/
theorem logDirectory_unset (s : Surroundings) {directory : FilePath} :
    logDirectory s defaults = .ok directory ↔ ∃ home, s.home = .ok home ∧ directory = home.child ".pathglob" := by
  -- the defaults are what they are with nothing laid over them
  have hdistinct : Table.Distinct [] := trivial
  have hempty : logDirectory s defaults = .ok directory ↔
      Table.Sectioned [] logger ∧ Names s (setting [] logger pathKey) directory := logDirectory_defaults hdistinct s
  have hunset : setting [] logger pathKey = .unset := rfl
  rw [hempty, hunset]
  constructor
  · rintro ⟨-, ⟨htrue, -⟩ | ⟨-, hhome⟩⟩
    · exact absurd htrue nofun
    · exact hhome
  · exact fun hhome => ⟨nofun, .inr ⟨rfl, hhome⟩⟩

/-- The matching options are the truth values of what is set. -/
theorem options_defaults (hdistinct : user.Distinct) {o : Options} :
    options (defaults.merge user) = .ok o ↔ user.Sectioned matching ∧
      o = ⟨(setting user matching caseKey).isTrue, (setting user matching separatorKey).isTrue,
        (setting user matching leadingDotKey).isTrue⟩ := by
  have hd : matching ∈ [logger, matching] := List.mem_cons_of_mem _ List.mem_cons_self
  rw [← table_defaults hdistinct hd, options]
  cases hdivision : division matching (defaults.merge user) with
  | error f =>
    refine ⟨nofun, ?_⟩
    rintro ⟨⟨entries, hentries⟩, -⟩
    cases (division_eq_ok.2 hentries).symm.trans hdivision
  | ok entries =>
    have hentries := division_eq_ok.1 hdivision
    simp only [setting_eq hdistinct hd hentries, Except.ok.injEq]
    exact ⟨fun h => ⟨⟨entries, hentries⟩, h.symm⟩, fun h => h.2.symm⟩

/-! ## The file -/

/-- The configuration is looked for in a file, and these are its bytes. -/
structure Found (s : Surroundings) (p : FilePath) (bytes : Bytes) : Prop where
  path : Config.path s = .ok p
  contents : s.files.find? p = some (.file bytes)

theorem isThere_of_find? {e : Entry} (h : s.files.find? p = some e) : isThere s p = .ok true := by
  unfold FileTree.find? at h
  split at h
  · next location hlocation =>
    have hholds : s.files.holds p = .ok true := by
      unfold FileTree.holds
      simp only [hlocation, h, Option.isSome_some]
    rw [isThere, hholds]
    rfl
  · cases h

theorem Found.load (h : Found s p bytes) : load s = ofFile p bytes := by
  have hthere := isThere_of_find? h.contents
  simp only [Config.load, h.path, hthere, h.contents]

/-- What the configuration says: what is read of the file or, if there is none, nothing. -/
inductive Says (s : Surroundings) : Table → Prop
  | file {p : FilePath} {bytes : Bytes} {text : Text} {user : Table} (h : Found s p bytes)
      (htext : Utf8.decode? bytes = .ok text) (hread : Toml.read text = .ok user) : Says s user
  | nothing {p : FilePath} (hpath : Config.path s = .ok p) (hnone : s.files.holds p = .ok false) : Says s []

theorem Says.distinct (h : Says s user) : user.Distinct := by
  cases h with
  | file _ _ hread => exact Toml.read_distinct hread
  | nothing => trivial

theorem Says.load (h : Says s user) : load s = .ok ⟨defaults.merge user, none⟩ := by
  cases h with
  | file h htext hread => simp only [h.load, ofFile, htext, hread]
  | @nothing p hpath hnone =>
    have hfind : s.files.find? p = none := by
      unfold FileTree.holds at hnone
      unfold FileTree.find?
      split at hnone
      · next hlocation =>
        simp only [hlocation]
        exact Option.not_isSome_iff_eq_none.1 (Bool.eq_false_iff.1 (Except.ok.inj hnone))
      · cases hnone
      · next hfailure => simp only [hfailure]
    have hthere : isThere s p = .ok false := by
      rw [isThere, hnone]
      rfl
    simp only [Config.load, hpath, hthere, hfind]
    rfl

/-- **Whatever is asked is read of the defaults with what the configuration says laid over them.** -/
theorem Says.ask (h : Says s user) {α : Type} (reading : Table → Except Failure α) :
    ask s reading = (none, reading (defaults.merge user)) := by
  simp only [Config.ask, h.load]
  rfl

/-- Bytes that are not UTF-8 and numbers with too many digits are all that a file can fail on. -/
theorem exists_ofFile :
    (∃ l, ofFile p bytes = .ok l) ↔
      ∃ text, Utf8.decode? bytes = .ok text ∧ ∀ e, Toml.read text ≠ .error (.tooLong e) := by
  unfold ofFile
  cases Utf8.decode? bytes with
  | error e => simp
  | ok text =>
    simp only [Except.ok.injEq, exists_eq_left']
    cases Toml.read text with
    | error r => cases r <;> simp
    | ok table => simp

/-- **What the program makes of any contents of the configuration file.**  It is loaded exactly if it is UTF-8 without
a number of too many digits.  What is no TOML then leaves the defaults, with a warning whenever something is asked.  TOML
is laid over the defaults, so that an entry is what the file says or else the default, as far as the file has tables for
them.  But the readers fail on what is no table where one is looked for, on a level with a number of too many digits and
on a directory for the log that is no path to one. -/
theorem load_reports (h : Found s p bytes) :
    ((∃ l, load s = .ok l) ↔
      ∃ text, Utf8.decode? bytes = .ok text ∧ ∀ e, Toml.read text ≠ .error (.tooLong e)) ∧
    ∀ text, Utf8.decode? bytes = .ok text →
      (Toml.read text = .error .malformed →
        load s = .ok ⟨defaults, some p⟩ ∧
        (∀ (α : Type) (reading : Table → Except Failure α), ask s reading =
          (some ⟨.warning, Text.of "Error loading config from " ++ p.toText⟩, reading defaults)) ∧
        verbosity defaults = .ok (Text.of "INFO") ∧
        options defaults = .ok {} ∧
        ∀ directory, logDirectory s defaults = .ok directory ↔
          ∃ home, s.home = .ok home ∧ directory = home.child ".pathglob") ∧
      ∀ user, Toml.read text = .ok user →
        load s = .ok ⟨defaults.merge user, none⟩ ∧
        (∀ (α : Type) (reading : Table → Except Failure α), ask s reading = (none, reading (defaults.merge user))) ∧
        (∀ d k, user.Sectioned d → (defaults.merge user).at? [d, k] = (user.at? [d, k]).or (defaults.at? [d, k])) ∧
        (∀ level, verbosity (defaults.merge user) = .ok level ↔ user.Sectioned logger ∧
          (setting user logger verbosityKey).isWritable = true ∧
          level = (setting user logger verbosityKey).toText) ∧
        (∀ o, options (defaults.merge user) = .ok o ↔ user.Sectioned matching ∧
          o = ⟨(setting user matching caseKey).isTrue, (setting user matching separatorKey).isTrue,
            (setting user matching leadingDotKey).isTrue⟩) ∧
        ∀ directory, logDirectory s (defaults.merge user) = .ok directory ↔
          user.Sectioned logger ∧ Names s (setting user logger pathKey) directory := by
  refine ⟨h.load ▸ exists_ofFile, fun text htext => ⟨fun hread => ?_, fun user hread => ?_⟩⟩
  · have hload : load s = .ok ⟨defaults, some p⟩ := by simp only [h.load, ofFile, htext, hread]
    refine ⟨hload, fun α reading => ?_, rfl, rfl, fun directory => ?_⟩
    · simp only [ask, hload]
      rfl
    · exact logDirectory_unset s
  · have hsaid : Says s user := .file h htext hread
    have hdistinct := hsaid.distinct
    exact ⟨hsaid.load, fun α reading => hsaid.ask reading, fun d k hd => at?_defaults hdistinct hd k,
      fun level => verbosity_defaults hdistinct, fun o => options_defaults hdistinct,
      fun directory => logDirectory_defaults hdistinct s⟩

/-- A home directory with nothing in it but a configuration file. -/
def homeWith (contents : Bytes) : Surroundings where
  program := Text.of "pathglob"
  files := ⟨[Text.of "h"], [([Text.of "h"], .directory), ([Text.of "h", Text.of ".pathglobrc"], .file contents)]⟩
  environment := [(Text.of "HOME", Text.of "/h")]
  homes := []

theorem homeWith_found (contents : Bytes) :
    Found (homeWith contents) ⟨1, [Text.of "h", Text.of ".pathglobrc"]⟩ contents := ⟨rfl, rfl⟩

/-- A number where a table of settings is looked for, and a number that counts as no. -/
theorem load_reports_numbers :
    let s := homeWith ((Text.of "logger = 5\n[match]\ncase_sensitive = 0\n").map UInt8.ofNat)
    ask s options = (none, .ok ⟨false, true, false⟩) ∧ ¬ ∃ level, (ask s verbosity).2 = .ok level := by
  have htext : Utf8.decode? ((Text.of "logger = 5\n[match]\ncase_sensitive = 0\n").map UInt8.ofNat) =
      .ok (Text.of "logger = 5\n[match]\ncase_sensitive = 0\n") := by cbv
  have hread : Toml.read (Text.of "logger = 5\n[match]\ncase_sensitive = 0\n") =
      .ok [(logger, .integer 5), (matching, .table [(caseKey, .integer 0)])] := by cbv
  intro s
  obtain ⟨-, hask, -, hverbosity, hoptions, -⟩ := ((load_reports (homeWith_found _)).2 _ htext).2 _ hread
  have hmatching : Table.Sectioned [(logger, .integer 5), (matching, .table [(caseKey, .integer 0)])] matching := by
    intro v hv
    obtain rfl := Option.some.inj hv
    exact ⟨_, rfl⟩
  constructor
  · rw [hask]
    exact congrArg _ ((hoptions _).2 ⟨hmatching, rfl⟩)
  · rintro ⟨level, hlevel⟩
    rw [hask] at hlevel
    obtain ⟨entries, hentries⟩ := ((hverbosity level).1 hlevel).1 (.integer 5) rfl
    cases hentries

/-- A file that is no UTF-8 is not loaded, and a number in the place of the matching options is not got over. -/
theorem load_fails :
    (∃ e, load (homeWith [0xFF]) = .error (.notText e)) ∧
    ask (homeWith ((Text.of "match = 3\n").map UInt8.ofNat)) options = (none, .error (.notATable (.integer 3))) := by
  constructor
  · rw [(homeWith_found [0xFF]).load]
    exact ⟨_, rfl⟩
  · have hfound := homeWith_found ((Text.of "match = 3\n").map UInt8.ofNat)
    have hload : load (homeWith ((Text.of "match = 3\n").map UInt8.ofNat)) =
        .ok ⟨defaults.merge [(matching, .integer 3)], none⟩ := by
      rw [hfound.load]
      cbv
    rw [ask, hload]
    rfl

end Config

end Glob
