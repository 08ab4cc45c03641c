import Glob.CommandLine.Arguments
/-!
# Flags on the command line

A matching flag is written in full, or is one of the letters behind a dash (`Flag.Written`).  However flags are written,
the program takes of them what the last one about each option says (`said_foldl_set`).  With operands that do not begin
with a dash, the flags and the name of a command before them are a request to do the command
(`ofArguments_command`).
-/
namespace Glob.CommandLine

inductive Field
  | letterCase
  | separator
  | leadingDot
  deriving DecidableEq

/-- A matching flag: what it is about, and whether it says yes or no. -/
structure Flag where
  field : Field
  value : Bool
  deriving DecidableEq

namespace Flag

def name : Flag → String
  | ⟨.letterCase, true⟩ => "--case-sensitive"
  | ⟨.letterCase, false⟩ => "--ignore-case"
  | ⟨.separator, true⟩ => "--literal-separator"
  | ⟨.separator, false⟩ => "--no-literal-separator"
  | ⟨.leadingDot, true⟩ => "--literal-leading-dot"
  | ⟨.leadingDot, false⟩ => "--no-literal-leading-dot"

/-- The letter for a flag about the case of letters; the others have none. -/
def letter (value : Bool) : CodePoint := if value then 's'.toNat else 'i'.toNat

inductive Written : List Flag → Text → Prop
  | full (f : Flag) : Written [f] (Text.of f.name)
  | letters (values : List Bool) (hne : values ≠ []) :
      Written (values.map (⟨.letterCase, ·⟩)) (Mark.dash :: values.map letter)

inductive AllWritten : List Flag → List Text → Prop
  | nil : AllWritten [] []
  | cons {fs flags : List Flag} {argument : Text} {arguments : List Text} (h : Written fs argument)
      (hrest : AllWritten flags arguments) : AllWritten (fs ++ flags) (argument :: arguments)

def last? (flags : List Flag) (x : Field) : Option Bool :=
  ((flags.filter fun f => f.field = x).getLast?).map Flag.value

def set (s : Flags) (f : Flag) : Flags :=
  match f.field with
  | .letterCase => { s with caseSensitive := some f.value }
  | .separator => { s with literalSeparator := some f.value }
  | .leadingDot => { s with literalLeadingDot := some f.value }

end Flag

def Flags.said (s : Flags) : Field → Option Bool
  | .letterCase => s.caseSensitive
  | .separator => s.literalSeparator
  | .leadingDot => s.literalLeadingDot

open CommandLine.Flag

variable {flags fs : List Flag} {arguments operands : List Text} {argument t : Text}

/-! ## The last flag counts -/

theorem said_set (s : Flags) (f : Flag) (x : Field) :
    (f.set s).said x = if f.field = x then some f.value else s.said x := by
  obtain ⟨field, value⟩ := f
  cases field <;> cases x <;> rfl

theorem last?_cons (f : Flag) (flags : List Flag) (x : Field) :
    last? (f :: flags) x = (last? flags x).or (if f.field = x then some f.value else none) := by
  unfold last?
  by_cases hf : f.field = x
  · rw [List.filter_cons_of_pos (by simpa using hf), List.getLast?_cons, if_pos hf]
    cases (flags.filter fun f => f.field = x).getLast? <;> rfl
  · rw [List.filter_cons_of_neg (by simpa using hf), if_neg hf, Option.or_none]

/-- **Of the flags about something the last one counts.** -/
theorem said_foldl_set (flags : List Flag) (s : Flags) (x : Field) :
    (flags.foldl Flag.set s).said x = (last? flags x).or (s.said x) := by
  induction flags generalizing s with
  | nil => rfl
  | cons f flags ih =>
    rw [List.foldl_cons, ih, said_set, last?_cons]
    split
    · cases last? flags x <;> rfl
    · rw [Option.or_none]

/-- The matching flags neither ask for help nor show the log. -/
theorem foldl_set_others (flags : List Flag) (s : Flags) :
    (flags.foldl Flag.set s).debug = s.debug ∧ (flags.foldl Flag.set s).help = s.help := by
  induction flags generalizing s with
  | nil => exact ⟨rfl, rfl⟩
  | cons f flags ih =>
    have hset : (f.set s).debug = s.debug ∧ (f.set s).help = s.help := by
      obtain ⟨field, value⟩ := f
      cases field <;> exact ⟨rfl, rfl⟩
    rw [List.foldl_cons, (ih _).1, (ih _).2]
    exact hset

/-! ## Reading flags -/

theorem readLetters_letter (s : Flags) (value : Bool) (t : Text) :
    readLetters Flags.switches s (letter value :: t) = readLetters Flags.switches (Flag.set s ⟨.letterCase, value⟩) t := by
  cases value <;> rfl

theorem readLetters_letters (s : Flags) (values : List Bool) :
    readLetters Flags.switches s (values.map letter) =
      .ok ((values.map fun value => (⟨.letterCase, value⟩ : Flag)).foldl Flag.set s) := by
  induction values generalizing s with
  | nil => rfl
  | cons value values ih => rw [List.map_cons, readLetters_letter, ih, List.map_cons, List.foldl_cons]

theorem readSwitch_letters (s : Flags) {values : List Bool} (hne : values ≠ []) :
    readSwitch Flags.switches s (Mark.dash :: values.map letter) = readLetters Flags.switches s (values.map letter) := by
  cases values with
  | nil => exact absurd rfl hne
  | cons value values => cases value <;> rfl

/-- **An argument is read as the flags that it gives.** -/
theorem readSwitch_written (h : Written fs argument) (s : Flags) :
    isSwitch argument = true ∧ argument ≠ [Mark.dash, Mark.dash] ∧
      readSwitch Flags.switches s argument = .ok (fs.foldl Flag.set s) := by
  cases h with
  | full f =>
    obtain ⟨field, value⟩ := f
    cases field <;> cases value <;> exact ⟨rfl, by decide, rfl⟩
  | letters values hne =>
    obtain ⟨value, values, rfl⟩ := List.exists_cons_of_ne_nil hne
    refine ⟨rfl, fun hdashes => ?_, ?_⟩
    · cases value <;> cases hdashes
    · rw [readSwitch_letters s hne, readLetters_letters]

theorem isSwitch_eq_false (h : t.head? ≠ some Mark.dash) : isSwitch t = false := by
  simp [isSwitch, h]

theorem ne_dashes (h : t.head? ≠ some Mark.dash) : t ≠ [Mark.dash, Mark.dash] := by
  rintro rfl
  exact h rfl

theorem readSwitches_flags (h : AllWritten flags arguments) (ht : t.head? ≠ some Mark.dash) (s : Flags) :
    readSwitches false Flags.switches s (arguments ++ t :: operands) = .ok (flags.foldl Flag.set s, t :: operands) := by
  induction h generalizing s with
  | nil => simp [readSwitches, ne_dashes ht, isSwitch_eq_false ht]
  | cons hargument _ ih =>
    obtain ⟨hswitch, hdashes, hread⟩ := readSwitch_written hargument s
    rw [List.cons_append, readSwitches, if_neg hdashes, if_pos hswitch, hread]
    simp only [ih, List.foldl_append]

theorem readSwitches_operands {σ : Type} (switches : List (Switch σ)) (s : σ)
    (h : ∀ t ∈ operands, t.head? ≠ some Mark.dash) : readSwitches true switches s operands = .ok (s, operands) := by
  induction operands with
  | nil => rfl
  | cons t operands ih =>
    obtain ⟨ht, hoperands⟩ := List.forall_mem_cons.1 h
    rw [readSwitches, if_neg (ne_dashes ht), isSwitch_eq_false ht, ih hoperands]
    rfl

/-- **Flags and a command with its operands are a request for the command with what the flags set.** -/
theorem ofArguments_command (c : Command) (h : AllWritten flags arguments)
    (hoperands : ∀ t ∈ operands, t.head? ≠ some Mark.dash) :
    Reading.ofArguments (arguments ++ Text.of c.name :: operands) =
      .start (flags.foldl Flag.set {}) ((Request.ofOperands c operands).mapError (⟨some c, ·⟩)) := by
  have hname : (Text.of c.name).head? ≠ some Mark.dash := by cases c <;> decide
  have hcommand : (Command.all.find? fun d => Text.of d.name == Text.of c.name) = some c := by cases c <;> rfl
  have hhelp : (flags.foldl Flag.set {}).help = false := (foldl_set_others flags {}).2
  have hne : arguments ++ Text.of c.name :: operands ≠ [] := by simp
  have hrequest : Request.ofArguments c operands = (Request.ofOperands c operands).mapError (⟨some c, ·⟩) := by
    simp only [Request.ofArguments, readSwitches_operands Request.switches false hoperands]
  rw [Reading.ofArguments, if_neg hne, readSwitches_flags h hname]
  simp only [hhelp, hcommand, hrequest, Bool.false_eq_true, if_false]

/-- The arguments are a request to do the task, with what the flags set. -/
def Requests (flags : List Flag) (arguments : List Text) (task : Task) : Prop :=
  Reading.ofArguments arguments = .start (flags.foldl Flag.set {}) (.ok (.perform task))

end Glob.CommandLine
