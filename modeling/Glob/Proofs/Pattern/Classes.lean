import Glob.Proofs.Pattern.Reading
import Glob.Proofs.Pattern.Resume
/-!
# Reading and building a class

`resume_members` follows a class through the scanner and the builder, with `Reading.members` for its text: the parse
fails at the first range whose ends are turned around, or where the class ends unclosed, and otherwise goes on behind
the closing bracket with a node for the class.  The node is well-formed: it has a member, and all its ranges are the
right way round.
-/
namespace Glob

namespace Parser

open Scanner (State Mode Member)
open Reading (member? rangeEnd? behindNegation)

variable {k d : Nat} {b : Builder} {cl : OpenClass} {m : Member} {t t' : Text} {lo hi : CodePoint}

/-! ## Members -/

def Builder.withItem (b : Builder) (item : CodePoint × CodePoint) : Builder :=
  { b with openClass := b.openClass.map fun c => { c with fresh := false, items := item :: c.items } }

theorem withItem_openClass (hc : b.openClass = some cl) (item : CodePoint × CodePoint) :
    (b.withItem item).openClass = some { cl with fresh := false, items := item :: cl.items } := by
  rw [Builder.withItem, hc]
  rfl

theorem step_inside (hc : b.openClass = some cl) (token : Token) : b.step token = b.classStep cl token := by
  unfold Builder.step
  split
  · next hcl =>
    rw [hc] at hcl
    rw [Option.some.inj hcl]
  · next hnone =>
    rw [hc] at hnone
    cases hnone

theorem step_member (hc : b.openClass = some cl) (m : Member) :
    b.step m.token = .more (b.withItem (m.char, m.char)) := by
  rw [step_inside hc, Builder.withItem, hc]
  unfold Member.token
  split <;> rfl

theorem feed_member (hc : b.openClass = some cl) (m : Member) :
    b.feed [m.token] = some (b.withItem (m.char, m.char)) := by
  rw [Builder.feed, step_member hc]
  rfl

/-- Where the scanner stands between two members. -/
def between (first : Bool) : Mode := if first then .firstMember else .members

theorem step_between {first : Bool} {c : CodePoint} (hslash : c ≠ Mark.slash)
    (hclose : first = true ∨ c ≠ Mark.closeBracket) :
    (⟨k, d, between first⟩ : State).step c = (⟨k, d, between first⟩ : State).member c := by
  cases first with
  | true => exact if_neg hslash
  | false =>
    rcases hclose with hfirst | hclose
    · cases hfirst
    · exact (if_neg hslash).trans (if_neg hclose)

theorem resume_memberBegun {first : Bool} (hfirst : first = true ∨ t.head? ≠ some Mark.closeBracket)
    (h : member? t = some (lo, t')) :
    ∃ k' m, k' + t'.length = k + t.length ∧ m.char = lo ∧ m.start = k ∧
      resume ⟨k, d, between first⟩ b t = resume ⟨k', d, .member m⟩ b t' := by
  unfold member? at h
  split at h
  · cases h
  · cases h
  · cases h
  · cases h
    refine ⟨k + 2, ⟨lo, true, k⟩, by simp only [List.length_cons]; omega, rfl, rfl, ?_⟩
    have hstep : (⟨k, d, between first⟩ : State).step Mark.backslash = ([], ⟨k + 1, d, .memberEscape k⟩) := by
      rw [step_between (by decide) (.inr (by decide))]
      rfl
    exact (resume_silent hstep).trans (resume_silent rfl)
  · next hslash hend hback =>
    cases h
    refine ⟨k + 1, ⟨lo, false, k⟩, by simp only [List.length_cons]; omega, rfl, rfl, resume_silent ?_⟩
    rw [step_between hslash (hfirst.imp_right fun h heq => h (by rw [heq]; rfl))]
    refine if_neg ?_
    rintro rfl
    cases t' with
    | nil => exact hend rfl rfl
    | cons => exact hback _ _ rfl rfl

/-- A dash behind a member that makes no range is a member itself. -/
def dashMember (k : Nat) : Member := ⟨Mark.dash, false, k⟩

theorem rangeEnd?_dash {c : CodePoint} (h : rangeEnd? (Mark.dash :: c :: t) = none) :
    (c = Mark.slash ∨ c = Mark.closeBracket) ∨ (c = Mark.backslash ∧ t = []) := by
  by_cases hclose : c = Mark.closeBracket
  · exact .inl (.inr hclose)
  · have hmember : member? (c :: t) = none := by
      rw [rangeEnd?] at h
      · exact h
      · rintro _ heq
        exact hclose (List.cons.inj heq).1
    unfold member? at hmember
    split at hmember
    · next heq => cases heq
    · next heq => exact .inl (.inl (List.cons.inj heq).1)
    · next heq => exact .inr ⟨(List.cons.inj heq).1, (List.cons.inj heq).2⟩
    · cases hmember
    · cases hmember

/-- What a dash behind a member is can be told from the next character: here, a member itself. -/
theorem resume_dash (hc : b.openClass = some cl) (h : rangeEnd? (Mark.dash :: t) = none) :
    resume ⟨k + 1, d, .dash m⟩ b t =
      resume ⟨k + 1, d, .member (dashMember k)⟩ (b.withItem (m.char, m.char)) t := by
  have hdash := feed_member (withItem_openClass hc (m.char, m.char)) (dashMember k)
  have htwo : b.feed [m.token, Scanner.dashToken k] =
      some ((b.withItem (m.char, m.char)).withItem (Mark.dash, Mark.dash)) := by
    rw [Builder.feed, step_member hc]
    exact hdash
  cases t with
  | nil =>
    have hleft : resume ⟨k + 1, d, .dash m⟩ b [] = resume ⟨k + 1, d, .members⟩ _ [] :=
      resume_flush_nil rfl rfl htwo rfl
    have hright : resume ⟨k + 1, d, .member (dashMember k)⟩ _ [] = resume ⟨k + 1, d, .members⟩ _ [] :=
      resume_flush_nil rfl rfl hdash rfl
    exact hleft.trans hright.symm
  | cons c t =>
    rcases rangeEnd?_dash h with hend | ⟨rfl, rfl⟩
    · have hne : c ≠ Mark.dash := by
        rintro rfl
        revert hend
        decide
      have hleft : resume ⟨k + 1, d, .dash m⟩ b (c :: t) = resume ⟨k + 1, d, .members⟩ _ (c :: t) :=
        resume_flush (if_pos hend) htwo rfl
      have hright : resume ⟨k + 1, d, .member (dashMember k)⟩ _ (c :: t) = resume ⟨k + 1, d, .members⟩ _ (c :: t) :=
        resume_flush (if_neg hne) hdash rfl
      exact hleft.trans hright.symm
    · rfl

/-- Where a member begins no range, it is one item. -/
theorem resume_member (hc : b.openClass = some cl) (h : rangeEnd? t = none) :
    resume ⟨k, d, .member m⟩ b t = resume ⟨k, d, .members⟩ (b.withItem (m.char, m.char)) t := by
  have hone := feed_member hc m
  cases t with
  | nil => exact resume_flush_nil rfl rfl hone rfl
  | cons c t =>
    by_cases hdash : c = Mark.dash
    · subst hdash
      calc resume ⟨k, d, .member m⟩ b (Mark.dash :: t)
        _ = resume ⟨k + 1, d, .dash m⟩ b t := resume_silent rfl
        _ = resume ⟨k + 1, d, .member (dashMember k)⟩ (b.withItem (m.char, m.char)) t := resume_dash hc h
        _ = resume ⟨k, d, .members⟩ (b.withItem (m.char, m.char)) (Mark.dash :: t) := (resume_silent rfl).symm
    · exact resume_flush (if_neg hdash) hone rfl

/-- Where a member begins a range, the scanner gives its token. -/
theorem resume_range (h : rangeEnd? t = some (hi, t')) :
    ∃ k' s c, k' + t'.length = k + t.length ∧ resume ⟨k, d, .member m⟩ b t = resume s b (c :: t') ∧
      s.step c = ([m.range hi k'], ⟨k', d, .members⟩) := by
  unfold rangeEnd? at h
  split at h
  · cases h
  · next t hclose =>
    unfold member? at h
    split at h
    · cases h
    · cases h
    · cases h
    · cases h
      refine ⟨k + 3, ⟨k + 2, d, .rangeEscape m (k + 1)⟩, hi, by simp only [List.length_cons]; omega, ?_, rfl⟩
      exact (resume_silent rfl).trans (resume_silent rfl)
    · next hslash hend hback =>
      cases h
      refine ⟨k + 2, ⟨k + 1, d, .dash m⟩, hi, by simp only [List.length_cons]; omega, resume_silent rfl, ?_⟩
      have hends : ¬ (hi = Mark.slash ∨ hi = Mark.closeBracket) := by
        rintro (rfl | rfl)
        · exact hslash rfl
        · exact hclose _ rfl
      have hescape : hi ≠ Mark.backslash := by
        rintro rfl
        cases t' with
        | nil => exact hend rfl rfl
        | cons => exact hback _ _ rfl rfl
      exact (if_neg hends).trans (if_neg hescape)
  · cases h

/-! ## The end of a class -/

def Builder.withClass (b : Builder) (cl : OpenClass) (stop : Nat) : Builder :=
  { b with openClass := none, nodes := .set cl.negated cl.items.reverse ⟨cl.opener.start, stop⟩ :: b.nodes }

theorem resume_closed (hc : b.openClass = some cl) :
    resume ⟨k, b.braces.length, .members⟩ b (Mark.closeBracket :: t) = resumeAt (k + 1) (b.withClass cl (k + 1)) t := by
  refine resume_step rfl ?_
  rw [Builder.feed, step_inside hc]
  rfl

/-- A class that ends at a separator or with the pattern is rejected. -/
theorem resume_unclosed {first : Bool} {r : Except ParseFailure (List Segment)} (hc : b.openClass = some cl)
    (h : member? t = none) (hr : resume ⟨k, d, between first⟩ b t = .ok r) :
    r = .error (unclosedClass b.source cl.opener) := by
  have hstep : ∀ token : Token, token.kind = .separator ∨ token.kind = .finish →
      b.step token = .failed (unclosedClass b.source cl.opener) := by
    rintro token (hkind | hkind)
    · rw [step_inside hc, Builder.classStep, hkind]
    · rw [step_inside hc, Builder.classStep, hkind]
  unfold member? at h
  split at h
  · have hpending : (⟨k, d, between first⟩ : State).pending = .ok [] := by cases first <;> rfl
    rw [resume, rest_nil, hpending] at hr
    rw [← Except.ok.inj hr]
    show b.run (ending _) = _
    rw [ending, Builder.run, hstep _ (.inr rfl)]
  · have hslash : (⟨k, d, between first⟩ : State).step Mark.slash =
        ([⟨.separator, [Mark.slash], Span.sized k 1⟩], ⟨k + 1, d, .text⟩) := by cases first <;> rfl
    exact resume_failed hslash (hstep _ (.inl rfl)) hr
  · have hescape : resume ⟨k, d, between first⟩ b [Mark.backslash] = .error k := by cases first <;> rfl
    rw [hescape] at hr
    cases hr
  · cases h
  · cases h

/-! ## A whole class -/

theorem step_range (hc : b.openClass = some cl) (m : Member) (hi : CodePoint) (stop : Nat) :
    b.step (m.range hi stop) =
      if hi < m.char then .failed (invalidRange b.source m.char hi ⟨m.start, stop⟩)
      else .more (b.withItem (m.char, hi)) := by
  rw [step_inside hc, Builder.withItem, hc]
  rfl

open Reading (members)

variable {p : Text}

theorem offset_eq (h : k + t.length = p.length) : Reading.offset p t = k := by
  rw [Reading.offset]
  omega

/-- The members read so far: there are some, unless none was read, and no range is turned around. -/
structure OpenClass.Sound (cl : OpenClass) (first : Bool) : Prop where
  nonempty : first = false → cl.items ≠ []
  ordered : ∀ item ∈ cl.items, item.1 ≤ item.2

theorem OpenClass.Sound.withItem {first : Bool} (h : cl.Sound first) (hle : lo ≤ hi) :
    OpenClass.Sound { cl with fresh := false, items := (lo, hi) :: cl.items } false where
  nonempty _ := List.cons_ne_nil _ _
  ordered := List.forall_mem_cons.2 ⟨hle, h.ordered⟩

/-- What becomes of a class: the parse fails at its first inverted range, or for want of a closing bracket, or goes on
behind it. -/
def ClassOutcome (p : Text) (b : Builder) (opener : Span) (read : Reading.Members)
    (r : Except ParseFailure (List Segment)) : Prop :=
  match read.ranges.find? (·.Inverted) with
  | some range => r = .error (invalidRange b.source range.lo range.hi range.span)
  | none =>
    if read.closed then
      ∃ k cl', k + read.left.length = p.length ∧ cl'.opener = opener ∧ cl'.Sound false ∧
        resumeAt k (b.withClass cl' k) read.left = .ok r
    else r = .error (unclosedClass b.source opener)

section ClassOutcome

variable {opener : Span} {read : Reading.Members} {range : Reading.Range} {r : Except ParseFailure (List Segment)}

theorem classOutcome_inverted (h : range.Inverted)
    (hr : r = .error (invalidRange b.source range.lo range.hi range.span)) :
    ClassOutcome p b opener { read with ranges := range :: read.ranges } r := by
  have hfind : (range :: read.ranges).find? (·.Inverted) = some range := List.find?_cons_of_pos (decide_eq_true h)
  simp only [ClassOutcome, hfind]
  exact hr

theorem classOutcome_ordered (h : ¬ range.Inverted) (hr : ClassOutcome p b opener read r) :
    ClassOutcome p b opener { read with ranges := range :: read.ranges } r := by
  have hfind : (range :: read.ranges).find? (·.Inverted) = read.ranges.find? (·.Inverted) :=
    List.find?_cons_of_neg fun hd => h (of_decide_eq_true hd)
  simp only [ClassOutcome, hfind]
  exact hr

end ClassOutcome

theorem may_begin {first : Bool} (h : ¬ (first = false ∧ t.head? = some Mark.closeBracket)) :
    first = true ∨ t.head? ≠ some Mark.closeBracket := by
  cases first with
  | true => exact .inl rfl
  | false => exact .inr fun hclose => h ⟨rfl, hclose⟩

/-- **A class, member by member.** -/
theorem resume_members {first : Bool} {r : Except ParseFailure (List Segment)} (hp : k + t.length = p.length)
    (hc : b.openClass = some cl) (hs : cl.Sound first)
    (hr : resume ⟨k, b.braces.length, between first⟩ b t = .ok r) :
    ClassOutcome p b cl.opener (members p first t) r := by
  fun_induction members p first t generalizing k b cl with
  | case1 first t hclose =>
    obtain ⟨rfl, hclose⟩ := hclose
    obtain ⟨t, rfl⟩ : ∃ t', t = Mark.closeBracket :: t' := by
      cases t with
      | nil => cases hclose
      | cons c t => exact ⟨t, by rw [Option.some.inj hclose]⟩
    refine ⟨k + 1, cl, ?_, rfl, hs, (resume_closed hc).symm.trans hr⟩
    rw [List.length_cons] at hp
    show k + 1 + t.length = _
    omega
  | case2 first t _ hmember => exact resume_unclosed hc hmember hr
  | case3 first t hclose lo t' hmember hrange ih =>
    obtain ⟨k', m, hk', rfl, -, hbegun⟩ :=
      resume_memberBegun (k := k) (d := b.braces.length) (b := b) (may_begin hclose) hmember
    rw [hbegun, resume_member hc hrange] at hr
    have hrest := ih (by omega) (withItem_openClass hc _) (hs.withItem (Nat.le_refl _)) hr
    exact hrest
  | case4 first t hclose lo t' hmember hi t'' hrange behind =>
    rename_i ih
    obtain ⟨k', m, hk', rfl, hm, hbegun⟩ :=
      resume_memberBegun (k := k) (d := b.braces.length) (b := b) (may_begin hclose) hmember
    obtain ⟨k'', s, c, hk'', hscanned, hstep⟩ :=
      resume_range (k := k') (d := b.braces.length) (b := b) (m := m) hrange
    rw [hbegun, hscanned] at hr
    have hp'' : k'' + t''.length = p.length := by omega
    have hspan : (⟨m.start, k''⟩ : Span) = ⟨Reading.offset p t, Reading.offset p t''⟩ := by
      rw [offset_eq hp, offset_eq hp'', hm]
    have hbuilt := step_range hc m hi k''
    by_cases hlt : hi < m.char
    · rw [if_pos hlt, hspan] at hbuilt
      exact classOutcome_inverted hlt (resume_failed hstep hbuilt hr)
    · rw [if_neg hlt] at hbuilt
      have hfeed : b.feed [m.range hi k''] = some (b.withItem (m.char, hi)) := by
        rw [Builder.feed, hbuilt]
        rfl
      rw [resume_step hstep hfeed] at hr
      have hrest := ih hp'' (withItem_openClass hc _) (hs.withItem (Nat.le_of_not_lt hlt)) hr
      exact classOutcome_ordered hlt hrest

theorem resume_openBracket (hc : b.openClass = none) :
    ∃ k' cl, k' + (behindNegation t).length = k + 1 + t.length ∧ cl.opener = Span.sized k 1 ∧ cl.items = [] ∧
      (cl.negated = true ↔ behindNegation t ≠ t) ∧
      resumeAt k b (Mark.openBracket :: t) =
        resume ⟨k', b.braces.length, between true⟩ { b.begun k with openClass := some cl } (behindNegation t) := by
  have hopened : resumeAt k b (Mark.openBracket :: t) = resume ⟨k + 1, b.braces.length, .classOpened⟩
      { b.begun k with openClass := some ⟨Span.sized k 1, false, true, []⟩ } t := by
    refine resume_step rfl ?_
    rw [Builder.feed, Builder.step_outside hc]
    rfl
  by_cases hneg : ∃ c t', t = c :: t' ∧ (c = Mark.exclamation ∨ c = Mark.caret)
  · obtain ⟨c, t, rfl, hneg⟩ := hneg
    have hbehind : behindNegation (c :: t) = t := by rcases hneg with rfl | rfl <;> rfl
    refine ⟨k + 2, ⟨Span.sized k 1, true, false, []⟩, ?_, rfl, rfl, ?_, ?_⟩
    · rw [hbehind, List.length_cons]
      omega
    · rw [hbehind]
      exact iff_of_true rfl fun h => List.cons_ne_self _ _ h.symm
    · rw [hopened, hbehind]
      exact resume_step (if_pos hneg) rfl
  · have hbehind : behindNegation t = t := by
      unfold behindNegation
      split
      · exact absurd ⟨_, _, rfl, .inl rfl⟩ hneg
      · exact absurd ⟨_, _, rfl, .inr rfl⟩ hneg
      · rfl
    refine ⟨k + 1, ⟨Span.sized k 1, false, true, []⟩, by rw [hbehind], rfl, rfl, ?_, ?_⟩
    · exact iff_of_false Bool.false_ne_true fun h => h hbehind
    rw [hopened, hbehind]
    cases t with
    | nil => exact resume_flush_nil rfl rfl rfl rfl
    | cons c t =>
      have hstep : (⟨k + 1, b.braces.length, .classOpened⟩ : State).step c =
          State.after [] ((⟨k + 1, b.braces.length, between true⟩ : State).step c) := by
        show (if c = Mark.exclamation ∨ c = Mark.caret then _ else _) = _
        rw [if_neg fun h => hneg ⟨c, t, rfl, h⟩]
        rfl
      exact resume_flush hstep rfl rfl

/-- **A class, from its opening bracket on.** -/
theorem resume_class {r : Except ParseFailure (List Segment)} (hp : k + (Mark.openBracket :: t).length = p.length)
    (hc : b.openClass = none) (hr : resumeAt k b (Mark.openBracket :: t) = .ok r) :
    ClassOutcome p (b.begun k) (Span.sized k 1) (members p true (behindNegation t)) r := by
  obtain ⟨k', cl, hk', hopener, hitems, -, hresume⟩ := resume_openBracket (k := k) (t := t) hc
  have hsound : cl.Sound true := ⟨fun h => Bool.noConfusion h, by simp [hitems]⟩
  rw [hresume] at hr
  rw [List.length_cons] at hp
  have hclass := resume_members (p := p) (by omega) rfl hsound hr
  rw [hopener] at hclass
  exact hclass

end Parser

end Glob
