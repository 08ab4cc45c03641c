import Glob.Proofs.Pattern.Acceptance
import Glob.Proofs.Pattern.ClassText
/-!
# A pattern unit by unit

A pattern is read in units: an escaped character, a class, or a character by itself.  A class goes to its closing bracket,
or if it has none, up to what it cannot have in it; how far that is does not depend on what comes behind, except that this
has to end a class which is not closed (`ClassExtent.read`).  So units can be told apart from their context (`UnitText`),
and `units` cuts any pattern into them, also one that is rejected (`units_sound`).
-/
namespace Glob

namespace Reading

variable {p t t' u w : Text} {c lo hi : CodePoint} {first closed : Bool} {ranges : List (CodePoint × CodePoint)}

/-! ## Backslashes at the end -/

theorem not_endsEscaping_nil : ¬ EndsEscaping [] := by decide

theorem endsEscaping_singleton : EndsEscaping [c] ↔ c = Mark.backslash := by
  refine (Scanner.endsEscaping_concat [] c).trans ?_
  simp [not_endsEscaping_nil]

/-- A text in which every backslash has something to escape makes no difference in front of another one. -/
theorem endsEscaping_append (h : ¬ EndsEscaping u) (t : Text) : EndsEscaping (u ++ t) ↔ EndsEscaping t := by
  induction t using List.reverseRecOn with
  | nil => simpa [not_endsEscaping_nil] using h
  | append_singleton t c ih => rw [← List.append_assoc, Scanner.endsEscaping_concat, Scanner.endsEscaping_concat, ih]

theorem endsEscaping_cons (h : c ≠ Mark.backslash) : EndsEscaping (c :: t) ↔ EndsEscaping t :=
  endsEscaping_append (u := [c]) (mt endsEscaping_singleton.1 h) t

theorem not_endsEscaping_escaped (c : CodePoint) : ¬ EndsEscaping [Mark.backslash, c] := fun h =>
  ((Scanner.endsEscaping_concat [Mark.backslash] c).1 h).1 (endsEscaping_singleton.2 rfl)

theorem endsEscaping_escaped : EndsEscaping (Mark.backslash :: c :: t) ↔ EndsEscaping t :=
  endsEscaping_append (not_endsEscaping_escaped c) t

/-! ## How far a class goes -/

/-- The text may come behind a class: any text behind a closed one, and otherwise one that ends it. -/
def MayFollow (closed : Bool) (t : Text) : Prop := closed = true ∨ member? t = none

/-- The text of members up to where their class ends, the ends of their ranges, and whether a bracket closes it. -/
inductive MembersExtent : Bool → Text → List (CodePoint × CodePoint) → Bool → Prop
  | closed : MembersExtent false [Mark.closeBracket] [] true
  | stopped (first : Bool) : MembersExtent first [] [] false
  | single {first closed : Bool} {m w : Text} {c : CodePoint} {ranges : List (CodePoint × CodePoint)}
    (hm : MemberText m c) (hfirst : first = true ∨ m ≠ [Mark.closeBracket]) (hend : rangeEnd? w = none)
    (rest : MembersExtent false w ranges closed) : MembersExtent first (m ++ w) ranges closed
  | range {first closed : Bool} {m m' w : Text} {lo hi : CodePoint} {ranges : List (CodePoint × CodePoint)}
    (hm : MemberText m lo) (hfirst : first = true ∨ m ≠ [Mark.closeBracket]) (hm' : MemberText m' hi)
    (hraw : m' ≠ [Mark.closeBracket]) (rest : MembersExtent false w ranges closed) :
    MembersExtent first (m ++ Mark.dash :: (m' ++ w)) ((lo, hi) :: ranges) closed

def Range.ends (r : Range) : CodePoint × CodePoint := (r.lo, r.hi)

/-! ### Ranges -/

theorem rangeEnd?_of_ne (h : c ≠ Mark.dash) (t : Text) : rangeEnd? (c :: t) = none := by
  unfold rangeEnd?
  split
  · next heq => exact absurd (List.cons.inj heq).1 h
  · next heq => exact absurd (List.cons.inj heq).1 h
  · rfl

theorem rangeEnd?_of_member? (h : member? t = none) : rangeEnd? t = none := by
  unfold rangeEnd?
  split
  · rfl
  · cases h
  · rfl

theorem rangeEnd?_dash (h : member? t = none) : rangeEnd? (Mark.dash :: t) = none := by
  unfold rangeEnd?
  split
  · rfl
  · next heq => rwa [← (List.cons.inj heq).2]
  · rfl

/-- Whether a dash begins a range is decided inside the class. -/
theorem MembersExtent.dash_append (h : MembersExtent false w ranges closed) (ht : MayFollow closed t) :
    rangeEnd? (Mark.dash :: (w ++ t)) = none ↔ rangeEnd? (Mark.dash :: w) = none := by
  cases h with
  | closed => exact iff_of_true rfl rfl
  | stopped => exact iff_of_true (rangeEnd?_dash (ht.resolve_left Bool.false_ne_true)) rfl
  | single hm hfirst =>
    have hraw := hfirst.resolve_left Bool.false_ne_true
    rw [List.append_assoc, hm.rangeEnd?_append hraw, hm.rangeEnd?_append hraw]
    exact iff_of_false nofun nofun
  | range hm hfirst =>
    have hraw := hfirst.resolve_left Bool.false_ne_true
    rw [List.append_assoc, hm.rangeEnd?_append hraw, hm.rangeEnd?_append hraw]
    exact iff_of_false nofun nofun

theorem MembersExtent.rangeEnd?_append (h : MembersExtent false w ranges closed) (ht : MayFollow closed t) :
    rangeEnd? (w ++ t) = none ↔ rangeEnd? w = none := by
  cases h with
  | closed => exact iff_of_true rfl rfl
  | stopped => exact iff_of_true (rangeEnd?_of_member? (ht.resolve_left Bool.false_ne_true)) rfl
  | @single _ _ _ _ c _ hm _ _ rest =>
    cases hm with
    | escaped => exact iff_of_true (rangeEnd?_of_ne (by decide) _) (rangeEnd?_of_ne (by decide) _)
    | raw =>
      by_cases hdash : c = Mark.dash
      · subst hdash
        exact rest.dash_append ht
      · exact iff_of_true (rangeEnd?_of_ne hdash _) (rangeEnd?_of_ne hdash _)
  | @range _ _ _ _ _ lo _ _ hm =>
    cases hm with
    | escaped => exact iff_of_true (rangeEnd?_of_ne (by decide) _) (rangeEnd?_of_ne (by decide) _)
    | raw =>
      by_cases hdash : lo = Mark.dash
      · subst hdash
        exact iff_of_false nofun nofun
      · exact iff_of_true (rangeEnd?_of_ne hdash _) (rangeEnd?_of_ne hdash _)

/-! ### Members -/

theorem members_stopped (h : member? t = none) : members p first t = ⟨[], false, t⟩ := by
  have hopen : ¬ (first = false ∧ t.head? = some Mark.closeBracket) := by
    rintro ⟨-, hhead⟩
    cases t with
    | nil => cases hhead
    | cons c t =>
      obtain rfl := Option.some.inj hhead
      cases h
  rw [members, if_neg hopen]
  split
  · rfl
  · next h' =>
    rw [h] at h'
    cases h'

section Begun

variable (hfirst : first = true ∨ t.head? ≠ some Mark.closeBracket) (hmember : member? t = some (lo, t'))
include hfirst hmember

theorem members_single (hend : rangeEnd? t' = none) : members p first t = members p false t' := by
  rw [members, if_neg fun h => hfirst.elim (fun hf => Bool.noConfusion (h.1.symm.trans hf)) fun hne => hne h.2]
  split
  · next h' => rw [hmember] at h'; cases h'
  · next h' =>
    rw [hmember] at h'
    cases h'
    split
    · rfl
    · next h'' => rw [hend] at h''; cases h''

theorem members_range {t'' : Text} (hrange : rangeEnd? t' = some (hi, t'')) :
    ∃ span, members p first t =
      { members p false t'' with ranges := ⟨lo, hi, span⟩ :: (members p false t'').ranges } := by
  rw [members, if_neg fun h => hfirst.elim (fun hf => Bool.noConfusion (h.1.symm.trans hf)) fun hne => hne h.2]
  split
  · next h' => rw [hmember] at h'; cases h'
  · next h' =>
    rw [hmember] at h'
    cases h'
    split
    · next h'' => rw [hrange] at h''; cases h''
    · next h'' =>
      rw [hrange] at h''
      cases h''
      exact ⟨_, rfl⟩

end Begun

/-- What is read of members: their ranges, whether the class is closed, and what is left. -/
def Members.Are (read : Members) (ranges : List (CodePoint × CodePoint)) (closed : Bool) (left : Text) : Prop :=
  read.ranges.map Range.ends = ranges ∧ read.closed = closed ∧ read.left = left

theorem MembersExtent.read (h : MembersExtent first w ranges closed) (p : Text) (ht : MayFollow closed t) :
    (members p first (w ++ t)).Are ranges closed t := by
  induction h with
  | closed =>
    rw [List.singleton_append, members, if_pos ⟨rfl, rfl⟩]
    exact ⟨rfl, rfl, rfl⟩
  | stopped =>
    rw [List.nil_append, members_stopped (ht.resolve_left Bool.false_ne_true)]
    exact ⟨rfl, rfl, rfl⟩
  | single hm hfirst hend rest ih =>
    rw [List.append_assoc, members_single (hm.may_begin hfirst _) (hm.member?_append _) ((rest.rangeEnd?_append ht).2 hend)]
    exact ih ht
  | range hm hfirst hm' hraw rest ih =>
    rw [List.append_assoc, List.cons_append, List.append_assoc]
    obtain ⟨span, hread⟩ := members_range (p := p) (hm.may_begin hfirst _) (hm.member?_append _)
      (hm'.rangeEnd?_append hraw _)
    obtain ⟨hranges, hclosed, hleft⟩ := ih ht
    rw [hread]
    exact ⟨congrArg (_ :: ·) hranges, hclosed, hleft⟩

theorem exists_membersExtent (p : Text) (first : Bool) (t : Text) :
    ∃ w t' ranges closed, t = w ++ t' ∧ MembersExtent first w ranges closed ∧ MayFollow closed t' := by
  fun_induction members p first t with
  | case1 first t hclose =>
    obtain ⟨rfl, hhead⟩ := hclose
    cases t with
    | nil => cases hhead
    | cons c t =>
      obtain rfl := Option.some.inj hhead
      exact ⟨[Mark.closeBracket], t, [], true, rfl, .closed, .inl rfl⟩
  | case2 first t _ hmember => exact ⟨[], t, [], false, rfl, .stopped first, .inr hmember⟩
  | case3 first t hclose lo t' hmember hrange ih =>
    obtain ⟨w, u, ranges, closed, rfl, hw, hu⟩ := ih
    obtain ⟨m, hm, rfl⟩ := exists_memberText hmember
    have hfirst := raw_of_head (Parser.may_begin hclose) rfl
    exact ⟨m ++ w, u, ranges, closed, (List.append_assoc _ _ _).symm,
      .single hm hfirst ((hw.rangeEnd?_append hu).1 hrange) hw, hu⟩
  | case4 first t hclose lo t' hmember hi t'' hrange behind ih =>
    obtain ⟨w, u, ranges, closed, rfl, hw, hu⟩ := ih
    obtain ⟨m, hm, rfl⟩ := exists_memberText hmember
    obtain ⟨m', hm', hraw, rfl⟩ := exists_rangeEnd hrange
    have hfirst := raw_of_head (Parser.may_begin hclose) rfl
    exact ⟨m ++ Mark.dash :: (m' ++ w), u, _, closed, by simp, .range hm hfirst hm' hraw hw, hu⟩

theorem MemberText.complete (h : MemberText w c) : ¬ EndsEscaping w := by
  cases h with
  | raw _ hback => exact mt endsEscaping_singleton.1 hback
  | escaped => exact not_endsEscaping_escaped c

theorem MembersExtent.complete (h : MembersExtent first w ranges closed) : ¬ EndsEscaping w := by
  induction h with
  | closed => decide
  | stopped => exact not_endsEscaping_nil
  | single hm _ _ _ ih => rwa [endsEscaping_append hm.complete]
  | range hm _ hm' _ _ ih =>
    rwa [endsEscaping_append hm.complete, endsEscaping_cons (by decide), endsEscaping_append hm'.complete]

theorem MembersExtent.open_of_nil (h : MembersExtent first w ranges closed) (hw : w = []) : closed = false := by
  cases h with
  | closed => cases hw
  | stopped => rfl
  | single hm => exact absurd (List.append_eq_nil_iff.1 hw).1 hm.ne_nil
  | range hm => exact absurd (List.append_eq_nil_iff.1 hw).1 hm.ne_nil

/-! ### Classes -/

/-- The text of a class behind its opening bracket, up to where it ends. -/
inductive ClassExtent : Text → List (CodePoint × CodePoint) → Bool → Prop
  | negated {m : CodePoint} {w : Text} {ranges : List (CodePoint × CodePoint)} {closed : Bool}
    (hm : m = Mark.exclamation ∨ m = Mark.caret) (h : MembersExtent true w ranges closed) :
    ClassExtent (m :: w) ranges closed
  | plain {w : Text} {ranges : List (CodePoint × CodePoint)} {closed : Bool} (hw : behindNegation w = w)
    (h : MembersExtent true w ranges closed) : ClassExtent w ranges closed

theorem behindNegation_of_stopped (h : member? t = none) : behindNegation t = t := by
  unfold behindNegation
  split
  · cases h
  · cases h
  · rfl

/-- **How far a class goes does not depend on what comes behind it.** -/
theorem ClassExtent.read (h : ClassExtent w ranges closed) (p : Text) (ht : MayFollow closed t) :
    (members p true (behindNegation (w ++ t))).Are ranges closed t := by
  cases h with
  | negated hm h =>
    rcases hm with rfl | rfl
    · exact h.read p ht
    · exact h.read p ht
  | plain hw h =>
    have hbehind : behindNegation (w ++ t) = w ++ t := by
      by_cases hnil : w = []
      · rw [h.open_of_nil hnil] at ht
        rw [hnil]
        exact behindNegation_of_stopped (ht.resolve_left Bool.false_ne_true)
      · rw [behindNegation_append hnil, hw]
    rw [hbehind]
    exact h.read p ht

/-- The text of a class tells its ranges, and whether it is closed. -/
theorem ClassExtent.det {ranges' : List (CodePoint × CodePoint)} {closed' : Bool} (h : ClassExtent w ranges closed)
    (h' : ClassExtent w ranges' closed') : ranges = ranges' ∧ closed = closed' := by
  obtain ⟨hranges, hclosed, -⟩ := h.read [] (t := []) (.inr rfl)
  obtain ⟨hranges', hclosed', -⟩ := h'.read [] (t := []) (.inr rfl)
  exact ⟨hranges.symm.trans hranges', hclosed.symm.trans hclosed'⟩

theorem exists_classExtent (t : Text) :
    ∃ w t' ranges closed, t = w ++ t' ∧ ClassExtent w ranges closed ∧ MayFollow closed t' := by
  obtain ⟨w, t', ranges, closed, ht, hw, ht'⟩ := exists_membersExtent [] true (behindNegation t)
  by_cases hplain : behindNegation t = t
  · rw [hplain] at ht
    subst ht
    refine ⟨w, t', ranges, closed, rfl, .plain ?_ hw, ht'⟩
    by_cases hnil : w = []
    · rw [hnil]
      rfl
    · rw [behindNegation_append hnil] at hplain
      exact List.append_cancel_right hplain
  · obtain ⟨m, hm, hmark⟩ : ∃ m, (m = Mark.exclamation ∨ m = Mark.caret) ∧ t = m :: behindNegation t := by
      unfold behindNegation at hplain ⊢
      split
      · exact ⟨_, .inl rfl, rfl⟩
      · exact ⟨_, .inr rfl, rfl⟩
      · simp at hplain
    exact ⟨m :: w, t', ranges, closed, hmark.trans (congrArg (m :: ·) ht), .negated hm hw, ht'⟩

theorem ClassExtent.complete (h : ClassExtent w ranges closed) : ¬ EndsEscaping w := by
  cases h with
  | negated hm h =>
    refine mt (endsEscaping_cons ?_).1 h.complete
    rcases hm with rfl | rfl <;> decide
  | plain _ h => exact h.complete

/-- A class that is closed, with the ends of its ranges in order, is one that a tree may have. -/
theorem ClassExtent.classText (h : ClassExtent w ranges true) (hordered : ∀ r ∈ ranges, r.1 ≤ r.2) :
    ∃ v negated items, w = v ++ [Mark.closeBracket] ∧ ClassText v negated items := by
  obtain ⟨hranges, hclosed, hleft⟩ := h.read [] (t := []) (.inl rfl)
  rw [List.append_nil] at hranges hclosed hleft
  have hnone : (members [] true (behindNegation w)).ranges.find? (·.Inverted) = none := by
    refine List.find?_eq_none.2 fun r hr hinverted => ?_
    have hmem : r.ends ∈ ranges := hranges ▸ List.mem_map_of_mem hr
    exact Nat.not_lt.2 (hordered _ hmem) (of_decide_eq_true hinverted)
  obtain ⟨v, items, hv, hmembers⟩ := exists_membersText hclosed hnone
  obtain ⟨v, negated, hw, hclass⟩ := exists_classText hv hmembers
  rw [hleft] at hw
  exact ⟨v, negated, items, hw, hclass⟩

/-! ## Units -/

/-- The first text is a unit where the second comes behind it. -/
inductive UnitText : Text → Text → Prop
  | lone : UnitText [Mark.backslash] []
  | escaped (c : CodePoint) (t : Text) : UnitText [Mark.backslash, c] t
  | set {w t : Text} {ranges : List (CodePoint × CodePoint)} {closed : Bool} (hw : ClassExtent w ranges closed)
    (ht : MayFollow closed t) : UnitText (Mark.openBracket :: w) t
  | char {c : CodePoint} (hback : c ≠ Mark.backslash) (hbracket : c ≠ Mark.openBracket) (t : Text) : UnitText [c] t

/-- The texts are units one after the other, with `t` behind them. -/
def Units (t : Text) : List Text → Prop
  | [] => True
  | u :: us => UnitText u (us.flatten ++ t) ∧ Units t us

/-- **The units of a pattern.** -/
def units : Text → List Text
  | [] => []
  | Mark.backslash :: t => (Mark.backslash :: t.take 1) :: units t.tail
  | Mark.openBracket :: t =>
    let left := (members [] true (behindNegation t)).left
    (Mark.openBracket :: t.take (t.length - left.length)) :: units left
  | c :: t => [c] :: units t
termination_by t => t.length
decreasing_by
  · rw [List.length_tail, List.length_cons]
    omega
  · exact Nat.lt_succ_of_le (Nat.le_trans (members_length [] true _) (behindNegation_length t))
  · exact Nat.lt_succ_self _

/-- What is taken of a text for a class is the text of a class. -/
theorem take_class (t : Text) :
    let left := (members [] true (behindNegation t)).left
    ∃ ranges closed, t.take (t.length - left.length) ++ left = t ∧
      ClassExtent (t.take (t.length - left.length)) ranges closed ∧ MayFollow closed left := by
  obtain ⟨w, t', ranges, closed, rfl, hw, ht⟩ := exists_classExtent t
  obtain ⟨-, -, hleft⟩ := hw.read [] ht
  have htake : (w ++ t').take ((w ++ t').length - t'.length) = w := by
    rw [List.length_append, Nat.add_sub_cancel, List.take_left]
  intro left
  rw [show left = t' from hleft, htake]
  exact ⟨ranges, closed, rfl, hw, ht⟩

theorem flatten_units (p : Text) : (units p).flatten = p := by
  fun_induction units p with
  | case1 => rfl
  | case2 t ih => rw [List.flatten_cons, ih, List.cons_append, ← List.drop_one, List.take_append_drop]
  | case3 t left ih =>
    obtain ⟨-, -, happend, -⟩ := take_class t
    rw [List.flatten_cons, ih, List.cons_append, happend]
  | case4 c t _ _ ih => rw [List.flatten_cons, ih, List.singleton_append]

/-- **What a pattern is cut into are units.** -/
theorem units_sound (p : Text) : Units [] (units p) := by
  fun_induction units p with
  | case1 => trivial
  | case2 t ih =>
    cases t with
    | nil =>
      refine ⟨?_, ih⟩
      rw [List.append_nil, flatten_units]
      exact .lone
    | cons c t => exact ⟨.escaped c _, ih⟩
  | case3 t left ih =>
    obtain ⟨ranges, closed, -, hw, hleft⟩ := take_class t
    refine ⟨.set hw ?_, ih⟩
    rwa [List.append_nil, flatten_units]
  | case4 c t hback hbracket ih => exact ⟨.char hback hbracket _, ih⟩

end Reading
end Glob
