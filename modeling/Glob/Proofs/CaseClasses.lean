import Glob.Proofs.Compiling
import Glob.Proofs.Regex.CaseFolding
import Glob.Proofs.Text.Folding
/-!
# Only case classes count

Where case is ignored, a matcher cannot tell candidates apart whose characters are of the same case classes, one by one
(`matcher_akin`).  No condition on the pattern is needed, also not on its members of sets beyond U+FFFF: the rules for
these are odd about the pattern's letter, but all they ask of the candidate's letter is its class.

The relation is stated from the lower cases and the sets of relatives (`Text.Akin`).  It is what `Text.sameClass` decides,
so it goes from single tests up to the members of a set (`inItems_akin`), and from there through every expression, the
looks ahead and behind included (`matches_akin`).
-/
namespace Glob

namespace Text

variable {c d : CodePoint}

/-- The code points have one lower case, or their lower cases are relatives. -/
def Akin (c d : CodePoint) : Prop := lower c = lower d ∨ ∃ set ∈ relatives, lower c ∈ set ∧ lower d ∈ set

theorem akin_iff : Akin c d ↔ sameClass c d = true := by
  rw [sameClass, List.contains_iff_mem]
  constructor
  · rintro (h | ⟨set, hset, hc, hd⟩)
    · exact h ▸ mem_kin_self (lower c)
    · rwa [kin_eq_of_mem_relatives set hset _ hc]
  · intro h
    unfold kin at h
    cases hfind : relatives.find? (·.contains (lower c)) with
    | none =>
      rw [hfind] at h
      exact .inl (List.mem_singleton.1 h).symm
    | some set =>
      rw [hfind] at h
      exact .inr ⟨set, List.mem_of_find?_eq_some hfind, by simpa using List.find?_some hfind, h⟩

theorem Akin.symm (h : Akin c d) : Akin d c := by
  rw [akin_iff, sameClass_comm]
  exact akin_iff.1 h

theorem Akin.kin_eq (h : Akin c d) : kin (lower c) = kin (lower d) := by
  rw [akin_iff, sameClass, List.contains_iff_mem] at h
  exact (kin_eq_of_mem h).symm

theorem Akin.classMates_eq (h : Akin c d) : classMates c = classMates d := by
  rw [classMates, classMates, h.kin_eq]

theorem Akin.sameClass_eq (h : Akin c d) (p : CodePoint) : sameClass p c = sameClass p d := by
  rw [sameClass_comm p c, sameClass_comm p d, sameClass, sameClass, h.kin_eq]

/-- Beyond U+FFFF letters are akin only if they have one lower case. -/
theorem Akin.lower_beyond (h : Akin c d) (hc : Regex.lastFolded < lower c) : lower c = lower d := by
  refine Regex.kin_beyond ?_ hc
  rw [← h.kin_eq]
  exact mem_kin_self _

/-- A letter whose capital is written with several code points is alone in its class. -/
theorem Akin.firstCapital?_eq (h : Akin c d) : firstCapital? c = firstCapital? d := by
  have halone : ∀ e ∈ firstCapitals, classMates e.1 = [e.1] := by decide
  have hmem : ∀ {c d capital}, Akin c d → firstCapital? c = some capital → d = c := by
    intro c d capital h hc
    obtain ⟨l₁, l₂, hl, -⟩ := List.lookup_eq_some_iff.1 hc
    have hd : d ∈ classMates c := (mem_classMates_iff c d).2 (akin_iff.1 h)
    rw [halone (c, capital) (by simp [hl])] at hd
    exact List.mem_singleton.1 hd
  cases hc : firstCapital? c with
  | some capital => rw [hmem h hc, hc]
  | none =>
    cases hd : firstCapital? d with
    | some capital => rw [← hmem h.symm hd, hc] at hd; cases hd
    | none => rfl

end Text

open Text (Akin)

namespace Regex

variable {c d : CodePoint}

/-! ## Members of sets -/

theorem inRangeFolded_akin (h : Akin c d) (item : CodePoint × CodePoint) :
    inRangeFolded item c = inRangeFolded item d := by
  unfold inRangeFolded
  rw [h.classMates_eq, h.firstCapital?_eq]
  split
  · rfl
  · next hbeyond =>
    split
    · next heq =>
      -- the member is a letter beyond U+FFFF, so what has it as its lower case has no relatives
      have hitem : lastFolded < item.1 := heq ▸ Nat.lt_of_not_le hbeyond
      rw [Bool.eq_iff_iff, beq_iff_eq, beq_iff_eq]
      constructor
      · intro hc
        rw [← h.lower_beyond (hc ▸ hitem), hc]
      · intro hd
        rw [← h.symm.lower_beyond (hd ▸ hitem), hd]
    · rfl

theorem inItems_akin (h : Akin c d) (items : List (CodePoint × CodePoint)) :
    inItems true items c = inItems true items d := by
  match items with
  | [] => rfl
  | [(lo, hi)] => simp only [inItems, inRangeFolded_akin h, h.sameClass_eq]
  | _ :: _ :: _ => simp only [inItems, inRangeFolded_akin h]

/-! ## Expressions -/

variable {x y : Text}

/-- Two candidates of which the characters are akin, one by one, have a character that passes the test at the same
offsets. -/
theorem exists_akin {test : CodePoint → Bool} (htest : ∀ c d, Akin c d → test c = test d)
    (h : List.Forall₂ Akin x y) (i : Nat) :
    (∃ c, x[i]? = some c ∧ test c = true) ↔ ∃ d, y[i]? = some d ∧ test d = true := by
  induction h generalizing i with
  | nil => exact .rfl
  | @cons c d x y hcd _ ih =>
    cases i with
    | zero => simp [htest c d hcd]
    | succ i => simpa using ih i

/-- **An expression matches the same parts of candidates whose characters are akin.** -/
theorem matches_akin (h : List.Forall₂ Akin x y) (r : Regex) (i j : Nat) :
    Matches true x r i j ↔ Matches true y r i j := by
  have hlength : x.length = y.length := h.length_eq
  induction r generalizing i j with
  | empty => exact .rfl
  | char p => exact and_congr_right fun _ => exists_akin (fun c d hcd => hcd.sameClass_eq p) h i
  | any => simp only [Matches, hlength]
  | set negated items =>
    exact and_congr_right fun _ => exists_akin (fun c d hcd => by rw [inSet, inSet, inItems_akin hcd]) h i
  | start => exact .rfl
  | stop => simp only [Matches, hlength]
  | seq a b iha ihb => simp only [Matches, iha, ihb]
  | either a b iha ihb => simp only [Matches, iha, ihb]
  | group a ih => exact ih i j
  | many a ih =>
    have hbody : Matches true x a = Matches true y a := funext₂ fun i j => propext (ih i j)
    simp only [Matches, hbody]
  | optional a ih => simp only [Matches, ih]
  | notAhead a ih => simp only [Matches, ih]
  | notBehind a ih => simp only [Matches, ih]

theorem accepts_akin (h : List.Forall₂ Akin x y) (r : Regex) : r.accepts true x = r.accepts true y := by
  rw [Bool.eq_iff_iff, accepts_iff, accepts_iff]
  exact exists_congr fun j => matches_akin h _ 0 j

end Regex

/-! ## Matchers -/

/-- **A matcher that ignores case depends only on the case classes of a candidate's characters**, whatever the pattern
and the options for separators and dots. -/
theorem matcher_akin {p : Text} {tree : Pattern} {o : Options} (hparse : Pattern.parse p = .ok tree)
    (hcase : o.caseSensitive = false) :
    ∃ m, Matcher.ofPattern? o p = .ok m ∧ ∀ x y, List.Forall₂ Akin x y → m.accepts x = m.accepts y := by
  refine ⟨_, ofPattern?_of_parse hparse o, fun x y h => ?_⟩
  simp only [Matcher.accepts, hcase, Bool.and_false, Bool.false_eq_true, if_false]
  exact Regex.accepts_akin h _

/-- The pattern `**/[!a-j]{ſ,.}*` under all rules, along a long s, the sign for Kelvin and two small sigmas. -/
theorem matcher_akin_relatives :
    ∃ m, Matcher.ofPattern? ⟨false, true, true⟩ (Text.of "**/[!a-j]\x7bſ,.\x7d*") = .ok m ∧
      m.accepts [0x2F, 0x212A, 0x73, 0x3C2] = m.accepts [0x2F, 0x6B, 0x17F, 0x3C3] := by
  obtain ⟨tree, hparse⟩ : ∃ tree, Pattern.parse (Text.of "**/[!a-j]\x7bſ,.\x7d*") = .ok tree := ⟨_, rfl⟩
  obtain ⟨m, hm, hakin⟩ := matcher_akin (o := ⟨false, true, true⟩) hparse rfl
  have hkelvin : Akin 0x212A 0x6B := .inl (by decide)
  have hs : Akin 0x73 0x17F := .inr ⟨[0x73, 0x17F], by decide, by decide, by decide⟩
  have hsigma : Akin 0x3C2 0x3C3 := .inr ⟨[0x3C2, 0x3C3], by decide, by decide, by decide⟩
  exact ⟨m, hm, hakin _ _ (.cons (.inl rfl) (.cons hkelvin (.cons hs (.cons hsigma .nil))))⟩

end Glob
