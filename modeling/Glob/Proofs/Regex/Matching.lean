import Glob.Regex.Run
import Mathlib.Logic.Relation
/-!
# What an expression matches

`Regex.run` works on lists of offsets and repeats in rounds.  `Regex.Matches` says the same as a relation between
the offset where an expression begins and one where it may end, by recursion on the expression, with repetition as the
reflexive and transitive closure.  The main statement is `mem_run`: the offsets that `run` gives are those that
`Matches` relates.  For a repetition it rests on `closure_closed`: as many rounds as the subject has offsets are
enough.
-/
namespace Glob.Regex

open Relation (ReflTransGen)

/-- The expression, begun at offset `i` of the subject, may end at offset `j`. -/
def Matches (ignoreCase : Bool) (t : Text) : Regex → Nat → Nat → Prop
  | .empty, i, j => j = i
  | .char p, i, j => j = i + 1 ∧ ∃ c, t[i]? = some c ∧ sameChar ignoreCase p c = true
  | .any, i, j => j = i + 1 ∧ i < t.length
  | .set negated items, i, j => j = i + 1 ∧ ∃ c, t[i]? = some c ∧ inSet ignoreCase negated items c = true
  | .start, i, j => j = i ∧ i = 0
  | .stop, i, j => j = i ∧ i = t.length
  | .seq a b, i, j => ∃ k, Matches ignoreCase t a i k ∧ Matches ignoreCase t b k j
  | .either a b, i, j => Matches ignoreCase t a i j ∨ Matches ignoreCase t b i j
  | .group a, i, j => Matches ignoreCase t a i j
  | .many a, i, j => ReflTransGen (Matches ignoreCase t a) i j
  | .optional a, i, j => j = i ∨ Matches ignoreCase t a i j
  | .notAhead a, i, j => j = i ∧ ∀ k, ¬ Matches ignoreCase t a i k
  | .notBehind a, i, j => j = i ∧ ∀ k, k ≤ i → ¬ Matches ignoreCase t a k i

variable {ignoreCase : Bool} {t : Text}

/-! ## Offsets only grow -/

theorem Matches.bounds {r : Regex} {i j : Nat} (h : Matches ignoreCase t r i j) :
    i ≤ j ∧ (j = i ∨ j ≤ t.length) := by
  induction r generalizing i j with
  | empty => exact ⟨Nat.le_of_eq h.symm, .inl h⟩
  | char p =>
    obtain ⟨rfl, c, hc, _⟩ := h
    have := (List.getElem?_eq_some_iff.1 hc).1
    exact ⟨by omega, .inr this⟩
  | any => exact ⟨by have := h.1; omega, .inr (by have := h.1; have := h.2; omega)⟩
  | set negated items =>
    obtain ⟨rfl, c, hc, _⟩ := h
    have := (List.getElem?_eq_some_iff.1 hc).1
    exact ⟨by omega, .inr this⟩
  | start => exact ⟨Nat.le_of_eq h.1.symm, .inl h.1⟩
  | stop => exact ⟨Nat.le_of_eq h.1.symm, .inl h.1⟩
  | seq a b iha ihb =>
    obtain ⟨k, ha, hb⟩ := h
    have h1 := iha ha
    have h2 := ihb hb
    omega
  | either a b iha ihb =>
    rcases h with h | h
    · exact iha h
    · exact ihb h
  | group a ih => exact ih h
  | many a ih =>
    induction h with
    | refl => exact ⟨Nat.le_refl _, .inl rfl⟩
    | tail _ hstep ihs =>
      have := ih hstep
      omega
  | optional a ih =>
    rcases h with h | h
    · exact ⟨Nat.le_of_eq h.symm, .inl h⟩
    · exact ih h
  | notAhead a _ => exact ⟨Nat.le_of_eq h.1.symm, .inl h.1⟩
  | notBehind a _ => exact ⟨Nat.le_of_eq h.1.symm, .inl h.1⟩

theorem Matches.le {r : Regex} {i j : Nat} (h : Matches ignoreCase t r i j) : i ≤ j := h.bounds.1

/-- An expression that begins inside the subject ends inside it. -/
theorem Matches.le_length {r : Regex} {i j : Nat} (h : Matches ignoreCase t r i j) (hi : i ≤ t.length) :
    j ≤ t.length := by
  rcases h.bounds.2 with rfl | hj
  · exact hi
  · exact hj

/-! ## The rounds of a repetition -/

theorem mem_union {a b : List Nat} {i : Nat} : i ∈ union a b ↔ i ∈ a ∨ i ∈ b := by
  simp only [union, List.mem_append, List.mem_filter, Bool.not_eq_true', List.contains_eq_mem,
    decide_eq_false_iff_not]
  constructor
  · rintro (h | ⟨h, _⟩)
    · exact .inl h
    · exact .inr h
  · rintro (h | h)
    · exact .inl h
    · by_cases ha : i ∈ a
      · exact .inl ha
      · exact .inr ⟨h, ha⟩

theorem mem_advance {test : CodePoint → Bool} {offsets : List Nat} {j : Nat} :
    j ∈ advance t test offsets ↔ ∃ i ∈ offsets, j = i + 1 ∧ ∃ c, t[i]? = some c ∧ test c = true := by
  simp only [advance, List.mem_filterMap]
  refine exists_congr fun i => and_congr_right fun _ => ?_
  cases t[i]? with
  | none => simp
  | some c => by_cases hc : test c = true <;> simp [hc, @eq_comm _ j]

section Closure

variable {next : List Nat → List Nat} {R : Nat → Nat → Prop}

theorem subset_closure (rounds : Nat) (seen fresh : List Nat) {i : Nat} (h : i ∈ seen) :
    i ∈ closure next rounds seen fresh := by
  induction rounds generalizing seen fresh with
  | zero => exact h
  | succ rounds ih =>
    unfold closure
    split
    · exact h
    · exact ih _ _ (List.mem_append_left _ h)

/-- Whatever the rounds give is reached by steps. -/
theorem closure_reached (hnext : ∀ offsets j, j ∈ next offsets → ∃ i ∈ offsets, R i j) (rounds : Nat)
    (seen fresh : List Nat) (hfresh : ∀ i ∈ fresh, i ∈ seen) {j : Nat} (h : j ∈ closure next rounds seen fresh) :
    ∃ i ∈ seen, ReflTransGen R i j := by
  induction rounds generalizing seen fresh with
  | zero => exact ⟨j, h, .refl⟩
  | succ rounds ih =>
    rw [closure] at h
    generalize hfound : (next fresh).filter (fun i => !seen.contains i) = found at h
    cases found with
    | nil => exact ⟨j, h, .refl⟩
    | cons k ks =>
      obtain ⟨i, hi, hij⟩ := ih _ _ (fun i hi => List.mem_append_right _ hi) h
      rcases List.mem_append.1 hi with hi | hi
      · exact ⟨i, hi, hij⟩
      · -- an offset found in this round is one step away from a fresh one
        rw [← hfound] at hi
        obtain ⟨l, hl, hli⟩ := hnext _ _ (List.mem_filter.1 hi).1
        exact ⟨l, hfresh l hl, .head hli hij⟩

def unseen (n : Nat) (seen : List Nat) : List Nat := (List.range (n + 1)).filter fun i => !seen.contains i

theorem unseen_lt {n i : Nat} {seen found : List Nat} (hi : i ≤ n) (hs : i ∉ seen) (hf : i ∈ found) :
    (unseen n (seen ++ found)).length < (unseen n seen).length := by
  have hsub : unseen n (seen ++ found) = (unseen n seen).filter fun i => !found.contains i := by
    simp only [unseen, List.filter_filter]
    refine List.filter_congr fun k _ => ?_
    simp [Bool.and_comm]
  rw [hsub]
  refine List.length_filter_lt_length_iff_exists.2 ⟨i, ?_, by simp [hf]⟩
  simpa [unseen, hs] using Nat.lt_succ_of_le hi

/-- **Enough rounds give a closed set**, if every round that finds something finds an offset up to `n`, and there are
as many rounds as such offsets. -/
theorem closure_closed {n : Nat} (hnext : ∀ offsets i j, i ∈ offsets → R i j → j ∈ next offsets)
    (hfound : ∀ offsets j, j ∈ next offsets → j ∈ offsets ∨ j ≤ n) (hR : ∀ i j, R i j → j = i ∨ j ≤ n)
    (rounds : Nat) (seen fresh : List Nat) (hfresh : ∀ i ∈ fresh, i ∈ seen)
    (hdone : ∀ i ∈ seen, i ∉ fresh → ∀ j, R i j → j ∈ seen) (hrounds : (unseen n seen).length ≤ rounds) :
    ∀ i ∈ closure next rounds seen fresh, ∀ j, R i j → j ∈ closure next rounds seen fresh := by
  induction rounds generalizing seen fresh with
  | zero =>
    intro i hi j hij
    rcases hR i j hij with rfl | hj
    · exact hi
    · have hnil : unseen n seen = [] := List.length_eq_zero_iff.1 (Nat.le_zero.1 hrounds)
      have := List.filter_eq_nil_iff.1 hnil j (List.mem_range.2 (by omega))
      simpa [closure] using this
  | succ rounds ih =>
    rw [closure]
    generalize hfound' : (next fresh).filter (fun i => !seen.contains i) = found
    have hmem : ∀ j, j ∈ found ↔ j ∈ next fresh ∧ j ∉ seen := fun j => by
      rw [← hfound']
      simp
    cases found with
    | nil =>
      intro i hi j hij
      by_cases hf : i ∈ fresh
      · exact Decidable.not_not.1 fun hs => List.not_mem_nil ((hmem j).2 ⟨hnext _ _ _ hf hij, hs⟩)
      · exact hdone i hi hf j hij
    | cons k ks =>
      refine ih _ _ (fun i hi => List.mem_append_right _ hi) ?_ ?_
      · intro i hi hif j hij
        rcases List.mem_append.1 hi with hi | hi
        · by_cases hf : i ∈ fresh
          · by_cases hj : j ∈ seen
            · exact List.mem_append_left _ hj
            · exact List.mem_append_right _ ((hmem j).2 ⟨hnext _ _ _ hf hij, hj⟩)
          · exact List.mem_append_left _ (hdone i hi hf j hij)
        · exact absurd hi hif
      · -- the first offset found is new and at most `n`
        obtain ⟨hkn, hks⟩ := (hmem k).1 List.mem_cons_self
        have hkb : k ≤ n := by
          rcases hfound _ _ hkn with h | h
          · exact absurd (hfresh k h) hks
          · exact h
        have := unseen_lt hkb hks (List.mem_cons_self (l := ks))
        omega

end Closure

/-! ## Running is matching -/

theorem mem_run (r : Regex) {offsets : List Nat} {j : Nat} :
    j ∈ run ignoreCase t r offsets ↔ ∃ i ∈ offsets, Matches ignoreCase t r i j := by
  induction r generalizing offsets j with
  | empty => simp [run, Matches]
  | char p => simp only [run, mem_advance, Matches]
  | any =>
    simp only [run, mem_advance, Matches, and_true]
    refine exists_congr fun i => and_congr_right fun _ => and_congr_right fun _ => ?_
    constructor
    · rintro ⟨c, hc⟩
      exact (List.getElem?_eq_some_iff.1 hc).1
    · intro hi
      exact ⟨t[i], List.getElem?_eq_getElem hi⟩
  | set negated items => simp only [run, mem_advance, Matches]
  | start =>
    simp only [run, List.mem_filter, beq_iff_eq, Matches]
    constructor
    · rintro ⟨h, rfl⟩
      exact ⟨0, h, rfl, rfl⟩
    · rintro ⟨i, h, rfl, rfl⟩
      exact ⟨h, rfl⟩
  | stop =>
    simp only [run, List.mem_filter, beq_iff_eq, Matches]
    constructor
    · rintro ⟨h, rfl⟩
      exact ⟨_, h, rfl, rfl⟩
    · rintro ⟨i, h, rfl, rfl⟩
      exact ⟨h, rfl⟩
  | seq a b iha ihb =>
    simp only [run, ihb, iha, Matches]
    constructor
    · rintro ⟨k, ⟨i, hi, hik⟩, hkj⟩
      exact ⟨i, hi, k, hik, hkj⟩
    · rintro ⟨i, hi, k, hik, hkj⟩
      exact ⟨k, ⟨i, hi, hik⟩, hkj⟩
  | either a b iha ihb =>
    simp only [run, mem_union, iha, ihb, Matches]
    constructor
    · rintro (⟨i, hi, h⟩ | ⟨i, hi, h⟩)
      · exact ⟨i, hi, .inl h⟩
      · exact ⟨i, hi, .inr h⟩
    · rintro ⟨i, hi, h | h⟩
      · exact .inl ⟨i, hi, h⟩
      · exact .inr ⟨i, hi, h⟩
  | group a ih => simpa only [run, Matches] using ih
  | many a ih =>
    simp only [run, Matches]
    constructor
    · exact closure_reached (fun offsets j h => ih.1 h) _ _ _ (fun i hi => hi)
    · rintro ⟨i, hi, hij⟩
      induction hij with
      | refl => exact subset_closure _ _ _ hi
      | tail _ hstep ihs =>
        refine closure_closed (R := Matches ignoreCase t a) (n := t.length) (fun offsets i j hi h => ih.2 ⟨i, hi, h⟩)
          (fun offsets j h => ?_) (fun i j h => h.bounds.2) _ _ _ (fun i hi => hi) (fun i hi hf => absurd hi hf) ?_
          _ ihs _ hstep
        · obtain ⟨i, hi, h⟩ := ih.1 h
          rcases h.bounds.2 with rfl | hj
          · exact .inl hi
          · exact .inr hj
        · exact Nat.le_trans (List.length_filter_le _ _) (by simp)
  | optional a ih =>
    simp only [run, mem_union, ih, Matches]
    constructor
    · rintro (h | ⟨i, hi, h⟩)
      · exact ⟨j, h, .inl rfl⟩
      · exact ⟨i, hi, .inr h⟩
    · rintro ⟨i, hi, rfl | h⟩
      · exact .inl hi
      · exact .inr ⟨i, hi, h⟩
  | notAhead a ih =>
    simp only [run, List.mem_filter, List.isEmpty_iff, Matches, List.eq_nil_iff_forall_not_mem, ih,
      List.mem_singleton, exists_eq_left]
    constructor
    · rintro ⟨h, hn⟩
      exact ⟨j, h, rfl, hn⟩
    · rintro ⟨i, h, rfl, hn⟩
      exact ⟨h, hn⟩
  | notBehind a ih =>
    simp only [run, List.mem_filter, Matches, Bool.not_eq_true', List.contains_eq_mem, decide_eq_false_iff_not, ih,
      List.mem_range, not_exists, not_and, Nat.lt_succ_iff]
    constructor
    · rintro ⟨h, hn⟩
      exact ⟨j, h, rfl, hn⟩
    · rintro ⟨i, h, rfl, hn⟩
      exact ⟨h, hn⟩

/-- **The subject is accepted if the expression matches some beginning of it.** -/
theorem accepts_iff (r : Regex) :
    accepts ignoreCase r t = true ↔ ∃ j, Matches ignoreCase t (if ignoreCase then r.condensed else r) 0 j := by
  simp only [accepts, Bool.not_eq_true', List.isEmpty_eq_false_iff_exists_mem, mem_run, List.mem_singleton,
    exists_eq_left]

/-! ## Sequences and alternatives -/

theorem matches_sequence_cons (r : Regex) (rs : List Regex) {i j : Nat} :
    Matches ignoreCase t (sequence (r :: rs)) i j ↔
      ∃ k, Matches ignoreCase t r i k ∧ Matches ignoreCase t (sequence rs) k j := by
  cases rs with
  | nil => simp [sequence, Matches]
  | cons r' rs => rfl

theorem matches_sequence_append (rs rs' : List Regex) {i j : Nat} :
    Matches ignoreCase t (sequence (rs ++ rs')) i j ↔
      ∃ k, Matches ignoreCase t (sequence rs) i k ∧ Matches ignoreCase t (sequence rs') k j := by
  induction rs generalizing i with
  | nil => simp [sequence, Matches]
  | cons r rs ih =>
    simp only [List.cons_append, matches_sequence_cons, ih]
    constructor
    · rintro ⟨k, hr, l, hrs, h⟩
      exact ⟨l, ⟨k, hr, hrs⟩, h⟩
    · rintro ⟨l, ⟨k, hr, hrs⟩, h⟩
      exact ⟨k, hr, l, hrs, h⟩

theorem matches_alternatives {rs : List Regex} (hrs : rs ≠ []) {i j : Nat} :
    Matches ignoreCase t (alternatives rs) i j ↔ ∃ r ∈ rs, Matches ignoreCase t r i j := by
  induction rs with
  | nil => exact absurd rfl hrs
  | cons r rs ih =>
    cases rs with
    | nil => simp [alternatives]
    | cons r' rs =>
      have htail := ih (by simp)
      simp only [alternatives, Matches, htail, List.mem_cons, exists_eq_or_imp]

end Glob.Regex
