import Glob.Text.CaseClass
import Glob.Text.Folding
import Mathlib.Data.List.Forall2
/-!
# Folding against case classes

There are two ways to ignore case: code points may be of one case class (`sameClass`), or have the same full case folding
(`foldPoint`).  Both are told by tables of runs, and most runs are in both tables.  Code points that fold to the same
single one are of one class (`sameClass_folded`), and those of one class fold to the same text, apart from the four of
`i`: U+0130 folds to two code points, and U+0131 only to itself (`foldPoint_eq_of_sameClass`).

A table has too many code points to ask what each of them goes to.  Runs that are in both tables are told apart from the
others by walking along both (`CaseRun.unshared`).  Sets of code points are numbers (`CaseRun.bits`), so that the kernel
finds in one step that two tables have no code point in common.
-/
namespace Glob.Text

/-! ## Runs in order -/

namespace CaseRun

variable {r q : CaseRun} {runs : List CaseRun} {c : CodePoint}

def ordered : List CaseRun → Bool
  | [] => true
  | r :: runs => Nat.ble r.first r.last && (runs.head?.all (fun q => Nat.blt r.last q.first) && ordered runs)

/-- The code points that the run moves its own to, as the run that moves them back. -/
def reversed (r : CaseRun) : CaseRun := ⟨r.image, r.image + (r.last - r.first), r.stride, r.first⟩

def points (r : CaseRun) : List CodePoint := List.range' r.first ((r.last - r.first) / r.stride + 1) r.stride

/-- A set of code points, as the bits of one number. -/
def bits (cs : List CodePoint) : Nat := cs.foldr (fun c n => 1 <<< c ||| n) 0

def sources (runs : List CaseRun) : Nat := runs.foldr (fun r n => bits r.points ||| n) 0

def images (runs : List CaseRun) : Nat := sources (runs.map reversed)

def same (r q : CaseRun) : Bool :=
  Nat.beq r.first q.first && (Nat.beq r.last q.last && (Nat.beq r.stride q.stride && Nat.beq r.image q.image))

/-- The runs that are not among the others, where both are in order. -/
def unshared : List CaseRun → List CaseRun → List CaseRun
  | [], _ => []
  | r :: runs, others =>
    let others := others.dropWhile fun q => Nat.blt q.first r.first
    if others.head?.any r.same then unshared runs others else r :: unshared runs others

theorem contains_iff :
    r.contains c = true ↔ r.first ≤ c ∧ c ≤ r.last ∧ (c - r.first) % r.stride = 0 := by
  simp only [contains, Bool.and_eq_true, decide_eq_true_eq, beq_iff_eq, and_assoc]

theorem ordered_cons (h : ordered (r :: runs) = true) :
    ordered runs = true ∧ r.first ≤ r.last ∧ ∀ q ∈ runs, r.last < q.first := by
  induction runs generalizing r with
  | nil =>
    simp only [ordered, Bool.and_eq_true, Nat.ble_eq] at h
    exact ⟨rfl, h.1, fun _ hq => absurd hq List.not_mem_nil⟩
  | cons next runs ih =>
    rw [ordered] at h
    simp only [Bool.and_eq_true, List.head?_cons, Option.all_some, Nat.ble_eq, Nat.blt_eq] at h
    obtain ⟨hr, hnext, htail⟩ := h
    obtain ⟨-, hle, hlt⟩ := ih htail
    refine ⟨htail, hr, List.forall_mem_cons.2 ⟨hnext, fun q hq => ?_⟩⟩
    exact Nat.lt_of_lt_of_le hnext (Nat.le_trans hle (Nat.le_of_lt (hlt q hq)))

theorem move_of_not_contains (h : ∀ r ∈ runs, r.contains c = false) : move runs c = c := by
  have hnone : runs.findSome? (·.moved? c) = none := by
    rw [List.findSome?_eq_none_iff]
    intro r hr
    rw [moved?, h r hr]
    rfl
  rw [move, hnone]
  rfl

/-- The run of a code point moves it. -/
theorem move_of_contains (ho : ordered runs = true) (hr : r ∈ runs) (hc : r.contains c = true) :
    move runs c = r.image + (c - r.first) := by
  induction runs with
  | nil => exact absurd hr List.not_mem_nil
  | cons q runs ih =>
    obtain ⟨htail, -, hlt⟩ := ordered_cons ho
    rcases List.mem_cons.1 hr with rfl | hr
    · rw [move, List.findSome?_cons, moved?, hc]
      rfl
    · have hq : q.contains c = false := by
        refine Bool.eq_false_iff.2 fun hqc => ?_
        have hlast := (contains_iff.1 hqc).2.1
        have hfirst := (contains_iff.1 hc).1
        exact Nat.lt_irrefl _ (Nat.lt_of_lt_of_le (hlt r hr) (Nat.le_trans hfirst hlast))
      rw [← ih htail hr, move, List.findSome?_cons, moved?, hq]
      rfl

/-- What a mapping does to a code point. -/
theorem move_cases (ho : ordered runs = true) (c : CodePoint) :
    move runs c = c ∨ ∃ r ∈ runs, r.contains c = true ∧ move runs c = r.image + (c - r.first) := by
  by_cases h : ∃ r ∈ runs, r.contains c = true
  · obtain ⟨r, hr, hc⟩ := h
    exact .inr ⟨r, hr, hc, move_of_contains ho hr hc⟩
  · exact .inl (move_of_not_contains fun r hr => Bool.eq_false_iff.2 fun hc => h ⟨r, hr, hc⟩)

theorem reversed_contains (hc : r.contains c = true) : r.reversed.contains (r.image + (c - r.first)) = true := by
  obtain ⟨hfirst, hlast, hstride⟩ := contains_iff.1 hc
  rw [contains_iff]
  simp only [reversed]
  refine ⟨Nat.le_add_right _ _, Nat.add_le_add_left (Nat.sub_le_sub_right hlast _) _, ?_⟩
  rw [Nat.add_sub_cancel_left]
  exact hstride

theorem reversed_image (hc : r.contains c = true) :
    r.reversed.image + (r.image + (c - r.first) - r.reversed.first) = c := by
  obtain ⟨hfirst, -, -⟩ := contains_iff.1 hc
  simp only [reversed]
  rw [Nat.add_sub_cancel_left, Nat.add_sub_cancel' hfirst]

theorem eq_of_same (h : r.same q = true) : r = q := by
  simp only [same, Bool.and_eq_true, Nat.beq_eq] at h
  obtain ⟨r₁, r₂, r₃, r₄⟩ := r
  obtain ⟨q₁, q₂, q₃, q₄⟩ := q
  obtain ⟨rfl, rfl, rfl, rfl⟩ := h
  rfl

theorem mem_of_any_same (h : runs.any r.same = true) : r ∈ runs := by
  obtain ⟨q, hq, hsame⟩ := List.any_eq_true.1 h
  rwa [eq_of_same hsame]

theorem mem_or_unshared {others : List CaseRun} (hr : r ∈ runs) : r ∈ others ∨ r ∈ unshared runs others := by
  induction runs generalizing others with
  | nil => exact absurd hr List.not_mem_nil
  | cons q runs ih =>
    have hothers : ∀ {x}, x ∈ others.dropWhile (fun x => Nat.blt x.first q.first) → x ∈ others := fun hx =>
      (List.dropWhile_suffix _).subset hx
    rw [unshared]
    split
    · next hhead =>
      rcases List.mem_cons.1 hr with rfl | hr
      · obtain ⟨x, hx, hsame⟩ := (Option.any_eq_true _ _).1 hhead
        rw [eq_of_same hsame]
        exact .inl (hothers (List.mem_of_head? hx))
      · exact (ih hr).imp_left hothers
    · rcases List.mem_cons.1 hr with rfl | hr
      · exact .inr List.mem_cons_self
      · exact (ih hr).imp hothers (List.mem_cons_of_mem _)

/-! ## Code points as bits -/

theorem mem_points (hc : r.contains c = true) : c ∈ r.points := by
  obtain ⟨hfirst, hlast, hstride⟩ := contains_iff.1 hc
  refine List.mem_range'.2 ⟨(c - r.first) / r.stride, Nat.lt_succ_of_le ?_, ?_⟩
  · exact Nat.div_le_div_right (Nat.sub_le_sub_right hlast _)
  · rw [Nat.mul_div_cancel' (Nat.dvd_of_mod_eq_zero hstride), Nat.add_sub_cancel' hfirst]

theorem testBit_bits {cs : List CodePoint} (hc : c ∈ cs) : (bits cs).testBit c = true := by
  induction cs with
  | nil => exact absurd hc List.not_mem_nil
  | cons d cs ih =>
    rw [bits, List.foldr_cons, Nat.testBit_or, Bool.or_eq_true]
    rcases List.mem_cons.1 hc with rfl | hc
    · exact .inl (by rw [Nat.one_shiftLeft, Nat.testBit_two_pow_self])
    · exact .inr (ih hc)

theorem testBit_sources (hr : r ∈ runs) (hc : r.contains c = true) : (sources runs).testBit c = true := by
  induction runs with
  | nil => exact absurd hr List.not_mem_nil
  | cons q runs ih =>
    rw [sources, List.foldr_cons, Nat.testBit_or, Bool.or_eq_true]
    rcases List.mem_cons.1 hr with rfl | hr
    · exact .inl (testBit_bits (mem_points hc))
    · exact .inr (ih hr)

theorem testBit_images (hr : r ∈ runs) (hc : r.contains c = true) :
    (images runs).testBit (r.image + (c - r.first)) = true :=
  testBit_sources (List.mem_map_of_mem hr) (reversed_contains hc)

theorem not_testBit {m n : Nat} (h : m &&& n = 0) (hm : m.testBit c = true) : n.testBit c = false := by
  have hand : (m &&& n).testBit c = false := by rw [h, Nat.zero_testBit]
  rwa [Nat.testBit_and, hm, Bool.true_and] at hand

/-- Runs leave alone what is not among their code points. -/
theorem move_of_not_source (h : (sources runs).testBit c = false) : move runs c = c :=
  move_of_not_contains fun _ hr => Bool.eq_false_iff.2 fun hc => Bool.eq_false_iff.1 h (testBit_sources hr hc)

end CaseRun

/-! ## The tables -/

def expanding : Nat := CaseRun.bits (expansions.map Prod.fst)

/-- It is a run of the lower case the other way round, or it has lower-case letters that it moves to their kin. -/
def keepsClass (r : CaseRun) : Bool :=
  lowerRuns.any r.reversed.same ||
    (Nat.beq (CaseRun.sources [r] &&& CaseRun.sources lowerRuns) 0 &&
      (Nat.beq (CaseRun.images [r] &&& CaseRun.sources lowerRuns) 0 &&
        r.points.all fun c => (kin c).contains (r.image + (c - r.first))))

/-- It is a run of the folding the other way round, or its code points fold as those it moves them to; U+0130, the
capital I with a dot, is let off. -/
def keepsFolding (r : CaseRun) : Bool :=
  foldRuns.any r.reversed.same || r.points.all fun c => c == 0x130 || foldPoint c == foldPoint (r.image + (c - r.first))

/-- The code points fold to the same text; U+0131, the small i without a dot, is let off. -/
def foldAlike (s : List CodePoint) : Bool :=
  s.all fun l => l == 0x131 || s.all fun m => m == 0x131 || foldPoint l == foldPoint m

-- one theorem for everything that is read off the tables: the kernel has to walk them, and it does so once
theorem tables_checked :
    (CaseRun.ordered lowerRuns = true ∧ CaseRun.images lowerRuns &&& CaseRun.sources lowerRuns = 0 ∧
      (CaseRun.unshared lowerRuns foldRuns).all keepsFolding = true) ∧
    (CaseRun.ordered foldRuns = true ∧ CaseRun.images foldRuns &&& CaseRun.sources foldRuns = 0 ∧
      (CaseRun.unshared foldRuns lowerRuns).all keepsClass = true) ∧
    (CaseRun.sources foldRuns &&& expanding = 0 ∧ CaseRun.images foldRuns &&& expanding = 0) ∧
    relatives.all foldAlike = true ∧ lowerPreimage 0x131 = [0x131] := by
  decide +kernel

theorem lowerRuns_ordered : CaseRun.ordered lowerRuns = true := tables_checked.1.1

/-- No lower case has another one. -/
theorem lowerRuns_settled : CaseRun.images lowerRuns &&& CaseRun.sources lowerRuns = 0 := tables_checked.1.2.1

theorem lowerRuns_keepFolding : (CaseRun.unshared lowerRuns foldRuns).all keepsFolding = true := tables_checked.1.2.2

theorem foldRuns_ordered : CaseRun.ordered foldRuns = true := tables_checked.2.1.1

theorem foldRuns_settled : CaseRun.images foldRuns &&& CaseRun.sources foldRuns = 0 := tables_checked.2.1.2.1

theorem foldRuns_keepClass : (CaseRun.unshared foldRuns lowerRuns).all keepsClass = true := tables_checked.2.1.2.2

theorem sources_not_expanding : CaseRun.sources foldRuns &&& expanding = 0 := tables_checked.2.2.1.1

theorem images_not_expanding : CaseRun.images foldRuns &&& expanding = 0 := tables_checked.2.2.1.2

theorem relatives_foldAlike : relatives.all foldAlike = true := tables_checked.2.2.2.1

theorem lowerPreimage_dotless : lowerPreimage 0x131 = [0x131] := tables_checked.2.2.2.2

/-! ## Lower case -/

section Classes

variable {r : CaseRun} {a b c : CodePoint}

theorem lower_of_contains (hr : r ∈ lowerRuns) (hc : r.contains c = true) : lower c = r.image + (c - r.first) :=
  CaseRun.move_of_contains lowerRuns_ordered hr hc

theorem lower_lower (c : CodePoint) : lower (lower c) = lower c := by
  rcases CaseRun.move_cases lowerRuns_ordered c with hsame | ⟨r, hr, hc, hmove⟩
  · exact congrArg lower hsame
  · rw [show lower c = _ from hmove]
    exact CaseRun.move_of_not_source (CaseRun.not_testBit lowerRuns_settled (CaseRun.testBit_images hr hc))

theorem sameClass_of_lower (h : lower a = lower b) : sameClass a b = true := by
  rw [sameClass, ← h, List.contains_iff_mem]
  exact mem_kin_self (lower a)

theorem sameClass_trans (hab : sameClass a b = true) (hbc : sameClass b c = true) : sameClass a c = true := by
  simp only [sameClass, List.contains_iff_mem] at hab hbc ⊢
  rwa [← kin_eq_of_mem hab]

/-! ## Folding -/

theorem lookup_eq_none (h : expanding.testBit c = false) : expansions.lookup c = none := by
  refine List.lookup_eq_none_iff.2 fun e he => ?_
  have hne : c ≠ e.1 := by
    rintro rfl
    rw [expanding, CaseRun.testBit_bits (List.mem_map_of_mem he)] at h
    cases h
  simpa using hne

theorem foldPoint_of_contains (hr : r ∈ foldRuns) (hc : r.contains c = true) :
    foldPoint c = [r.image + (c - r.first)] := by
  have hexpands := CaseRun.not_testBit sources_not_expanding (CaseRun.testBit_sources hr hc)
  rw [foldPoint, lookup_eq_none hexpands, CaseRun.move_of_contains foldRuns_ordered hr hc]

theorem foldPoint_image (hr : r ∈ foldRuns) (hc : r.contains c = true) :
    foldPoint (r.image + (c - r.first)) = [r.image + (c - r.first)] := by
  have himage := CaseRun.testBit_images hr hc
  have hexpands := CaseRun.not_testBit images_not_expanding himage
  have hsettled := CaseRun.not_testBit foldRuns_settled himage
  rw [foldPoint, lookup_eq_none hexpands, CaseRun.move_of_not_source hsettled]

/-- **A code point is of one class with the single one it folds to.** -/
theorem sameClass_folded (c : CodePoint) : sameClass c (CaseRun.move foldRuns c) = true := by
  rcases CaseRun.move_cases foldRuns_ordered c with hsame | ⟨r, hr, hc, hmove⟩
  · rw [hsame]
    exact sameClass_self c
  · rw [hmove]
    rcases CaseRun.mem_or_unshared hr with hlower | hunshared
    · rw [← lower_of_contains hlower hc]
      exact sameClass_of_lower (lower_lower c).symm
    · have hkeeps := List.all_eq_true.1 foldRuns_keepClass r hunshared
      simp only [keepsClass, Bool.or_eq_true, Bool.and_eq_true, Nat.beq_eq] at hkeeps
      rcases hkeeps with hraised | ⟨hfree, hfree', hkin⟩
      · have hback := lower_of_contains (CaseRun.mem_of_any_same hraised) (CaseRun.reversed_contains hc)
        rw [CaseRun.reversed_image hc] at hback
        refine sameClass_of_lower ?_
        rw [← lower_lower (r.image + (c - r.first)), hback]
      · have hc' := CaseRun.not_testBit hfree (CaseRun.testBit_sources List.mem_cons_self hc)
        have himage := CaseRun.not_testBit hfree' (CaseRun.testBit_images List.mem_cons_self hc)
        rw [sameClass, lower, CaseRun.move_of_not_source hc', lower, CaseRun.move_of_not_source himage]
        exact List.all_eq_true.1 hkin c (CaseRun.mem_points hc)

/-- A code point folds as its lower case does, apart from U+0130. -/
theorem foldPoint_lower (hne : c ≠ 0x130) : foldPoint (lower c) = foldPoint c := by
  rcases CaseRun.move_cases lowerRuns_ordered c with hsame | ⟨r, hr, hc, hmove⟩
  · exact congrArg foldPoint hsame
  · rw [show lower c = _ from hmove]
    rcases CaseRun.mem_or_unshared hr with hfolds | hunshared
    · rw [foldPoint_image hfolds hc, foldPoint_of_contains hfolds hc]
    · have hkeeps := List.all_eq_true.1 lowerRuns_keepFolding r hunshared
      rw [keepsFolding, Bool.or_eq_true] at hkeeps
      rcases hkeeps with hback | hpoints
      · have hmem := CaseRun.mem_of_any_same hback
        have himage := CaseRun.reversed_contains hc
        have hsettled := foldPoint_image hmem himage
        rw [CaseRun.reversed_image hc] at hsettled
        rw [foldPoint_of_contains hmem himage, CaseRun.reversed_image hc, hsettled]
      · have hpoint := List.all_eq_true.1 hpoints c (CaseRun.mem_points hc)
        rw [Bool.or_eq_true, beq_iff_eq, beq_iff_eq] at hpoint
        exact (hpoint.resolve_left hne).symm

theorem eq_of_lower_dotless (h : lower c = 0x131) : c = 0x131 := by
  have hmem : c ∈ lowerPreimage 0x131 := (CaseRun.mem_preimage_iff lowerRuns c 0x131).2 h
  rw [lowerPreimage_dotless] at hmem
  exact List.mem_singleton.1 hmem

/-- **Code points of one class fold to the same text**, apart from the I with a dot and the i without one. -/
theorem foldPoint_eq_of_sameClass (h : sameClass a b = true) (ha : a ≠ 0x130 ∧ a ≠ 0x131) (hb : b ≠ 0x130 ∧ b ≠ 0x131) :
    foldPoint a = foldPoint b := by
  rw [← foldPoint_lower ha.1, ← foldPoint_lower hb.1]
  rw [sameClass, List.contains_iff_mem, kin] at h
  cases hfind : relatives.find? (·.contains (lower a)) with
  | none =>
    rw [hfind] at h
    rw [List.mem_singleton.1 h]
  | some s =>
    rw [hfind] at h
    have hmem : lower a ∈ s := by simpa using List.find?_some hfind
    have hfold := List.all_eq_true.1 relatives_foldAlike s (List.mem_of_find?_eq_some hfind)
    have hpair := List.all_eq_true.1 hfold _ hmem
    rw [Bool.or_eq_true, beq_iff_eq] at hpair
    have hpair := List.all_eq_true.1 (hpair.resolve_left fun hdotless => ha.2 (eq_of_lower_dotless hdotless)) _ h
    rw [Bool.or_eq_true, beq_iff_eq, beq_iff_eq] at hpair
    exact hpair.resolve_left fun hdotless => hb.2 (eq_of_lower_dotless hdotless)

end Classes

/-! ## Texts -/

variable {t u : Text}

/-- Texts of the same classes fold to the same text, where no I has a dot and no i has none. -/
theorem fold_eq_of_sameClass (h : List.Forall₂ (fun a b => sameClass a b = true) t u)
    (ht : ∀ c ∈ t, c ≠ 0x130 ∧ c ≠ 0x131) (hu : ∀ c ∈ u, c ≠ 0x130 ∧ c ≠ 0x131) : fold t = fold u := by
  induction h with
  | nil => rfl
  | cons hab _ ih =>
    obtain ⟨ha, ht⟩ := List.forall_mem_cons.1 ht
    obtain ⟨hb, hu⟩ := List.forall_mem_cons.1 hu
    rw [fold, List.flatMap_cons, foldPoint_eq_of_sameClass hab ha hb, fold, List.flatMap_cons]
    exact congrArg _ (ih ht hu)

theorem fold_eq_map (h : ∀ c ∈ t, expansions.lookup c = none) : fold t = t.map (CaseRun.move foldRuns) := by
  rw [fold, List.map_eq_flatMap]
  refine List.flatMap_congr fun c hc => ?_
  rw [foldPoint, h c hc]

/-- Texts that fold to the same text are of the same classes, where no code point folds to several. -/
theorem sameClass_of_fold_eq (h : fold t = fold u) (ht : ∀ c ∈ t, expansions.lookup c = none)
    (hu : ∀ c ∈ u, expansions.lookup c = none) : List.Forall₂ (fun a b => sameClass a b = true) t u := by
  rw [fold_eq_map ht, fold_eq_map hu, ← List.forall₂_eq_eq_eq, List.forall₂_map_left_iff,
    List.forall₂_map_right_iff] at h
  refine h.imp fun a b hab => ?_
  have hb := sameClass_folded b
  rw [← hab, sameClass_comm] at hb
  exact sameClass_trans (sameClass_folded a) hb

end Glob.Text
