import Glob.Proofs.Pattern.Condensing
import Glob.Proofs.Pattern.Places
/-!
# The expression of nodes takes what the nodes take

`nodes_match` is the meeting point of the two sides: the expression of a well-formed sequence of nodes matches a part
of a candidate exactly where the nodes take it.  The static guards need the place to hold where the sequence begins
(`Place.Holds`); where it does, each of them says exactly that no dot may stand at the start of a component
(`guard_matches`).

Under leading dots the statement needs the wildcards to refuse separators, because a star that may cross separators is
guarded only where it begins.
-/
namespace Glob

open Regex (Matches Settled Variant Whole inItems inRange inRangeFolded inSet)
open Relation (ReflTransGen)

variable {o : Options} {x : Text}

/-! ## Characters -/

theorem sameChar_iff {p d : CodePoint} : Regex.sameChar (!o.caseSensitive) p d = true ↔ o.Same p d := by
  unfold Regex.sameChar Options.Same
  cases o.caseSensitive <;> simp

theorem variant_iff {items : List (CodePoint × CodePoint)} {d : CodePoint} :
    Variant (!o.caseSensitive) items d ↔ o.InRanges items d := by
  simp only [Variant, Options.InRanges, sameChar_iff]

namespace Expression

theorem char_matches {p : CodePoint} {i j : Nat} :
    Matches (!o.caseSensitive) x (.char p) i j ↔ j = i + 1 ∧ ∃ d, x[i]? = some d ∧ o.Same p d := by
  simp only [Matches, sameChar_iff]

theorem ofText_matches {text : Text} {i j : Nat} :
    Matches (!o.caseSensitive) x (Regex.ofText text) i j ↔ j = i + text.length ∧ o.Stands x text i := by
  induction text generalizing i with
  | nil => simp [Regex.ofText, Regex.sequence, Matches, Options.Stands]
  | cons p text ih =>
    have hcons : Matches (!o.caseSensitive) x (Regex.ofText (p :: text)) i j ↔
        ∃ k, Matches (!o.caseSensitive) x (.char p) i k ∧ Matches (!o.caseSensitive) x (Regex.ofText text) k j :=
      Regex.matches_sequence_cons _ _
    simp only [hcons, char_matches, ih, Options.Stands, List.length_cons]
    constructor
    · rintro ⟨_, ⟨rfl, hp⟩, rfl, hrest⟩
      exact ⟨by omega, hp, hrest⟩
    · rintro ⟨rfl, hp, hrest⟩
      exact ⟨_, ⟨rfl, hp⟩, by omega, hrest⟩

theorem notSeparator_matches {i j : Nat} :
    Matches (!o.caseSensitive) x notSeparator i j ↔ j = i + 1 ∧ ∃ d, x[i]? = some d ∧ d ≠ Mark.slash := by
  have hset : ∀ d, Regex.inSet (!o.caseSensitive) true [(Mark.slash, Mark.slash)] d = true ↔ d ≠ Mark.slash := by
    intro d
    rw [Regex.inSet, Regex.inItems_single, bne_iff_ne, ne_eq, sameChar_iff, Options.same_slash]
  simp only [notSeparator, Matches, hset]

theorem anyChar_matches {i j : Nat} :
    Matches (!o.caseSensitive) x (anyChar o) i j ↔ j = i + 1 ∧ ∃ d, x[i]? = some d ∧ o.Admits d := by
  unfold anyChar Options.Admits
  cases hsep : o.literalSeparator with
  | true => simp only [if_true, notSeparator_matches, true_implies]
  | false =>
    simp only [Bool.false_eq_true, if_false, Matches, false_implies, and_true]
    refine and_congr_right fun _ => ⟨fun h => ⟨x[i], List.getElem?_eq_getElem h⟩, ?_⟩
    rintro ⟨d, hd⟩
    exact (List.getElem?_eq_some_iff.1 hd).1

/-- Repeating a test of single characters takes any number of characters that pass it. -/
theorem many_single {r : Regex} {test : CodePoint → Prop}
    (hr : ∀ i j, Matches (!o.caseSensitive) x r i j ↔ j = i + 1 ∧ ∃ d, x[i]? = some d ∧ test d) {i j : Nat} :
    Matches (!o.caseSensitive) x (.many r) i j ↔ Between x test i j := by
  simp only [Matches]
  constructor
  · intro h
    induction h with
    | refl => exact ⟨Nat.le_refl _, fun k h1 h2 => by omega⟩
    | tail _ hstep ih =>
      obtain ⟨rfl, d, hd, htest⟩ := (hr _ _).1 hstep
      refine ⟨Nat.le_succ_of_le ih.1, fun k h1 h2 => ?_⟩
      rcases Nat.eq_or_lt_of_le (Nat.le_of_lt_succ h2) with rfl | hlt
      · exact ⟨d, hd, htest⟩
      · exact ih.2 k h1 hlt
  · rintro ⟨hle, hall⟩
    obtain ⟨n, rfl⟩ := Nat.exists_eq_add_of_le hle
    clear hle
    induction n with
    | zero => exact .refl
    | succ n ih =>
      exact .tail (ih fun k h1 h2 => hall k h1 (by omega))
        ((hr _ _).2 ⟨rfl, hall (i + n) (by omega) (by omega)⟩)

theorem star_matches {i j : Nat} :
    Matches (!o.caseSensitive) x (star o) i j ↔ Between x o.Admits i j :=
  many_single fun _ _ => anyChar_matches

/-! ## Guards -/

/-- No character that is not a separator comes before. -/
theorem notBehind_matches {i j : Nat} (hi : i ≤ x.length) :
    Matches (!o.caseSensitive) x (.notBehind notSeparator) i j ↔ j = i ∧ ComponentStart x i := by
  simp only [Matches, notSeparator_matches]
  refine and_congr_right fun _ => ?_
  constructor
  · intro h
    cases i with
    | zero => exact .inl rfl
    | succ k =>
      have hk : x[k]? = some x[k] := List.getElem?_eq_getElem hi
      refine (componentStart_succ hk).2 (Decidable.not_not.1 fun hne => ?_)
      exact h k (Nat.le_succ k) ⟨rfl, _, hk, hne⟩
  · rintro hstart k _ ⟨rfl, d, hd, hne⟩
    exact hne ((componentStart_succ hd).1 hstart)

theorem dot_matches {i : Nat} :
    (∀ k, ¬ Matches (!o.caseSensitive) x (.char Mark.dot) i k) ↔ x[i]? ≠ some Mark.dot := by
  simp only [char_matches, Options.same_dot]
  constructor
  · intro h hdot
    exact h _ ⟨rfl, _, hdot, rfl⟩
  · rintro h k ⟨_, d, hd, rfl⟩
    exact h hd

/-- **Where its place holds, a guard lets pass exactly the offsets where a wildcard may be applied.** -/
theorem guard_matches {place : Place} {i j : Nat} (hi : i ≤ x.length) (hp : place.Holds o x i) :
    Matches (!o.caseSensitive) x (guard o place) i j ↔ j = i ∧ o.Guarded x i := by
  unfold guard Options.Guarded
  cases hdot : o.literalLeadingDot with
  | false => simp [Matches]
  | true =>
    have hplace := hp hdot
    rw [if_pos rfl]
    cases place with
    | componentStart =>
      show (j = i ∧ ∀ k, ¬ Matches _ x (.char Mark.dot) i k) ↔ _
      rw [dot_matches]
      exact and_congr_right fun _ => ⟨fun h _ _ => h, fun h => h rfl hplace⟩
    | maybeStart =>
      show (j = i ∧ ∀ k, ¬ ∃ l, Matches _ x (.notBehind notSeparator) i l ∧ Matches _ x (.char Mark.dot) l k) ↔ _
      refine and_congr_right fun _ => ?_
      constructor
      · intro h _ hstart
        exact dot_matches.1 fun k hk => h k ⟨i, (notBehind_matches hi).2 ⟨rfl, hstart⟩, hk⟩
      · rintro h k ⟨l, hl, hk⟩
        obtain ⟨rfl, hstart⟩ := (notBehind_matches hi).1 hl
        exact dot_matches.2 (h rfl hstart) k hk
    | inside =>
      show j = i ↔ _
      exact ⟨fun h => ⟨h, fun _ => hplace⟩, fun h => h.1⟩

/-- A guarded test of the offset. -/
theorem guarded_matches {place : Place} {r : Regex} {test : Nat → Nat → Prop} {i j : Nat} (hi : i ≤ x.length)
    (hp : place.Holds o x i) (hr : ∀ {i j}, Matches (!o.caseSensitive) x r i j ↔ test i j) :
    Matches (!o.caseSensitive) x (.seq (guard o place) r) i j ↔ o.Guarded x i ∧ test i j := by
  simp only [Matches, guard_matches hi hp, hr]
  constructor
  · rintro ⟨_, ⟨rfl, hg⟩, h⟩
    exact ⟨hg, h⟩
  · rintro ⟨hg, h⟩
    exact ⟨i, ⟨rfl, hg⟩, h⟩

/-! ## Classes -/

/-- The separator has no case variant, so it is in a set only if it is in one of the ranges. -/
theorem inItems_slash {ignoreCase : Bool} {items : List (CodePoint × CodePoint)}
    (h : inItems ignoreCase items Mark.slash = true) :
    items.any (fun item => item.1 ≤ Mark.slash && Mark.slash ≤ item.2) = true := by
  have hsame : ∀ p, Text.sameClass p Mark.slash = true → p = Mark.slash := fun p hp =>
    (Options.same_slash (o := ⟨false, true, false⟩) p).1 (by rwa [Options.same_comm])
  have hfolded : ∀ item, inRangeFolded item Mark.slash = true → inRange item Mark.slash = true := by
    have hmates : Text.classMates Mark.slash = [Mark.slash] := by decide
    have hcapital : Text.firstCapital? Mark.slash = none := by decide
    have hlower : Text.lower Mark.slash = Mark.slash := by decide
    intro item hitem
    unfold inRangeFolded at hitem
    rw [hmates, hcapital, hlower] at hitem
    split at hitem
    · simpa using hitem
    · split at hitem
      · next heq =>
        have hitem : Mark.slash = item.1 := by simpa using hitem
        simp [inRange, ← heq, ← hitem]
      · simpa using hitem
  have hany : ∀ items : List (CodePoint × CodePoint), items.any (inRangeFolded · Mark.slash) = true →
      items.any (inRange · Mark.slash) = true := fun items h => by
    obtain ⟨item, hitem, hin⟩ := List.any_eq_true.1 h
    exact List.any_eq_true.2 ⟨item, hitem, hfolded item hin⟩
  show items.any (inRange · Mark.slash) = true
  cases ignoreCase with
  | false => exact h
  | true =>
    rcases items with _ | ⟨⟨lo, hi⟩, _ | ⟨item, items⟩⟩
    · exact h
    · refine hany _ ?_
      simp only [inItems] at h
      split at h
      · next heq =>
        obtain rfl := hsame lo h
        obtain rfl := heq
        decide
      · simpa using h
    · exact hany _ h

/-- With the separator behind its members, a settled set has the separator as well. -/
theorem inSet_append_slash {items : List (CodePoint × CodePoint)} (h : o.caseSensitive = false → Settled items)
    {d : CodePoint} :
    inSet (!o.caseSensitive) true (items ++ [(Mark.slash, Mark.slash)]) d = true ↔
      d ≠ Mark.slash ∧ inSet (!o.caseSensitive) true items d = true := by
  have hslash : inItems (!o.caseSensitive) [(Mark.slash, Mark.slash)] d = true ↔ d = Mark.slash := by
    rw [Regex.inItems_single, sameChar_iff, Options.same_slash]
  have happend : inItems (!o.caseSensitive) (items ++ [(Mark.slash, Mark.slash)]) d = true ↔
      inItems (!o.caseSensitive) items d = true ∨ d = Mark.slash := by
    rw [← hslash]
    cases hcase : o.caseSensitive with
    | true => simp [inItems]
    | false =>
      have hsettled : Settled [(Mark.slash, Mark.slash)] := by decide
      have happended := settled_append_slash (.inl (h hcase))
      rw [Bool.not_false, happended.inItems_iff, (h hcase).inItems_iff, hsettled.inItems_iff]
      simp only [List.mem_append, or_and_right, exists_or]
  simp only [inSet, bne_iff_ne, ne_eq, happend, not_or, and_comm]

/-- **A class refuses the separator under `literalSeparator` and otherwise takes what its set has.** -/
theorem settledSet_matches {negated : Bool} {items : List (CodePoint × CodePoint)}
    (h : negated = true → o.caseSensitive = false → Settled items) :
    Matches (!o.caseSensitive) x (set o negated items) i j ↔
      j = i + 1 ∧ ∃ d, x[i]? = some d ∧ o.Admits d ∧ inSet (!o.caseSensitive) negated items d = true := by
  unfold set Options.Admits
  cases negated with
  | true =>
    rw [if_pos rfl]
    cases o.literalSeparator with
    | false => simp [Matches]
    | true => simp only [if_true, Matches, inSet_append_slash (h rfl), true_implies]
  | false =>
    rw [if_neg Bool.false_ne_true]
    split
    · next hsep =>
      have hsep : o.literalSeparator = true := (Bool.and_eq_true_iff.1 hsep).1
      show (∃ k, (k = i ∧ ∀ l, ¬ Matches _ x (.char Mark.slash) i l) ∧
        j = k + 1 ∧ ∃ d, x[k]? = some d ∧ inSet _ false items d = true) ↔ _
      simp only [char_matches, Options.same_slash, hsep, true_implies]
      constructor
      · rintro ⟨_, ⟨rfl, hnot⟩, rfl, d, hd, hin⟩
        exact ⟨rfl, d, hd, fun hds => hnot _ ⟨rfl, d, hd, hds⟩, hin⟩
      · rintro ⟨rfl, d, hd, hds, hin⟩
        refine ⟨_, ⟨rfl, ?_⟩, rfl, d, hd, hin⟩
        rintro _ ⟨_, d', hd', hds'⟩
        rw [hd] at hd'
        exact hds (Option.some.inj hd' ▸ hds')
    · next hsep =>
      refine and_congr_right fun _ => exists_congr fun d => and_congr_right fun _ => ?_
      refine ⟨fun hin => ⟨?_, hin⟩, And.right⟩
      rintro hs rfl
      exact hsep (Bool.and_eq_true_iff.2 ⟨hs, inItems_slash (by simpa [inSet] using hin)⟩)

theorem inSet_iff {negated : Bool} {items : List (CodePoint × CodePoint)}
    (h : o.caseSensitive = false → (∀ item ∈ items, Whole item) ∨ ∃ p, items = [(p, p)]) {d : CodePoint} :
    inSet (!o.caseSensitive) negated items d = true ↔ (o.InRanges items d ↔ negated = false) := by
  rw [inSet, ← variant_iff, ← Regex.inItems_iff (by simpa using h)]
  cases negated <;> simp

/-- A class whose members stand for their case classes takes what is in one of its ranges, up to case. -/
theorem set_matches {inside negated : Bool} {items : List (CodePoint × CodePoint)}
    (h : o.caseSensitive = false →
      (∀ item ∈ items, Whole item) ∨ (inside = false ∧ negated = false ∧ ∃ p, items = [(p, p)])) {i j : Nat} :
    Matches (!o.caseSensitive) x (set o negated items) i j ↔
      j = i + 1 ∧ ∃ d, x[i]? = some d ∧ o.InClass negated items d := by
  have hsettled : negated = true → o.caseSensitive = false → Settled items := fun hneg hcase => by
    have hwhole := (h hcase).resolve_right fun h => Bool.noConfusion (hneg.symm.trans h.2.1)
    exact .inl fun item hitem => (hwhole item hitem).steady
  simp only [settledSet_matches hsettled, inSet_iff fun hcase => (h hcase).imp_right fun h => h.2.2, Options.InClass]

/-! ## Nodes -/

mutual

theorem node_matches (hsep : o.literalLeadingDot = true → o.literalSeparator = true) {inside : Bool} :
    (n : Node) → {place : Place} → n.WellFormed → (o.caseSensitive = false → n.Folds inside) → {i j : Nat} →
      i ≤ x.length → place.Holds o x i →
      (Matches (!o.caseSensitive) x (node o place n) i j ↔ n.Takes o x i j)
  | .literal _ _, _, _, _, _, _, _, _ => ofText_matches
  | .anyChar _, _, _, _, _, _, hi, hp => guarded_matches hi hp anyChar_matches
  | .star _, _, _, _, _, _, hi, hp => guarded_matches hi hp star_matches
  | .doubleStar _, _, hwf, _, _, _, _, _ => hwf.elim
  | .set _ _ _, _, _, hf, _, _, hi, hp => guarded_matches hi hp (set_matches hf)
  | .alternation bs _, place, hwf, hf, _, _, hi, hp => by
    obtain ⟨hne, hwf⟩ := hwf
    have hbs : branches o place bs ≠ [] := by
      cases bs with
      | nil => exact absurd rfl hne
      | cons b bs => exact List.cons_ne_nil _ _
    refine (Regex.matches_alternatives hbs).trans ?_
    exact branches_match hsep bs hwf hf hi hp

/-- **The expression of nodes takes what the nodes take.** -/
theorem nodes_match (hsep : o.literalLeadingDot = true → o.literalSeparator = true) {inside : Bool} :
    (ns : List Node) → {place : Place} → NodesWellFormed ns → (o.caseSensitive = false → NodesFold inside ns) →
      {i j : Nat} → i ≤ x.length → place.Holds o x i →
      (Matches (!o.caseSensitive) x (nodes o place ns) i j ↔ nodesTake o x ns i j)
  | [], _, _, _, _, _, _, _ => Iff.rfl
  | n :: ns, place, hwf, hf, i, j, hi, hp => by
    have hn : ∀ k, Matches (!o.caseSensitive) x (node o place n) i k ↔ n.Takes o x i k :=
      fun k => node_matches hsep n hwf.1 (fun hcase => (hf hcase).1) hi hp
    show (∃ k, Matches _ x (node o place n) i k ∧ Matches _ x (nodes o (n.placeAfter place) ns) k j) ↔ _
    refine exists_congr fun k => ?_
    rw [hn]
    refine and_congr_right fun htakes => ?_
    exact nodes_match hsep ns hwf.2 (fun hcase => (hf hcase).2) (((hn k).2 htakes).le_length hi)
      (node_holdsAfter hsep n hp htakes)

theorem branches_match (hsep : o.literalLeadingDot = true → o.literalSeparator = true) :
    (bs : List (List Node)) → {place : Place} → BranchesWellFormed bs → (o.caseSensitive = false → BranchesFold bs) →
      {i j : Nat} → i ≤ x.length → place.Holds o x i →
      ((∃ r ∈ branches o place bs, Matches (!o.caseSensitive) x r i j) ↔ branchesTake o x bs i j)
  | [], _, _, _, _, _, _, _ => by simp [branches, branchesTake]
  | b :: bs, place, hwf, hf, i, j, hi, hp => by
    have hb := nodes_match hsep (j := j) b hwf.1 (fun hcase => (hf hcase).1) hi hp
    have hbs := branches_match hsep (j := j) bs hwf.2 (fun hcase => (hf hcase).2) hi hp
    simp only [branches, List.mem_cons, or_and_right, exists_or, exists_eq_left, hb, hbs, branchesTake]

end

end Expression

end Glob
