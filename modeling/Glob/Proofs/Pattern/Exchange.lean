import Glob.Proofs.Pattern.Comparison
/-!
# Places that may be exchanged

A place decides which guards an expression has, but two places that both hold where it begins give it the same meaning
(`nodes_exchange`): each guard then refuses exactly a dot at the start of a component.  For this, what a place says has
to hold further on as well, wherever the expression has come to (`nodes_hold`).

Unlike what is said of trees in terms of what they take, this asks nothing of the members of classes.
-/
namespace Glob

open Regex (Matches inSet inItems inRangeFolded)

variable {o : Options} {x : Text} {place place' : Place} {i j : Nat}

namespace Expression

theorem nodes_append (ns ns' : List Node) :
    Matches (!o.caseSensitive) x (nodes o place (ns ++ ns')) i j ↔
      ∃ k, Matches (!o.caseSensitive) x (nodes o place ns) i k ∧
        Matches (!o.caseSensitive) x (nodes o (placeAfter place ns) ns') k j := by
  induction ns generalizing place i with
  | nil => simp [nodes, placeAfter, Matches]
  | cons n ns ih =>
    simp only [List.cons_append, nodes, placeAfter, Matches, ih]
    constructor
    · rintro ⟨k, hn, l, hns, hns'⟩
      exact ⟨l, ⟨k, hn, hns⟩, hns'⟩
    · rintro ⟨l, ⟨k, hn, hns⟩, hns'⟩
      exact ⟨k, hn, l, hns, hns'⟩

@[simp] theorem nodes_single (n : Node) :
    Matches (!o.caseSensitive) x (nodes o place [n]) i j ↔ Matches (!o.caseSensitive) x (node o place n) i j := by
  simp [nodes, Matches]

/-! ## Places hold further on -/

/-- A class takes one character, and no separator under `literalSeparator`. -/
theorem set_single {negated : Bool} {items : List (CodePoint × CodePoint)}
    (h : Matches (!o.caseSensitive) x (set o negated items) i j) : j = i + 1 ∧ ∃ d, x[i]? = some d ∧ o.Admits d := by
  cases negated with
  | false =>
    obtain ⟨hj, d, hd, hadmits, -⟩ := (settledSet_matches fun hneg => absurd hneg Bool.false_ne_true).1 h
    exact ⟨hj, d, hd, hadmits⟩
  | true =>
    unfold set at h
    rw [if_pos rfl] at h
    obtain ⟨hj, d, hd, hin⟩ := h
    refine ⟨hj, d, hd, ?_⟩
    rintro hsep rfl
    rw [hsep, if_pos rfl] at hin
    have hmember : inItems (!o.caseSensitive) (items ++ [(Mark.slash, Mark.slash)]) Mark.slash = true := by
      match !o.caseSensitive, items with
      | false, items => simp [inItems, Regex.inRange]
      | true, [] => simp [inItems, Text.sameClass_self]
      | true, _ :: items =>
        have hself : inRangeFolded (Mark.slash, Mark.slash) Mark.slash = true := by decide
        cases items <;> simp [inItems, hself]
    simp [inSet, hmember] at hin

mutual

theorem node_holds (hsep : o.literalLeadingDot = true → o.literalSeparator = true) :
    (n : Node) → n.WellFormed → {place : Place} → {i j : Nat} → i ≤ x.length → place.Holds o x i →
      Matches (!o.caseSensitive) x (node o place n) i j → (n.placeAfter place).Holds o x j
  | .literal _ _, _, _, _, _, _, hp, h => by
    obtain ⟨rfl, hstands⟩ := ofText_matches.1 h
    exact literal_holdsAfter hp hstands
  | .anyChar _, _, _, _, _, hi, hp, h => single_holdsAfter hsep ((guarded_matches hi hp anyChar_matches).1 h).2
  | .star _, _, _, _, _, hi, hp, h => by
    obtain ⟨hguarded, hbetween⟩ := (guarded_matches hi hp star_matches).1 h
    exact star_holdsAfter hsep hguarded hbetween
  | .doubleStar _, hwf, _, _, _, _, _, _ => hwf.elim
  | .set _ _ _, _, _, _, _, hi, hp, h => by
    obtain ⟨_, hset⟩ := (guarded_matches hi hp Iff.rfl).1 h
    exact single_holdsAfter hsep (set_single hset)
  | .alternation bs _, hwf, place, i, j, hi, hp, h => by
    obtain ⟨b, hb, hmatch⟩ := (alternation_matches.1 h).resolve_left fun h => hwf.1 h.1
    obtain ⟨place', hmem, hholds⟩ := branches_hold hsep bs hwf.2 hi hp ⟨b, hb, hmatch⟩
    exact Place.holds_join hmem hholds

/-- **The place after nodes holds where their expression ends.** -/
theorem nodes_hold (hsep : o.literalLeadingDot = true → o.literalSeparator = true) :
    (ns : List Node) → NodesWellFormed ns → {place : Place} → {i j : Nat} → i ≤ x.length → place.Holds o x i →
      Matches (!o.caseSensitive) x (nodes o place ns) i j → (placeAfter place ns).Holds o x j
  | [], _, _, _, _, _, hp, h => by
    obtain rfl := h
    exact hp
  | n :: ns, hwf, _, _, _, hi, hp, ⟨_, hn, hns⟩ =>
    nodes_hold hsep ns hwf.2 (hn.le_length hi) (node_holds hsep n hwf.1 hi hp hn) hns

theorem branches_hold (hsep : o.literalLeadingDot = true → o.literalSeparator = true) :
    (bs : List (List Node)) → BranchesWellFormed bs → {place : Place} → {i j : Nat} → i ≤ x.length →
      place.Holds o x i → (∃ b ∈ bs, Matches (!o.caseSensitive) x (nodes o place b) i j) →
      ∃ place' ∈ branchPlaces place bs, place'.Holds o x j
  | [], _, _, _, _, _, _, ⟨_, hb, _⟩ => absurd hb List.not_mem_nil
  | b :: bs, hwf, place, i, j, hi, hp, ⟨b', hb', h⟩ => by
    rcases List.mem_cons.1 hb' with heq | hb'
    · exact ⟨_, List.mem_cons_self, nodes_hold hsep b hwf.1 hi hp (heq ▸ h)⟩
    · obtain ⟨place', hmem, hholds⟩ := branches_hold hsep bs hwf.2 hi hp ⟨b', hb', h⟩
      exact ⟨place', List.mem_cons_of_mem _ hmem, hholds⟩

end

/-! ## Exchanging a place -/

theorem guarded_exchange {r : Regex} (hi : i ≤ x.length) (hp : place.Holds o x i) (hp' : place'.Holds o x i)
    (h : Matches (!o.caseSensitive) x (.seq (guard o place) r) i j) :
    Matches (!o.caseSensitive) x (.seq (guard o place') r) i j :=
  (guarded_matches hi hp' Iff.rfl).2 ((guarded_matches hi hp Iff.rfl).1 h)

mutual

theorem node_exchange (hsep : o.literalLeadingDot = true → o.literalSeparator = true) :
    (n : Node) → n.WellFormed → {place place' : Place} → {i j : Nat} → i ≤ x.length → place.Holds o x i →
      place'.Holds o x i → Matches (!o.caseSensitive) x (node o place n) i j →
      Matches (!o.caseSensitive) x (node o place' n) i j
  | .literal _ _, _, _, _, _, _, _, _, _, h => h
  | .anyChar _, _, _, _, _, _, hi, hp, hp', h => guarded_exchange hi hp hp' h
  | .star _, _, _, _, _, _, hi, hp, hp', h => guarded_exchange hi hp hp' h
  | .doubleStar _, hwf, _, _, _, _, _, _, _, _ => hwf.elim
  | .set _ _ _, _, _, _, _, _, hi, hp, hp', h => guarded_exchange hi hp hp' h
  | .alternation bs _, hwf, _, _, _, _, hi, hp, hp', h => by
    obtain ⟨b, hb, hmatch⟩ := (alternation_matches.1 h).resolve_left fun h => hwf.1 h.1
    exact alternation_matches.2 (.inr (branches_exchange hsep bs hwf.2 hi hp hp' ⟨b, hb, hmatch⟩))

/-- **Two places that hold give nodes the same meaning.** -/
theorem nodes_exchange (hsep : o.literalLeadingDot = true → o.literalSeparator = true) :
    (ns : List Node) → NodesWellFormed ns → {place place' : Place} → {i j : Nat} → i ≤ x.length → place.Holds o x i →
      place'.Holds o x i → Matches (!o.caseSensitive) x (nodes o place ns) i j →
      Matches (!o.caseSensitive) x (nodes o place' ns) i j
  | [], _, _, _, _, _, _, _, _, h => h
  | n :: ns, hwf, _, _, _, _, hi, hp, hp', ⟨k, hn, hns⟩ => by
    have hn' := node_exchange hsep n hwf.1 hi hp hp' hn
    refine ⟨k, hn', nodes_exchange hsep ns hwf.2 (hn.le_length hi) ?_ ?_ hns⟩
    · exact node_holds hsep n hwf.1 hi hp hn
    · exact node_holds hsep n hwf.1 hi hp' hn'

theorem branches_exchange (hsep : o.literalLeadingDot = true → o.literalSeparator = true) :
    (bs : List (List Node)) → BranchesWellFormed bs → {place place' : Place} → {i j : Nat} → i ≤ x.length →
      place.Holds o x i → place'.Holds o x i → (∃ b ∈ bs, Matches (!o.caseSensitive) x (nodes o place b) i j) →
      ∃ b ∈ bs, Matches (!o.caseSensitive) x (nodes o place' b) i j
  | [], _, _, _, _, _, _, _, _, ⟨_, hb, _⟩ => absurd hb List.not_mem_nil
  | b :: bs, hwf, place, place', i, j, hi, hp, hp', ⟨b', hb', h⟩ => by
    rcases List.mem_cons.1 hb' with heq | hb'
    · exact ⟨b, List.mem_cons_self, nodes_exchange hsep b hwf.1 hi hp hp' (heq ▸ h)⟩
    · obtain ⟨b', hb', h⟩ := branches_exchange hsep bs hwf.2 hi hp hp' ⟨b', hb', h⟩
      exact ⟨b', List.mem_cons_of_mem _ hb', h⟩

end

end Expression

end Glob
