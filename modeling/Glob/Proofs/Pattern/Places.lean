import Glob.Pattern.Place
import Glob.Proofs.Pattern.Reference
/-!
# Static places hold

`Node.placeAfter` follows a place through a tree without looking at a candidate.  `Place.Holds` is what a place says
about an offset of a candidate: `componentStart`, that the offset is the start of a component; `inside`, that it is
none, or that at least no dot stands there; `maybeStart` says nothing.  `nodes_holdsAfter` carries this through a
sequence of nodes, however they are nested: whatever nodes take from an offset where the place before them holds, the
place after them holds where they end.

The second half of `inside` is for stars, which may take nothing: a star that is applied at the start of a component
is guarded there, so what comes next needs no guard of its own.
-/
namespace Glob

variable {o : Options} {x : Text}

/-- The place after a sequence is the one that its second part leads to from where the first ends. -/
theorem placeAfter_append (place : Place) (ns ns' : List Node) :
    placeAfter place (ns ++ ns') = placeAfter (placeAfter place ns) ns' := by
  induction ns generalizing place with
  | nil => rfl
  | cons n ns ih => exact ih _

/-! ## The separator and the dot have no case variants -/

theorem Options.same_alone {m : CodePoint} (hm : Text.classMates m = [m]) (d : CodePoint) : o.Same m d ↔ d = m := by
  unfold Options.Same
  split
  · exact eq_comm
  · rw [← Text.mem_classMates_iff, hm, List.mem_singleton]

theorem Options.same_slash (d : CodePoint) : o.Same Mark.slash d ↔ d = Mark.slash := same_alone (by decide) d

theorem Options.same_dot (d : CodePoint) : o.Same Mark.dot d ↔ d = Mark.dot := same_alone (by decide) d

theorem Options.same_comm {p d : CodePoint} : o.Same p d ↔ o.Same d p := by
  unfold Options.Same
  split
  · exact eq_comm
  · rw [Text.sameClass_comm]

/-! ## Component starts -/

theorem componentStart_succ {d : CodePoint} {k : Nat} (h : x[k]? = some d) :
    ComponentStart x (k + 1) ↔ d = Mark.slash := by
  unfold ComponentStart
  constructor
  · rintro (h0 | ⟨k', hk, hslash⟩)
    · omega
    · obtain rfl : k = k' := by omega
      rw [h] at hslash
      exact Option.some.inj hslash
  · rintro rfl
    exact .inr ⟨k, rfl, h⟩

/-- What the place says about an offset of the candidate. -/
def Place.Holds (o : Options) (x : Text) (place : Place) (i : Nat) : Prop :=
  o.literalLeadingDot = true →
    match place with
    | .componentStart => ComponentStart x i
    | .maybeStart => True
    | .inside => ComponentStart x i → x[i]? ≠ some Mark.dot

/-- Behind a character that is no separator, the place is inside. -/
theorem Place.holds_inside {d : CodePoint} {k : Nat} (h : x[k]? = some d) (hd : d ≠ Mark.slash) :
    Place.inside.Holds o x (k + 1) :=
  fun _ hstart => absurd ((componentStart_succ h).1 hstart) hd

/-- What a branch leaves is left by the alternation, if it is true of a place that says nothing. -/
theorem Place.of_join {P : Place → Prop} {ends : List Place} {place : Place} (hmaybe : P .maybeStart)
    (hmem : place ∈ ends) (h : P place) : P (Place.join ends) := by
  unfold Place.join
  split
  · next hall =>
    have : place = .componentStart := by simpa using List.all_eq_true.1 hall.2 place hmem
    exact this ▸ h
  · split
    · exact hmaybe
    · next hany =>
      have : place = .inside := by
        simp only [List.any_eq_true, not_exists, not_and, bne_iff_ne, not_not] at hany
        exact hany place hmem
      exact this ▸ h

/-- The place after an alternation holds where the place after the branch that was taken does. -/
theorem Place.holds_join {ends : List Place} {place : Place} {i : Nat} (hmem : place ∈ ends)
    (h : place.Holds o x i) : (Place.join ends).Holds o x i :=
  Place.of_join (P := fun place => place.Holds o x i) (fun _ => trivial) hmem h

/-! ## Literals -/

/-- The last character of a text that stands somewhere stands just before its end. -/
theorem stands_getLast {text : Text} {l : CodePoint} {i : Nat} (h : o.Stands x text i)
    (hl : text.getLast? = some l) : ∃ k d, i + text.length = k + 1 ∧ x[k]? = some d ∧ o.Same l d := by
  induction text generalizing i with
  | nil => cases hl
  | cons p text ih =>
    obtain ⟨⟨d, hd, hsame⟩, hrest⟩ := h
    cases text with
    | nil =>
      obtain rfl : p = l := by simpa using hl
      exact ⟨i, d, rfl, hd, hsame⟩
    | cons q text =>
      obtain ⟨k, d, hk, hd, hsame⟩ := ih hrest (by simpa using hl)
      refine ⟨k, d, ?_, hd, hsame⟩
      rw [List.length_cons]
      omega

theorem literal_holdsAfter {text : Text} {span : Span} {place : Place} {i : Nat} (hp : place.Holds o x i)
    (h : o.Stands x text i) : ((Node.literal text span).placeAfter place).Holds o x (i + text.length) := by
  unfold Node.placeAfter
  split
  · next hnone =>
    rw [List.getLast?_eq_none_iff.1 hnone]
    exact hp
  · next l hl =>
    obtain ⟨k, d, hk, hd, hsame⟩ := stands_getLast h hl
    rw [hk]
    split
    · next hslash =>
      rw [hslash, Options.same_slash] at hsame
      exact fun _ => (componentStart_succ hd).2 hsame
    · next hslash =>
      refine Place.holds_inside hd fun hds => hslash ?_
      rw [hds] at hsame
      exact (Options.same_slash l).1 (Options.same_comm.1 hsame)

/-! ## Nodes -/

/-- A star that takes nothing was guarded where it was applied; one that takes something ends behind a character that
is no separator. -/
theorem star_holdsAfter (hsep : o.literalLeadingDot = true → o.literalSeparator = true) {i j : Nat}
    (hg : o.Guarded x i) (h : Between x o.Admits i j) : Place.inside.Holds o x j := by
  intro hdot
  rcases Nat.eq_or_lt_of_le h.1 with rfl | hlt
  · exact hg hdot
  · obtain ⟨k, rfl⟩ : ∃ k, j = k + 1 := ⟨j - 1, by omega⟩
    obtain ⟨d, hd, hadmits⟩ := h.2 k (by omega) (by omega)
    exact Place.holds_inside hd (hadmits (hsep hdot)) hdot

theorem single_holdsAfter (hsep : o.literalLeadingDot = true → o.literalSeparator = true) {i j : Nat}
    (h : j = i + 1 ∧ ∃ d, x[i]? = some d ∧ o.Admits d) : Place.inside.Holds o x j := by
  intro hdot
  obtain ⟨rfl, d, hd, hadmits⟩ := h
  exact Place.holds_inside hd (hadmits (hsep hdot)) hdot

mutual

theorem node_holdsAfter (hsep : o.literalLeadingDot = true → o.literalSeparator = true) :
    (n : Node) → {place : Place} → {i j : Nat} → place.Holds o x i → n.Takes o x i j →
      (n.placeAfter place).Holds o x j
  | .literal _ _, _, _, _, hp, h => h.1 ▸ literal_holdsAfter hp h.2
  | .anyChar _, _, _, _, _, h => single_holdsAfter hsep h.2
  | .star _, _, _, _, _, h => star_holdsAfter hsep h.1 h.2
  | .doubleStar _, _, _, _, _, h => star_holdsAfter hsep h.1 h.2
  | .set _ _ _, _, _, _, _, h => by
    obtain ⟨_, hj, d, hd, hclass⟩ := h
    exact single_holdsAfter hsep ⟨hj, d, hd, hclass.1⟩
  | .alternation bs _, _, _, _, hp, h => by
    obtain ⟨place', hmem, hp'⟩ := branches_holdAfter hsep bs hp h
    exact Place.holds_join hmem hp'

/-- **The place after nodes holds where they end.** -/
theorem nodes_holdsAfter (hsep : o.literalLeadingDot = true → o.literalSeparator = true) :
    (ns : List Node) → {place : Place} → {i j : Nat} → place.Holds o x i → nodesTake o x ns i j →
      (placeAfter place ns).Holds o x j
  | [], _, _, _, hp, h => by
    obtain rfl := h
    exact hp
  | n :: ns, _, _, _, hp, ⟨_, hn, hns⟩ => nodes_holdsAfter hsep ns (node_holdsAfter hsep n hp hn) hns

theorem branches_holdAfter (hsep : o.literalLeadingDot = true → o.literalSeparator = true) :
    (bs : List (List Node)) → {place : Place} → {i j : Nat} → place.Holds o x i → branchesTake o x bs i j →
      ∃ place' ∈ branchPlaces place bs, place'.Holds o x j
  | [], _, _, _, _, h => h.elim
  | b :: _, _, _, _, hp, .inl h => ⟨_, List.mem_cons_self, nodes_holdsAfter hsep b hp h⟩
  | _ :: bs, _, _, _, hp, .inr h => by
    obtain ⟨place', hmem, hp'⟩ := branches_holdAfter hsep bs hp h
    exact ⟨place', List.mem_cons_of_mem _ hmem, hp'⟩

end

end Glob
