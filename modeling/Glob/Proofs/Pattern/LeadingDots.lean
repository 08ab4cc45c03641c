import Glob.Proofs.Literal
/-!
# Where a component may start with a dot

Under `literalLeadingDot` a dot at the start of a component is to be matched by a dot of the pattern only.  Where
wildcards may cross separators, this is not so: a star is guarded where it is applied and nowhere else, so `*` takes
`a/.b` (`dotted_component_accepted`).

What the guards do give is told by a reading that notes which offsets of the candidate wildcards and classes take, the
wild ones (`LieWild`).  If no literal text of the pattern has a dot, a component that starts with a dot comes right
behind a separator that is wild (`dots_behind_wildcards`).  So the candidate itself does not start with a dot, nor does
a component behind a separator of the pattern or in what a `**` takes; and where wildcards refuse separators, no
component does (`no_dotted_component`).

The invariant is `Excused`: at an offset no component starts with a dot, or a wild offset is before it.  The place
`inside` stands for it (`Place.HoldsWild`), and all that wildcards take keeps it, because each offset they take excuses
the next one.
-/
namespace Glob

open Regex (Matches)

variable {o : Options} {x : Text}

/-! ## Reading with the wild offsets -/

mutual

/-- The node takes the candidate from offset `i` up to `j`, of which its wildcards and classes take the offsets `wild`.
The rule for dots is not asked for. -/
def Node.TakesWild (o : Options) (x : Text) : Node → Nat → Nat → List Nat → Prop
  | .literal text _, i, j, wild => (j = i + text.length ∧ o.Stands x text i) ∧ wild = []
  | .anyChar _, i, j, wild => (j = i + 1 ∧ ∃ d, x[i]? = some d ∧ o.Admits d) ∧ wild = [i]
  | .star _, i, j, wild => Between x o.Admits i j ∧ wild = List.range' i (j - i)
  | .doubleStar _, i, j, wild => Between x o.Admits i j ∧ wild = List.range' i (j - i)
  | .set negated items _, i, j, wild => (j = i + 1 ∧ ∃ d, x[i]? = some d ∧ o.InClass negated items d) ∧ wild = [i]
  | .alternation branches _, i, j, wild => branchesTakeWild o x branches i j wild

/-- The nodes take the candidate one after the other, and the offsets `wild` are those that any of them notes. -/
def nodesTakeWild (o : Options) (x : Text) : List Node → Nat → Nat → List Nat → Prop
  | [], i, j, wild => j = i ∧ wild = []
  | n :: ns, i, j, wild =>
    ∃ k first others, wild = first ++ others ∧ n.TakesWild o x i k first ∧ nodesTakeWild o x ns k j others

def branchesTakeWild (o : Options) (x : Text) : List (List Node) → Nat → Nat → List Nat → Prop
  | [], _, _, _ => False
  | b :: bs, i, j, wild => nodesTakeWild o x b i j wild ∨ branchesTakeWild o x bs i j wild

end

/-- What the segments pick along the candidate, as `Lie` has it, where their wildcards and classes take the offsets
`wild`.  What a `**` takes is not among them. -/
def LieWild (o : Options) (x : Text) : List Segment → Nat → List Text → List Nat → Prop
  | [], _, ws, wild => ws = [] ∧ wild = []
  | s :: rest, i, ws, wild =>
    if s.isRecursive then
      ∃ components ws', ws = components ++ ws' ∧ (∀ w ∈ components, o.Component w) ∧
        LieWild o x rest (offsetAfter components i) ws' wild
    else
      ∃ w ws' first others, ws = w :: ws' ∧ wild = first ++ others ∧
        nodesTakeWild o x s.nodes i (i + w.length) first ∧ LieWild o x rest (i + w.length + 1) ws' others

/-! ## Patterns without dots -/

mutual

def Node.Undotted : Node → Prop
  | .literal text _ => Mark.dot ∉ text
  | .anyChar _ | .star _ | .doubleStar _ | .set _ _ _ => True
  | .alternation branches _ => BranchesUndotted branches

def NodesUndotted : List Node → Prop
  | [] => True
  | n :: ns => n.Undotted ∧ NodesUndotted ns

def BranchesUndotted : List (List Node) → Prop
  | [] => True
  | b :: bs => NodesUndotted b ∧ BranchesUndotted bs

end

/-- No literal text of the pattern has a dot. -/
def Pattern.Undotted (p : Pattern) : Prop := ∀ s ∈ p.segments, NodesUndotted s.nodes

/-! ## Excused offsets -/

/-- If a component starts with a dot at offset `i`, a wild offset is right before it. -/
def Excused (x : Text) (wild : List Nat) (i : Nat) : Prop :=
  ComponentStart x i → x[i]? = some Mark.dot → ∃ k ∈ wild, i = k + 1

variable {seen wild : List Nat} {i j : Nat}

theorem Excused.weaken (h : Excused x wild i) {wild' : List Nat} (hsub : wild ⊆ wild') : Excused x wild' i := by
  intro hstart hdot
  obtain ⟨k, hk, rfl⟩ := h hstart hdot
  exact ⟨k, hsub hk, rfl⟩

theorem excused_of_ne (h : ComponentStart x i → x[i]? ≠ some Mark.dot) : Excused x wild i :=
  fun hstart hdot => absurd hdot (h hstart)

/-- What a wildcard takes is excused, if the offset is where it is applied. -/
theorem excused_range (hij : i ≤ j) (h : Excused x seen i) {k : Nat} (hik : i ≤ k) (hkj : k ≤ j) :
    Excused x (seen ++ List.range' i (j - i)) k := by
  rcases Nat.eq_or_lt_of_le hik with rfl | hlt
  · exact h.weaken (List.subset_append_left _ _)
  · refine fun _ _ => ⟨k - 1, List.mem_append_right _ ?_, by omega⟩
    rw [List.mem_range'_1]
    omega

theorem slash_before (h : ComponentStart x (i + 1)) : x[i]? = some Mark.slash := by
  obtain h0 | ⟨k, hk, hslash⟩ := h
  · cases h0
  · obtain rfl : i = k := Nat.succ.inj hk
    exact hslash

/-- What the place says about an offset of the candidate, of which the offsets `wild` have been taken by wildcards and
classes. -/
def Place.HoldsWild (x : Text) (wild : List Nat) (place : Place) (i : Nat) : Prop :=
  match place with
  | .componentStart => ComponentStart x i
  | .maybeStart => True
  | .inside => Excused x wild i

theorem Place.Holds.holdsWild {place : Place} (hdot : o.literalLeadingDot = true) (h : place.Holds o x i) :
    place.HoldsWild x wild i := by
  cases place with
  | componentStart => exact h hdot
  | maybeStart => trivial
  | inside => exact excused_of_ne (h hdot)

/-! ## Literals -/

theorem stands_undotted {text : Text} (h : o.Stands x text i) (hdot : Mark.dot ∉ text) {k : Nat} (hik : i ≤ k)
    (hk : k < i + text.length) : x[k]? ≠ some Mark.dot := by
  induction text generalizing i with
  | nil => exact absurd hk (Nat.not_lt.2 hik)
  | cons p text ih =>
    obtain ⟨⟨d, hd, hsame⟩, hrest⟩ := h
    obtain ⟨hp, htext⟩ := List.ne_and_not_mem_of_not_mem_cons hdot
    rcases Nat.eq_or_lt_of_le hik with rfl | hlt
    · rw [hd]
      rintro ⟨rfl⟩
      exact hp ((Options.same_dot p).1 (Options.same_comm.1 hsame)).symm
    · rw [List.length_cons] at hk
      exact ih hrest htext hlt (by omega)

/-- An empty literal leaves its place, any other one a place that says something of its own. -/
theorem literal_holdsWild (hdot : o.literalLeadingDot = true) {text : Text} {span : Span} {place : Place}
    (hp : place.HoldsWild x seen i) (h : o.Stands x text i) :
    ((Node.literal text span).placeAfter place).HoldsWild x seen (i + text.length) := by
  cases text with
  | nil => exact hp
  | cons p text =>
    have hmaybe : Place.maybeStart.Holds o x i := fun _ => trivial
    have hsame : (Node.literal (p :: text) span).placeAfter place =
        (Node.literal (p :: text) span).placeAfter .maybeStart := by
      simp [Node.placeAfter, List.getLast?_cons]
    rw [hsame]
    exact (literal_holdsAfter hmaybe h).holdsWild hdot

namespace Expression

/-! ## Nodes -/

/-- A guard lets pass excused offsets only. -/
theorem excused_of_guard (hdot : o.literalLeadingDot = true) {place : Place} (hi : i ≤ x.length)
    (hp : place.HoldsWild x seen i) (h : Matches (!o.caseSensitive) x (guard o place) i j) :
    j = i ∧ Excused x seen i := by
  unfold guard at h
  rw [if_pos hdot] at h
  cases place with
  | componentStart =>
    obtain ⟨hj, hnot⟩ : j = i ∧ ∀ k, ¬ Matches _ x (.char Mark.dot) i k := h
    exact ⟨hj, excused_of_ne fun _ => dot_matches.1 hnot⟩
  | maybeStart =>
    obtain ⟨hj, hnot⟩ : j = i ∧
      ∀ k, ¬ ∃ l, Matches _ x (.notBehind notSeparator) i l ∧ Matches _ x (.char Mark.dot) l k := h
    refine ⟨hj, excused_of_ne fun hstart => (dot_matches (o := o)).1 fun k hk => ?_⟩
    exact hnot k ⟨i, (notBehind_matches hi).2 ⟨rfl, hstart⟩, hk⟩
  | inside => exact ⟨h, hp⟩

/-- What a guarded wildcard or class takes is excused, and so is where it ends. -/
theorem excused_of_guarded (hdot : o.literalLeadingDot = true) {place : Place} {r : Regex} (hi : i ≤ x.length)
    (hp : place.HoldsWild x seen i) (h : Matches (!o.caseSensitive) x (.seq (guard o place) r) i j) :
    Matches (!o.caseSensitive) x r i j ∧
      ∀ k, i ≤ k → k ≤ j → Excused x (seen ++ List.range' i (j - i)) k := by
  obtain ⟨k, hguard, hr⟩ : ∃ k, Matches _ x (guard o place) i k ∧ Matches _ x r k j := h
  obtain ⟨rfl, hexcused⟩ := excused_of_guard hdot hi hp hguard
  exact ⟨hr, fun _ => excused_range hr.le hexcused⟩

mutual

/-- **What a node's expression matches, the node takes**, all of it excused, and the place after it holds. -/
theorem node_excused (hdot : o.literalLeadingDot = true) {inside : Bool} :
    (n : Node) → {place : Place} → n.WellFormed → n.Undotted → (o.caseSensitive = false → n.Folds inside) →
      {seen : List Nat} → {i j : Nat} → i ≤ x.length → place.HoldsWild x seen i →
      Matches (!o.caseSensitive) x (node o place n) i j →
      ∃ wild, n.TakesWild o x i j wild ∧ (∀ k, i ≤ k → k < j → Excused x (seen ++ wild) k) ∧
        (n.placeAfter place).HoldsWild x (seen ++ wild) j
  | .literal text _, _, _, hu, _, seen, i, j, _, hp, h => by
    obtain ⟨rfl, hstands⟩ := ofText_matches.1 h
    refine ⟨[], ⟨⟨rfl, hstands⟩, rfl⟩, fun k hik hk => ?_, ?_⟩
    · exact excused_of_ne fun _ => stands_undotted hstands hu hik hk
    · rw [List.append_nil]
      exact literal_holdsWild hdot hp hstands
  | .anyChar _, _, _, _, _, seen, i, j, hi, hp, h => by
    obtain ⟨hr, hexcused⟩ := excused_of_guarded hdot hi hp h
    obtain ⟨rfl, hd⟩ := anyChar_matches.1 hr
    rw [Nat.add_sub_cancel_left] at hexcused
    exact ⟨[i], ⟨⟨rfl, hd⟩, rfl⟩, fun k hik hk => hexcused k hik (Nat.le_of_lt hk),
      hexcused _ (Nat.le_succ i) (Nat.le_refl _)⟩
  | .star _, _, _, _, _, seen, i, j, hi, hp, h => by
    obtain ⟨hr, hexcused⟩ := excused_of_guarded hdot hi hp h
    exact ⟨_, ⟨star_matches.1 hr, rfl⟩, fun k hik hk => hexcused k hik (Nat.le_of_lt hk),
      hexcused _ hr.le (Nat.le_refl _)⟩
  | .doubleStar _, _, hwf, _, _, _, _, _, _, _, _ => hwf.elim
  | .set negated items _, _, _, _, hf, seen, i, j, hi, hp, h => by
    obtain ⟨hr, hexcused⟩ := excused_of_guarded hdot hi hp h
    obtain ⟨rfl, hd⟩ := (set_matches hf).1 hr
    rw [Nat.add_sub_cancel_left] at hexcused
    exact ⟨[i], ⟨⟨rfl, hd⟩, rfl⟩, fun k hik hk => hexcused k hik (Nat.le_of_lt hk),
      hexcused _ (Nat.le_succ i) (Nat.le_refl _)⟩
  | .alternation bs _, place, hwf, hu, hf, seen, i, j, hi, hp, h => by
    obtain ⟨hne, hwf⟩ := hwf
    have hbs : branches o place bs ≠ [] := by
      cases bs with
      | nil => exact absurd rfl hne
      | cons b bs => exact List.cons_ne_nil _ _
    obtain ⟨wild, htakes, hexcused, place', hmem, hp'⟩ :=
      branches_excused hdot bs hwf hu hf hi hp ((Regex.matches_alternatives hbs).1 h)
    exact ⟨wild, htakes, hexcused, Place.of_join (P := fun p => p.HoldsWild x (seen ++ wild) j) trivial hmem hp'⟩

theorem nodes_excused (hdot : o.literalLeadingDot = true) {inside : Bool} :
    (ns : List Node) → {place : Place} → NodesWellFormed ns → NodesUndotted ns →
      (o.caseSensitive = false → NodesFold inside ns) → {seen : List Nat} → {i j : Nat} → i ≤ x.length →
      place.HoldsWild x seen i → Matches (!o.caseSensitive) x (nodes o place ns) i j →
      ∃ wild, nodesTakeWild o x ns i j wild ∧ (∀ k, i ≤ k → k < j → Excused x (seen ++ wild) k) ∧
        (placeAfter place ns).HoldsWild x (seen ++ wild) j
  | [], _, _, _, _, seen, i, j, _, hp, h => by
    obtain rfl : j = i := h
    refine ⟨[], ⟨rfl, rfl⟩, fun k hik hk => by omega, ?_⟩
    rwa [List.append_nil]
  | n :: ns, place, hwf, hu, hf, seen, i, j, hi, hp, h => by
    obtain ⟨k, hn, hns⟩ :
      ∃ k, Matches _ x (node o place n) i k ∧ Matches _ x (nodes o (n.placeAfter place) ns) k j := h
    obtain ⟨first, htake, hfirst, hp'⟩ := node_excused hdot n hwf.1 hu.1 (fun hcase => (hf hcase).1) hi hp hn
    obtain ⟨others, htakes, hothers, hp''⟩ :=
      nodes_excused hdot ns hwf.2 hu.2 (fun hcase => (hf hcase).2) (hn.le_length hi) hp' hns
    rw [List.append_assoc] at hp'' hothers
    -- what the first node took stays excused when more offsets are wild
    refine ⟨first ++ others, ⟨k, first, others, rfl, htake, htakes⟩, fun l hil hlj => ?_, hp''⟩
    rcases Nat.lt_or_ge l k with hlk | hkl
    · rw [← List.append_assoc]
      exact (hfirst l hil hlk).weaken (List.subset_append_left _ _)
    · exact hothers l hkl hlj

theorem branches_excused (hdot : o.literalLeadingDot = true) :
    (bs : List (List Node)) → {place : Place} → BranchesWellFormed bs → BranchesUndotted bs →
      (o.caseSensitive = false → BranchesFold bs) → {seen : List Nat} → {i j : Nat} → i ≤ x.length →
      place.HoldsWild x seen i → (∃ r ∈ branches o place bs, Matches (!o.caseSensitive) x r i j) →
      ∃ wild, branchesTakeWild o x bs i j wild ∧ (∀ k, i ≤ k → k < j → Excused x (seen ++ wild) k) ∧
        ∃ place' ∈ branchPlaces place bs, place'.HoldsWild x (seen ++ wild) j
  | [], _, _, _, _, _, _, _, _, _, ⟨_, hr, _⟩ => absurd hr List.not_mem_nil
  | b :: bs, place, hwf, hu, hf, seen, i, j, hi, hp, ⟨r, hr, h⟩ => by
    rcases List.mem_cons.1 hr with rfl | hr
    · obtain ⟨wild, htakes, hexcused, hp'⟩ :=
        nodes_excused hdot b hwf.1 hu.1 (fun hcase => (hf hcase).1) hi hp h
      exact ⟨wild, .inl htakes, hexcused, _, List.mem_cons_self, hp'⟩
    · obtain ⟨wild, htakes, hexcused, place', hmem, hp'⟩ :=
        branches_excused hdot bs hwf.2 hu.2 (fun hcase => (hf hcase).2) hi hp ⟨r, hr, h⟩
      exact ⟨wild, .inr htakes, hexcused, place', List.mem_cons_of_mem _ hmem, hp'⟩

end

/-! ## Components -/

/-- A component that a `**` takes has no component start with a dot in it, up to where it ends. -/
theorem component_excused (hdot : o.literalLeadingDot = true) {w t : Text} (hw : o.Component w)
    (h : x.drop i = w ++ t) (ht : t.head? ≠ some Mark.dot) {k : Nat} (hik : i ≤ k) (hk : k ≤ i + w.length) :
    Excused x wild k := by
  refine excused_of_ne fun hstart => ?_
  obtain ⟨n, rfl⟩ := Nat.exists_eq_add_of_le hik
  cases n with
  | zero =>
    rw [Nat.add_zero, ← List.head?_drop, h]
    cases w with
    | nil => exact ht
    | cons d w => exact hw.2 hdot
  | succ n =>
    -- the character before is one of the component, which has no separator
    have hn : n < w.length := by omega
    have hd : x[i + n]? = some w[n] := by
      rw [← List.getElem?_drop, h, List.getElem?_append_left hn, List.getElem?_eq_getElem hn]
    have hslash : w[n] = Mark.slash := (componentStart_succ hd).1 hstart
    exact absurd (hslash ▸ List.getElem_mem hn) hw.1

theorem components_excused (hdot : o.literalLeadingDot = true) {ws : List Text} {t : Text}
    (hws : ∀ w ∈ ws, o.Component w) (h : x.drop i = ws.flatMap (· ++ [Mark.slash]) ++ t) {k : Nat} (hik : i ≤ k)
    (hk : k < offsetAfter ws i) : Excused x wild k := by
  induction ws generalizing i with
  | nil => exact absurd hk (by simpa [offsetAfter] using hik)
  | cons w ws ih =>
    obtain ⟨hw, hws⟩ := List.forall_mem_cons.1 hws
    have hpart : x.drop i = w ++ Mark.slash :: (ws.flatMap (· ++ [Mark.slash]) ++ t) := by
      simpa using h
    rcases Nat.lt_or_ge k (i + w.length + 1) with hlt | hge
    · exact component_excused hdot hw hpart (by simp) hik (by omega)
    · have hnext : x.drop (i + w.length + 1) = ws.flatMap (· ++ [Mark.slash]) ++ t := by
        rw [← List.drop_drop, drop_of_drop_eq hpart]
        rfl
      refine ih hws hnext hge ?_
      simp only [offsetAfter, List.flatMap_cons, List.length_append, List.length_singleton] at hk ⊢
      omega

/-- Nor has what is left of the candidate, if it is such components, each behind a separator. -/
theorem moreComponents_excused (hdot : o.literalLeadingDot = true) {ws : List Text} (hws : ∀ w ∈ ws, o.Component w)
    (h : x.drop i = ws.flatMap (Mark.slash :: ·)) {k : Nat} (hik : i ≤ k) : Excused x wild k := by
  rcases Nat.eq_or_lt_of_le hik with rfl | hlt
  · exact excused_of_ne fun _ => no_dot_of_drop h
  induction ws generalizing i with
  | nil =>
    have hlen : x.length ≤ k := Nat.le_trans (List.drop_eq_nil_iff.1 h) hik
    exact excused_of_ne fun _ => by simp [List.getElem?_eq_none hlen]
  | cons w ws ih =>
    obtain ⟨hw, hws⟩ := List.forall_mem_cons.1 hws
    have hpart : x.drop (i + 1) = w ++ ws.flatMap (Mark.slash :: ·) := drop_of_drop_eq (w := [Mark.slash]) h
    have hnext := drop_of_drop_eq hpart
    have hhead : (ws.flatMap (Mark.slash :: ·)).head? ≠ some Mark.dot := by
      rw [← hnext, List.head?_drop]
      exact no_dot_of_drop hnext
    rcases Nat.lt_or_ge (i + 1 + w.length) k with hgt | hle
    · exact ih hws hnext (Nat.le_of_lt hgt) hgt
    · exact component_excused hdot hw hpart hhead hlt hle

/-! ## Segments -/

/-- What is left of the candidate is what the segments pick, each piece behind a separator, and is excused. -/
def ExcusedBehind (o : Options) (x : Text) (ss : List Segment) (i : Nat) : Prop :=
  ∃ ws wild, LieWild o x ss (i + 1) ws wild ∧ x.drop i = ws.flatMap (Mark.slash :: ·) ∧
    ∀ k, i ≤ k → Excused x wild k

/-- What is left of the candidate is what the segments pick, with separators between, and is excused. -/
def ExcusedJoined (o : Options) (x : Text) (ss : List Segment) (i : Nat) : Prop :=
  ∃ ws wild, ws ≠ [] ∧ LieWild o x ss i ws wild ∧ x.drop i = Text.join [Mark.slash] ws ∧
    ∀ k, i ≤ k → Excused x wild k

/-- Segments without dots in their literal text, and what their expression needs from them. -/
structure Dotless (o : Options) (ss : List Segment) : Prop where
  wellFormed : ∀ s ∈ ss, s.WellFormed
  separate : ss.IsChain Segment.Separate
  folds : o.caseSensitive = false → ∀ s ∈ ss, NodesFold false s.nodes
  undotted : ∀ s ∈ ss, NodesUndotted s.nodes

variable {s : Segment} {rest : List Segment} {underRoot : Bool}

theorem Dotless.tail (h : Dotless o (s :: rest)) : Dotless o rest where
  wellFormed a ha := h.wellFormed a (List.mem_cons_of_mem _ ha)
  separate := h.separate.tail
  folds hcase a ha := h.folds hcase a (List.mem_cons_of_mem _ ha)
  undotted a ha := h.undotted a (List.mem_cons_of_mem _ ha)

/-- A plain segment and those behind it, where the separator before it has been taken. -/
theorem plain_excused (hdot : o.literalLeadingDot = true) (h : Dotless o (s :: rest)) (hrec : s.isRecursive = false)
    (hrest : ∀ {k}, k ≤ x.length → Matches (!o.caseSensitive) x (segmentsAfter o true underRoot rest) k x.length →
      ExcusedBehind o x rest k) (hi : i ≤ x.length) (hstart : ComponentStart x i)
    (hmatch : Matches (!o.caseSensitive) x (.seq (segment o s) (segmentsAfter o true underRoot rest)) i x.length) :
    ExcusedJoined o x (s :: rest) i := by
  obtain ⟨k, hk, hmore⟩ :
    ∃ k, Matches _ x (segment o s) i k ∧ Matches _ x (segmentsAfter o true underRoot rest) k x.length := hmatch
  have hle := hk.le_length hi
  have hplace : Place.componentStart.HoldsWild x [] i := hstart
  obtain ⟨first, htakes, hfirst, -⟩ := nodes_excused hdot s.nodes
    ((h.wellFormed s List.mem_cons_self).resolve_left (by simp [hrec])) (h.undotted s List.mem_cons_self)
    (fun hcase => h.folds hcase s List.mem_cons_self) hi hplace hk
  obtain ⟨ws, others, hlie, hdrop, hothers⟩ := hrest hle hmore
  obtain ⟨w, rfl, hw⟩ := exists_part hk.le hle
  refine ⟨w :: ws, first ++ others, List.cons_ne_nil _ _, ?_, by rw [hw, hdrop, Text.join_cons], fun l hil => ?_⟩
  · rw [LieWild, if_neg (by simp [hrec])]
    exact ⟨w, ws, first, others, rfl, rfl, htakes, hlie⟩
  · rcases Nat.lt_or_ge l (i + w.length) with hlt | hge
    · exact (hfirst l hil hlt).weaken (List.subset_append_left _ _)
    · exact (hothers l hge).weaken (List.subset_append_right _ _)

/-- A `**` and the segments behind it, where the separator before it has been taken. -/
theorem recursive_excused (hdot : o.literalLeadingDot = true) (hrec : s.isRecursive = true)
    (hrest : ∀ {k}, k ≤ x.length → ComponentStart x k →
      Matches (!o.caseSensitive) x (segmentsAfter o false false rest) k x.length → ExcusedJoined o x rest k)
    (hi : i ≤ x.length) (hstart : ComponentStart x i)
    (hmatch : Matches (!o.caseSensitive) x (.seq (components o) (segmentsAfter o false false rest)) i x.length) :
    ExcusedJoined o x (s :: rest) i := by
  obtain ⟨k, hk, hmore⟩ :
    ∃ k, Matches _ x (components o) i k ∧ Matches _ x (segmentsAfter o false false rest) k x.length := hmatch
  obtain ⟨components, hcomps, rfl, hdrop⟩ := (components_match hi).1 hk
  obtain ⟨ws, wild, hne, hlie, hjoin, hexcused⟩ :=
    hrest (hk.le_length hi) (componentStart_offsetAfter hstart hdrop) hmore
  refine ⟨components ++ ws, wild, by simp [hne], ?_, by rw [hdrop, hjoin, Text.join_append _ hne], fun l hil => ?_⟩
  · rw [LieWild, if_pos hrec]
    exact ⟨components, ws, rfl, hcomps, hlie⟩
  · rcases Nat.lt_or_ge l (offsetAfter components i) with hlt | hge
    · exact components_excused hdot hcomps hdrop hil hlt
    · exact hexcused l hge

/-- A `**` that is left alone takes any path. -/
theorem anyPath_excused (hdot : o.literalLeadingDot = true) (hrec : s.isRecursive = true) (hi : i ≤ x.length)
    (hmatch : Matches (!o.caseSensitive) x (anyPath o) i x.length) : ExcusedJoined o x [s] i := by
  obtain ⟨ws, hne, hws, hjoin⟩ := (anyPath_matches hi).1 hmatch
  refine ⟨ws, [], hne, ?_, hjoin, fun k hik => ?_⟩
  · rw [LieWild, if_pos hrec]
    exact ⟨ws, [], by simp, hws, rfl, rfl⟩
  · obtain ⟨w, ws, rfl⟩ := List.exists_cons_of_ne_nil hne
    obtain ⟨hw, hws⟩ := List.forall_mem_cons.1 hws
    rw [Text.join_cons] at hjoin
    have hnext := drop_of_drop_eq hjoin
    rcases Nat.lt_or_ge (i + w.length) k with hgt | hle
    · exact moreComponents_excused hdot hws hnext (Nat.le_of_lt hgt)
    · refine component_excused hdot hw hjoin ?_ hik hle
      rw [← hnext, List.head?_drop]
      exact no_dot_of_drop hnext

theorem due_excused {ss : List Segment} {r : Regex}
    (hr : i + 1 ≤ x.length → ComponentStart x (i + 1) → Matches (!o.caseSensitive) x r (i + 1) x.length →
      ExcusedJoined o x ss (i + 1)) (hi : i ≤ x.length)
    (hmatch : Matches (!o.caseSensitive) x (.seq separator r) i x.length) : ExcusedBehind o x ss i := by
  obtain ⟨k, hsep, hmore⟩ : ∃ k, Matches _ x separator i k ∧ Matches _ x r k x.length := hmatch
  have hle := hsep.le_length hi
  obtain ⟨rfl, hslash⟩ := separator_matches.1 hsep
  obtain ⟨ws, wild, hne, hlie, hjoin, hexcused⟩ := hr hle (componentStart_behind hslash) hmore
  refine ⟨ws, wild, hlie, by rw [join_behind hne, ← hjoin, drop_eq_cons_iff.2 hslash], fun k hik => ?_⟩
  rcases Nat.eq_or_lt_of_le hik with rfl | hlt
  · exact excused_of_ne fun _ => by simp [hslash, Mark.slash, Mark.dot]
  · exact hexcused k hlt

/-- **The segments behind others**: with a separator due, and, behind a `**`, with the separator taken. -/
theorem segmentsAfter_excused (hdot : o.literalLeadingDot = true) {ss : List Segment} (h : Dotless o ss) :
    (∀ {underRoot i}, i ≤ x.length →
      Matches (!o.caseSensitive) x (segmentsAfter o true underRoot ss) i x.length → ExcusedBehind o x ss i) ∧
    ∀ {s rest i}, ss = s :: rest → s.isRecursive = false → i ≤ x.length → ComponentStart x i →
      Matches (!o.caseSensitive) x (segmentsAfter o false false ss) i x.length → ExcusedJoined o x ss i := by
  induction ss with
  | nil =>
    refine ⟨fun {underRoot i} hi hmatch => ?_, by simp⟩
    obtain rfl : x.length = i := hmatch
    refine ⟨[], [], ⟨rfl, rfl⟩, by simp, fun k hk => excused_of_ne fun _ => ?_⟩
    simp [List.getElem?_eq_none hk]
  | cons s rest ih =>
    obtain ⟨ihdue, ihtaken⟩ := ih h.tail
    cases hrec : s.isRecursive with
    | false =>
      constructor
      · intro underRoot i hi hmatch
        rw [segmentsAfter_plain hrec, if_pos rfl] at hmatch
        exact due_excused (plain_excused hdot h hrec ihdue) hi hmatch
      · intro s' rest' i _ _ hi hstart hmatch
        rw [segmentsAfter_plain hrec] at hmatch
        obtain ⟨_, rfl, hmatch⟩ : ∃ k, k = i ∧ Matches _ x (.seq (segment o s) (segmentsAfter o true false rest)) k _ :=
          hmatch
        exact plain_excused hdot h hrec ihdue hi hstart hmatch
    | true =>
      refine ⟨fun {underRoot i} hi hmatch => ?_, fun heq hplain => ?_⟩
      · cases rest with
        | nil =>
          have hlast : Matches (!o.caseSensitive) x (.seq separator (anyPath o)) i x.length → ExcusedBehind o x [s] i :=
            due_excused (fun hi _ => anyPath_excused hdot hrec hi) hi
          rw [segmentsAfter_last hrec] at hmatch
          cases underRoot with
          | true => exact hlast hmatch
          | false =>
            rcases hmatch with rfl | hmatch
            · refine ⟨[], [], ?_, by simp, fun k hk => excused_of_ne fun _ => ?_⟩
              · rw [LieWild, if_pos hrec]
                exact ⟨[], [], rfl, by simp, rfl, rfl⟩
              · simp [List.getElem?_eq_none hk]
            · exact hlast hmatch
        | cons next rest =>
          have hnext := plain_next h.separate hrec
          rw [segmentsAfter_recursive hrec (List.cons_ne_nil _ _), if_pos rfl] at hmatch
          exact due_excused (recursive_excused hdot hrec (ihtaken rfl hnext)) hi hmatch
      · rw [(List.cons.inj heq).1, hplain] at hrec
        cases hrec

theorem segments_excused (hdot : o.literalLeadingDot = true) (h : Dotless o (s :: rest))
    (hmatch : Matches (!o.caseSensitive) x (segments o (s :: rest)) 0 x.length) : ExcusedJoined o x (s :: rest) 0 := by
  have hstart : ComponentStart x 0 := .inl rfl
  obtain ⟨hdue, htaken⟩ := segmentsAfter_excused (x := x) hdot h.tail
  cases hrec : s.isRecursive with
  | false =>
    rw [segments_plain hrec] at hmatch
    exact plain_excused hdot h hrec hdue (Nat.zero_le _) hstart hmatch
  | true =>
    cases rest with
    | nil =>
      rw [segments_sole hrec] at hmatch
      exact anyPath_excused hdot hrec (Nat.zero_le _) hmatch
    | cons next rest =>
      have hnext := plain_next h.separate hrec
      rw [segments_recursive hrec (List.cons_ne_nil _ _)] at hmatch
      exact recursive_excused hdot hrec (htaken rfl hnext) (Nat.zero_le _) hstart hmatch

end Expression

/-! ## Matchers -/

/-- What a matcher accepts can be read with the wild offsets, and every offset of it is excused. -/
theorem excused_of_accepts {text : Text} {tree : Pattern} (hparse : Pattern.parse text = .ok tree)
    (hundotted : tree.Undotted) (hdot : o.literalLeadingDot = true) (hfolds : o.caseSensitive = false → tree.Folds)
    {m : Matcher} (hm : Matcher.ofPattern? o text = .ok m) (h : m.accepts x = true) :
    ∃ ws wild, LieWild o x tree.segments 0 ws wild ∧ x = Text.join [Mark.slash] ws ∧ ∀ i, Excused x wild i := by
  have hwf := parse_wellFormed hparse
  have hmatch := (accepts_iff_matches hparse hfolds hm x).1 h
  obtain ⟨s, rest, hsegments⟩ := List.exists_cons_of_ne_nil hwf.nonempty
  have hdotless : Expression.Dotless o (s :: rest) :=
    hsegments ▸ ⟨hwf.segments, hwf.separate, hfolds, hundotted⟩
  rw [hsegments] at hmatch
  obtain ⟨ws, wild, -, hlie, hjoin, hexcused⟩ := Expression.segments_excused hdot hdotless hmatch
  exact ⟨ws, wild, hsegments ▸ hlie, hjoin, fun i => hexcused i (Nat.zero_le i)⟩

/-- **A component that starts with a dot comes behind a wild separator**, if no literal text of the pattern has a dot:
the separator before it was taken by a wildcard or by a class. -/
theorem dots_behind_wildcards {text : Text} {tree : Pattern} (hparse : Pattern.parse text = .ok tree)
    (hundotted : tree.Undotted) (hdot : o.literalLeadingDot = true) (hfolds : o.caseSensitive = false → tree.Folds) :
    ∃ m, Matcher.ofPattern? o text = .ok m ∧
      ∀ x, m.accepts x = true → ∃ ws wild, LieWild o x tree.segments 0 ws wild ∧ x = Text.join [Mark.slash] ws ∧
        ∀ i, ComponentStart x i → x[i]? = some Mark.dot → ∃ k ∈ wild, i = k + 1 ∧ x[k]? = some Mark.slash := by
  have hm := ofPattern?_of_parse hparse o
  refine ⟨_, hm, fun x haccepts => ?_⟩
  obtain ⟨ws, wild, hlie, hjoin, hexcused⟩ := excused_of_accepts hparse hundotted hdot hfolds hm haccepts
  refine ⟨ws, wild, hlie, hjoin, fun i hstart hi => ?_⟩
  obtain ⟨k, hk, rfl⟩ := hexcused i hstart hi
  exact ⟨k, hk, rfl, slash_before hstart⟩

/-- The pattern `**/b*`, where case is ignored and wildcards may cross separators: the dot of `x/B/.y` comes behind what
the star takes. -/
theorem dots_behind_wildcards_crossing :
    ∃ tree m, Pattern.parse (Text.of "**/b*") = .ok tree ∧
      Matcher.ofPattern? ⟨false, false, true⟩ (Text.of "**/b*") = .ok m ∧ m.accepts (Text.of "x/B/.y") = true ∧
      ∀ x, m.accepts x = true → ∃ ws wild, LieWild ⟨false, false, true⟩ x tree.segments 0 ws wild ∧
        x = Text.join [Mark.slash] ws ∧
        ∀ i, ComponentStart x i → x[i]? = some Mark.dot → ∃ k ∈ wild, i = k + 1 ∧ x[k]? = some Mark.slash := by
  have hparse : Pattern.parse (Text.of "**/b*") = .ok ⟨Text.of "**/b*",
      [⟨[.doubleStar ⟨0, 2⟩], ⟨0, 2⟩⟩, ⟨[.literal [0x62] ⟨3, 4⟩, .star ⟨4, 5⟩], ⟨3, 5⟩⟩]⟩ := rfl
  have hletter : Mark.dot ∉ [0x62] := by decide
  obtain ⟨m, hm, hbehind⟩ := dots_behind_wildcards (o := ⟨false, false, true⟩) hparse
    (by simp [Pattern.Undotted, NodesUndotted, Node.Undotted, hletter]) rfl
    fun _ => by simp [Pattern.Folds, NodesFold, Node.Folds]
  refine ⟨_, m, hparse, hm, ?_, hbehind⟩
  cases hm
  rfl

/-- The pattern `*` has no dot, but it takes `a/.b` where it may cross separators. -/
theorem dotted_component_accepted :
    ∃ tree m, Pattern.parse (Text.of "*") = .ok tree ∧ tree.Undotted ∧
      Matcher.ofPattern? ⟨true, false, true⟩ (Text.of "*") = .ok m ∧ m.accepts (Text.of "a/.b") = true ∧
      ∃ w ∈ Text.splitAt Mark.slash (Text.of "a/.b"), w.head? = some Mark.dot := by
  have hparse : Pattern.parse (Text.of "*") = .ok ⟨Text.of "*", [⟨[.star ⟨0, 1⟩], ⟨0, 1⟩⟩]⟩ := rfl
  refine ⟨_, _, hparse, ?_, rfl, rfl, Text.of ".b", by decide, rfl⟩
  simp [Pattern.Undotted, NodesUndotted, Node.Undotted]

/-! ## Where wildcards leave separators alone -/

mutual

/-- The wild offsets are those of characters that a wildcard may take. -/
theorem node_wild_admitted : (n : Node) → {i j : Nat} → {wild : List Nat} → n.TakesWild o x i j wild →
    ∀ k ∈ wild, ∃ d, x[k]? = some d ∧ o.Admits d
  | .literal _ _, _, _, _, ⟨_, rfl⟩, _, hk => absurd hk List.not_mem_nil
  | .anyChar _, _, _, _, ⟨⟨_, hd⟩, rfl⟩, _, hk => List.mem_singleton.1 hk ▸ hd
  | .star _, i, j, _, ⟨hbetween, rfl⟩, k, hk => by
    have hbounds := List.mem_range'_1.1 hk
    exact hbetween.2 k hbounds.1 (by omega)
  | .doubleStar _, i, j, _, ⟨hbetween, rfl⟩, k, hk => by
    have hbounds := List.mem_range'_1.1 hk
    exact hbetween.2 k hbounds.1 (by omega)
  | .set _ _ _, _, _, _, ⟨⟨_, d, hd, hclass⟩, rfl⟩, _, hk => ⟨d, List.mem_singleton.1 hk ▸ hd, hclass.1⟩
  | .alternation bs _, _, _, _, h, k, hk => branches_wild_admitted bs h k hk

theorem nodes_wild_admitted : (ns : List Node) → {i j : Nat} → {wild : List Nat} → nodesTakeWild o x ns i j wild →
    ∀ k ∈ wild, ∃ d, x[k]? = some d ∧ o.Admits d
  | [], _, _, _, ⟨_, rfl⟩, _, hk => absurd hk List.not_mem_nil
  | n :: ns, _, _, _, ⟨_, _, _, rfl, hn, hns⟩, k, hk => by
    rcases List.mem_append.1 hk with hk | hk
    · exact node_wild_admitted n hn k hk
    · exact nodes_wild_admitted ns hns k hk

theorem branches_wild_admitted : (bs : List (List Node)) → {i j : Nat} → {wild : List Nat} →
    branchesTakeWild o x bs i j wild → ∀ k ∈ wild, ∃ d, x[k]? = some d ∧ o.Admits d
  | [], _, _, _, h, _, _ => h.elim
  | b :: _, _, _, _, .inl h, k, hk => nodes_wild_admitted b h k hk
  | _ :: bs, _, _, _, .inr h, k, hk => branches_wild_admitted bs h k hk

end

theorem segments_wild_admitted {ss : List Segment} {ws : List Text} (h : LieWild o x ss i ws wild) :
    ∀ k ∈ wild, ∃ d, x[k]? = some d ∧ o.Admits d := by
  induction ss generalizing i ws wild with
  | nil =>
    obtain ⟨-, rfl⟩ := h
    simp
  | cons s rest ih =>
    rw [LieWild] at h
    split at h
    · obtain ⟨components, ws', -, -, hrest⟩ := h
      exact ih hrest
    · obtain ⟨w, ws', first, others, -, rfl, hnodes, hrest⟩ := h
      intro k hk
      rcases List.mem_append.1 hk with hk | hk
      · exact nodes_wild_admitted s.nodes hnodes k hk
      · exact ih hrest k hk

/-- The first character of a component is at a component start. -/
theorem exists_start_of_mem_splitAt {w : Text} {d : CodePoint} (hw : w ∈ Text.splitAt Mark.slash x)
    (hd : w.head? = some d) : ∃ i, ComponentStart x i ∧ x[i]? = some d := by
  obtain ⟨before, after, hsplit⟩ := List.append_of_mem hw
  have hjoin : x.drop 0 = before.flatMap (· ++ [Mark.slash]) ++ Text.join [Mark.slash] (w :: after) := by
    rw [← Text.join_append _ (List.cons_ne_nil _ _), ← hsplit, Text.join_splitAt, List.drop_zero]
  refine ⟨offsetAfter before 0, Expression.componentStart_offsetAfter (.inl rfl) hjoin, ?_⟩
  rw [← List.head?_drop, offsetAfter, Expression.drop_of_drop_eq hjoin, Text.join_cons, List.head?_append, hd]
  rfl

/-- **Where wildcards refuse separators, the rule for dots is kept as it is told**: a pattern without a dot in its
literal text accepts no candidate with a component that starts with one. -/
theorem no_dotted_component {text : Text} {tree : Pattern} (hparse : Pattern.parse text = .ok tree)
    (hundotted : tree.Undotted) (hdot : o.literalLeadingDot = true) (hsep : o.literalSeparator = true)
    (hfolds : o.caseSensitive = false → tree.Folds) {m : Matcher} (hm : Matcher.ofPattern? o text = .ok m)
    (h : m.accepts x = true) : ∀ w ∈ Text.splitAt Mark.slash x, w.head? ≠ some Mark.dot := by
  intro w hw hhead
  obtain ⟨i, hstart, hi⟩ := exists_start_of_mem_splitAt hw hhead
  obtain ⟨ws, wild, hlie, -, hexcused⟩ := excused_of_accepts hparse hundotted hdot hfolds hm h
  obtain ⟨k, hk, rfl⟩ := hexcused i hstart hi
  obtain ⟨d, hd, hadmits⟩ := segments_wild_admitted hlie k hk
  rw [slash_before hstart] at hd
  exact hadmits hsep (Option.some.inj hd).symm

end Glob
