import Glob.Proofs.Literal
/-!
# Comparing options

Under two options a tree has two expressions, in which guards and sets differ from node to node.  `Options.Compares` tells
what makes the second accept whatever the first does, along one candidate: characters of the pattern stand for at least
as many, a dot that is refused was refused before or is nowhere at the start of a component, and so on.  From there
`Expression.segments_within` goes up through the tree, however it is nested.

What a guard refuses depends on the place that it is written for.  Of places it is enough to know that one at the start of
a component is a start (`Place.Starts`), which is true under all options, also where wildcards cross separators.

The rule for separators is compared with the lack of it: `Options.compares_separating` and `separating_compares`.
-/
namespace Glob

open Regex (Matches Settled inSet inItems inRange inRangeFolded)

variable {o o' : Options} {x : Text} {i j : Nat}

/-! ## Places without a rule for dots -/

/-- The offset is the start of a component if the place says so. -/
def Place.Starts (x : Text) (place : Place) (i : Nat) : Prop := place = .componentStart → ComponentStart x i

namespace Expression

theorem branches_eq_map (o : Options) (place : Place) (bs : List (List Node)) :
    branches o place bs = bs.map (nodes o place) := by
  induction bs with
  | nil => rfl
  | cons b bs ih => rw [branches, ih, List.map_cons]

theorem alternation_matches {ignoreCase : Bool} {place : Place} {bs : List (List Node)} {span : Span} :
    Matches ignoreCase x (node o place (.alternation bs span)) i j ↔
      (bs = [] ∧ j = i) ∨ ∃ b ∈ bs, Matches ignoreCase x (nodes o place b) i j := by
  rw [node, branches_eq_map]
  show Matches ignoreCase x (Regex.alternatives _) i j ↔ _
  cases bs with
  | nil => simp [Regex.alternatives, Matches]
  | cons b bs => simp [Regex.matches_alternatives]

mutual

theorem node_starts : (n : Node) → {place : Place} → {i j : Nat} → place.Starts x i →
    Matches (!o.caseSensitive) x (node o place n) i j → (n.placeAfter place).Starts x j
  | .literal text _, place, i, j, hp, h => by
    obtain ⟨rfl, hstands⟩ := ofText_matches.1 h
    unfold Node.placeAfter
    split
    · next hnone =>
      rw [List.getLast?_eq_none_iff.1 hnone]
      exact hp
    · next l hl =>
      split
      · next hslash =>
        obtain ⟨k, d, hk, hd, hsame⟩ := stands_getLast hstands hl
        rw [hslash, Options.same_slash] at hsame
        exact fun _ => hk ▸ (componentStart_succ hd).2 hsame
      · exact nofun
  | .anyChar _, _, _, _, _, _ | .star _, _, _, _, _, _ | .doubleStar _, _, _, _, _, _ | .set _ _ _, _, _, _, _, _ => nofun
  | .alternation bs _, place, i, j, hp, h => by
    rcases alternation_matches.1 h with ⟨rfl, -⟩ | ⟨b, hb, hmatch⟩
    · exact nofun
    · obtain ⟨place', hmem, hstarts⟩ := branches_start bs hp ⟨b, hb, hmatch⟩
      exact Place.of_join (P := fun place => place.Starts x j) nofun hmem hstarts

theorem nodes_start : (ns : List Node) → {place : Place} → {i j : Nat} → place.Starts x i →
    Matches (!o.caseSensitive) x (nodes o place ns) i j → (placeAfter place ns).Starts x j
  | [], _, _, _, hp, h => by
    obtain rfl := h
    exact hp
  | n :: ns, _, _, _, hp, ⟨_, hn, hns⟩ => nodes_start ns (node_starts n hp hn) hns

theorem branches_start : (bs : List (List Node)) → {place : Place} → {i j : Nat} → place.Starts x i →
    (∃ b ∈ bs, Matches (!o.caseSensitive) x (nodes o place b) i j) →
      ∃ place' ∈ branchPlaces place bs, place'.Starts x j
  | [], _, _, _, _, ⟨_, hb, _⟩ => absurd hb List.not_mem_nil
  | b :: bs, place, i, j, hp, ⟨b', hb', h⟩ => by
    rcases List.mem_cons.1 hb' with heq | hb'
    · exact ⟨_, List.mem_cons_self, nodes_start b hp (heq ▸ h)⟩
    · obtain ⟨place', hmem, hstarts⟩ := branches_start bs hp ⟨b', hb', h⟩
      exact ⟨place', List.mem_cons_of_mem _ hmem, hstarts⟩

end

/-- What a guard refuses: a dot at the start of a component, unless the place is none. -/
theorem guard_passes {place : Place} (hi : i ≤ x.length) (hp : place.Starts x i) :
    Matches (!o.caseSensitive) x (guard o place) i j ↔
      j = i ∧ (o.literalLeadingDot = true → place ≠ .inside → ComponentStart x i → x[i]? ≠ some Mark.dot) := by
  cases hdot : o.literalLeadingDot with
  | false => simp [guard, hdot, Matches]
  | true =>
    cases place with
    | inside => simp [guard, hdot, Matches]
    | componentStart | maybeStart =>
      rw [guard_matches hi fun _ => ?_, Options.Guarded, hdot]
      · simp
      · first | exact hp rfl | trivial

end Expression

/-! ## Two options along a candidate -/

/-- Under the second options whatever is accepted under the first is accepted as well, for all that the parts of trees
come down to; of their classes, for those that meet the condition. -/
structure Options.Compares (P : Bool → Node → Prop) (x : Text) (o o' : Options) : Prop where
  same : ∀ p d, o.Same p d → o'.Same p d
  admits : ∀ d ∈ x, o.Admits d → o'.Admits d
  /-- A dot at the start of a component is refused only if it was, or there is none. -/
  dots : o'.literalLeadingDot = true →
    o.literalLeadingDot = true ∨ ∀ i, ComponentStart x i → x[i]? ≠ some Mark.dot
  settled : ∀ inside items span, P inside (.set true items span) →
    o.caseSensitive = false ∨ o'.caseSensitive = false → Settled items
  set : ∀ inside negated items span, P inside (.set negated items span) → ∀ d,
    inSet (!o.caseSensitive) negated items d = true → inSet (!o'.caseSensitive) negated items d = true

namespace Expression

variable {P : Bool → Node → Prop}

theorem stands_mono (h : ∀ p d, o.Same p d → o'.Same p d) {text : Text} (hstands : o.Stands x text i) :
    o'.Stands x text i := by
  induction text generalizing i with
  | nil => trivial
  | cons p text ih =>
    obtain ⟨⟨d, hd, hsame⟩, hrest⟩ := hstands
    exact ⟨⟨d, hd, h p d hsame⟩, ih hrest⟩

theorem anyChar_within (h : o.Compares P x o') (hmatch : Matches (!o.caseSensitive) x (anyChar o) i j) :
    Matches (!o'.caseSensitive) x (anyChar o') i j := by
  rw [anyChar_matches] at hmatch ⊢
  obtain ⟨hj, d, hd, hadmits⟩ := hmatch
  exact ⟨hj, d, hd, h.admits d (List.mem_of_getElem? hd) hadmits⟩

theorem star_within (h : o.Compares P x o') (hmatch : Matches (!o.caseSensitive) x (star o) i j) :
    Matches (!o'.caseSensitive) x (star o') i j :=
  Relation.ReflTransGen.mono (fun _ _ => anyChar_within h) _ _ hmatch

theorem guarded_within (h : o.Compares P x o') {place : Place} {r r' : Regex} (hi : i ≤ x.length)
    (hp : place.Starts x i) (hr : Matches (!o.caseSensitive) x r i j → Matches (!o'.caseSensitive) x r' i j)
    (hmatch : Matches (!o.caseSensitive) x (.seq (guard o place) r) i j) :
    Matches (!o'.caseSensitive) x (.seq (guard o' place) r') i j := by
  obtain ⟨k, hguard, hrest⟩ := hmatch
  obtain ⟨rfl, hpasses⟩ := (guard_passes hi hp).1 hguard
  refine ⟨k, (guard_passes hi hp).2 ⟨rfl, fun hdot hplace hstart => ?_⟩, hr hrest⟩
  rcases h.dots hdot with hdot | hnone
  · exact hpasses hdot hplace hstart
  · exact hnone k hstart

mutual

theorem node_within (h : o.Compares P x o') : (n : Node) → {inside : Bool} → n.Every P inside → {place : Place} →
    {i j : Nat} → i ≤ x.length → place.Starts x i → Matches (!o.caseSensitive) x (node o place n) i j →
      Matches (!o'.caseSensitive) x (node o' place n) i j
  | .literal _ _, _, _, _, _, _, _, _, hmatch => by
    obtain ⟨hj, hstands⟩ := ofText_matches.1 hmatch
    exact ofText_matches.2 ⟨hj, stands_mono h.same hstands⟩
  | .anyChar _, _, _, _, _, _, hi, hp, hmatch => guarded_within h hi hp (anyChar_within h) hmatch
  | .star _, _, _, _, _, _, hi, hp, hmatch => guarded_within h hi hp (star_within h) hmatch
  | .doubleStar _, _, _, _, _, _, _, _, ⟨k, hfirst, hsecond⟩ => ⟨k, star_within h hfirst, star_within h hsecond⟩
  | .set negated items span, _, hn, _, _, _, hi, hp, hmatch => by
    refine guarded_within h hi hp (fun hset => ?_) hmatch
    have hsettled : negated = true → o.caseSensitive = false ∨ o'.caseSensitive = false → Settled items :=
      fun hneg => h.settled _ items span (hneg ▸ hn)
    rw [settledSet_matches fun hneg hcase => hsettled hneg (.inl hcase)] at hset
    rw [settledSet_matches fun hneg hcase => hsettled hneg (.inr hcase)]
    obtain ⟨hj, d, hd, hadmits, hin⟩ := hset
    exact ⟨hj, d, hd, h.admits d (List.mem_of_getElem? hd) hadmits, h.set _ negated items span hn d hin⟩
  | .alternation bs _, _, hn, _, _, _, hi, hp, hmatch => by
    refine alternation_matches.2 ((alternation_matches.1 hmatch).imp_right fun hbranch => ?_)
    exact branches_within h bs hn hi hp hbranch

theorem nodes_within (h : o.Compares P x o') : (ns : List Node) → {inside : Bool} → NodesEvery P inside ns →
    {place : Place} → {i j : Nat} → i ≤ x.length → place.Starts x i →
    Matches (!o.caseSensitive) x (nodes o place ns) i j → Matches (!o'.caseSensitive) x (nodes o' place ns) i j
  | [], _, _, _, _, _, _, _, hmatch => hmatch
  | n :: ns, _, hns, _, _, _, hi, hp, ⟨k, hn, hrest⟩ =>
    ⟨k, node_within h n hns.1 hi hp hn, nodes_within h ns hns.2 (hn.le_length hi) (node_starts n hp hn) hrest⟩

theorem branches_within (h : o.Compares P x o') : (bs : List (List Node)) → BranchesEvery P bs → {place : Place} →
    {i j : Nat} → i ≤ x.length → place.Starts x i →
    (∃ b ∈ bs, Matches (!o.caseSensitive) x (nodes o place b) i j) →
      ∃ b ∈ bs, Matches (!o'.caseSensitive) x (nodes o' place b) i j
  | [], _, _, _, _, _, _, ⟨_, hb, _⟩ => absurd hb List.not_mem_nil
  | b :: bs, hbs, place, i, j, hi, hp, ⟨b', hb', hmatch⟩ => by
    rcases List.mem_cons.1 hb' with heq | hb'
    · exact ⟨b, List.mem_cons_self, nodes_within h b hbs.1 hi hp (heq ▸ hmatch)⟩
    · obtain ⟨b', hb', hmatch⟩ := branches_within h bs hbs.2 hi hp ⟨b', hb', hmatch⟩
      exact ⟨b', List.mem_cons_of_mem _ hb', hmatch⟩

end

/-! ## Components -/

/-- A piece behind others, of which the first begins at the start of a component, begins at such a start. -/
theorem exists_start_of_piece {before : List Text} {w t : Text} {d : CodePoint} (hstart : ComponentStart x i)
    (hdrop : x.drop i = before.flatMap (· ++ [Mark.slash]) ++ (w ++ t)) (hd : w.head? = some d) :
    ∃ k, ComponentStart x k ∧ x[k]? = some d := by
  refine ⟨offsetAfter before i, componentStart_offsetAfter hstart hdrop, ?_⟩
  rw [← List.head?_drop, offsetAfter, drop_of_drop_eq hdrop, List.head?_append, hd]
  rfl

theorem component_within (h : o.Compares P x o') {w : Text}
    (hstart : ∀ d, w.head? = some d → ∃ k, ComponentStart x k ∧ x[k]? = some d) (hw : o.Component w) :
    o'.Component w := by
  refine ⟨hw.1, fun hdot hhead => ?_⟩
  rcases h.dots hdot with hdot | hnone
  · exact hw.2 hdot hhead
  · obtain ⟨k, hk, hd⟩ := hstart _ hhead
    exact hnone k hk hd

theorem components_within (h : o.Compares P x o') (hi : i ≤ x.length) (hstart : ComponentStart x i)
    (hmatch : Matches (!o.caseSensitive) x (components o) i j) :
    Matches (!o'.caseSensitive) x (components o') i j := by
  rw [components_match hi] at hmatch ⊢
  obtain ⟨ws, hws, hj, hdrop⟩ := hmatch
  refine ⟨ws, fun w hw => component_within h (fun d hd => ?_) (hws w hw), hj, hdrop⟩
  obtain ⟨before, after, rfl⟩ := List.append_of_mem hw
  exact exists_start_of_piece hstart (by simpa using hdrop) hd

theorem anyPath_within (h : o.Compares P x o') (hi : i ≤ x.length) (hstart : ComponentStart x i)
    (hmatch : Matches (!o.caseSensitive) x (anyPath o) i x.length) :
    Matches (!o'.caseSensitive) x (anyPath o') i x.length := by
  rw [anyPath_matches hi] at hmatch ⊢
  obtain ⟨ws, hne, hws, hdrop⟩ := hmatch
  refine ⟨ws, hne, fun w hw => component_within h (fun d hd => ?_) (hws w hw), hdrop⟩
  obtain ⟨before, after, rfl⟩ := List.append_of_mem hw
  rw [Text.join_append _ (List.cons_ne_nil _ _), Text.join_cons] at hdrop
  exact exists_start_of_piece hstart hdrop hd

/-! ## Segments -/

theorem separator_within (hmatch : Matches (!o.caseSensitive) x separator i j) :
    Matches (!o'.caseSensitive) x separator i j :=
  separator_matches.2 (separator_matches.1 hmatch)

theorem due_within (separatorDue : Bool) {r r' : Regex} (hi : i ≤ x.length)
    (hstart : separatorDue = false → ComponentStart x i) (hr : ∀ {k}, k ≤ x.length → ComponentStart x k →
      Matches (!o.caseSensitive) x r k j → Matches (!o'.caseSensitive) x r' k j)
    (hmatch : Matches (!o.caseSensitive) x (.seq (if separatorDue then separator else .empty) r) i j) :
    Matches (!o'.caseSensitive) x (.seq (if separatorDue then separator else .empty) r') i j := by
  obtain ⟨k, hdue, hrest⟩ := hmatch
  cases separatorDue with
  | true =>
    have hle := hdue.le_length hi
    obtain ⟨rfl, hslash⟩ := separator_matches.1 hdue
    exact ⟨_, separator_within hdue, hr hle (componentStart_behind hslash) hrest⟩
  | false =>
    obtain rfl := hdue
    exact ⟨k, rfl, hr hi (hstart rfl) hrest⟩

theorem segmentsAfter_within (h : o.Compares P x o') {ss : List Segment}
    (hss : ∀ s ∈ ss, NodesEvery P false s.nodes) {separatorDue underRoot : Bool} (hi : i ≤ x.length)
    (hstart : separatorDue = false → ComponentStart x i)
    (hmatch : Matches (!o.caseSensitive) x (segmentsAfter o separatorDue underRoot ss) i x.length) :
    Matches (!o'.caseSensitive) x (segmentsAfter o' separatorDue underRoot ss) i x.length := by
  induction ss generalizing separatorDue underRoot i with
  | nil => exact hmatch
  | cons s ss ih =>
    obtain ⟨hs, hss⟩ := List.forall_mem_cons.1 hss
    cases hrec : s.isRecursive with
    | false =>
      rw [segmentsAfter_plain hrec] at hmatch ⊢
      refine due_within _ hi hstart (fun hi hstart hmatch => ?_) hmatch
      obtain ⟨k, hsegment, hrest⟩ := hmatch
      exact ⟨k, nodes_within h s.nodes hs hi (fun _ => hstart) hsegment,
        ih hss (hsegment.le_length hi) nofun hrest⟩
    | true =>
      cases ss with
      | nil =>
        have hpath : Matches (!o.caseSensitive) x (.seq separator (anyPath o)) i x.length →
            Matches (!o'.caseSensitive) x (.seq separator (anyPath o')) i x.length :=
          due_within true hi nofun fun hi hstart => anyPath_within h hi hstart
        rw [segmentsAfter_last hrec] at hmatch ⊢
        cases underRoot with
        | true => exact hpath hmatch
        | false => exact Or.imp_right hpath hmatch
      | cons next ss =>
        rw [segmentsAfter_recursive hrec (List.cons_ne_nil _ _)] at hmatch ⊢
        refine due_within _ hi hstart (fun hi hstart hmatch => ?_) hmatch
        obtain ⟨k, hcomponents, hrest⟩ := hmatch
        obtain ⟨_, -, rfl, hdrop⟩ := (components_match hi).1 hcomponents
        exact ⟨_, components_within h hi hstart hcomponents,
          ih hss (hcomponents.le_length hi) (fun _ => componentStart_offsetAfter hstart hdrop) hrest⟩

/-- **What the expression of a tree accepts under the first options it accepts under the second.** -/
theorem segments_within (h : o.Compares P x o') {ss : List Segment} (hss : ∀ s ∈ ss, NodesEvery P false s.nodes)
    (hmatch : Matches (!o.caseSensitive) x (segments o ss) 0 x.length) :
    Matches (!o'.caseSensitive) x (segments o' ss) 0 x.length := by
  have hstart : ComponentStart x 0 := .inl rfl
  cases ss with
  | nil => exact hmatch
  | cons s ss =>
    obtain ⟨hs, hss⟩ := List.forall_mem_cons.1 hss
    cases hrec : s.isRecursive with
    | false =>
      rw [segments_plain hrec] at hmatch ⊢
      obtain ⟨k, hsegment, hrest⟩ := hmatch
      exact ⟨k, nodes_within h s.nodes hs (Nat.zero_le _) (fun _ => hstart) hsegment,
        segmentsAfter_within h hss (hsegment.le_length (Nat.zero_le _)) nofun hrest⟩
    | true =>
      cases ss with
      | nil =>
        rw [segments_sole hrec] at hmatch ⊢
        exact anyPath_within h (Nat.zero_le _) hstart hmatch
      | cons next ss =>
        rw [segments_recursive hrec (List.cons_ne_nil _ _)] at hmatch ⊢
        obtain ⟨k, hcomponents, hrest⟩ := hmatch
        obtain ⟨_, -, rfl, hdrop⟩ := (components_match (Nat.zero_le _)).1 hcomponents
        exact ⟨_, components_within h (Nat.zero_le _) hstart hcomponents, segmentsAfter_within h hss
          (hcomponents.le_length (Nat.zero_le _)) (fun _ => componentStart_offsetAfter hstart hdrop) hrest⟩

end Expression

/-! ## Options that agree on case -/

/-- Options that agree on case compare if what they refuse was refused before, or is not in the candidate. -/
theorem Options.compares_of_case {P : Bool → Node → Prop} (hcase : o.caseSensitive = o'.caseSensitive)
    (hsettled : o.caseSensitive = false → ∀ inside items span, P inside (.set true items span) → Settled items)
    (hseparator : o'.literalSeparator = true → o.literalSeparator = true ∨ Mark.slash ∉ x)
    (hdots : o'.literalLeadingDot = true →
      o.literalLeadingDot = true ∨ ∀ i, ComponentStart x i → x[i]? ≠ some Mark.dot) : o.Compares P x o' where
  same p d h := by rwa [Options.Same, ← hcase]
  admits d hd hadmits hsep := by
    rcases hseparator hsep with hsep | hnone
    · exact hadmits hsep
    · exact fun hslash => hnone (hslash ▸ hd)
  dots := hdots
  settled inside items span hP hfalse := hsettled (by simpa [← hcase] using hfalse) inside items span hP
  set inside negated items span _ d h := by rwa [← hcase]

/-- The same options, with separators refused to wildcards and classes. -/
def Options.separating (o : Options) : Options := { o with literalSeparator := true }

/-- **What refuses separators is within what does not.** -/
theorem Options.compares_separating (hcase : o.caseSensitive = true) (x : Text) :
    o.separating.Compares (fun _ _ => True) x o :=
  compares_of_case rfl (fun h => absurd (hcase.symm.trans h) nofun) (fun _ => .inl rfl) .inl

/-- **Where the subject has no separator, none is refused.** -/
theorem Options.separating_compares (hcase : o.caseSensitive = true) (hx : Mark.slash ∉ x) :
    o.Compares (fun _ _ => True) x o.separating :=
  compares_of_case rfl (fun h => absurd (hcase.symm.trans h) nofun) (fun _ => .inr hx) .inl

end Glob
