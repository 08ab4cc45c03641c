import Glob.Proofs.Pattern.Comparison
/-!
# What the options add and take away

The rules for dots and for separators only refuse, and each refuses nothing where the candidate has nothing of its kind:
`matcher_rules`.  Ignoring case only adds, unless a class is negated: `matcher_widens`.

Both come from `Options.Compares`, and both need a condition where case is ignored.  An expression is then run with
alternatives of single characters as sets, and a capital letter beyond U+FFFF matches nothing among the members of a set.
Whether there is such a set may depend on the options: a guard before one alternative keeps the others apart from it, and
`/` is one more member of a class that is negated.  `Pattern.Stable` and `Pattern.Kept` keep out the letters that this
would make a difference to.
-/
namespace Glob

open Regex (Matches Steady Settled inItems inRange inRangeFolded)

variable {o o' : Options} {x p : Text} {tree : Pattern}

/-! ## Matchers under two options -/

/-- Of two options that compare, the matcher for the second accepts whatever the one for the first does. -/
theorem accepts_of_compares {P : Bool → Node → Prop} (hparse : Pattern.parse p = .ok tree) (hP : tree.Every P)
    (hcondensable : o.caseSensitive = false ∨ o'.caseSensitive = false → tree.Condensable) (h : o.Compares P x o')
    {m m' : Matcher} (hm : Matcher.ofPattern? o p = .ok m) (hm' : Matcher.ofPattern? o' p = .ok m')
    (haccepts : m.accepts x = true) : m'.accepts x = true := by
  rw [accepts_iff_of_condensable hparse (fun hcase => hcondensable (.inl hcase)) hm] at haccepts
  rw [accepts_iff_of_condensable hparse (fun hcase => hcondensable (.inr hcase)) hm']
  exact Expression.segments_within h hP haccepts

/-! ## The rules for dots and separators -/

/-- The node takes the same whatever the guards and whether `/` is a member of classes that are negated: inside braces
its characters are steady, and a class is settled, or has one member, outside braces and not negated. -/
def Node.Stable (inside : Bool) : Node → Prop
  | .literal text _ => inside = true → ∀ c ∈ text, Steady (c, c)
  | .set negated items _ => Settled items ∨ (inside = false ∧ negated = false ∧ ∃ item, items = [item])
  | .anyChar _ | .star _ | .doubleStar _ | .alternation _ _ => True

def Pattern.Stable (p : Pattern) : Prop := p.Every Node.Stable

theorem Node.Stable.condensable {inside : Bool} : (n : Node) → n.Stable inside → n.Condensable inside
  | .literal _ _, h => h
  | .set _ _ _, h => h.imp_right fun h => ⟨.inl h.1, h.2.2⟩
  | .anyChar _, _ | .star _, _ | .doubleStar _, _ | .alternation _ _, _ => trivial

theorem Pattern.Stable.condensable (h : tree.Stable) : tree.Condensable :=
  h.imp fun _ n => Node.Stable.condensable n

/-- No dot stands at the start of a component if no component starts with one. -/
theorem no_dot_of_pieces (h : ∀ w ∈ Text.splitAt Mark.slash x, w.head? ≠ some Mark.dot) {i : Nat}
    (hstart : ComponentStart x i) : x[i]? ≠ some Mark.dot := by
  intro hdot
  obtain ⟨piece, pieces, hsplit⟩ := List.exists_cons_of_ne_nil (Text.splitAt_ne_nil Mark.slash (x.drop (i + 1)))
  have hhere : Text.splitAt Mark.slash (x.drop i) = (Mark.dot :: piece) :: pieces := by
    rw [Expression.drop_eq_cons_iff.2 hdot, Text.splitAt_cons hsplit, if_neg (by decide)]
  have hmem : Mark.dot :: piece ∈ Text.splitAt Mark.slash x := by
    rcases hstart with rfl | ⟨k, rfl, hslash⟩
    · rw [← List.drop_zero (l := x), hhere]
      exact List.mem_cons_self
    · rw [← List.take_append_drop k x, Expression.drop_eq_cons_iff.2 hslash, Text.splitAt_append_cons, hhere]
      exact List.mem_append_right _ List.mem_cons_self
  exact h _ hmem rfl

/-- Of two options that agree on case, the matcher for those that refuse no more along the candidate accepts it if the
other one does. -/
theorem accepts_of_refusals (hparse : Pattern.parse p = .ok tree) (hstable : o.caseSensitive = false → tree.Stable)
    {m m' : Matcher} (hm : Matcher.ofPattern? o p = .ok m) (hm' : Matcher.ofPattern? o' p = .ok m')
    (hcase : o.caseSensitive = o'.caseSensitive)
    (hseparator : o'.literalSeparator = true → o.literalSeparator = true ∨ Mark.slash ∉ x)
    (hdots : o'.literalLeadingDot = true →
      o.literalLeadingDot = true ∨ ∀ i, ComponentStart x i → x[i]? ≠ some Mark.dot)
    (haccepts : m.accepts x = true) : m'.accepts x = true := by
  have hevery : tree.Every fun inside n => o.caseSensitive = false → n.Stable inside := by
    cases hsensitive : o.caseSensitive with
    | true => exact fun s _ => nodesEvery_of_forall (fun _ _ => nofun) s.nodes
    | false => exact (hstable hsensitive).imp fun _ _ hn _ => hn
  have hcondensable : o.caseSensitive = false ∨ o'.caseSensitive = false → tree.Condensable := by
    rw [← hcase, or_self]
    exact fun hfalse => (hstable hfalse).condensable
  refine accepts_of_compares hparse hevery hcondensable ?_ hm hm' haccepts
  refine Options.compares_of_case hcase (fun hfalse inside items span hn => ?_) hseparator hdots
  exact (hn hfalse).resolve_right fun h => Bool.noConfusion h.2.1

/-- **The rules for dots and separators only refuse.**  What a matcher accepts under the rule for dots, or the one for
separators, it accepts without, whatever the other options are.  The rule for dots makes no difference to a candidate of
which no component starts with a dot, nor the one for separators to a candidate without a separator. -/
theorem matcher_rules (hparse : Pattern.parse p = .ok tree) (caseSensitive : Bool)
    (hstable : caseSensitive = false → tree.Stable) :
    ∃ m : Bool → Bool → Matcher,
      (∀ separator dot, Matcher.ofPattern? ⟨caseSensitive, separator, dot⟩ p = .ok (m separator dot)) ∧ ∀ x,
        (∀ separator, (m separator true).accepts x = true → (m separator false).accepts x = true) ∧
        (∀ dot, (m true dot).accepts x = true → (m false dot).accepts x = true) ∧
        ((∀ w ∈ Text.splitAt Mark.slash x, w.head? ≠ some Mark.dot) →
          ∀ separator, (m separator true).accepts x = (m separator false).accepts x) ∧
        (Mark.slash ∉ x → ∀ dot, (m true dot).accepts x = (m false dot).accepts x) := by
  obtain ⟨m, hm⟩ : ∃ m : Bool → Bool → Matcher, ∀ separator dot,
      Matcher.ofPattern? ⟨caseSensitive, separator, dot⟩ p = .ok (m separator dot) :=
    ⟨_, fun separator dot => ofPattern?_of_parse hparse _⟩
  refine ⟨m, hm, fun x => ?_⟩
  have hdot : ∀ separator, (m separator true).accepts x = true → (m separator false).accepts x = true :=
    fun separator => accepts_of_refusals hparse hstable (hm separator true) (hm separator false) rfl .inl nofun
  have hseparator : ∀ dot, (m true dot).accepts x = true → (m false dot).accepts x = true :=
    fun dot => accepts_of_refusals hparse hstable (hm true dot) (hm false dot) rfl nofun .inl
  refine ⟨hdot, hseparator, fun hpieces separator => ?_, fun hslash dot => ?_⟩
  · have hnone : ∀ i, ComponentStart x i → x[i]? ≠ some Mark.dot := fun i => no_dot_of_pieces hpieces
    refine Bool.eq_iff_iff.2 ⟨hdot separator, ?_⟩
    exact accepts_of_refusals hparse hstable (hm separator false) (hm separator true) rfl .inl fun _ => .inr hnone
  · refine Bool.eq_iff_iff.2 ⟨hseparator dot, ?_⟩
    exact accepts_of_refusals hparse hstable (hm false dot) (hm true dot) rfl (fun _ => .inr hslash) .inl

/-- The pattern `**/{[+-0],x}[!𐐀y]?`, where case is ignored. -/
theorem matcher_rules_folding :
    ∃ m : Bool → Bool → Matcher,
      (∀ separator dot, Matcher.ofPattern? ⟨false, separator, dot⟩ (Text.of "**/\x7b[+-0],x\x7d[!𐐀y]?") =
        .ok (m separator dot)) ∧
      (m true true).accepts (Text.of "a/x𐐀b") = (m true false).accepts (Text.of "a/x𐐀b") ∧
      (m true true).accepts (Text.of "-zb") = (m false true).accepts (Text.of "-zb") := by
  have hparse : Pattern.parse (Text.of "**/\x7b[+-0],x\x7d[!𐐀y]?") = .ok ⟨Text.of "**/\x7b[+-0],x\x7d[!𐐀y]?",
      [⟨[.doubleStar ⟨0, 2⟩], ⟨0, 2⟩⟩,
        ⟨[.alternation [[.set false [(0x2B, 0x30)] ⟨4, 9⟩], [.literal [0x78] ⟨10, 11⟩]] ⟨3, 12⟩,
          .set true [(0x10400, 0x10400), (0x79, 0x79)] ⟨12, 17⟩, .anyChar ⟨17, 18⟩], ⟨3, 18⟩⟩]⟩ := rfl
  have hrange : Settled [(0x2B, 0x30)] := by decide
  have hletter : Steady (0x78, 0x78) := by decide
  have hclass : Settled [(0x10400, 0x10400), (0x79, 0x79)] := by decide
  obtain ⟨m, hm, hrules⟩ := matcher_rules hparse false fun _ => by
    simp [Pattern.Stable, Pattern.Every, NodesEvery, Node.Every, BranchesEvery, Node.Stable, hrange, hletter, hclass]
  exact ⟨m, hm, (hrules _).2.2.1 (by decide) true, (hrules _).2.2.2 (by decide) true⟩

/-- Where case is ignored, `[!𐐀]` matches `𐐀` only under the rule for separators, and `{[a],𐐀}` only under the one for
dots: in both a capital letter beyond U+FFFF is read as a member of a set under one of the options. -/
theorem capital_let_in :
    ∃ m m' n n',
      Matcher.ofPattern? ⟨false, true, false⟩ (Text.of "[!𐐀]") = .ok m ∧
      Matcher.ofPattern? ⟨false, false, false⟩ (Text.of "[!𐐀]") = .ok m' ∧
      m.accepts [0x10400] = true ∧ m'.accepts [0x10400] = false ∧
      Matcher.ofPattern? ⟨false, true, true⟩ (Text.of "\x7b[a],𐐀\x7d") = .ok n ∧
      Matcher.ofPattern? ⟨false, true, false⟩ (Text.of "\x7b[a],𐐀\x7d") = .ok n' ∧
      n.accepts [0x10400] = true ∧ n'.accepts [0x10400] = false := by
  have hbraces : Pattern.parse (Text.of "\x7b[a],𐐀\x7d") = .ok ⟨Text.of "\x7b[a],𐐀\x7d",
      [⟨[.alternation [[.set false [(0x61, 0x61)] ⟨1, 4⟩], [.literal [0x10400] ⟨5, 6⟩]] ⟨0, 7⟩], ⟨0, 7⟩⟩]⟩ := rfl
  refine ⟨_, _, _, _, rfl, rfl, rfl, rfl, ofPattern?_of_parse hbraces _, ofPattern?_of_parse hbraces _, ?_, ?_⟩
  · decide +kernel
  · decide +kernel

/-! ## Ignoring case -/

def Node.IsNegated : Node → Prop
  | .set negated _ _ => negated = true
  | .literal _ _ | .anyChar _ | .star _ | .doubleStar _ | .alternation _ _ => False

/-- The node's characters stand at least for themselves when case is ignored: inside braces they are steady, and so are
members of a class, unless it is outside braces and has one. -/
def Node.Kept (inside : Bool) : Node → Prop
  | .literal text _ => inside = true → ∀ c ∈ text, Steady (c, c)
  | .set _ items _ => (∀ item ∈ items, Steady item) ∨ (inside = false ∧ ∃ item, items = [item])
  | .anyChar _ | .star _ | .doubleStar _ | .alternation _ _ => True

def Pattern.Kept (p : Pattern) : Prop := p.Every Node.Kept

theorem Node.Kept.condensable {inside : Bool} : (n : Node) → n.Kept inside → n.Condensable inside
  | .literal _ _, h => h
  | .set _ _ _, h => h.imp .inl fun h => ⟨.inl h.1, h.2⟩
  | .anyChar _, _ | .star _, _ | .doubleStar _, _ | .alternation _ _, _ => trivial

theorem Regex.Steady.inRangeFolded_of_inRange {item : CodePoint × CodePoint} (h : Steady item) {d : CodePoint}
    (hd : inRange item d = true) : inRangeFolded item d = true := by
  have hmates : (Text.classMates d).any (inRange item) = true :=
    List.any_eq_true.2 ⟨d, (Text.mem_classMates_iff d d).2 (Text.sameClass_self d), hd⟩
  unfold inRangeFolded
  split
  · exact hmates
  · next hbeyond =>
    split
    · next heq =>
      have hlower := (h heq).resolve_left hbeyond
      obtain rfl : d = item.1 := by
        simp only [inRange, Bool.and_eq_true, decide_eq_true_eq, ← heq] at hd
        exact Nat.le_antisymm hd.2 hd.1
      exact beq_iff_eq.2 hlower
    · rw [hmates, Bool.true_or]

/-- A set of which the members stand at least for themselves has what it has where case matters. -/
theorem inItems_widens {items : List (CodePoint × CodePoint)}
    (h : (∀ item ∈ items, Steady item) ∨ ∃ item, items = [item]) {d : CodePoint}
    (hd : inItems false items d = true) : inItems true items d = true := by
  obtain ⟨item, hitem, hin⟩ := List.any_eq_true.1 hd
  rcases h with hsteady | ⟨⟨lo, hi⟩, rfl⟩
  · exact (Settled.inItems_iff (.inl hsteady) d).2 ⟨item, hitem, (hsteady item hitem).inRangeFolded_of_inRange hin⟩
  · obtain rfl := List.mem_singleton.1 hitem
    by_cases heq : lo = hi
    · subst heq
      rw [Regex.inItems_single] at hd ⊢
      obtain rfl : lo = d := by simpa [Regex.sameChar] using hd
      exact Text.sameClass_self lo
    · simpa [inItems, heq] using (Regex.Steady.of_ne heq).inRangeFolded_of_inRange hin

/-- Ignoring case compares with not ignoring it, if no class is negated. -/
theorem Options.compares_ignoring (o : Options) (x : Text) :
    Options.Compares (fun inside n => ¬ n.IsNegated ∧ n.Kept inside) x { o with caseSensitive := true }
      { o with caseSensitive := false } where
  same p d h := by
    obtain rfl : p = d := h
    exact Text.sameClass_self p
  admits _ _ h := h
  dots := .inl
  settled _ _ _ h := absurd rfl h.1
  set inside negated items span h d hd := by
    obtain rfl : negated = false := by simpa [Node.IsNegated] using h.1
    simp only [Regex.inSet, Bool.bne_false] at hd ⊢
    exact inItems_widens (h.2.imp_right And.right) hd

/-- **Ignoring case only adds**, to a pattern in which no class is negated. -/
theorem matcher_widens (hparse : Pattern.parse p = .ok tree) (hnegated : tree.Every fun _ n => ¬ n.IsNegated)
    (hkept : tree.Kept) (separator dot : Bool) :
    ∃ m m', Matcher.ofPattern? ⟨true, separator, dot⟩ p = .ok m ∧
      Matcher.ofPattern? ⟨false, separator, dot⟩ p = .ok m' ∧ ∀ x, m.accepts x = true → m'.accepts x = true := by
  have hm := fun caseSensitive => ofPattern?_of_parse hparse ⟨caseSensitive, separator, dot⟩
  refine ⟨_, _, hm true, hm false, fun x => ?_⟩
  exact accepts_of_compares hparse (hnegated.imp₂ (fun _ _ => And.intro) hkept)
    (fun _ => hkept.imp fun _ n => Node.Kept.condensable n) (Options.compares_ignoring ⟨true, separator, dot⟩ x)
    (hm true) (hm false)

/-- The pattern `{a,[0-𐐀]}[𐐀]`, of which one letter is beyond U+FFFF and a capital. -/
theorem matcher_widens_capital :
    ∃ m m', Matcher.ofPattern? ⟨true, true, true⟩ (Text.of "\x7ba,[0-𐐀]\x7d[𐐀]") = .ok m ∧
      Matcher.ofPattern? ⟨false, true, true⟩ (Text.of "\x7ba,[0-𐐀]\x7d[𐐀]") = .ok m' ∧
      ∀ x, m.accepts x = true → m'.accepts x = true := by
  have hparse : Pattern.parse (Text.of "\x7ba,[0-𐐀]\x7d[𐐀]") = .ok ⟨Text.of "\x7ba,[0-𐐀]\x7d[𐐀]",
      [⟨[.alternation [[.literal [0x61] ⟨1, 2⟩], [.set false [(0x30, 0x10400)] ⟨3, 8⟩]] ⟨0, 9⟩,
        .set false [(0x10400, 0x10400)] ⟨9, 12⟩], ⟨0, 12⟩⟩]⟩ := rfl
  have hletter : Steady (0x61, 0x61) := by decide
  have hrange : Steady (0x30, 0x10400) := by decide
  refine matcher_widens hparse ?_ ?_ true true
  · simp [Pattern.Every, NodesEvery, Node.Every, BranchesEvery, Node.IsNegated]
  · simp [Pattern.Kept, Pattern.Every, NodesEvery, Node.Every, BranchesEvery, Node.Kept, hletter, hrange]

/-- The pattern `[𐐀x]` matches `𐐀` only where case matters: where it is ignored, the member is compared with the lower
case of the candidate's letter. -/
theorem capital_left_out :
    ∃ m m', Matcher.ofPattern? ⟨true, true, false⟩ (Text.of "[𐐀x]") = .ok m ∧
      Matcher.ofPattern? ⟨false, true, false⟩ (Text.of "[𐐀x]") = .ok m' ∧
      m.accepts (Text.of "𐐀") = true ∧ m'.accepts (Text.of "𐐀") = false :=
  ⟨_, _, rfl, rfl, rfl, rfl⟩

end Glob
