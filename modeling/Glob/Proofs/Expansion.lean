import Glob.Proofs.Pattern.SpelledOut
/-!
# Expanding braces

A pattern with alternatives in braces matches what one of the patterns matches that have one alternative in place of the
braces: `matcher_expands`.

The patterns are read in parts.  The text before the braces and the alternatives are the same nodes in both, spelled
out, and they begin at the same places.  The text behind is the same nodes as well, but it begins at the place after all
the alternatives in one and after a single one in the other; both hold where the alternative that was taken ends, and so
may be exchanged.
-/
namespace Glob

open Regex (Matches Settled Steady)

variable {o : Options} {x pre post b : Text} {bs : List Text}

/-- The pattern with alternatives in braces. -/
def braced (pre post : Text) (bs : List Text) : Text :=
  pre ++ Mark.openBrace :: (Text.join [Mark.comma] bs ++ Mark.closeBrace :: post)

/-- The texts are patterns that may be put together, with the alternatives in braces or one in place of them: no `**` is
in one of them or comes about where they meet, and no alternative has a mark of braces. -/
structure Expandable (pre post : Text) (bs : List Text) : Prop where
  nonempty : bs ≠ []
  parses : ∀ t ∈ pre :: post :: bs, ∃ tree, Pattern.parse t = .ok tree
  starless : ∀ t ∈ pre :: post :: bs, ¬ [Mark.star, Mark.star] <:+: t
  before : pre.getLast? ≠ some Mark.star
  behind : post.head? ≠ some Mark.star
  braceless : ∀ b ∈ bs, Draft.Braceless b

/-! ## Readings -/

namespace Draft

variable {P Q : List Node} {N : Text → List Node} {B : List (List Node)}

/-- Alternatives are read one after the other, as far as the closing brace and on behind it. -/
theorem reads_alternatives (hne : bs ≠ []) (hbs : ∀ b ∈ bs, Reads ⟨[], []⟩ b ⟨N b, []⟩)
    (hbraceless : ∀ b ∈ bs, Braceless b) (hpost : Reads ⟨[], []⟩ post ⟨Q, []⟩) :
    Reads ⟨P, [(B, [])]⟩ (Text.join [Mark.comma] bs ++ Mark.closeBrace :: post)
      ⟨P ++ [.alternation (B ++ bs.map N) nowhere] ++ Q, []⟩ := by
  induction bs generalizing B with
  | nil => exact absurd rfl hne
  | cons b bs ih =>
    obtain ⟨hb, hrest⟩ := List.forall_mem_cons.1 hbs
    obtain ⟨hbare, hbareRest⟩ := List.forall_mem_cons.1 hbraceless
    have hinside : Reads ⟨P, [(B, [])]⟩ b ⟨P, [(B, N b)]⟩ := (hb.inside hbare rfl P B []).2
    by_cases hlast : bs = []
    · subst hlast
      have hbehind := hpost.behind (P ++ [.alternation (B ++ [N b]) nowhere])
      rw [Draft.behind, Draft.behind, List.append_nil] at hbehind
      rw [Text.join_singleton]
      exact hinside.append (.closeBrace hbehind) fun _ h => absurd (Option.some.inj h) (by decide)
    · have hmore := ih (B := B ++ [N b]) hlast hrest hbareRest
      rw [List.append_assoc B, List.singleton_append] at hmore
      rw [Text.join_cons_of_ne_nil _ hlast, List.append_assoc, List.map_cons]
      exact hinside.append (.comma hmore) fun _ h => absurd (Option.some.inj h) (by decide)

end Draft

/-- **With braces or without, the parts of the pattern are read as the same nodes.** -/
theorem Expandable.exists_readings (h : Expandable pre post bs) :
    ∃ (P Q : List Node) (N : Text → List Node),
      Draft.Reads ⟨[], []⟩ (braced pre post bs) ⟨P ++ [.alternation (bs.map N) nowhere] ++ Q, []⟩ ∧
      ∀ b ∈ bs, Draft.Reads ⟨[], []⟩ (pre ++ b ++ post) ⟨P ++ N b ++ Q, []⟩ := by
  have halone : ∀ t ∈ pre :: post :: bs, ∃ ns, Draft.Reads ⟨[], []⟩ t ⟨ns, []⟩ := by
    intro t ht
    obtain ⟨tree, hparse⟩ := h.parses t ht
    exact exists_reading hparse (h.starless t ht)
  obtain ⟨⟨P, hP⟩, ⟨Q, hQ⟩, hbs⟩ := by simpa only [List.forall_mem_cons] using halone
  choose! N hN using hbs
  refine ⟨P, Q, N, ?_, fun b hb => ?_⟩
  · have halternatives := Draft.reads_alternatives (P := P) (B := []) h.nonempty hN h.braceless hQ
    exact hP.append (.openBrace halternatives) fun hstar => absurd hstar h.before
  · have hbehind := (hN b hb).behind P
    have hpost := hQ.behind (P ++ N b)
    rw [Draft.behind, Draft.behind, List.append_nil] at hbehind hpost
    exact (hP.append hbehind fun hstar => absurd hstar h.before).append hpost fun _ => h.behind

/-! ## Expressions -/

namespace Expression

variable {P Q : List Node} {Bs : List (List Node)} {place : Place} {i j : Nat}

/-- **An alternation between other nodes matches what one of its branches does in its place.** -/
theorem alternation_between (hsep : o.literalLeadingDot = true → o.literalSeparator = true)
    (hwf : NodesWellFormed (P ++ [.alternation Bs nowhere] ++ Q)) (hi : i ≤ x.length) (hp : place.Holds o x i) :
    Matches (!o.caseSensitive) x (nodes o place (P ++ [.alternation Bs nowhere] ++ Q)) i j ↔
      ∃ B ∈ Bs, Matches (!o.caseSensitive) x (nodes o place (P ++ B ++ Q)) i j := by
  simp only [nodesWellFormed_append] at hwf
  obtain ⟨⟨hP, halt, -⟩, hQ⟩ := hwf
  have hbranch : ∀ B ∈ Bs, NodesWellFormed B := branchesWellFormed_iff.1 halt.2
  simp only [nodes_append, nodes_single, placeAfter_append]
  constructor
  · rintro ⟨l, ⟨k, hkP, hl⟩, hQl⟩
    obtain ⟨B, hB, hkB⟩ := (alternation_matches.1 hl).resolve_left fun hnone => halt.1 hnone.1
    have hk : k ≤ x.length := hkP.le_length hi
    have hholds := nodes_hold hsep P hP hi hp hkP
    -- what comes behind begins at the place after all branches, and after `B` alone in the other expression
    refine ⟨B, hB, l, ⟨k, hkP, hkB⟩, nodes_exchange hsep Q hQ (hl.le_length hk) ?_ ?_ hQl⟩
    · exact node_holds hsep _ halt hk hholds hl
    · exact nodes_hold hsep B (hbranch B hB) hk hholds hkB
  · rintro ⟨B, hB, l, ⟨k, hkP, hkB⟩, hQl⟩
    have hl : Matches (!o.caseSensitive) x (node o (placeAfter place P) (.alternation Bs nowhere)) k l :=
      alternation_matches.2 (.inr ⟨B, hB, hkB⟩)
    have hk : k ≤ x.length := hkP.le_length hi
    have hholds := nodes_hold hsep P hP hi hp hkP
    refine ⟨l, ⟨k, hkP, hl⟩, nodes_exchange hsep Q hQ (hkB.le_length hk) ?_ ?_ hQl⟩
    · exact nodes_hold hsep B (hbranch B hB) hk hholds hkB
    · exact node_holds hsep _ halt hk hholds hl

end Expression

/-- What may be condensed with an alternation may be with one of its branches in its place. -/
theorem condensable_branch {P Q B : List Node} {Bs : List (List Node)}
    (h : NodesEvery Node.Condensable false (P ++ [.alternation Bs nowhere] ++ Q)) (hB : B ∈ Bs) :
    NodesEvery Node.Condensable false (P ++ B ++ Q) := by
  simp only [nodesEvery_append] at h ⊢
  obtain ⟨⟨hP, halt, -⟩, hQ⟩ := h
  exact ⟨⟨hP, nodesCondensable_outside (branchesEvery_iff.1 halt B hB)⟩, hQ⟩

/-! ## Matchers -/

/-- **Braces may be expanded.**  The pattern with alternatives in braces and all those with one alternative in place of
them have matchers, and the first accepts what one of the others accepts.  The rule for dots without the one for
separators is left out, and where case is ignored, so are trees that may not be condensed. -/
theorem matcher_expands (h : Expandable pre post bs) :
    ∃ tree, Pattern.parse (braced pre post bs) = .ok tree ∧
      ∀ o : Options, ∃ m, Matcher.ofPattern? o (braced pre post bs) = .ok m ∧
        (∀ b ∈ bs, ∃ m', Matcher.ofPattern? o (pre ++ b ++ post) = .ok m') ∧
        ((o.literalLeadingDot = true → o.literalSeparator = true) → (o.caseSensitive = false → tree.Condensable) →
          ∀ x, m.accepts x = true ↔
            ∃ b ∈ bs, ∃ m', Matcher.ofPattern? o (pre ++ b ++ post) = .ok m' ∧ m'.accepts x = true) := by
  obtain ⟨P, Q, N, hwhole, hbs⟩ := h.exists_readings
  obtain ⟨hwf, tree, hparse, hspelled, -⟩ := parse_reading hwhole
  refine ⟨tree, hparse, fun o => ⟨_, ofPattern?_of_parse hparse o, fun b hb => ?_, fun hsep hcase x => ?_⟩⟩
  · obtain ⟨-, tree', hparse', -⟩ := parse_reading (hbs b hb)
    exact ⟨_, ofPattern?_of_parse hparse' o⟩
  · have hcondensable : o.caseSensitive = false →
        NodesEvery Node.Condensable false (P ++ [.alternation (bs.map N) nowhere] ++ Q) := fun hfalse => by
      rw [← hspelled]
      exact Pattern.condensable_iff_spelled.1 (hcase hfalse)
    have hstart : Place.componentStart.Holds o x 0 := fun _ => .inl rfl
    have hbranch : ∀ b ∈ bs, o.caseSensitive = false → NodesEvery Node.Condensable false (P ++ N b ++ Q) :=
      fun b hb hfalse => condensable_branch (hcondensable hfalse) (List.mem_map_of_mem hb)
    rw [accepts_iff_spelled hwhole hcondensable (ofPattern?_of_parse hparse o),
      Expression.alternation_between hsep hwf (Nat.zero_le _) hstart]
    constructor
    · rintro ⟨_, hB, hmatch⟩
      obtain ⟨b, hb, rfl⟩ := List.mem_map.1 hB
      exact ⟨b, hb, (exists_accepts_iff_spelled (hbs b hb) (hbranch b hb)).2 hmatch⟩
    · rintro ⟨b, hb, haccepts⟩
      exact ⟨_, List.mem_map_of_mem hb, (exists_accepts_iff_spelled (hbs b hb) (hbranch b hb)).1 haccepts⟩

/-- The pattern `[,]/{a/[!b]?,,\*}/{.x,y}` where case is ignored, under the rules for dots and separators. -/
theorem matcher_expands_joined :
    ∃ m, Matcher.ofPattern? ⟨false, true, true⟩ (Text.of "[,]/\x7ba/[!b]?,,\\*\x7d/\x7b.x,y\x7d") = .ok m ∧
      ∀ x, m.accepts x = true ↔ ∃ b ∈ [Text.of "a/[!b]?", [], Text.of "\\*"], ∃ m',
        Matcher.ofPattern? ⟨false, true, true⟩ (Text.of "[,]/" ++ b ++ Text.of "/\x7b.x,y\x7d") = .ok m' ∧
          m'.accepts x = true := by
  let bs : List Text := [Text.of "a/[!b]?", [], Text.of "\\*"]
  have hexpandable : Expandable (Text.of "[,]/") (Text.of "/\x7b.x,y\x7d") bs :=
    { nonempty := by simp
      parses := by simpa [bs] using ⟨⟨_, rfl⟩, ⟨_, rfl⟩, ⟨_, rfl⟩, ⟨_, rfl⟩, ⟨_, rfl⟩⟩
      starless := by decide +kernel
      before := by decide
      behind := by decide
      braceless := by decide }
  have hbraced : Pattern.parse (braced (Text.of "[,]/") (Text.of "/\x7b.x,y\x7d") bs) = .ok
      ⟨Text.of "[,]/\x7ba/[!b]?,,\\*\x7d/\x7b.x,y\x7d",
        [⟨[.set false [(0x2C, 0x2C)] ⟨0, 3⟩], ⟨0, 3⟩⟩,
          ⟨[.alternation [[.literal (Text.of "a/") ⟨5, 7⟩, .set true [(0x62, 0x62)] ⟨7, 11⟩, .anyChar ⟨11, 12⟩], [],
            [.literal (Text.of "*") ⟨14, 16⟩]] ⟨4, 17⟩], ⟨4, 17⟩⟩,
          ⟨[.alternation [[.literal (Text.of ".x") ⟨19, 21⟩], [.literal (Text.of "y") ⟨22, 23⟩]] ⟨18, 24⟩],
            ⟨18, 24⟩⟩]⟩ := rfl
  obtain ⟨tree, hparse, hall⟩ := matcher_expands hexpandable
  obtain rfl := Except.ok.inj (hparse.symm.trans hbraced)
  obtain ⟨m, hm, -, haccepts⟩ := hall ⟨false, true, true⟩
  have hcomma : Settled [(0x2C, 0x2C)] := by decide
  have hclass : Settled [(0x62, 0x62)] := by decide
  have hletters : (∀ c ∈ Text.of "a/", Steady (c, c)) ∧ (∀ c ∈ Text.of "*", Steady (c, c)) ∧
      (∀ c ∈ Text.of ".x", Steady (c, c)) ∧ ∀ c ∈ Text.of "y", Steady (c, c) := by decide
  refine ⟨m, hm, haccepts (fun _ => rfl) fun _ => ?_⟩
  simpa [Pattern.Condensable, Pattern.Every, NodesEvery, Node.Every, BranchesEvery, Node.Condensable, hcomma, hclass,
    and_assoc] using hletters

/-- Where case is ignored, `𐐀` is not matched by `{𐐀,x}`, of which the alternatives are run as a set, but by `𐐀`.  Under
the rule for dots `b𐐀` is matched by `{,b}{[a],𐐀}`, where a guard keeps the alternatives apart, but neither by `{[a],𐐀}`
nor by `b{[a],𐐀}`, where there is none. -/
theorem capital_not_expanded :
    (Expandable [] [] [Text.of "𐐀", Text.of "x"] ∧ ∃ m m',
      Matcher.ofPattern? ⟨false, true, false⟩ (braced [] [] [Text.of "𐐀", Text.of "x"]) = .ok m ∧
      Matcher.ofPattern? ⟨false, true, false⟩ ([] ++ Text.of "𐐀" ++ []) = .ok m' ∧
      m.accepts (Text.of "𐐀") = false ∧ m'.accepts (Text.of "𐐀") = true) ∧
    (Expandable [] (Text.of "\x7b[a],𐐀\x7d") [[], Text.of "b"] ∧ ∃ m n n',
      Matcher.ofPattern? ⟨false, true, true⟩ (braced [] (Text.of "\x7b[a],𐐀\x7d") [[], Text.of "b"]) = .ok m ∧
      Matcher.ofPattern? ⟨false, true, true⟩ ([] ++ [] ++ Text.of "\x7b[a],𐐀\x7d") = .ok n ∧
      Matcher.ofPattern? ⟨false, true, true⟩ ([] ++ Text.of "b" ++ Text.of "\x7b[a],𐐀\x7d") = .ok n' ∧
      m.accepts (Text.of "b𐐀") = true ∧ n.accepts (Text.of "b𐐀") = false ∧ n'.accepts (Text.of "b𐐀") = false) := by
  have hletters : Expandable [] [] [Text.of "𐐀", Text.of "x"] :=
    { nonempty := by simp
      parses := by simpa using ⟨⟨_, rfl⟩, ⟨_, rfl⟩, ⟨_, rfl⟩⟩
      starless := by decide +kernel
      before := by decide
      behind := by decide
      braceless := by decide }
  have hbehind : Expandable [] (Text.of "\x7b[a],𐐀\x7d") [[], Text.of "b"] :=
    { nonempty := by simp
      parses := by simpa using ⟨⟨_, rfl⟩, ⟨_, rfl⟩, ⟨_, rfl⟩, ⟨_, rfl⟩⟩
      starless := by decide +kernel
      before := by decide
      behind := by decide
      braceless := by decide }
  have hm : Pattern.parse (braced [] (Text.of "\x7b[a],𐐀\x7d") [[], Text.of "b"]) =
      .ok ⟨Text.of "\x7b,b\x7d\x7b[a],𐐀\x7d", [⟨[.alternation [[], [.literal [0x62] ⟨2, 3⟩]] ⟨0, 4⟩,
        .alternation [[.set false [(0x61, 0x61)] ⟨5, 8⟩], [.literal [0x10400] ⟨9, 10⟩]] ⟨4, 11⟩], ⟨0, 11⟩⟩]⟩ := rfl
  have hn : Pattern.parse ([] ++ [] ++ Text.of "\x7b[a],𐐀\x7d") = .ok ⟨Text.of "\x7b[a],𐐀\x7d",
      [⟨[.alternation [[.set false [(0x61, 0x61)] ⟨1, 4⟩], [.literal [0x10400] ⟨5, 6⟩]] ⟨0, 7⟩], ⟨0, 7⟩⟩]⟩ := rfl
  have hn' : Pattern.parse ([] ++ Text.of "b" ++ Text.of "\x7b[a],𐐀\x7d") = .ok ⟨Text.of "b\x7b[a],𐐀\x7d",
      [⟨[.literal [0x62] ⟨0, 1⟩,
        .alternation [[.set false [(0x61, 0x61)] ⟨2, 5⟩], [.literal [0x10400] ⟨6, 7⟩]] ⟨1, 8⟩], ⟨0, 8⟩⟩]⟩ := rfl
  refine ⟨⟨hletters, _, _, rfl, rfl, rfl, rfl⟩, hbehind, _, _, _, ofPattern?_of_parse hm _, ofPattern?_of_parse hn _,
    ofPattern?_of_parse hn' _, ?_, ?_, ?_⟩
  · decide +kernel
  · decide +kernel
  · decide +kernel

end Glob
