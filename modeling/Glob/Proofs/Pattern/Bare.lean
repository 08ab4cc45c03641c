import Glob.Proofs.Pattern.Reference
import Glob.Proofs.Pattern.Resume
/-!
# Reading at another place

Where in a pattern a part of it stands makes no difference to the tokens and nodes that it is read as, apart from their
spans.  `bare` takes the spans and offsets away, from nodes, tokens, the states of the scanner and the builder;
`step_bare` and `Builder.step_bare` say that it commutes with a step of either machine, and `feed_congr` that builders
which are the same without places stay so over tokens which are.  The builder's segments are left out as well: they are
added to, but not looked at by anything that is not a segment.
-/
namespace Glob

def nowhere : Span := ⟨0, 0⟩

/-! ## Nodes -/

mutual

def Node.bare : Node → Node
  | .literal text _ => .literal text nowhere
  | .anyChar _ => .anyChar nowhere
  | .star _ => .star nowhere
  | .doubleStar _ => .doubleStar nowhere
  | .set negated items _ => .set negated items nowhere
  | .alternation branches _ => .alternation (branchesBare branches) nowhere

def nodesBare : List Node → List Node
  | [] => []
  | n :: ns => n.bare :: nodesBare ns

def branchesBare : List (List Node) → List (List Node)
  | [] => []
  | b :: bs => nodesBare b :: branchesBare bs

end

theorem nodesBare_eq_map (ns : List Node) : nodesBare ns = ns.map Node.bare := by
  induction ns with
  | nil => rfl
  | cons n ns ih => rw [nodesBare, ih, List.map_cons]

theorem nodesBare_reverse (ns : List Node) : nodesBare ns.reverse = (nodesBare ns).reverse := by
  simp only [nodesBare_eq_map, List.map_reverse]

theorem nodesBare_append (ns ns' : List Node) : nodesBare (ns ++ ns') = nodesBare ns ++ nodesBare ns' := by
  simp only [nodesBare_eq_map, List.map_append]

theorem branchesBare_eq_map (bs : List (List Node)) : branchesBare bs = bs.map nodesBare := by
  induction bs with
  | nil => rfl
  | cons b bs ih => rw [branchesBare, ih, List.map_cons]

theorem branchesBare_append (bs bs' : List (List Node)) :
    branchesBare (bs ++ bs') = branchesBare bs ++ branchesBare bs' := by
  simp only [branchesBare_eq_map, List.map_append]

theorem branchesBare_reverse (bs : List (List Node)) : branchesBare bs.reverse = (branchesBare bs).reverse := by
  simp only [branchesBare_eq_map, List.map_reverse]

mutual

theorem Node.bare_bare : (n : Node) → n.bare.bare = n.bare
  | .literal _ _ | .anyChar _ | .star _ | .doubleStar _ | .set _ _ _ => rfl
  | .alternation bs _ => congrArg (Node.alternation · nowhere) (branchesBare_bare bs)

theorem nodesBare_bare : (ns : List Node) → nodesBare (nodesBare ns) = nodesBare ns
  | [] => rfl
  | n :: ns => congrArg₂ List.cons n.bare_bare (nodesBare_bare ns)

theorem branchesBare_bare : (bs : List (List Node)) → branchesBare (branchesBare bs) = branchesBare bs
  | [] => rfl
  | b :: bs => congrArg₂ List.cons (nodesBare_bare b) (branchesBare_bare bs)

end

mutual

theorem Node.takes_bare (o : Options) (c : Text) : (n : Node) → {i j : Nat} → (n.bare.Takes o c i j ↔ n.Takes o c i j)
  | .literal _ _, _, _ | .anyChar _, _, _ | .star _, _, _ | .doubleStar _, _, _ | .set _ _ _, _, _ => Iff.rfl
  | .alternation bs _, _, _ => branchesTake_bare o c bs

theorem nodesTake_bare (o : Options) (c : Text) :
    (ns : List Node) → {i j : Nat} → (nodesTake o c (nodesBare ns) i j ↔ nodesTake o c ns i j)
  | [], _, _ => Iff.rfl
  | n :: ns, _, _ => exists_congr fun _ => and_congr (n.takes_bare o c) (nodesTake_bare o c ns)

theorem branchesTake_bare (o : Options) (c : Text) :
    (bs : List (List Node)) → {i j : Nat} → (branchesTake o c (branchesBare bs) i j ↔ branchesTake o c bs i j)
  | [], _, _ => Iff.rfl
  | b :: bs, _, _ => or_congr (nodesTake_bare o c b) (branchesTake_bare o c bs)

end

/-- Nodes that are the same without spans take the same. -/
theorem nodesTake_congr {o : Options} {c : Text} {ns ns' : List Node} (h : nodesBare ns = nodesBare ns') {i j : Nat} :
    nodesTake o c ns i j ↔ nodesTake o c ns' i j := by
  rw [← nodesTake_bare, h, nodesTake_bare]

/-! ## Segments and trees -/

def Segment.bare (s : Segment) : Segment := ⟨nodesBare s.nodes, nowhere⟩

/-- The tree without spans, and without the text that it was read from. -/
def Pattern.bare (p : Pattern) : Pattern := ⟨[], p.segments.map Segment.bare⟩

theorem Segment.isRecursive_congr {s s' : Segment} (h : nodesBare s.nodes = nodesBare s'.nodes) :
    s.isRecursive = s'.isRecursive := by
  have hbare : ∀ s : Segment, s.isRecursive = Segment.isRecursive ⟨nodesBare s.nodes, s.span⟩ := by
    rintro ⟨ns, span⟩
    match ns with
    | [] => rfl
    | [n] => cases n <;> rfl
    | n :: _ :: _ => cases n <;> rfl
  rw [hbare, h, hbare s']
  rfl

/-! ## The scanner -/

def Token.bare (t : Token) : Token := { t with span := nowhere }

namespace Scanner

def Member.bare (m : Member) : Member := { m with start := 0 }

def Mode.bare : Mode → Mode
  | .run _ chars => .run 0 chars
  | .star _ => .star 0
  | .escape _ => .escape 0
  | .memberEscape _ => .memberEscape 0
  | .member m => .member m.bare
  | .dash m => .dash m.bare
  | .rangeEscape m _ => .rangeEscape m.bare 0
  | mode => mode

def State.bare (s : State) : State := ⟨0, s.depth, s.mode.bare⟩

def bareStep (r : List Token × State) : List Token × State := (r.1.map Token.bare, r.2.bare)

theorem bareStep_after {tokens tokens' : List Token} {r r' : List Token × State}
    (htokens : tokens.map Token.bare = tokens'.map Token.bare) (h : bareStep r = bareStep r') :
    bareStep (State.after tokens r) = bareStep (State.after tokens' r') := by
  simp only [bareStep, State.after, List.map_append, Prod.mk.injEq] at h ⊢
  exact ⟨by rw [htokens, h.1], h.2⟩

theorem outside_bare {s s' : State} (h : s.depth = s'.depth) (c : CodePoint) :
    bareStep (s.outside c) = bareStep (s'.outside c) := by
  unfold State.outside
  rw [h]
  split <;> simp [bareStep, State.next, State.bare, State.single, Token.bare, Mode.bare, h]

theorem member_bare {s s' : State} (h : s.depth = s'.depth) (c : CodePoint) :
    bareStep (s.member c) = bareStep (s'.member c) := by
  unfold State.member
  split <;> simp [bareStep, State.next, State.bare, Mode.bare, Member.bare, h]

theorem firstMember_bare {s s' : State} (h : s.depth = s'.depth) (c : CodePoint) :
    bareStep (s.firstMember c) = bareStep (s'.firstMember c) := by
  unfold State.firstMember
  split
  · exact outside_bare h c
  · exact member_bare h c

theorem members_bare {s s' : State} (h : s.depth = s'.depth) (c : CodePoint) :
    bareStep (s.members c) = bareStep (s'.members c) := by
  unfold State.members
  split
  · exact outside_bare h c
  · split
    · simp [bareStep, State.next, State.bare, State.single, Token.bare, Mode.bare, h]
    · exact member_bare h c

theorem memberToken_bare (m : Member) : m.bare.token.bare = m.token.bare := by
  obtain ⟨char, escaped, start⟩ := m
  cases escaped <;> rfl

/-- **A step of the scanner is the same at any place.** -/
theorem step_bare (s : State) (c : CodePoint) : bareStep (s.step c) = bareStep (s.bare.step c) := by
  obtain ⟨k, depth, mode⟩ := s
  cases mode with
  | text =>
    show bareStep (State.outside ⟨k, depth, .text⟩ c) = bareStep (State.outside ⟨0, depth, .text⟩ c)
    exact outside_bare (by rfl) c
  | run start chars =>
    show bareStep (if meaning depth c = .plain then _ else _) = bareStep (if meaning depth c = .plain then _ else _)
    split
    · rfl
    · exact bareStep_after rfl (outside_bare (by rfl) c)
  | star start =>
    show bareStep (if c = Mark.star then _ else _) = bareStep (if c = Mark.star then _ else _)
    split
    · rfl
    · exact bareStep_after rfl (outside_bare (by rfl) c)
  | escape start => rfl
  | classOpened =>
    show bareStep (if c = Mark.exclamation ∨ c = Mark.caret then _ else _) =
      bareStep (if c = Mark.exclamation ∨ c = Mark.caret then _ else _)
    split
    · rfl
    · exact firstMember_bare (by rfl) c
  | firstMember =>
    show bareStep (State.firstMember ⟨k, depth, .firstMember⟩ c) =
      bareStep (State.firstMember ⟨0, depth, .firstMember⟩ c)
    exact firstMember_bare (by rfl) c
  | members =>
    show bareStep (State.members ⟨k, depth, .members⟩ c) = bareStep (State.members ⟨0, depth, .members⟩ c)
    exact members_bare (by rfl) c
  | memberEscape start => rfl
  | member m =>
    show bareStep (if c = Mark.dash then _ else _) = bareStep (if c = Mark.dash then _ else _)
    split
    · rfl
    · exact bareStep_after (by simp [memberToken_bare]) (members_bare (by rfl) c)
  | dash m =>
    show bareStep (if c = Mark.slash ∨ c = Mark.closeBracket then _ else if c = Mark.backslash then _ else _) =
      bareStep (if c = Mark.slash ∨ c = Mark.closeBracket then _ else if c = Mark.backslash then _ else _)
    split
    · refine bareStep_after ?_ (members_bare (by rfl) c)
      rw [List.map_cons, ← memberToken_bare]
      rfl
    · split <;> rfl
  | rangeEscape m place => rfl

/-- States that are the same at another place. -/
theorem step_congr {s s' : State} (h : s.bare = s'.bare) (c : CodePoint) :
    bareStep (s.step c) = bareStep (s'.step c) := by
  rw [step_bare, h, ← step_bare]

def State.pendingBare (s : State) : Option (List Token) :=
  match s.pending with
  | .ok tokens => some (tokens.map Token.bare)
  | .error _ => none

theorem pending_bare (s : State) : s.pendingBare = s.bare.pendingBare := by
  obtain ⟨k, depth, mode⟩ := s
  cases mode with
  | member m =>
    show some ([m.token].map Token.bare) = some ([m.bare.token].map Token.bare)
    rw [List.map_singleton, List.map_singleton, memberToken_bare]
  | dash m =>
    show some [m.token.bare, (dashToken 0).bare] = some [m.bare.token.bare, (dashToken 0).bare]
    rw [memberToken_bare]
  | _ => rfl

theorem pending_congr {s s' : State} (h : s.bare = s'.bare) {tokens : List Token} (hp : s.pending = .ok tokens) :
    ∃ tokens', s'.pending = .ok tokens' ∧ tokens.map Token.bare = tokens'.map Token.bare := by
  have hbare : s.pendingBare = s'.pendingBare := by rw [pending_bare, h, ← pending_bare]
  unfold State.pendingBare at hbare
  rw [hp] at hbare
  cases hp' : s'.pending with
  | error place =>
    rw [hp'] at hbare
    cases hbare
  | ok tokens' =>
    rw [hp'] at hbare
    exact ⟨tokens', rfl, Option.some.inj hbare⟩

end Scanner

/-! ## The builder -/

namespace Parser

def OpenClass.bare (c : OpenClass) : OpenClass := { c with opener := nowhere }

def OpenBrace.bare (brace : OpenBrace) : OpenBrace :=
  ⟨nowhere, nodesBare brace.before, branchesBare brace.branches⟩

/-- The builder without places, and without its segments. -/
def Builder.bare (b : Builder) : Builder :=
  ⟨[], [], none, b.braces.map OpenBrace.bare, nodesBare b.nodes, b.openClass.map OpenClass.bare⟩

def Outcome.bare : Outcome → Outcome
  | .more b => .more b.bare
  | .done _ => .done []
  | .failed _ => .failed .endless

theorem OpenClass.bare_bare (c : OpenClass) : c.bare.bare = c.bare := rfl

theorem OpenBrace.bare_bare (brace : OpenBrace) : brace.bare.bare = brace.bare := by
  simp only [OpenBrace.bare, nodesBare_bare, branchesBare_bare]

theorem addLiteral_bare (nodes : List Node) (text : Text) (span : Span) :
    nodesBare (addLiteral nodes text span) = nodesBare (addLiteral (nodesBare nodes) text nowhere) := by
  cases nodes with
  | nil => rfl
  | cons n nodes =>
    cases n <;> simp [addLiteral, nodesBare, Node.bare, nodesBare_bare, branchesBare_bare]

theorem demote_bare (n : Node) : nodesBare (demote n) = nodesBare (demote n.bare) := by
  cases n with
  | alternation bs span => simp [demote, nodesBare, Node.bare, branchesBare_bare]
  | _ => rfl

theorem flatMap_demote_bare (ns : List Node) :
    nodesBare (ns.flatMap demote) = nodesBare ((nodesBare ns).flatMap demote) := by
  induction ns with
  | nil => rfl
  | cons n ns ih =>
    rw [nodesBare, List.flatMap_cons, List.flatMap_cons, nodesBare_append, nodesBare_append, ih, demote_bare]

theorem demoteDoubleStars_bare (ns : List Node) :
    nodesBare (demoteDoubleStars ns) = nodesBare (demoteDoubleStars (nodesBare ns)) :=
  match ns with
  | [] => rfl
  | [n] => (nodesBare_bare [n]).symm
  | n :: m :: ns => flatMap_demote_bare (n :: m :: ns)

theorem demote_congr {ns ns' : List Node} (h : nodesBare ns = nodesBare ns') :
    nodesBare (demoteDoubleStars ns) = nodesBare (demoteDoubleStars ns') := by
  rw [demoteDoubleStars_bare, h, ← demoteDoubleStars_bare]

namespace Builder

theorem bare_bare (b : Builder) : b.bare.bare = b.bare := by
  simp [Builder.bare, OpenBrace.bare_bare, nodesBare_bare, OpenClass.bare_bare, Function.comp_def]

theorem pushLiteral_bare (b : Builder) (t : Token) : (b.pushLiteral t).bare = (b.bare.pushLiteral t.bare).bare := by
  have hnodes := addLiteral_bare b.nodes t.text t.span
  unfold pushLiteral Builder.bare
  rw [hnodes]
  simp [Token.bare, OpenBrace.bare_bare, OpenClass.bare_bare, Function.comp_def]

theorem bare_eq_iff {b d : Builder} :
    b.bare = d.bare ↔
      b.braces.map OpenBrace.bare = d.braces.map OpenBrace.bare ∧ nodesBare b.nodes = nodesBare d.nodes ∧
        b.openClass.map OpenClass.bare = d.openClass.map OpenClass.bare := by
  simp [Builder.bare]

theorem classStep_bare (b : Builder) (c : OpenClass) (t : Token) :
    (b.classStep c t).bare = (b.bare.classStep c.bare t.bare).bare := by
  have hkind : t.bare.kind = t.kind := rfl
  have hends : t.bare.ends? = t.ends? := rfl
  unfold classStep
  rw [hkind, hends]
  cases t.kind with
  | classRange =>
    cases t.ends? with
    | none => rfl
    | some ends =>
      simp only
      split
      · rfl
      · simp [Outcome.bare, Builder.bare, OpenClass.bare, nodesBare_bare, OpenBrace.bare_bare]
  | classNegate =>
    cases hfresh : c.fresh with
    | true => simp [Outcome.bare, Builder.bare, OpenClass.bare, hfresh, nodesBare_bare, OpenBrace.bare_bare]
    | false => simp [Outcome.bare, OpenClass.bare, hfresh]
  | _ =>
    simp [Outcome.bare, Builder.bare, OpenClass.bare, Token.bare, nodesBare, Node.bare, nodesBare_bare,
      OpenBrace.bare_bare]

theorem stopAt_bare (b : Builder) (t : Token) : (b.stopAt t).bare = (b.bare.stopAt t.bare).bare := by
  have hkind : t.bare.kind = t.kind := rfl
  have hends : t.bare.ends? = t.ends? := rfl
  obtain ⟨source, segments, segmentStart, braces, nodes, openClass⟩ := b
  cases braces with
  | cons brace outer => rfl
  | nil =>
    unfold stopAt
    rw [hkind, hends]
    cases t.kind with
    | classRange => cases t.ends? <;> rfl
    | _ => rfl

theorem sequenceStep_bare {b : Builder} (h : b.openClass = none) (t : Token) :
    (b.sequenceStep t).bare = (b.bare.sequenceStep t.bare).bare := by
  obtain ⟨source, segments, segmentStart, braces, nodes, openClass⟩ := b
  obtain rfl : openClass = none := h
  obtain ⟨kind, text, span⟩ := t
  cases kind with
  | literal | escaped => exact congrArg Outcome.more (pushLiteral_bare _ _)
  | star | question | classOpen =>
    refine congrArg Outcome.more (bare_eq_iff.2 ⟨?_, ?_, rfl⟩) <;>
      simp [push, Builder.bare, OpenBrace.bare_bare, nodesBare, Node.bare, nodesBare_bare]
  | braceOpen =>
    refine congrArg Outcome.more (bare_eq_iff.2 ⟨?_, rfl, rfl⟩)
    simp [Builder.bare, OpenBrace.bare, nodesBare_bare, branchesBare_bare, branchesBare]
  | doubleStar =>
    cases braces with
    | nil =>
      refine congrArg Outcome.more (bare_eq_iff.2 ⟨rfl, ?_, rfl⟩)
      simp [push, Builder.bare, nodesBare, Node.bare, nodesBare_bare]
    | cons brace outer =>
      refine congrArg Outcome.more (bare_eq_iff.2 ⟨?_, ?_, rfl⟩) <;>
        simp [Builder.bare, OpenBrace.bare_bare, Node.twoStars, nodesBare, Node.bare, nodesBare_bare]
  | braceComma =>
    cases braces with
    | nil => exact congrArg Outcome.more (pushLiteral_bare _ _)
    | cons brace outer =>
      refine congrArg Outcome.more (bare_eq_iff.2 ⟨?_, rfl, rfl⟩)
      simp [Builder.bare, OpenBrace.bare, branchesBare, nodesBare_reverse, nodesBare_bare, branchesBare_bare]
  | braceClose =>
    cases braces with
    | nil => exact congrArg Outcome.more (pushLiteral_bare _ _)
    | cons brace outer =>
      refine congrArg Outcome.more (bare_eq_iff.2 ⟨?_, ?_, rfl⟩)
      · simp [OpenBrace.bare_bare]
      · simp [Builder.bare, OpenBrace.bare, nodesBare, Node.bare, branchesBare, branchesBare_append,
          branchesBare_reverse, nodesBare_reverse, nodesBare_bare, branchesBare_bare]
  | separator =>
    cases braces with
    | nil => rfl
    | cons brace outer => exact congrArg Outcome.more (pushLiteral_bare _ _)
  | classClose | classNegate | classRange | finish =>
    unfold sequenceStep
    exact stopAt_bare _ _

/-- **A step of the builder is the same without places.** -/
theorem step_bare (b : Builder) (t : Token) : (b.step t).bare = (b.bare.step t.bare).bare := by
  cases hc : b.openClass with
  | some c =>
    have hc' : b.bare.openClass = some c.bare := by rw [Builder.bare, hc]; rfl
    unfold step
    rw [hc, hc']
    exact classStep_bare b c t
  | none =>
    have hc' : b.bare.openClass = none := by rw [Builder.bare, hc]; rfl
    have hleft := sequenceStep_bare (b := b.begun t.span.start) hc t
    have hright := sequenceStep_bare (b := b.bare.begun t.bare.span.start) hc' t.bare
    have hsame : (b.bare.begun t.bare.span.start).bare = (b.begun t.span.start).bare := bare_bare b
    rw [step_outside hc, step_outside hc', hleft, hright, hsame]
    rfl

/-- Builders that are the same without places take the same tokens. -/
theorem feed_congr {b d b' : Builder} {tokens tokens' : List Token} (h : b.bare = d.bare)
    (htokens : tokens.map Token.bare = tokens'.map Token.bare) (hb : b.feed tokens = some b') :
    ∃ d', d.feed tokens' = some d' ∧ b'.bare = d'.bare := by
  induction tokens generalizing b d tokens' with
  | nil =>
    obtain rfl : tokens' = [] := List.map_eq_nil_iff.1 htokens.symm
    obtain rfl : b = b' := Option.some.inj hb
    exact ⟨d, rfl, h⟩
  | cons t tokens ih =>
    obtain ⟨t', tokens', rfl, ht, htokens⟩ := List.map_eq_cons_iff.1 htokens.symm
    have hstep : (b.step t).bare = (d.step t').bare := by rw [step_bare, h, ← ht, ← step_bare]
    rw [feed] at hb ⊢
    cases hleft : b.step t with
    | more next =>
      rw [hleft] at hb hstep
      cases hright : d.step t' with
      | more next' =>
        rw [hright] at hstep
        exact ih (Outcome.more.inj hstep) htokens.symm hb
      | done _ | failed _ =>
        rw [hright] at hstep
        cases hstep
    | done _ | failed _ =>
      rw [hleft] at hb
      cases hb

end Builder

end Parser

end Glob
