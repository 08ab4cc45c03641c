import Glob.Proofs.Pattern.ClassText
import Glob.Proofs.Text.Pieces
import Glob.Proofs.Token.Depth
import Mathlib.Data.List.Chain
/-!
# Tokens tile the pattern

The tokens of a pattern lie along it without a gap.  Each has the text under its span, but for an escaped character,
which has the character alone, and a range, which has its two ends (`Token.ReadFrom`).  So the pattern can be put
together again from the spans.

Between two characters the scanner has the text pending that was read since the last token ended; the mode tells which
text this is (`Pending`).  A step moves text from what is pending to the tokens and loses none (`step_tiles`), and what
is pending at the end becomes the last tokens (`pending_tiles`).

A run of plain characters is one token: outside classes, where every member is a token of its own, no literal token
comes right behind another one (`Parted`).
-/
namespace Glob

open Reading (MemberText RangeText)

/-- The token is read from this text of the pattern. -/
structure Token.ReadFrom (t : Token) (w : Text) : Prop where
  /-- Only the end of the pattern has no text. -/
  finish : t.kind = .finish ↔ w = []
  same : t.kind ≠ .escaped → t.kind ≠ .classRange → t.text = w
  escaped : t.kind = .escaped → ∃ c, t.text = [c] ∧ w = [Mark.backslash, c]
  range : t.kind = .classRange → ∃ lo hi, t.text = [lo, hi] ∧ RangeText w lo hi

/-- Whether a class is open behind a token of the kind.  A separator ends a class that has no closing bracket. -/
def Token.Kind.classAfter (inside : Bool) : Token.Kind → Bool
  | .classOpen => true
  | .classClose | .separator => false
  | _ => inside

def classAfter (inside : Bool) (tokens : List Token) : Bool := tokens.foldl (fun b t => t.kind.classAfter b) inside

namespace Scanner

variable {s : State} {c : CodePoint} {k : Nat} {w v : Text} {t : Token} {tokens more : List Token}

/-! ## Tokens along a text -/

/-- The tokens lie one behind the other from offset `k` on, and together they are read from the text. -/
inductive Tiles : Nat → List Token → Text → Prop
  | nil (k : Nat) : Tiles k [] []
  | cons {k : Nat} {t : Token} {tokens : List Token} {w v : Text} (hspan : t.span = Span.sized k w.length)
    (ht : t.ReadFrom w) (rest : Tiles (k + w.length) tokens v) : Tiles k (t :: tokens) (w ++ v)

theorem Tiles.one (hspan : t.span = Span.sized k w.length) (ht : t.ReadFrom w) : Tiles k [t] w := by
  have h := Tiles.cons hspan ht (.nil _)
  rwa [List.append_nil] at h

theorem Tiles.append (h : Tiles k tokens w) (hmore : Tiles (k + w.length) more v) :
    Tiles k (tokens ++ more) (w ++ v) := by
  induction h with
  | nil => exact hmore
  | cons hspan ht rest ih =>
    rw [List.length_append, ← Nat.add_assoc] at hmore
    rw [List.cons_append, List.append_assoc]
    exact .cons hspan ht (ih hmore)

/-- The first token begins where the text does, and every other one where the one before it ends. -/
theorem Tiles.contiguous (h : Tiles k tokens w) :
    (∀ t ∈ tokens.head?, t.span.start = k) ∧ tokens.IsChain fun t t' => t'.span.start = t.span.stop := by
  induction h with
  | nil => exact ⟨nofun, .nil⟩
  | cons hspan ht rest ih =>
    obtain ⟨hhead, hchain⟩ := ih
    refine ⟨?_, List.isChain_cons.2 ⟨?_, hchain⟩⟩
    · rintro _ ⟨⟩
      rw [hspan]
      rfl
    · intro t' ht'
      rw [hspan, hhead t' ht']
      exact Int.natCast_add _ _

theorem extract_sized {p u : Text} (h : p.drop k = w ++ u) : (Span.sized k w.length).extract p = w := by
  have heq : Span.sized k w.length = ⟨k, (k + w.length : Nat)⟩ := by simp [Span.sized]
  rw [heq]
  exact Span.extract_of_drop h

/-- In a pattern that has the text at offset `k`, every token is read from the text under its span. -/
theorem Tiles.read {p u : Text} (h : Tiles k tokens w) (hp : p.drop k = w ++ u) :
    ∀ t ∈ tokens, t.ReadFrom (t.span.extract p) ∧ (t.kind ≠ .finish → t.span.start < t.span.stop) := by
  induction h with
  | nil => exact List.forall_mem_nil _
  | @cons k t tokens w v hspan ht rest ih =>
    rw [List.append_assoc] at hp
    refine List.forall_mem_cons.2 ⟨⟨?_, ?_⟩, ih ?_⟩
    · rwa [hspan, extract_sized hp]
    · intro hkind
      have hw : 0 < w.length := List.length_pos_iff.2 fun hnil => hkind (ht.finish.2 hnil)
      rw [hspan]
      simp only [Span.sized]
      omega
    · rw [← List.drop_drop, hp, List.drop_left]

/-- The texts under the spans are the whole text. -/
theorem Tiles.flatten {p u : Text} (h : Tiles k tokens w) (hp : p.drop k = w ++ u) :
    (tokens.map fun t => t.span.extract p).flatten = w := by
  induction h with
  | nil => rfl
  | @cons k t tokens w v hspan ht rest ih =>
    rw [List.append_assoc] at hp
    have hv : p.drop (k + w.length) = v ++ u := by rw [← List.drop_drop, hp, List.drop_left]
    rw [List.map_cons, List.flatten_cons, hspan, extract_sized hp, ih hv]

/-! ## What is pending -/

/-- A member that begins at offset `k`, and the text that it is read from. -/
inductive Member.From (k : Nat) : Member → Text → Prop
  | raw {c : CodePoint} (hslash : c ≠ Mark.slash) (hback : c ≠ Mark.backslash) : From k ⟨c, false, k⟩ [c]
  | escaped (c : CodePoint) : From k ⟨c, true, k⟩ [Mark.backslash, c]

/-- What the scanner has read since the last token ended, at offset `k`. -/
inductive Pending (k : Nat) : Mode → Text → Prop
  | text : Pending k .text []
  | run {chars : Text} (h : chars ≠ []) : Pending k (.run k chars) chars.reverse
  | star : Pending k (.star k) [Mark.star]
  | escape : Pending k (.escape k) [Mark.backslash]
  | classOpened : Pending k .classOpened []
  | firstMember : Pending k .firstMember []
  | members : Pending k .members []
  | memberEscape : Pending k (.memberEscape k) [Mark.backslash]
  | member {m : Member} {w : Text} (hm : m.From k w) : Pending k (.member m) w
  | dash {m : Member} {w : Text} (hm : m.From k w) : Pending k (.dash m) (w ++ [Mark.dash])
  | rangeEscape {m : Member} {w : Text} (hm : m.From k w) (place : Nat) :
    Pending k (.rangeEscape m place) (w ++ [Mark.dash, Mark.backslash])

/-- The text is pending in the state, from offset `k` on. -/
structure State.Holds (s : State) (k : Nat) (w : Text) : Prop where
  pending : Pending k s.mode w
  offset : s.offset = k + w.length

/-- The tokens, and behind them what is pending in the state, are read from the text. -/
def Continues (k : Nat) (w : Text) (r : List Token × State) : Prop :=
  ∃ v u, w = v ++ u ∧ Tiles k r.1 v ∧ r.2.Holds (k + v.length) u

theorem Continues.after {r : List Token × State} (h : Tiles k tokens w) (hr : Continues (k + w.length) v r) :
    Continues k (w ++ v) (State.after tokens r) := by
  obtain ⟨v, u, rfl, htiles, hholds⟩ := hr
  refine ⟨w ++ v, u, (List.append_assoc w v u).symm, h.append htiles, ?_⟩
  rwa [List.length_append, ← Nat.add_assoc]

theorem continues_none (hmode : Pending k s.mode w) (hoffset : s.offset = k + w.length) : Continues k w ([], s) :=
  ⟨[], w, rfl, .nil k, hmode, hoffset⟩

theorem continues_one (h : Tiles k [t] w) (hmode : Pending (k + w.length) s.mode []) (hoffset : s.offset = k + w.length) :
    Continues k w ([t], s) :=
  ⟨w, [], (List.append_nil w).symm, h, hmode, hoffset⟩

/-! ## The tokens -/

theorem tiles_same (hspan : t.span = Span.sized k t.text.length) (htext : t.text ≠ [])
    (hkind : t.kind ∉ [Token.Kind.finish, .escaped, .classRange]) : Tiles k [t] t.text := by
  simp only [List.mem_cons, List.not_mem_nil, or_false, not_or] at hkind
  obtain ⟨hfinish, hescaped, hrange⟩ := hkind
  exact .one hspan ⟨iff_of_false hfinish htext, fun _ _ => rfl, fun h => absurd h hescaped, fun h => absurd h hrange⟩

theorem escaped_tiles (k : Nat) (c : CodePoint) :
    Tiles k [⟨.escaped, [c], Span.sized k 2⟩] [Mark.backslash, c] :=
  .one rfl ⟨iff_of_false nofun nofun, fun h => absurd rfl h, fun _ => ⟨c, rfl, rfl⟩, nofun⟩

theorem runToken_tiles {chars : Text} (h : chars ≠ []) : Tiles k [runToken k chars] chars.reverse := by
  apply tiles_same (t := runToken k chars)
  · simp [runToken]
  · simpa [runToken] using h
  · simp [runToken]

theorem starToken_tiles (k : Nat) : Tiles k [starToken k] [Mark.star] :=
  tiles_same (t := starToken k) rfl (List.cons_ne_nil _ _) (by simp [starToken])

theorem dashToken_tiles (k : Nat) : Tiles k [dashToken k] [Mark.dash] :=
  tiles_same (t := dashToken k) rfl (List.cons_ne_nil _ _) (by simp [dashToken])

theorem Member.From.memberText {m : Member} (h : m.From k w) : MemberText w m.char := by
  cases h with
  | raw hslash hback => exact .raw hslash hback
  | escaped c => exact .escaped c

theorem Member.From.start {m : Member} (h : m.From k w) : m.start = k := by
  cases h <;> rfl

theorem Member.From.tiles {m : Member} (h : m.From k w) : Tiles k [m.token] w := by
  cases h with
  | raw => exact tiles_same (t := ⟨.literal, _, Span.sized k 1⟩) rfl (List.cons_ne_nil _ _) (by simp)
  | escaped c => exact escaped_tiles k c

theorem Member.From.range {m : Member} {hi : CodePoint} {stop : Nat} (h : m.From k w) (hv : MemberText v hi)
    (hstop : stop = k + (w ++ Mark.dash :: v).length) : Tiles k [m.range hi stop] (w ++ Mark.dash :: v) := by
  refine .one ?_ ⟨iff_of_false nofun ?_, fun _ h => absurd rfl h, nofun, fun _ => ?_⟩
  · simp [Member.range, Span.sized, h.start, hstop]
  · simp
  · exact ⟨m.char, hi, rfl, w, v, h.memberText, hv, rfl⟩

theorem Member.From.dash {m : Member} {offset : Nat} (h : m.From k w) (hoffset : offset = k + (w ++ [Mark.dash]).length) :
    Tiles k [m.token, dashToken (offset - 1)] (w ++ [Mark.dash]) := by
  have hlast : offset - 1 = k + w.length := by
    rw [hoffset, List.length_append]
    rfl
  rw [hlast]
  exact h.tiles.append (dashToken_tiles _)

/-! ## One step -/

theorem single_tiles {kind : Token.Kind} (hk : s.offset = k)
    (hkind : kind ∉ [Token.Kind.finish, .escaped, .classRange]) : Tiles k [s.single kind c] [c] := by
  subst hk
  exact tiles_same (t := s.single kind c) rfl (List.cons_ne_nil _ _) hkind

theorem single_continues {kind : Token.Kind} {s' : State} (hk : s.offset = k)
    (hkind : kind ∉ [Token.Kind.finish, .escaped, .classRange]) (hmode : Pending (k + 1) s'.mode [])
    (hoffset : s'.offset = k + 1) : Continues k [c] ([s.single kind c], s') :=
  continues_one (single_tiles hk hkind) hmode hoffset

theorem meaning_eq_star {depth : Nat} (h : meaning depth c = .star) : c = Mark.star := by
  unfold meaning at h
  split at h
  all_goals first | rfl | cases h | (split at h <;> cases h)

theorem outside_continues (hk : s.offset = k) (c : CodePoint) : Continues k [c] (s.outside c) := by
  have hnext : s.offset + 1 = k + 1 := congrArg (· + 1) hk
  unfold State.outside
  cases hm : meaning s.depth c with
  | plain =>
    rw [hk]
    exact continues_none (.run (List.cons_ne_nil c [])) hnext
  | escape =>
    obtain rfl := meaning_eq_escape hm
    rw [hk]
    exact continues_none .escape hnext
  | star =>
    obtain rfl := meaning_eq_star hm
    rw [hk]
    exact continues_none .star hnext
  | classOpen => exact single_continues hk (by decide) .classOpened hnext
  | question | braceOpen | braceComma | braceClose | separator => exact single_continues hk (by decide) .text hnext

theorem member_continues (hk : s.offset = k) (hslash : c ≠ Mark.slash) : Continues k [c] (s.member c) := by
  have hnext : s.offset + 1 = k + 1 := congrArg (· + 1) hk
  unfold State.member
  rw [hk]
  by_cases hback : c = Mark.backslash
  · subst hback
    rw [if_pos rfl]
    exact continues_none .memberEscape hnext
  · rw [if_neg hback]
    exact continues_none (.member (.raw hslash hback)) hnext

theorem firstMember_continues (hk : s.offset = k) (c : CodePoint) : Continues k [c] (s.firstMember c) := by
  unfold State.firstMember
  by_cases hslash : c = Mark.slash
  · rw [if_pos hslash]
    exact outside_continues hk c
  · rw [if_neg hslash]
    exact member_continues hk hslash

theorem members_continues (hk : s.offset = k) (c : CodePoint) : Continues k [c] (s.members c) := by
  unfold State.members
  by_cases hslash : c = Mark.slash
  · rw [if_pos hslash]
    exact outside_continues hk c
  · rw [if_neg hslash]
    by_cases hclose : c = Mark.closeBracket
    · rw [if_pos hclose]
      exact single_continues hk (by decide) .text (congrArg (· + 1) hk)
    · rw [if_neg hclose]
      exact member_continues hk hslash

/-- **A step loses no text**: the tokens that it completes and what is pending behind them are what was pending before
and the character. -/
theorem step_tiles (h : s.Holds k w) (c : CodePoint) : Continues k (w ++ [c]) (s.step c) := by
  obtain ⟨offset, depth, mode⟩ := s
  obtain ⟨hpending, hoffset⟩ := h
  have hnext : offset + 1 = k + (w ++ [c]).length := by rw [List.length_append]; exact congrArg (· + 1) hoffset
  cases hpending with
  | text => exact outside_continues hoffset c
  | @run chars hchars =>
    show Continues _ _ (if meaning depth c = .plain then _ else _)
    by_cases hplain : meaning depth c = .plain
    · rw [if_pos hplain]
      have hmode : Pending k (.run k (c :: chars)) (chars.reverse ++ [c]) := by
        rw [← List.reverse_cons]
        exact .run (List.cons_ne_nil c chars)
      exact continues_none hmode hnext
    · rw [if_neg hplain]
      exact .after (runToken_tiles hchars) (outside_continues hoffset c)
  | star =>
    show Continues _ _ (if c = Mark.star then _ else _)
    by_cases hstar : c = Mark.star
    · subst hstar
      rw [if_pos rfl]
      exact continues_one (tiles_same (t := ⟨.doubleStar, [Mark.star, Mark.star], Span.sized k 2⟩) rfl
        (List.cons_ne_nil _ _) (by simp)) .text hnext
    · rw [if_neg hstar]
      exact .after (starToken_tiles k) (outside_continues hoffset c)
  | escape => exact continues_one (escaped_tiles k c) .text hnext
  | classOpened =>
    show Continues _ _ (if c = Mark.exclamation ∨ c = Mark.caret then _ else _)
    by_cases hneg : c = Mark.exclamation ∨ c = Mark.caret
    · rw [if_pos hneg]
      exact single_continues hoffset (by decide) .firstMember hnext
    · rw [if_neg hneg]
      exact firstMember_continues hoffset c
  | firstMember => exact firstMember_continues hoffset c
  | members => exact members_continues hoffset c
  | memberEscape => exact continues_none (.member (.escaped c)) hnext
  | @member m w hm =>
    show Continues _ _ (if c = Mark.dash then _ else _)
    by_cases hdash : c = Mark.dash
    · subst hdash
      rw [if_pos rfl]
      exact continues_none (.dash hm) hnext
    · rw [if_neg hdash]
      exact .after hm.tiles (members_continues hoffset c)
  | @dash m w hm =>
    show Continues _ _ (if c = Mark.slash ∨ c = Mark.closeBracket then _ else if c = Mark.backslash then _ else _)
    by_cases hend : c = Mark.slash ∨ c = Mark.closeBracket
    · rw [if_pos hend]
      exact .after (hm.dash hoffset) (members_continues hoffset c)
    · rw [if_neg hend]
      obtain ⟨hslash, -⟩ := not_or.1 hend
      by_cases hback : c = Mark.backslash
      · subst hback
        rw [if_pos rfl]
        rw [List.append_assoc] at hnext ⊢
        exact continues_none (.rangeEscape hm _) hnext
      · rw [if_neg hback]
        rw [List.append_assoc] at hnext ⊢
        exact continues_one (hm.range (.raw hslash hback) hnext) .members hnext
  | @rangeEscape m w hm place =>
    rw [List.append_assoc] at hnext ⊢
    exact continues_one (hm.range (.escaped c) hnext) .members hnext

/-! ## Whole patterns -/

theorem start_holds : start.Holds 0 [] := ⟨.text, rfl⟩

theorem run_tiles (h : s.Holds k w) (t : Text) : Continues k (w ++ t) (s.run t) := by
  induction t generalizing s k w with
  | nil =>
    rw [List.append_nil]
    exact continues_none h.pending h.offset
  | cons c t ih =>
    obtain ⟨v, u, heq, htiles, hholds⟩ := step_tiles h c
    have hw : w ++ c :: t = v ++ (u ++ t) := by rw [← List.append_assoc, ← heq, List.append_assoc]; rfl
    rw [hw]
    exact .after htiles (ih hholds)

/-- What is pending at the end becomes tokens as well. -/
theorem pending_tiles (h : s.Holds k w) (hp : s.pending = .ok tokens) : Tiles k tokens w := by
  obtain ⟨offset, depth, mode⟩ := s
  obtain ⟨hpending, hoffset⟩ := h
  cases hpending with
  | escape | memberEscape | rangeEscape => cases hp
  | text | classOpened | firstMember | members =>
    cases hp
    exact .nil k
  | run hchars =>
    cases hp
    exact runToken_tiles hchars
  | star =>
    cases hp
    exact starToken_tiles k
  | member hm =>
    cases hp
    exact hm.tiles
  | @dash m w hm =>
    cases hp
    exact hm.dash hoffset

/-! ## Literal runs -/

/-- Outside classes no literal token comes right behind another one; `inside` says whether a class is open in front of
the tokens, and `literal` whether a literal token is. -/
def Parted (inside literal : Bool) : List Token → Prop
  | [] => True
  | t :: tokens =>
    (t.kind = .literal → literal = true → inside = true) ∧ Parted (t.kind.classAfter inside) (t.kind = .literal) tokens

theorem Parted.adjacent {inside literal : Bool} {before behind : List Token} {t' : Token}
    (h : Parted inside literal (before ++ t :: t' :: behind)) (ht : t.kind = .literal) (ht' : t'.kind = .literal) :
    classAfter inside before = true := by
  induction before generalizing inside literal with
  | nil =>
    obtain ⟨-, hbehind, -⟩ := h
    rw [ht] at hbehind
    exact hbehind ht' (decide_eq_true rfl)
  | cons t before ih => exact ih h.2

def Mode.inside : Mode → Bool
  | .text | .run _ _ | .star _ | .escape _ => false
  | .classOpened | .firstMember | .members | .memberEscape _ | .member _ | .dash _ | .rangeEscape _ _ => true

/-- What is pending becomes a token that is no literal. -/
def Mode.marked : Mode → Bool
  | .star _ | .escape _ => true
  | _ => false

/-- The tokens may come next. -/
def State.Parts (s : State) (tokens : List Token) : Prop := Parted s.mode.inside s.mode.marked tokens

theorem Parted.weaken {inside : Bool} (h : Parted inside true tokens) (literal : Bool) : Parted inside literal tokens := by
  cases tokens with
  | nil => trivial
  | cons t tokens => exact ⟨fun ht _ => h.1 ht rfl, h.2⟩

theorem parted_inside {literal : Bool} (h : Parted true literal tokens) (literal' : Bool) : Parted true literal' tokens := by
  cases tokens with
  | nil => trivial
  | cons t tokens => exact ⟨fun _ _ => rfl, h.2⟩

theorem parted_mark {inside literal : Bool} (h : Parted (t.kind.classAfter inside) false tokens)
    (ht : t.kind ≠ .literal) : Parted inside literal ([t] ++ tokens) :=
  ⟨fun hliteral => absurd hliteral ht, by rwa [decide_eq_false ht]⟩

/-- Outside classes, a mark may come behind a literal token as well. -/
theorem outside_mark_parts (hc : meaning s.depth c ≠ .plain) (h : (s.outside c).2.Parts more) (literal : Bool) :
    Parted false literal ((s.outside c).1 ++ more) := by
  unfold State.outside at h ⊢
  cases hm : meaning s.depth c with
  | plain => exact absurd hm hc
  | escape | star =>
    rw [hm] at h
    exact h.weaken literal
  | question | classOpen | braceOpen | braceComma | braceClose | separator =>
    rw [hm] at h
    exact parted_mark h nofun

theorem outside_parts (h : (s.outside c).2.Parts more) : Parted false false ((s.outside c).1 ++ more) := by
  by_cases hc : meaning s.depth c = .plain
  · unfold State.outside at h ⊢
    rw [hc] at h ⊢
    exact h
  · exact outside_mark_parts hc h false

theorem slash_parts (h : (s.outside Mark.slash).2.Parts more) (inside literal : Bool) :
    Parted inside literal ((s.outside Mark.slash).1 ++ more) :=
  parted_mark h nofun

theorem member_parts (h : (s.member c).2.Parts more) (literal : Bool) :
    Parted true literal ((s.member c).1 ++ more) := by
  unfold State.member at h ⊢
  by_cases hback : c = Mark.backslash
  · rw [if_pos hback] at h ⊢
    exact parted_inside h literal
  · rw [if_neg hback] at h ⊢
    exact parted_inside h literal

theorem firstMember_parts (h : (s.firstMember c).2.Parts more) (literal : Bool) :
    Parted true literal ((s.firstMember c).1 ++ more) := by
  unfold State.firstMember at h ⊢
  by_cases hslash : c = Mark.slash
  · subst hslash
    rw [if_pos rfl] at h ⊢
    exact slash_parts h true literal
  · rw [if_neg hslash] at h ⊢
    exact member_parts h literal

theorem members_parts (h : (s.members c).2.Parts more) (literal : Bool) :
    Parted true literal ((s.members c).1 ++ more) := by
  unfold State.members at h ⊢
  by_cases hslash : c = Mark.slash
  · subst hslash
    rw [if_pos rfl] at h ⊢
    exact slash_parts h true literal
  · rw [if_neg hslash] at h ⊢
    by_cases hclose : c = Mark.closeBracket
    · rw [if_pos hclose] at h ⊢
      exact parted_mark h nofun
    · rw [if_neg hclose] at h ⊢
      exact member_parts h literal

theorem parted_member {m : Member} {literal : Bool} (h : Parted true literal tokens) (literal' : Bool) :
    Parted true literal' (m.token :: tokens) := by
  refine ⟨fun _ _ => rfl, ?_⟩
  have hinside : m.token.kind.classAfter true = true := by
    unfold Member.token
    split <;> rfl
  rw [hinside]
  exact parted_inside h _

theorem parted_dash {m : Member} {place : Nat} {literal : Bool} (h : Parted true literal tokens) (literal' : Bool) :
    Parted true literal' ([m.token, dashToken place] ++ tokens) := by
  have hdash : Parted true literal (dashToken place :: tokens) := ⟨fun _ _ => rfl, parted_inside h _⟩
  exact parted_member hdash literal'

/-- A step keeps literal tokens apart: what may come behind it may come behind its tokens. -/
theorem step_parts (h : (s.step c).2.Parts more) : s.Parts ((s.step c).1 ++ more) := by
  obtain ⟨offset, depth, mode⟩ := s
  cases mode with
  | text => exact outside_parts h
  | run start chars =>
    by_cases hplain : meaning depth c = .plain
    · have hstep : State.step ⟨offset, depth, .run start chars⟩ c = ([], ⟨offset + 1, depth, .run start (c :: chars)⟩) :=
        if_pos hplain
      rw [hstep] at h ⊢
      exact h
    · have hstep : State.step ⟨offset, depth, .run start chars⟩ c =
          State.after [runToken start chars] (State.outside _ c) := if_neg hplain
      rw [hstep] at h ⊢
      exact ⟨fun _ h => absurd h Bool.false_ne_true, outside_mark_parts hplain h true⟩
  | star start =>
    by_cases hstar : c = Mark.star
    · subst hstar
      exact parted_mark h nofun
    · have hstep : State.step ⟨offset, depth, .star start⟩ c =
          State.after [starToken start] (State.outside _ c) := if_neg hstar
      rw [hstep] at h ⊢
      exact parted_mark (outside_parts h) nofun
  | escape start => exact parted_mark h nofun
  | classOpened =>
    by_cases hneg : c = Mark.exclamation ∨ c = Mark.caret
    · have hstep : State.step ⟨offset, depth, .classOpened⟩ c =
          ([⟨.classNegate, [c], Span.sized offset 1⟩], ⟨offset + 1, depth, .firstMember⟩) := if_pos hneg
      rw [hstep] at h ⊢
      exact parted_mark h nofun
    · have hstep : State.step ⟨offset, depth, .classOpened⟩ c = State.firstMember _ c := if_neg hneg
      rw [hstep] at h ⊢
      exact firstMember_parts h false
  | firstMember => exact firstMember_parts h false
  | members => exact members_parts h false
  | memberEscape start => exact h
  | member m =>
    by_cases hdash : c = Mark.dash
    · subst hdash
      exact h
    · have hstep : State.step ⟨offset, depth, .member m⟩ c = State.after [m.token] (State.members _ c) := if_neg hdash
      rw [hstep] at h ⊢
      exact parted_member (members_parts h false) false
  | dash m =>
    by_cases hend : c = Mark.slash ∨ c = Mark.closeBracket
    · have hstep : State.step ⟨offset, depth, .dash m⟩ c =
          State.after [m.token, dashToken (offset - 1)] (State.members _ c) := if_pos hend
      rw [hstep] at h ⊢
      exact parted_dash (members_parts h false) false
    · by_cases hback : c = Mark.backslash
      · subst hback
        exact h
      · have hstep : State.step ⟨offset, depth, .dash m⟩ c = ([m.range c (offset + 1)], ⟨offset + 1, depth, .members⟩) :=
          (if_neg hend).trans (if_neg hback)
        rw [hstep] at h ⊢
        exact parted_mark h nofun
  | rangeEscape m place => exact parted_mark h nofun

theorem run_parts {p : Text} (h : (s.run p).2.Parts more) : s.Parts ((s.run p).1 ++ more) := by
  induction p generalizing s with
  | nil => exact h
  | cons c p ih =>
    have hrun : s.run (c :: p) = State.after (s.step c).1 ((s.step c).2.run p) := rfl
    rw [hrun] at h ⊢
    show s.Parts (((s.step c).1 ++ ((s.step c).2.run p).1) ++ more)
    rw [List.append_assoc]
    exact step_parts (ih h)

theorem run_not_finish (s : State) (p : Text) : ∀ t ∈ (s.run p).1, t.kind ≠ .finish := by
  induction p generalizing s with
  | nil => exact List.forall_mem_nil _
  | cons c p ih => exact List.forall_mem_append.2 ⟨(step_gives s c).not_finish, ih _⟩

/-- What is pending at the end is one run at the most, and the end of the pattern comes behind it. -/
theorem pending_parts (hp : s.pending = .ok tokens) (ht : t.kind = .finish) : s.Parts (tokens ++ [t]) := by
  have hone : ∀ inside literal, Parted inside literal [t] := by
    intro inside literal
    refine ⟨?_, trivial⟩
    rw [ht]
    nofun
  obtain ⟨offset, depth, mode⟩ := s
  cases mode with
  | escape | memberEscape | rangeEscape => cases hp
  | text | classOpened | firstMember | members =>
    cases hp
    exact hone _ _
  | run start chars =>
    cases hp
    exact ⟨fun _ h => absurd h Bool.false_ne_true, hone _ _⟩
  | star start =>
    cases hp
    exact parted_mark (hone _ _) nofun
  | member m =>
    cases hp
    exact parted_member (hone true true) _
  | dash m =>
    cases hp
    exact parted_dash (hone true true) false

end Scanner

/-! ## The tokens of a pattern -/

variable {p : Text} {tokens : List Token}

theorem scan_ok (h : scan p = .ok tokens) :
    (∃ parts, tokens = parts ++ [⟨.finish, [], ⟨p.length, p.length⟩⟩] ∧ ∀ t ∈ parts, t.kind ≠ .finish) ∧
      Scanner.Tiles 0 tokens p ∧ Scanner.Parted false false tokens := by
  obtain ⟨v, u, hp, htiles, hholds⟩ := Scanner.run_tiles Scanner.start_holds p
  cases hpending : (Scanner.start.run p).2.pending with
  | error place =>
    simp only [scan, hpending] at h
    cases h
  | ok rest =>
    simp only [scan, hpending] at h
    obtain rfl := Except.ok.inj h
    have hparts := htiles.append (Scanner.pending_tiles hholds hpending)
    rw [← hp, List.nil_append] at hparts
    refine ⟨⟨_, rfl, List.forall_mem_append.2 ⟨Scanner.run_not_finish _ p, fun t ht => ?_⟩⟩, ?_, ?_⟩
    · exact (Scanner.pending_plain hpending t ht).not_finish
    · have hend : Scanner.Tiles (0 + p.length) [⟨.finish, [], ⟨p.length, p.length⟩⟩] [] :=
        .one (by simp [Span.sized]) ⟨iff_of_true rfl rfl, fun _ _ => rfl, by simp, by simp⟩
      have htokens := hparts.append hend
      rwa [List.append_nil] at htokens
    · have htokens : Scanner.start.Parts ((Scanner.start.run p).1 ++ (rest ++ [⟨.finish, [], ⟨p.length, p.length⟩⟩])) :=
        Scanner.run_parts (Scanner.pending_parts hpending rfl)
      rwa [← List.append_assoc] at htokens

/-- **Scanning loses nothing.**  The tokens of a pattern end with one end token, each begins where the one before it
ends, and all but the last have a text of the pattern under their span, which is their own but for an escaped character
and a range; so the texts under the spans are the pattern.  Outside classes, two literal tokens are never adjacent. -/
theorem scan_tiles (h : scan p = .ok tokens) :
    (∃ parts, tokens = parts ++ [⟨.finish, [], ⟨p.length, p.length⟩⟩] ∧ ∀ t ∈ parts, t.kind ≠ .finish) ∧
      (∀ t ∈ tokens.head?, t.span.start = 0) ∧ tokens.IsChain (fun t t' => t'.span.start = t.span.stop) ∧
      (∀ t ∈ tokens, t.kind ≠ .finish → t.span.start < t.span.stop) ∧
      (∀ t ∈ tokens, t.kind ≠ .escaped → t.kind ≠ .classRange → t.text = t.span.extract p) ∧
      (∀ t ∈ tokens, t.kind = .escaped → ∃ c, t.text = [c] ∧ t.span.extract p = [Mark.backslash, c]) ∧
      (∀ t ∈ tokens, t.kind = .classRange → ∃ lo hi, t.text = [lo, hi] ∧ RangeText (t.span.extract p) lo hi) ∧
      (∀ before t t' behind, tokens = before ++ t :: t' :: behind → t.kind = .literal → t'.kind = .literal →
        classAfter false before = true) ∧
      (tokens.map fun t => t.span.extract p).flatten = p := by
  obtain ⟨hfinish, htiles, hparted⟩ := scan_ok h
  obtain ⟨hstart, hchain⟩ := htiles.contiguous
  have hwhole : p.drop 0 = p ++ [] := (List.append_nil p).symm
  have hread := htiles.read hwhole
  refine ⟨hfinish, hstart, hchain, fun t ht => (hread t ht).2, fun t ht => (hread t ht).1.same,
    fun t ht => (hread t ht).1.escaped, fun t ht => (hread t ht).1.range, ?_, htiles.flatten hwhole⟩
  rintro before t t' behind rfl ht ht'
  exact hparted.adjacent ht ht'

/-- The pattern `é\*[^\a-z-]{x,y`: an escape, a class of a range and a dash, and a brace that stays open. -/
theorem scan_tiles_mixed :
    let p := Text.of "é\\*[^\\a-z-]\x7bx,y"
    ∃ tokens, scan p = .ok tokens ∧ tokens.map (·.kind) = [.literal, .escaped, .classOpen, .classNegate, .classRange,
        .literal, .classClose, .braceOpen, .literal, .braceComma, .literal, .finish] ∧
      (tokens.map fun t => t.span.extract p).flatten = p := by
  intro p
  have h : scan p = .ok _ := rfl
  exact ⟨_, h, rfl, (scan_tiles h).2.2.2.2.2.2.2.2⟩

end Glob
