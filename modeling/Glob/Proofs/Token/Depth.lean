import Glob.Proofs.Token.Escapes
/-!
# What the tokens of a step can be

A separator token comes only of a separator that is not escaped, and such a one first completes whatever is pending:
`step_slash` and `no_separator`.  The tokens of a step say how the depth of open braces changes (`step_depth`), and
where what is pending began (`step_begins`).
-/
namespace Glob

def Token.Kind.depthAfter (depth : Nat) : Token.Kind → Nat
  | .braceOpen => depth + 1
  | .braceClose => depth - 1
  | _ => depth

def depthAfter (depth : Nat) (tokens : List Token) : Nat := tokens.foldl (fun d t => t.kind.depthAfter d) depth

namespace Scanner

variable {s : State} {c : CodePoint} {tokens : List Token} {k₀ : Nat}

theorem depthAfter_append (depth : Nat) (tokens tokens' : List Token) :
    depthAfter depth (tokens ++ tokens') = depthAfter (depthAfter depth tokens) tokens' := List.foldl_append

/-! ## Pending tokens -/

/-- A token that is text or a star. -/
def Plain (t : Token) : Prop := t.kind = .literal ∨ t.kind = .escaped ∨ t.kind = .star

theorem Plain.not_finish {t : Token} (h : Plain t) : t.kind ≠ .finish := by
  rcases h with h | h | h <;> rw [h] <;> decide

theorem Plain.not_separator {t : Token} (h : Plain t) : t.kind ≠ .separator := by
  rcases h with h | h | h <;> rw [h] <;> decide

theorem depthAfter_plain {depth : Nat} (h : ∀ t ∈ tokens, Plain t) : depthAfter depth tokens = depth := by
  induction tokens with
  | nil => rfl
  | cons t tokens ih =>
    obtain ⟨ht, htokens⟩ := List.forall_mem_cons.1 h
    have hkind : t.kind.depthAfter depth = depth := by
      rcases ht with ht | ht | ht <;> rw [ht] <;> rfl
    show depthAfter (t.kind.depthAfter depth) tokens = depth
    rw [hkind]
    exact ih htokens

theorem memberToken_plain (m : Member) : Plain m.token := by
  unfold Member.token
  split
  · exact .inr (.inl rfl)
  · exact .inl rfl

theorem pending_plain (h : s.pending = .ok tokens) : ∀ t ∈ tokens, Plain t := by
  obtain ⟨k, depth, mode⟩ := s
  cases mode with
  | run start chars =>
    obtain rfl := Except.ok.inj h
    exact List.forall_mem_singleton.2 (.inl rfl)
  | star start =>
    obtain rfl := Except.ok.inj h
    exact List.forall_mem_singleton.2 (.inr (.inr rfl))
  | member m =>
    obtain rfl := Except.ok.inj h
    exact List.forall_mem_singleton.2 (memberToken_plain m)
  | dash m =>
    obtain rfl := Except.ok.inj h
    exact List.forall_mem_cons.2 ⟨memberToken_plain m, List.forall_mem_singleton.2 (.inl rfl)⟩
  | escape _ | memberEscape _ | rangeEscape _ _ => cases h
  | text | classOpened | firstMember | members =>
    obtain rfl := Except.ok.inj h
    exact List.forall_mem_nil _

/-- An unescaped separator completes what is pending. -/
theorem step_slash (h : s.pending = .ok tokens) :
    s.step Mark.slash =
      (tokens ++ [⟨.separator, [Mark.slash], Span.sized s.offset 1⟩], ⟨s.offset + 1, s.depth, .text⟩) := by
  obtain ⟨k, depth, mode⟩ := s
  cases mode <;> cases h <;> rfl

/-! ## The tokens of a step -/

/-- What a step may give for a character: its tokens account for the braces, and only a separator gives one. -/
structure Gives (depth : Nat) (c : CodePoint) (r : List Token × State) : Prop where
  depth : depthAfter depth r.1 = r.2.depth
  not_finish : ∀ t ∈ r.1, t.kind ≠ .finish
  separator : ∀ t ∈ r.1, t.kind = .separator → c = Mark.slash

theorem Gives.after {depth : Nat} {r : List Token × State} (htokens : ∀ t ∈ tokens, Plain t) (h : Gives depth c r) :
    Gives depth c (State.after tokens r) where
  depth := by
    show depthAfter depth (tokens ++ r.1) = _
    rw [depthAfter_append, depthAfter_plain htokens]
    exact h.depth
  not_finish := List.forall_mem_append.2 ⟨fun t ht => (htokens t ht).not_finish, h.not_finish⟩
  separator := List.forall_mem_append.2 ⟨fun t ht hsep => absurd hsep (htokens t ht).not_separator, h.separator⟩

theorem gives_none {depth : Nat} {s' : State} (h : s'.depth = depth) : Gives depth c ([], s') :=
  ⟨h.symm, by simp, by simp⟩

theorem gives_one {depth : Nat} {t : Token} {s' : State} (hdepth : t.kind.depthAfter depth = s'.depth)
    (hfinish : t.kind ≠ .finish) (hsep : t.kind = .separator → c = Mark.slash) : Gives depth c ([t], s') :=
  ⟨hdepth, List.forall_mem_singleton.2 hfinish, List.forall_mem_singleton.2 hsep⟩

theorem meaning_eq_separator {depth : Nat} (h : meaning depth c = .separator) : c = Mark.slash := by
  unfold meaning at h
  split at h
  all_goals first | rfl | cases h | (split at h <;> cases h)

theorem outside_gives (s : State) (c : CodePoint) : Gives s.depth c (s.outside c) := by
  unfold State.outside
  cases hm : meaning s.depth c with
  | plain | escape | star => exact gives_none rfl
  | question | classOpen | braceOpen | braceComma | braceClose =>
    exact gives_one rfl (fun h => by cases h) fun h => by cases h
  | separator => exact gives_one rfl (fun h => by cases h) fun _ => meaning_eq_separator hm

theorem member_gives (s : State) (c : CodePoint) : Gives s.depth c (s.member c) := by
  unfold State.member
  split <;> exact gives_none rfl

theorem firstMember_gives (s : State) (c : CodePoint) : Gives s.depth c (s.firstMember c) := by
  unfold State.firstMember
  split
  · exact outside_gives s c
  · exact member_gives s c

theorem members_gives (s : State) (c : CodePoint) : Gives s.depth c (s.members c) := by
  unfold State.members
  split
  · exact outside_gives s c
  · split
    · exact gives_one rfl (fun h => by cases h) fun h => by cases h
    · exact member_gives s c

theorem step_gives (s : State) (c : CodePoint) : Gives s.depth c (s.step c) := by
  obtain ⟨k, depth, mode⟩ := s
  have hone : ∀ t : Token, t.kind = .escaped ∨ t.kind = .doubleStar ∨ t.kind = .classRange ∨ t.kind = .classNegate →
      ∀ s' : State, s'.depth = depth → Gives depth c ([t], s') := by
    rintro t (ht | ht | ht | ht) s' hs' <;>
      exact gives_one (by rw [ht]; exact hs'.symm) (by rw [ht]; decide) fun h => by rw [ht] at h; cases h
  cases mode with
  | text => exact outside_gives _ c
  | run start chars =>
    show Gives depth c (if meaning depth c = .plain then _ else _)
    split
    · exact gives_none rfl
    · exact (outside_gives ⟨k, depth, .run start chars⟩ c).after (List.forall_mem_singleton.2 (.inl rfl))
  | star start =>
    show Gives depth c (if c = Mark.star then _ else _)
    split
    · exact hone _ (.inr (.inl rfl)) _ rfl
    · exact (outside_gives ⟨k, depth, .star start⟩ c).after (List.forall_mem_singleton.2 (.inr (.inr rfl)))
  | escape start => exact hone _ (.inl rfl) _ rfl
  | classOpened =>
    show Gives depth c (if c = Mark.exclamation ∨ c = Mark.caret then _ else _)
    split
    · exact hone _ (.inr (.inr (.inr rfl))) _ rfl
    · exact firstMember_gives ⟨k, depth, .classOpened⟩ c
  | firstMember => exact firstMember_gives _ c
  | members => exact members_gives _ c
  | memberEscape start => exact gives_none rfl
  | member m =>
    show Gives depth c (if c = Mark.dash then _ else _)
    split
    · exact gives_none rfl
    · exact (members_gives ⟨k, depth, .member m⟩ c).after (List.forall_mem_singleton.2 (memberToken_plain m))
  | dash m =>
    show Gives depth c (if c = Mark.slash ∨ c = Mark.closeBracket then _ else if c = Mark.backslash then _ else _)
    split
    · exact (members_gives ⟨k, depth, .dash m⟩ c).after
        (List.forall_mem_cons.2 ⟨memberToken_plain m, List.forall_mem_singleton.2 (.inl rfl)⟩)
    · split
      · exact gives_none rfl
      · exact hone _ (.inr (.inr (.inl rfl))) _ rfl
  | rangeEscape m place => exact hone _ (.inr (.inr (.inl rfl))) _ rfl

/-- A separator that is escaped, and any other character, gives no separator token. -/
theorem no_separator (h : ¬ (c = Mark.slash ∧ s.escaping = none)) : ∀ t ∈ (s.step c).1, t.kind ≠ .separator := by
  intro t ht hsep
  have hslash := (step_gives s c).separator t ht hsep
  obtain ⟨k, depth, mode⟩ := s
  cases mode with
  | escape start =>
    obtain rfl := List.mem_singleton.1 ht
    cases hsep
  | memberEscape start => cases ht
  | rangeEscape m place =>
    obtain rfl := List.mem_singleton.1 ht
    cases hsep
  | _ => exact h ⟨hslash, rfl⟩

/-! ## Where tokens begin -/

/-- Where the next token outside classes begins. -/
def State.place (s : State) : Option Nat :=
  match s.mode with
  | .text => some s.offset
  | .run start _ | .star start | .escape start => some start
  | _ => none

/-- The tokens begin at the place, or there are none and the next one will. -/
def BeginsAt (k₀ : Nat) (tokens : List Token) (next : Option Nat) : Prop :=
  (tokens = [] ∧ next = some k₀) ∨ ∃ t more, tokens = t :: more ∧ t.span.start = k₀

theorem outside_begins (s : State) (c : CodePoint) : BeginsAt s.offset (s.outside c).1 (s.outside c).2.place := by
  unfold State.outside
  cases meaning s.depth c with
  | plain | escape | star => exact .inl ⟨rfl, rfl⟩
  | question | classOpen | braceOpen | braceComma | braceClose | separator => exact .inr ⟨_, _, rfl, rfl⟩

theorem step_begins (h : s.place = some k₀) (c : CodePoint) : BeginsAt k₀ (s.step c).1 (s.step c).2.place := by
  obtain ⟨k, depth, mode⟩ := s
  cases mode with
  | text =>
    obtain rfl := Option.some.inj h
    exact outside_begins _ c
  | run start chars =>
    obtain rfl := Option.some.inj h
    show BeginsAt _ (if meaning depth c = .plain then _ else _ : List Token × State).1
      (if meaning depth c = .plain then _ else _ : List Token × State).2.place
    split
    · exact .inl ⟨rfl, rfl⟩
    · exact .inr ⟨_, _, rfl, rfl⟩
  | star start =>
    obtain rfl := Option.some.inj h
    show BeginsAt _ (if c = Mark.star then _ else _ : List Token × State).1
      (if c = Mark.star then _ else _ : List Token × State).2.place
    split
    · exact .inr ⟨_, _, rfl, rfl⟩
    · exact .inr ⟨_, _, rfl, rfl⟩
  | escape start =>
    obtain rfl := Option.some.inj h
    exact .inr ⟨_, _, rfl, rfl⟩
  | _ => cases h

theorem pending_begins (h : s.place = some k₀) (hp : s.pending = .ok tokens) :
    BeginsAt k₀ tokens (some s.offset) := by
  obtain ⟨k, depth, mode⟩ := s
  cases mode <;> cases h <;> cases hp
  · exact .inl ⟨rfl, rfl⟩
  · exact .inr ⟨_, _, rfl, rfl⟩
  · exact .inr ⟨_, _, rfl, rfl⟩

end Scanner

end Glob
