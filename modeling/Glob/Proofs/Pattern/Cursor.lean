import Glob.Proofs.Pattern.Cutting
/-!
# Any list of tokens

A list of tokens that was put together by hand may have them in any order.  It is read at a cursor that moves on by one
token and stays at the last one, so nothing is ever read outside the list; but a parser might then take the last token
over and over.  `Builder.readFrom` is so many readings at such a cursor.

An end token stops the parse wherever it stands (`step_finish`).  So what is behind the first one does not matter, and
there are at most as many readings as there are tokens up to it (`cursor_stops`).  In a list without one, a token that
is taken twice in a row is taken for ever (`step_again`); reading the last token once more is therefore enough to tell
whether the parse ends (`readFrom_ofTokens?`).
-/
namespace Glob

namespace Parser

/-- The tokens up to the first end token, and with it. -/
def upToFinish : List Token → List Token
  | [] => []
  | t :: rest => if t.kind = .finish then [t] else t :: upToFinish rest

def Outcome.result? : Outcome → Option (Except ParseFailure (List Segment))
  | .more _ => none
  | .done segments => some (.ok segments)
  | .failed f => some (.error f)

/-- The result of a parse, if it has one: not where the last token is taken for ever. -/
def ended? (r : Except ParseFailure (List Segment)) : Option (Except ParseFailure (List Segment)) :=
  match r with
  | .error .endless => none
  | r => some r

namespace Builder

variable {b b' b₁ b₂ : Builder} {t last : Token} {f : ParseFailure} {tokens more : List Token} {source : Text}

/-- What `n` readings come to, the first one at position `i` of the list.  The cursor moves on by one token and stays at
the last one. -/
def readFrom (tokens : List Token) (b : Builder) (i : Nat) : Nat → Outcome
  | 0 => .more b
  | n + 1 =>
    match tokens[i]? with
    | none => .failed .noTokens
    | some t =>
      match b.step t with
      | .more b => b.readFrom tokens (min (i + 1) (tokens.length - 1)) n
      | outcome => outcome

/-! ## One reading -/

/-- A token that ends the parse is the last one that is read. -/
theorem readFrom_stop (before rest : List Token) (n : Nat) (h : ∀ d, b.step t ≠ .more d) :
    b.readFrom (before ++ t :: rest) before.length (n + 1) = b.step t := by
  have hthere : (before ++ t :: rest)[before.length]? = some t := by simp
  rw [readFrom, hthere]
  dsimp only
  cases hstep : b.step t with
  | more d => exact absurd hstep (h d)
  | done _ | failed _ => rfl

/-- Behind any other token the cursor is at the next one. -/
theorem readFrom_more (before : List Token) {rest : List Token} (n : Nat) (hrest : rest ≠ [])
    (h : b.step t = .more b') : b.readFrom (before ++ t :: rest) before.length (n + 1) =
      b'.readFrom ((before ++ [t]) ++ rest) (before ++ [t]).length n := by
  have hthere : (before ++ t :: rest)[before.length]? = some t := by simp
  have hnext : min (before.length + 1) ((before ++ t :: rest).length - 1) = (before ++ [t]).length := by
    have hpos := List.length_pos_iff.2 hrest
    simp only [List.length_append, List.length_cons, List.length_nil]
    omega
  have hsame : before ++ t :: rest = (before ++ [t]) ++ rest := by simp
  rw [readFrom, hthere]
  dsimp only
  rw [h]
  dsimp only
  rw [hnext, hsame]

/-! ## The end token -/

/-- An end token ends the parse, well or not. -/
theorem step_finish (ht : t.kind = .finish) (b b' : Builder) : b.step t ≠ .more b' := by
  intro h
  cases hc : b.openClass with
  | some c =>
    simp only [step, hc, classStep, ht] at h
    cases h
  | none =>
    rw [step_outside hc] at h
    simp only [sequenceStep, ht] at h
    exact stopAt_not_more _ _ _ h

theorem exists_finish_tail (ht : t.kind ≠ .finish) (h : ∃ t' ∈ t :: tokens, t'.kind = .finish) :
    ∃ t' ∈ tokens, t'.kind = .finish := by
  obtain ⟨t', ht', hkind⟩ := h
  rcases List.mem_cons.1 ht' with rfl | ht'
  · exact absurd hkind ht
  · exact ⟨t', ht', hkind⟩

/-- What is behind the first end token is not read. -/
theorem run_upToFinish (h : ∃ t ∈ tokens, t.kind = .finish) (more : List Token) :
    b.run (tokens ++ more) = b.run (upToFinish tokens) := by
  induction tokens generalizing b with
  | nil =>
    obtain ⟨t, ht, -⟩ := h
    cases ht
  | cons t rest ih =>
    rw [upToFinish]
    by_cases ht : t.kind = .finish
    · rw [if_pos ht, List.cons_append, run, run]
      cases hstep : b.step t with
      | more d => exact absurd hstep (step_finish ht b d)
      | done _ | failed _ => rfl
    · rw [if_neg ht, List.cons_append, run, run]
      cases b.step t with
      | more d => exact ih (exists_finish_tail ht h)
      | done _ | failed _ => rfl

/-- A cursor finds the end token in as many readings as there are tokens up to it. -/
theorem readFrom_upToFinish (before : List Token) {n : Nat} (h : ∃ t ∈ tokens, t.kind = .finish)
    (hn : (upToFinish tokens).length ≤ n) :
    (b.readFrom (before ++ tokens) before.length n).result? = some (b.run (upToFinish tokens)) := by
  induction tokens generalizing b before n with
  | nil =>
    obtain ⟨t, ht, -⟩ := h
    cases ht
  | cons t rest ih =>
    have hpos : 0 < n := by
      refine Nat.lt_of_lt_of_le ?_ hn
      rw [upToFinish]
      split <;> exact Nat.succ_pos _
    obtain ⟨n, rfl⟩ := Nat.exists_eq_add_of_lt hpos
    rw [Nat.zero_add, upToFinish]
    by_cases ht : t.kind = .finish
    · rw [readFrom_stop before rest n (step_finish ht b), if_pos ht, run]
      cases hstep : b.step t with
      | more d => exact absurd hstep (step_finish ht b d)
      | done _ | failed _ => rfl
    · have hrest : ∃ t ∈ rest, t.kind = .finish := exists_finish_tail ht h
      rw [upToFinish, if_neg ht, List.length_cons] at hn
      rw [if_neg ht, run]
      cases hstep : b.step t with
      | done _ | failed _ =>
        rw [readFrom_stop before rest n (by simp [hstep]), hstep]
        rfl
      | more d =>
        have hne : rest ≠ [] := fun hnil => by simp [hnil] at hrest
        rw [readFrom_more before n hne hstep]
        exact ih (before ++ [t]) hrest (by omega)

/-! ## What stops a parse -/

/-- What may be wrong at a token. -/
inductive Stops (source : Text) (t : Token) : ParseFailure → Prop
  | rejected {e : GlobError} (hstage : e.stage = .parsing) (hpattern : e.pattern = some source) :
    Stops source t (.rejected e)
  | unexpected {shown : Text} (hkind : t.kind ≠ .finish) (hshown : t.display? = some shown) :
    Stops source t (.unexpected t)
  | emptyRange (hkind : t.kind = .classRange) (htext : t.text = []) : Stops source t .emptyRange

theorem ends?_eq_none (h : t.ends? = none) : t.text = [] := by
  cases htext : t.text with
  | nil => rfl
  | cons c text =>
    rw [Token.ends?, htext, List.getLast?_eq_some_getLast (List.cons_ne_nil c text)] at h
    cases h

/-- Every token can be shown, if a range has its ends. -/
theorem exists_display (h : t.kind = .classRange → t.ends? ≠ none) : ∃ shown, t.display? = some shown := by
  unfold Token.display?
  cases hkind : t.kind with
  | classRange =>
    obtain ⟨ends, hends⟩ := Option.ne_none_iff_exists'.1 (h hkind)
    rw [hends]
    exact ⟨_, rfl⟩
  | _ => exact ⟨_, rfl⟩

theorem stopAt_stops (h : b.stopAt t = .failed f) : Stops b.source t f := by
  unfold stopAt at h
  cases hbraces : b.braces with
  | cons brace outer =>
    rw [hbraces] at h
    cases h
    exact .rejected rfl rfl
  | nil =>
    rw [hbraces] at h
    cases hkind : t.kind with
    | finish =>
      rw [hkind] at h
      cases h
    | classRange =>
      cases hends : t.ends? with
      | none =>
        rw [hkind, hends] at h
        cases h
        exact .emptyRange hkind (ends?_eq_none hends)
      | some ends =>
        rw [hkind, hends] at h
        cases h
        obtain ⟨shown, hshown⟩ := exists_display (t := t) (by rw [hends]; nofun)
        exact .unexpected (by rw [hkind]; nofun) hshown
    | _ =>
      rw [hkind] at h
      cases h
      obtain ⟨shown, hshown⟩ := exists_display (t := t) (by rw [hkind]; nofun)
      exact .unexpected (by rw [hkind]; nofun) hshown

theorem sequenceStep_stops (h : b.sequenceStep t = .failed f) : Stops b.source t f := by
  unfold sequenceStep at h
  cases hkind : t.kind with
  | classClose | classNegate | classRange | finish =>
    rw [hkind] at h
    exact stopAt_stops h
  | literal | escaped | star | question | classOpen | braceOpen =>
    rw [hkind] at h
    cases h
  | doubleStar | braceComma | braceClose | separator =>
    rw [hkind] at h
    cases hbraces : b.braces <;> rw [hbraces] at h <;> cases h

theorem classStep_stops {c : OpenClass} (h : b.classStep c t = .failed f) : Stops b.source t f := by
  unfold classStep at h
  cases hkind : t.kind with
  | classClose | literal | escaped =>
    rw [hkind] at h
    cases h
  | classNegate =>
    rw [hkind] at h
    dsimp only at h
    split at h
    · cases h
    · cases h
      exact .rejected rfl rfl
  | classRange =>
    rw [hkind] at h
    cases hends : t.ends? with
    | none =>
      rw [hends] at h
      cases h
      exact .emptyRange hkind (ends?_eq_none hends)
    | some ends =>
      rw [hends] at h
      dsimp only at h
      split at h
      · cases h
        exact .rejected rfl rfl
      · cases h
  | _ =>
    rw [hkind] at h
    cases h
    exact .rejected rfl rfl

theorem step_stops (h : b.step t = .failed f) : Stops b.source t f := by
  cases hc : b.openClass with
  | none =>
    rw [step_outside hc] at h
    exact sequenceStep_stops (b := b.begun t.span.start) h
  | some c =>
    rw [step, hc] at h
    exact classStep_stops h

theorem step_source (h : b.step t = .more b') : b'.source = b.source := by
  cases hc : b.openClass with
  | none =>
    rw [step_outside hc] at h
    exact (sequenceStep_more h).2.1
  | some c =>
    rw [step, hc] at h
    obtain ⟨⟨_, _, rfl⟩, -⟩ := classStep_more h
    rfl

/-- A parse of tokens with an end token among them ends, and if it fails, then at one of the tokens up to it. -/
theorem run_stops (h : ∃ t ∈ tokens, t.kind = .finish) (hf : b.run (upToFinish tokens) = .error f) :
    ∃ t ∈ upToFinish tokens, Stops b.source t f := by
  induction tokens generalizing b with
  | nil =>
    obtain ⟨t, ht, -⟩ := h
    cases ht
  | cons t rest ih =>
    have hfirst : t ∈ upToFinish (t :: rest) := by
      rw [upToFinish]
      split <;> exact List.mem_cons_self
    have hstop : b.step t = .failed f → ∃ t' ∈ upToFinish (t :: rest), Stops b.source t' f := fun hstep =>
      ⟨t, hfirst, step_stops hstep⟩
    by_cases ht : t.kind = .finish
    · rw [upToFinish, if_pos ht, run] at hf
      cases hstep : b.step t with
      | more d => exact absurd hstep (step_finish ht b d)
      | done _ =>
        rw [hstep] at hf
        cases hf
      | failed f' =>
        rw [hstep] at hf
        cases hf
        exact hstop hstep
    · have heq : upToFinish (t :: rest) = t :: upToFinish rest := by rw [upToFinish, if_neg ht]
      rw [heq, run] at hf
      cases hstep : b.step t with
      | done _ =>
        rw [hstep] at hf
        cases hf
      | failed f' =>
        rw [hstep] at hf
        cases hf
        exact hstop hstep
      | more d =>
        rw [hstep] at hf
        rw [heq]
        obtain ⟨t', ht', hstops⟩ := ih (exists_finish_tail ht h) hf
        exact ⟨t', List.mem_cons_of_mem _ ht', step_source hstep ▸ hstops⟩

/-! ## The last token, over and over -/

theorem step_takes (ht : t.kind ∈ [Token.Kind.literal, .escaped, .star, .question, .doubleStar, .braceOpen,
    .braceComma, .braceClose, .separator]) (hc : b.openClass = none) :
    ∃ d, b.step t = .more d ∧ d.openClass = none := by
  obtain ⟨source, segments, segmentStart, braces, nodes, openClass⟩ := b
  obtain ⟨kind, text, span⟩ := t
  obtain rfl : openClass = none := hc
  cases kind with
  | literal | escaped | star | question | braceOpen => exact ⟨_, rfl, rfl⟩
  | doubleStar | braceComma | braceClose | separator => cases braces <;> exact ⟨_, rfl, rfl⟩
  | classOpen | classClose | classNegate | classRange | finish => simp at ht

/-- Outside classes a token that is taken twice in a row is one of those that are always taken. -/
theorem outside_again (hc : b.openClass = none) (h : b.step t = .more b₁) (h₁ : b₁.step t = .more b₂) :
    ∃ d, b₂.step t = .more d := by
  cases hkind : t.kind with
  | classClose | classNegate | classRange | finish =>
    rw [step_outside hc] at h
    simp only [sequenceStep, hkind] at h
    exact absurd h (stopAt_not_more _ _ _)
  | classOpen =>
    -- the class that it opens takes no second one
    rw [step_outside hc] at h
    simp only [sequenceStep, hkind] at h
    cases h
    simp only [step, classStep, hkind] at h₁
    cases h₁
  | _ =>
    have ht : t.kind ∈ [Token.Kind.literal, .escaped, .star, .question, .doubleStar, .braceOpen, .braceComma,
        .braceClose, .separator] := by simp [hkind]
    obtain ⟨d, hd, hopen⟩ := step_takes ht hc
    obtain rfl := Outcome.more.inj (hd.symm.trans h)
    obtain ⟨d', hd', hopen'⟩ := step_takes ht hopen
    obtain rfl := Outcome.more.inj (hd'.symm.trans h₁)
    obtain ⟨d'', hd'', -⟩ := step_takes ht hopen'
    exact ⟨d'', hd''⟩

/-- Inside a class a token that is taken twice in a row is a member. -/
theorem inside_again {c : OpenClass} (hc : b.openClass = some c) (h : b.step t = .more b₁)
    (h₁ : b₁.step t = .more b₂) : ∃ d, b₂.step t = .more d := by
  rw [step, hc] at h
  cases hkind : t.kind with
  | literal | escaped =>
    simp only [classStep, hkind] at h
    cases h
    simp only [step, classStep, hkind] at h₁
    cases h₁
    simp only [step, classStep, hkind]
    exact ⟨_, rfl⟩
  | classRange =>
    simp only [classStep, hkind] at h
    cases hends : t.ends? with
    | none =>
      rw [hends] at h
      cases h
    | some ends =>
      rw [hends] at h
      dsimp only at h
      by_cases hturned : ends.2 < ends.1
      · rw [if_pos hturned] at h
        cases h
      · rw [if_neg hturned] at h
        cases h
        simp only [step, classStep, hkind, hends, if_neg hturned] at h₁
        cases h₁
        simp only [step, classStep, hkind, hends, if_neg hturned]
        exact ⟨_, rfl⟩
  | classClose =>
    -- behind the class that it closes there is none to close
    simp only [classStep, hkind] at h
    cases h
    simp only [step, sequenceStep, hkind] at h₁
    exact absurd h₁ (stopAt_not_more _ _ _)
  | classNegate =>
    -- the class is negated then, and takes no second one
    simp only [classStep, hkind] at h
    split at h
    · cases h
      simp only [step, classStep, hkind] at h₁
      cases h₁
    · cases h
  | _ =>
    simp only [classStep, hkind] at h
    cases h

/-- **A token that is taken twice in a row is taken again**, so a cursor that stays at it never comes to an end. -/
theorem step_again (h : b.step t = .more b₁) (h₁ : b₁.step t = .more b₂) : ∃ d, b₂.step t = .more d := by
  cases hc : b.openClass with
  | none => exact outside_again hc h h₁
  | some c => exact inside_again hc h h₁

theorem readFrom_again {i : Nat} (hi : tokens[i]? = some t) (hlast : min (i + 1) (tokens.length - 1) = i)
    (h : b.step t = .more b₁) (h₁ : b₁.step t = .more b₂) (n : Nat) : ∃ d, b₂.readFrom tokens i n = .more d := by
  induction n generalizing b b₁ b₂ with
  | zero => exact ⟨b₂, rfl⟩
  | succ n ih =>
    obtain ⟨d, hd⟩ := step_again h h₁
    rw [readFrom, hi]
    dsimp only
    rw [hd]
    dsimp only
    rw [hlast]
    exact ih h₁ hd

theorem ended?_failed (h : b.step t = .failed f) : ended? (.error f) = some (.error f) := by
  cases step_stops h <;> rfl

/-- Reading the last token once more tells what a cursor that stays at it comes to, if to anything at all. -/
theorem readFrom_run (before : List Token) {n : Nat} (hlast : tokens.getLast? = some last) (hn : tokens.length < n) :
    (b.readFrom (before ++ tokens) before.length n).result? = ended? (b.run (tokens ++ [last])) := by
  induction tokens generalizing b before n with
  | nil => cases hlast
  | cons t rest ih =>
    obtain ⟨n, rfl⟩ := Nat.exists_eq_add_of_lt (Nat.zero_lt_of_lt hn)
    rw [Nat.zero_add, List.length_cons] at hn
    rw [Nat.zero_add, List.cons_append, run]
    cases hstep : b.step t with
    | done _ =>
      rw [readFrom_stop before rest n (by simp [hstep]), hstep]
      rfl
    | failed f =>
      rw [readFrom_stop before rest n (by simp [hstep]), hstep]
      exact (ended?_failed hstep).symm
    | more b₁ =>
      dsimp only
      cases rest with
      | nil =>
        obtain rfl : t = last := Option.some.inj hlast
        obtain ⟨m, rfl⟩ := Nat.exists_eq_add_of_lt (Nat.lt_of_succ_lt_succ hn)
        have hthere : (before ++ [t])[before.length]? = some t := by simp
        have hstay : min (before.length + 1) ((before ++ [t]).length - 1) = before.length := by simp
        rw [readFrom, hthere]
        dsimp only
        rw [hstep]
        dsimp only
        rw [hstay, List.length_nil, Nat.zero_add, readFrom, hthere, List.nil_append, run]
        dsimp only
        cases hstep₁ : b₁.step t with
        | done _ => rfl
        | failed f => exact (ended?_failed hstep₁).symm
        | more b₂ =>
          dsimp only
          obtain ⟨d, hd⟩ := readFrom_again hthere hstay hstep hstep₁ m
          rw [hstay, hd]
          rfl
      | cons t' rest =>
        rw [readFrom_more before n (List.cons_ne_nil t' rest) hstep]
        exact ih (before ++ [t]) hlast (by omega)

end Builder

end Parser

variable {tokens : List Token}

/-- What reading a list of tokens may come to: a tree, a fault of the pattern, or a token that fits nowhere. -/
inductive Stopped (source : Text) (tokens : List Token) : Except ParseFailure Pattern → Prop
  | tree (segments : List Segment) : Stopped source tokens (.ok ⟨source, segments⟩)
  | rejected {e : GlobError} (hstage : e.stage = .parsing) (hpattern : e.pattern = some source) :
    Stopped source tokens (.error (.rejected e))
  | unexpected {t : Token} {shown : Text} (ht : t ∈ tokens) (hkind : t.kind ≠ .finish)
    (hshown : t.display? = some shown) : Stopped source tokens (.error (.unexpected t))

theorem exists_finish_iff :
    (∃ t ∈ Parser.upToFinish tokens, t.kind = .finish) ↔ ∃ t ∈ tokens, t.kind = .finish := by
  induction tokens with
  | nil => rfl
  | cons t rest ih =>
    rw [Parser.upToFinish]
    by_cases ht : t.kind = .finish
    · simp [ht]
    · simp [ht, ih]

theorem ofTokens?_upToFinish (source : Text) (h : ∃ t ∈ tokens, t.kind = .finish) : Pattern.ofTokens? tokens source =
    (Pattern.mk source ·) <$> (Parser.start source).run (Parser.upToFinish tokens) := by
  have hne : tokens ≠ [] := fun hnil => by simp [hnil] at h
  rw [Pattern.ofTokens?, List.getLast?_eq_some_getLast hne]
  dsimp only
  rw [Parser.Builder.run_upToFinish h]

/-- **Reading any list of tokens with an end token ends**, with a tree, a fault of the pattern or a token that fits
nowhere, and what it comes to depends on the tokens up to the first end token only.  A cursor that stays at the last
token comes to the same, in as many readings as there are tokens up to that end token. -/
theorem cursor_stops (source : Text) (hfinish : ∃ t ∈ tokens, t.kind = .finish)
    (hrange : ∀ t ∈ Parser.upToFinish tokens, t.kind = .classRange → t.text ≠ []) :
    Stopped source (Parser.upToFinish tokens) (Pattern.ofTokens? tokens source) ∧
      (∀ tokens', Parser.upToFinish tokens' = Parser.upToFinish tokens →
        Pattern.ofTokens? tokens' source = Pattern.ofTokens? tokens source) ∧
      ∀ n, (Parser.upToFinish tokens).length ≤ n → ((Parser.start source).readFrom tokens 0 n).result? =
        some (Pattern.segments <$> Pattern.ofTokens? tokens source) := by
  have hfirst := ofTokens?_upToFinish source hfinish
  refine ⟨?_, ?_, ?_⟩
  · rw [hfirst]
    cases hrun : (Parser.start source).run (Parser.upToFinish tokens) with
    | ok segments => exact .tree segments
    | error f =>
      obtain ⟨t, ht, hstops⟩ := Parser.Builder.run_stops hfinish hrun
      cases hstops with
      | rejected hstage hpattern => exact .rejected hstage hpattern
      | unexpected hkind hshown => exact .unexpected ht hkind hshown
      | emptyRange hkind htext => exact absurd htext (hrange t ht hkind)
  · intro tokens' hsame
    have hfinish' : ∃ t ∈ tokens', t.kind = .finish := by rwa [← exists_finish_iff, hsame, exists_finish_iff]
    rw [hfirst, ofTokens?_upToFinish source hfinish', hsame]
  · intro n hn
    have hread := Parser.Builder.readFrom_upToFinish (b := Parser.start source) [] hfinish hn
    rw [List.nil_append, List.length_nil] at hread
    rw [hread, hfirst]
    cases (Parser.start source).run (Parser.upToFinish tokens) <;> rfl

/-- Two tokens that fit nowhere are behind the end token, which finds a class open inside a brace. -/
theorem cursor_stops_inside :
    let tokens : List Token := [⟨.braceOpen, [], ⟨7, 8⟩⟩, ⟨.classOpen, [], ⟨3, 4⟩⟩, ⟨.classRange, [0x61, 0x7A], ⟨0, 0⟩⟩,
      ⟨.finish, [], ⟨5, 5⟩⟩, ⟨.classClose, [], ⟨0, 0⟩⟩, ⟨.classRange, [], ⟨0, 0⟩⟩]
    Pattern.ofTokens? tokens [] = .error (Parser.unclosedClass [] ⟨3, 4⟩) ∧
      Pattern.ofTokens? (tokens.take 4) [] = Pattern.ofTokens? tokens [] ∧
      ((Parser.start []).readFrom tokens 0 4).result? = some (Pattern.segments <$> Pattern.ofTokens? tokens []) := by
  intro tokens
  have hfinish : ∃ t ∈ tokens, t.kind = .finish := ⟨⟨.finish, [], ⟨5, 5⟩⟩, by decide, rfl⟩
  obtain ⟨-, hsame, hread⟩ := cursor_stops [] hfinish (by decide)
  exact ⟨rfl, hsame _ rfl, hread 4 (by decide)⟩

/-- **What a list of tokens comes to is what a cursor comes to that stays at the last one**, whether there is an end
token or not: a list is `endless` if the cursor never stops. -/
theorem readFrom_ofTokens? (source : Text) (h : tokens ≠ []) {n : Nat} (hn : tokens.length < n) :
    ((Parser.start source).readFrom tokens 0 n).result? =
      Parser.ended? (Pattern.segments <$> Pattern.ofTokens? tokens source) := by
  have hlast := List.getLast?_eq_some_getLast h
  have hread := Parser.Builder.readFrom_run (b := Parser.start source) [] hlast hn
  rw [List.nil_append, List.length_nil] at hread
  rw [hread, Pattern.ofTokens?, hlast]
  dsimp only
  cases (Parser.start source).run (tokens ++ [tokens.getLast h]) <;> rfl

end Glob
