import Glob.Proofs.Matching
import Glob.Proofs.Pattern.Alone
import Glob.Proofs.Steps
/-!
# Walking a path

`Walks` is what it means that the steps of a plan consume the components of a path.  `Follows` tells which steps stand
for which segments, and `Follows.walks` what a walk consumes then.  The steps that are made for segments stand for them
(`Plan.Made.follows`), since the slice that a step has its matcher from is read as the segments of the step.

Both together: a plan admits the paths that its pattern matches, `walk_matches`.
-/
namespace Glob

open Expression (join_behind)

/-- The steps consume the components: a precise or wildcard step one, a recursive one any number, each by itself, and a
tail all that are left, of which there is at least one, with separators between. -/
def Walks : List Selector → List Text → Prop
  | [], ws => ws = []
  | step :: steps, ws =>
    match step.kind with
    | .precise | .wildcard => ∃ w ws', ws = w :: ws' ∧ step.accepts w = true ∧ Walks steps ws'
    | .recursive =>
      ∃ components ws', ws = components ++ ws' ∧ (∀ w ∈ components, step.accepts w = true) ∧ Walks steps ws'
    | .tail => ws ≠ [] ∧ step.accepts (Text.join [Mark.slash] ws) = true ∧ Walks steps []

variable {o : Options}

/-- The pieces that segments pick, each by itself. -/
abbrev PickAlone (o : Options) (ss : List Segment) (ws : List Text) : Prop :=
  PickBy o.Component (Segment.Accepts o) ss ws

inductive Follows (o : Options) : List Segment → List Selector → Prop
  | nil : Follows o [] []
  | recursive {s : Segment} {ss : List Segment} {step : Selector} {steps : List Selector} (hrec : s.isRecursive = true)
    (kind : step.kind = .recursive) (accepts : ∀ w, Mark.slash ∉ w → (step.accepts w = true ↔ o.Component w))
    (rest : Follows o ss steps) : Follows o (s :: ss) (step :: steps)
  | single {s : Segment} {ss : List Segment} {step : Selector} {steps : List Selector} (hrec : s.isRecursive = false)
    (kind : step.kind = .precise ∨ step.kind = .wildcard) (accepts : ∀ w, step.accepts w = true ↔ s.Accepts o w)
    (inner : ∀ w, s.Accepts o w → Mark.slash ∉ w) (rest : Follows o ss steps) : Follows o (s :: ss) (step :: steps)
  | tail {s : Segment} {ss : List Segment} {step : Selector} (hrec : s.isRecursive = false) (kind : step.kind = .tail)
    (accepts : ∀ w, step.accepts w = true ↔ ∃ ws, PickAlone o (s :: ss) ws ∧ w = Text.join [Mark.slash] ws) :
    Follows o (s :: ss) [step]

/-! ## Behind separators -/

/-- Pieces, each behind a separator. -/
def behind (ws : List Text) : Text := ws.flatMap (Mark.slash :: ·)

theorem behind_cons (w : Text) (ws : List Text) : behind (w :: ws) = Mark.slash :: (w ++ behind ws) := rfl

theorem behind_append (ws ws' : List Text) : behind (ws ++ ws') = behind ws ++ behind ws' := List.flatMap_append

theorem behind_eq_nil {ws : List Text} : behind ws = [] ↔ ws = [] := by
  cases ws <;> simp [behind]

theorem behind_inj_join {ws ws' : List Text} (h : ws ≠ []) (h' : ws' ≠ []) :
    behind ws = behind ws' ↔ Text.join [Mark.slash] ws = Text.join [Mark.slash] ws' := by
  rw [behind, behind, join_behind h, join_behind h', List.cons.injEq]
  exact and_iff_right rfl

/-- A piece without a separator ends where the next separator stands. -/
theorem append_behind_inj {w w' : Text} {ws ws' : List Text} (hw : Mark.slash ∉ w) (hw' : Mark.slash ∉ w')
    (h : w ++ behind ws = w' ++ behind ws') : w = w' ∧ behind ws = behind ws' := by
  have hhead : ∀ {d : CodePoint} {t : Text} {ws : List Text}, behind ws = d :: t → d = Mark.slash := by
    intro d t ws h
    cases ws with
    | nil => cases h
    | cons w ws => exact (List.cons.inj h).1.symm
  induction w generalizing w' with
  | nil =>
    cases w' with
    | nil => exact ⟨rfl, h⟩
    | cons d w' => exact absurd (hhead h) fun hd => hw' (hd ▸ List.mem_cons_self)
  | cons d w ih =>
    cases w' with
    | nil => exact absurd (hhead h.symm) fun hd => hw (hd ▸ List.mem_cons_self)
    | cons d' w' =>
      obtain ⟨rfl, htail⟩ := List.cons.inj h
      have htails := ih (fun hm => hw (List.mem_cons_of_mem _ hm)) (fun hm => hw' (List.mem_cons_of_mem _ hm)) htail
      obtain ⟨rfl, hrest⟩ := htails
      exact ⟨rfl, hrest⟩

theorem behind_cons_eq {w : Text} {ws ws' : List Text} (hw : Mark.slash ∉ w) (hws : ∀ x ∈ ws', Mark.slash ∉ x)
    (h : behind (w :: ws) = behind ws') : ∃ rest, ws' = w :: rest ∧ behind ws = behind rest := by
  cases ws' with
  | nil => cases h
  | cons w' rest =>
    obtain ⟨rfl, hrest⟩ := append_behind_inj hw (hws _ List.mem_cons_self) (List.cons.inj h).2
    exact ⟨rest, rfl, hrest⟩

theorem behind_append_eq {ws more ws' : List Text} (hw : ∀ x ∈ ws, Mark.slash ∉ x) (hws : ∀ x ∈ ws', Mark.slash ∉ x)
    (h : behind (ws ++ more) = behind ws') : ∃ rest, ws' = ws ++ rest ∧ behind more = behind rest := by
  induction ws generalizing ws' with
  | nil => exact ⟨ws', rfl, h⟩
  | cons w ws ih =>
    obtain ⟨hw, hwtail⟩ := List.forall_mem_cons.1 hw
    obtain ⟨rest, rfl, hrest⟩ := behind_cons_eq hw hws h
    obtain ⟨rest', rfl, hmore⟩ := ih hwtail (List.forall_mem_cons.1 hws).2 hrest
    exact ⟨rest', rfl, hmore⟩

/-! ## What a walk consumes -/

/-- **A walk consumes what the segments pick.** -/
theorem Follows.walks {ss : List Segment} {steps : List Selector} (h : Follows o ss steps) {ws : List Text}
    (hws : ∀ w ∈ ws, Mark.slash ∉ w) :
    Walks steps ws ↔ ∃ pieces, PickAlone o ss pieces ∧ behind pieces = behind ws := by
  induction h generalizing ws with
  | nil =>
    simp only [Walks, PickAlone, PickBy, exists_eq_left]
    rw [eq_comm (a := behind []), ← behind_eq_nil]
    rfl
  | @recursive s ss step steps hrec kind accepts _ ih =>
    simp only [Walks, kind, PickAlone, PickBy, hrec, if_true]
    constructor
    · rintro ⟨components, ws', rfl, hall, hwalk⟩
      obtain ⟨hcomponents, hws'⟩ := List.forall_mem_append.1 hws
      obtain ⟨pieces, hpick, hbehind⟩ := (ih hws').1 hwalk
      refine ⟨components ++ pieces, ⟨components, pieces, rfl, fun w hw => ?_, hpick⟩, ?_⟩
      · exact (accepts w (hcomponents w hw)).1 (hall w hw)
      · rw [behind_append, behind_append, hbehind]
    · rintro ⟨_, ⟨components, pieces, rfl, hall, hpick⟩, hbehind⟩
      obtain ⟨rest, rfl, hrest⟩ := behind_append_eq (fun w hw => (hall w hw).1) hws hbehind
      have hws' := (List.forall_mem_append.1 hws).2
      refine ⟨components, rest, rfl, fun w hw => ?_, (ih hws').2 ⟨pieces, hpick, hrest⟩⟩
      exact (accepts w (hall w hw).1).2 (hall w hw)
  | @single s ss step steps hrec kind accepts inner _ ih =>
    have hwalks : Walks (step :: steps) ws ↔ ∃ w ws', ws = w :: ws' ∧ s.Accepts o w ∧ Walks steps ws' := by
      rcases kind with kind | kind <;> simp only [Walks, kind, accepts]
    rw [hwalks]
    simp only [PickAlone, PickBy, hrec, Bool.false_eq_true, if_false]
    constructor
    · rintro ⟨w, ws', rfl, hw, hwalk⟩
      obtain ⟨pieces, hpick, hbehind⟩ := (ih (List.forall_mem_cons.1 hws).2).1 hwalk
      refine ⟨w :: pieces, ⟨w, pieces, rfl, hw, hpick⟩, ?_⟩
      rw [behind_cons, behind_cons, hbehind]
    · rintro ⟨_, ⟨w, pieces, rfl, hw, hpick⟩, hbehind⟩
      obtain ⟨rest, rfl, hrest⟩ := behind_cons_eq (inner w hw) hws hbehind
      exact ⟨w, rest, rfl, hw, (ih (List.forall_mem_cons.1 hws).2).2 ⟨pieces, hpick, hrest⟩⟩
  | @tail s ss step hrec kind accepts =>
    have hne : ∀ {pieces}, PickAlone o (s :: ss) pieces → pieces ≠ [] := by
      rintro _ hpick rfl
      simp [PickAlone, PickBy, hrec] at hpick
    simp only [Walks, kind, accepts, and_true]
    constructor
    · rintro ⟨hnil, pieces, hpick, hjoin⟩
      exact ⟨pieces, hpick, (behind_inj_join (hne hpick) hnil).2 hjoin.symm⟩
    · rintro ⟨pieces, hpick, hbehind⟩
      have hnil : ws ≠ [] := fun hnil => hne hpick (behind_eq_nil.1 (hbehind.trans (behind_eq_nil.2 hnil)))
      exact ⟨hnil, pieces, hpick, ((behind_inj_join (hne hpick) hnil).1 hbehind).symm⟩

/-! ## Which steps a plan has -/

open Glob.Parser (Piece Placed collapse joined)

section Steps

variable {p t : Text} {s : Segment} {ss : List Segment} {m : Matcher}

theorem pickAlone_single (hrec : s.isRecursive = false) {c : Text} :
    (∃ ws, PickAlone o [s] ws ∧ c = Text.join [Mark.slash] ws) ↔ s.Accepts o c := by
  simp only [PickAlone, PickBy, hrec, Bool.false_eq_true, if_false]
  constructor
  · rintro ⟨_, ⟨w, _, rfl, hw, rfl⟩, rfl⟩
    simpa [Text.join] using hw
  · intro hw
    exact ⟨[c], ⟨c, [], rfl, hw, rfl⟩, by simp [Text.join]⟩

theorem nodes_ne_nil_of_not_literal (h : s.isLiteral = false) : s.nodes ≠ [] := by
  intro hnil
  rw [Segment.isLiteral, hnil] at h
  cases h

/-- **The matcher of a slice accepts what the segments of the slice pick.** -/
theorem ReadAs.picks (hcase : o.caseSensitive = true) (hsep : o.literalSeparator = true) (h : ReadAs t (s :: ss))
    (hnodes : s.nodes ≠ []) (hm : Matcher.ofPattern? o t = .ok m) (c : Text) :
    m.accepts c = true ↔ ∃ ws, PickAlone o (s :: ss) ws ∧ c = Text.join [Mark.slash] ws := by
  obtain ⟨tree, hparse, hsame⟩ := h
  have hcongr : List.Forall₂ (fun s s' => nodesBare s.nodes = nodesBare s'.nodes) tree.segments (s :: ss) :=
    forall₂_of_bare hsame
  obtain ⟨m', hm', haccepts⟩ := ofPattern?_derives (o := o) hparse (by simp [hcase]) fun _ => hsep
  obtain rfl : m = m' := Except.ok.inj (hm.symm.trans hm')
  have hroot : ¬ tree.BelowRoot := by
    rintro ⟨root, last, hsegments, hnil, -⟩
    rw [hsegments] at hcongr
    have hfirst : nodesBare root.nodes = nodesBare s.nodes := (List.forall₂_cons.1 hcongr).1
    rw [hnil, nodesBare_eq_map, nodesBare_eq_map] at hfirst
    exact hnodes (List.map_eq_nil_iff.1 hfirst.symm)
  simp only [haccepts, hroot, false_and, not_false_eq_true, and_true, derives_iff_pieces]
  exact exists_congr fun ws => and_congr_left fun _ => pickBy_congr hcongr

/-- A recursive step admits the components of a `**`. -/
theorem recursive_accepts {w : Text} (hw : Mark.slash ∉ w) :
    Selector.accepts ⟨.recursive, [Mark.star, Mark.star], none, o⟩ w = true ↔ o.Component w := by
  show (!(o.literalLeadingDot && w.head? == some Mark.dot)) = true ↔ _
  rw [Options.Component, and_iff_right hw]
  cases o.literalLeadingDot <;> simp

theorem accepts_literal (hcase : o.caseSensitive = true) (h : s.isLiteral = true) {w : Text} :
    s.Accepts o w ↔ w = s.literalText := by
  rw [Segment.Accepts, literal_takes hcase h]
  constructor
  · rintro ⟨_, hw⟩
    simpa [Segment.literalText] using hw
  · rintro rfl
    exact ⟨by rw [Nat.zero_add]; rfl, by simp [Segment.literalText]⟩

/-- A precise step admits the text of its segment. -/
theorem precise_accepts (hcase : o.caseSensitive = true) (h : s.isLiteral = true) {w : Text} :
    Selector.accepts ⟨.precise, s.literalText, none, o⟩ w = true ↔ s.Accepts o w := by
  show (if o.caseSensitive = true then w == s.literalText else _) = true ↔ _
  rw [if_pos hcase, beq_iff_eq, accepts_literal hcase h]

/-- **The steps that are made for segments stand for them.** -/
theorem Plan.Made.follows {steps : List Selector} (h : Plan.Made o p ss steps) (hcase : o.caseSensitive = true)
    (hsep : o.literalSeparator = true) (hescaped : ∀ s ∈ ss, s.isLiteral = true → Mark.slash ∉ s.literalText) :
    Follows o ss steps := by
  induction h with
  | nil => exact .nil
  | recursive hrec _ ih =>
    exact .recursive hrec rfl (fun w hw => recursive_accepts hw) (ih (List.forall_mem_cons.1 hescaped).2)
  | precise hliteral _ _ ih =>
    obtain ⟨hslash, hescaped⟩ := List.forall_mem_cons.1 hescaped
    refine .single (recursive_of_isLiteral hliteral) (.inl rfl) (fun w => precise_accepts hcase hliteral)
      (fun w hw => ?_) (ih hescaped)
    rw [(accepts_literal hcase hliteral).1 hw]
    exact hslash hliteral
  | wildcard hrec hliteral hcross slice hm _ ih =>
    have haccepts := slice.picks hcase hsep (nodes_ne_nil_of_not_literal hliteral) hm
    exact .single hrec (.inr rfl) (fun w => (haccepts w).trans (pickAlone_single hrec))
      (fun w hw => hw.not_mem hsep hcross) (ih (List.forall_mem_cons.1 hescaped).2)
  | tail hrec hliteral _ slice hm =>
    exact .tail hrec rfl (slice.picks hcase hsep (nodes_ne_nil_of_not_literal hliteral) hm)

/-- From any faithful cache, the segments get steps that stand for them. -/
def Planned (o : Options) (p : Text) (stop : Nat) (ss : List Segment) : Prop :=
  ∀ c : Cache, c.Faithful → ∃ steps c', Plan.steps p o stop ss c = (.ok steps, c') ∧ Follows o ss steps

/-- **The steps of a plan stand for the segments that they are made for.** -/
theorem planned_collapse {k stop : Nat} {pieces : List Piece} {placed : List Segment} (hcase : o.caseSensitive = true)
    (hsep : o.literalSeparator = true) (hplaced : Placed k pieces placed) {r : Bool}
    (htext : pieces ≠ [] → p.drop k = joined pieces ++ t ∧ stop = k + (joined pieces).length)
    (hescaped : ∀ s ∈ collapse r placed, s.isLiteral = true → Mark.slash ∉ s.literalText) :
    Planned o p stop (collapse r placed) := by
  intro c hc
  obtain ⟨steps, c', hsteps, hmade⟩ := Plan.makes_collapse hplaced htext c hc
  exact ⟨steps, c', hsteps, hmade.follows hcase hsep hescaped⟩

end Steps

/-! ## Plans -/

/-- Segments that can pick no piece can pick an empty one. -/
theorem pickAlone_empty {ss : List Segment} (hne : ss ≠ []) (h : PickAlone o ss []) : PickAlone o ss [[]] := by
  obtain ⟨s, rest, rfl⟩ := List.exists_cons_of_ne_nil hne
  unfold PickAlone at h ⊢
  rw [PickBy] at h ⊢
  by_cases hrec : s.isRecursive = true
  · rw [if_pos hrec] at h ⊢
    obtain ⟨components, ws, hnil, -, hrest⟩ := h
    obtain ⟨rfl, rfl⟩ := List.append_eq_nil_iff.1 hnil.symm
    exact ⟨[[]], [], rfl, by simp [Options.Component], hrest⟩
  · rw [if_neg hrec] at h
    obtain ⟨w, ws, hnil, -⟩ := h
    cases hnil

/-- **A walk admits the paths that the pattern can be read along.** -/
theorem Follows.derives {tree : Pattern} {steps : List Selector} (h : Follows o tree.segments steps)
    (hne : tree.segments ≠ []) (path : Text) :
    Walks steps (Text.splitAt Mark.slash path) ↔ tree.Derives o path := by
  have hsplit := Text.splitAt_ne_nil Mark.slash path
  rw [h.walks fun w hw => Text.not_mem_of_mem_splitAt hw, derives_iff_pieces]
  constructor
  · rintro ⟨pieces, hpick, hbehind⟩
    have hpieces : pieces ≠ [] := by
      rintro rfl
      exact hsplit (behind_eq_nil.1 hbehind.symm)
    refine ⟨pieces, hpick, ?_⟩
    rw [(behind_inj_join hpieces hsplit).1 hbehind, Text.join_splitAt]
  · rintro ⟨pieces, hpick, hjoin⟩
    -- no piece and one empty piece are the same path
    obtain ⟨pieces, hpieces, hpick, hjoin⟩ :
        ∃ pieces, pieces ≠ [] ∧ PickAlone o tree.segments pieces ∧ path = Text.join [Mark.slash] pieces := by
      cases pieces with
      | nil => exact ⟨[[]], List.cons_ne_nil _ _, pickAlone_empty hne hpick, hjoin⟩
      | cons w pieces => exact ⟨_, List.cons_ne_nil _ _, hpick, hjoin⟩
    refine ⟨pieces, hpick, ?_⟩
    rw [behind_inj_join hpieces hsplit, Text.join_splitAt, hjoin]

theorem walked_eq {segments : List Segment}
    (h : ∀ s, segments.getLast? = some s → s.nodes = [] → segments.length = 1) : Plan.walked segments = segments := by
  unfold Plan.walked
  split
  · next last hlast =>
    refine if_neg fun hdropped => ?_
    obtain ⟨hlong, hempty⟩ := Bool.and_eq_true_iff.1 hdropped
    have hone := h last hlast (List.isEmpty_iff.1 hempty)
    rw [hone] at hlong
    cases hlong
  · rfl

/-- **A plan admits the paths that its pattern matches.** -/
theorem walk_matches {p : Text} {tree : Pattern} {c c' : Cache} (hparse : Pattern.parse p = .ok tree)
    (hlast : ∀ s, tree.segments.getLast? = some s → s.nodes = [] → tree.segments.length = 1)
    (hescaped : ∀ s ∈ tree.segments, s.isLiteral = true → Mark.slash ∉ s.literalText)
    (hcase : o.caseSensitive = true) (hsep : o.literalSeparator = true) (hc : c.Reached) (hc' : c'.Reached) :
    ∃ steps m, (plan c o p).1 = .ok steps ∧ (c'.compile o p).1 = .ok m ∧
      ∀ path, (tree.BelowRoot → path ≠ []) →
        (Walks steps (Text.splitAt Mark.slash path) ↔ m.matcher.accepts path = true) := by
  obtain ⟨pieces, placed, hne, rfl, hplaced, rfl⟩ := parse_pieces hparse
  obtain ⟨first, segments, t, hfirst, hjoined, hplaced', hsame, hget⟩ := Parser.exists_trimmed hplaced hne
  have hnonempty := (parse_wellFormed hparse).nonempty
  -- the segments are those of the first pieces, which the plan reads
  obtain ⟨last, hlastSome⟩ := Option.ne_none_iff_exists'.1 (mt List.getLast?_eq_none_iff.1 hnonempty)
  have hstop : last.span.stop = ((joined first).length : Nat) := by
    have hend : segments.getLast? = some last := by
      rw [← hget, hsame]
      exact hlastSome
    rw [hplaced'.stop hend, Nat.zero_add]
  have hplan : plan c o (joined pieces) =
      Plan.steps (joined pieces) o ((joined first).length : Nat) (collapse false segments) c := by
    unfold plan
    rw [hparse]
    simp only [walked_eq hlast, hlastSome, Option.map_some, Option.getD_some, hstop, hsame]
  have hplanned : Planned o (joined pieces) (joined first).length (collapse false segments) :=
    planned_collapse hcase hsep hplaced' (fun _ => ⟨hjoined, (Nat.zero_add _).symm⟩) (by rw [hsame]; exact hescaped)
  obtain ⟨steps, c₁, hsteps, hfollows⟩ := hplanned c hc.faithful
  obtain ⟨m, hm, haccepts⟩ := ofPattern?_derives (o := o) hparse (by simp [hcase]) fun _ => hsep
  obtain ⟨v, c₂, hv, rfl, -⟩ := Cache.compile_ok hc'.faithful hm
  rw [hsame] at hfollows
  refine ⟨steps, v, by rw [hplan, hsteps], by rw [hv], fun path hpath => ?_⟩
  have hroot : ¬ (Pattern.BelowRoot ⟨joined pieces, collapse false placed⟩ ∧ path = []) := fun h => hpath h.1 h.2
  rw [haccepts, and_iff_left hroot]
  exact hfollows.derives hnonempty path

/-- The pattern `a/**/{b/,}*`, whose plan ends with a tail. -/
theorem walk_matches_tail :
    ∃ tree steps m, Pattern.parse (Text.of "a/**/\x7bb/,\x7d*") = .ok tree ∧
      (plan Cache.empty ⟨true, true, true⟩ (Text.of "a/**/\x7bb/,\x7d*")).1 = .ok steps ∧
      (Cache.empty.compile ⟨true, true, true⟩ (Text.of "a/**/\x7bb/,\x7d*")).1 = .ok m ∧
      ∀ path, (tree.BelowRoot → path ≠ []) →
        (Walks steps (Text.splitAt Mark.slash path) ↔ m.matcher.accepts path = true) := by
  have hparse : Pattern.parse (Text.of "a/**/\x7bb/,\x7d*") = .ok ⟨Text.of "a/**/\x7bb/,\x7d*",
      [⟨[.literal [0x61] ⟨0, 1⟩], ⟨0, 1⟩⟩, ⟨[.doubleStar ⟨2, 4⟩], ⟨2, 4⟩⟩,
        ⟨[.alternation [[.literal [0x62, 0x2F] ⟨6, 8⟩], []] ⟨5, 10⟩, .star ⟨10, 11⟩], ⟨5, 11⟩⟩]⟩ := rfl
  obtain ⟨steps, m, hsteps, hm, hwalk⟩ := walk_matches (o := ⟨true, true, true⟩) hparse
    (fun s hs hnil => by
      obtain rfl := Option.some.inj hs
      cases hnil)
    (by decide) rfl rfl .empty .empty
  exact ⟨_, steps, m, hparse, hsteps, hm, hwalk⟩

end Glob
