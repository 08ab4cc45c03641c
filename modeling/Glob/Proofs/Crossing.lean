import Glob.Proofs.Pattern.Comparison
import Glob.Proofs.Walk
/-!
# Walking where wildcards cross separators

A plan tells a wildcard step from a tail by the tree alone, also where the options let wildcards take separators.  A step
tests one component all the same, so the plan admits the paths that the pattern matches without a wildcard taking a
separator, those of `Options.separating`, and without a tail it admits no others: `walk_crossing`.
-/
namespace Glob

open Regex (Matches)

variable {o o' : Options} {p t t' x : Text} {ss : List Segment} {steps steps' : List Selector} {m m' : Matcher}

/-! ## Matchers of slices -/

theorem ReadAs.accepts_iff (h : ReadAs t ss) (hcase : o.caseSensitive = true) (hm : Matcher.ofPattern? o t = .ok m)
    (x : Text) : m.accepts x = true ↔ Matches false x (Expression.segments o ss) 0 x.length := by
  obtain ⟨tree, hparse, hsame⟩ := h
  rw [accepts_iff_matches hparse (by simp [hcase]) hm, hcase, ← Expression.segments_bare tree.segments, hsame,
    Expression.segments_bare]
  rfl

/-- Slices that are read as the same segments have matchers that compare as the options do. -/
theorem ReadAs.accepts_mono (h : ReadAs t ss) (h' : ReadAs t' ss) (hcase : o.caseSensitive = true)
    (hcase' : o'.caseSensitive = true) (hm : Matcher.ofPattern? o t = .ok m) (hm' : Matcher.ofPattern? o' t' = .ok m')
    (hcompares : o.Compares (fun _ _ => True) x o') (haccepts : m.accepts x = true) : m'.accepts x = true := by
  rw [h.accepts_iff hcase hm] at haccepts
  rw [h'.accepts_iff hcase' hm']
  have hwithin := Expression.segments_within hcompares fun s (_ : s ∈ ss) => nodesEvery_of_forall (fun _ _ => trivial) _
  rw [hcase, hcase'] at hwithin
  exact hwithin haccepts

/-! ## Walks -/

/-- A step of the same kind that admits whatever the other one does; of a step that is no tail, only single components
count. -/
def Selector.AdmitsWithin (a b : Selector) : Prop :=
  a.kind = b.kind ∧ ∀ w, (a.kind ≠ .tail → Mark.slash ∉ w) → a.accepts w = true → b.accepts w = true

/-- Steps that admit more can be walked at least as far. -/
theorem Walks.mono (h : List.Forall₂ Selector.AdmitsWithin steps steps') {ws : List Text}
    (hws : ∀ w ∈ ws, Mark.slash ∉ w) (hwalk : Walks steps ws) : Walks steps' ws := by
  induction h generalizing ws with
  | nil => exact hwalk
  | @cons a b steps steps' hstep _ ih =>
    obtain ⟨hkind, hadmits⟩ := hstep
    have hsingle : a.kind ≠ .tail → ∀ w ∈ ws, a.accepts w = true → b.accepts w = true := fun htail w hw =>
      hadmits w fun _ => hws w hw
    rw [Walks] at hwalk ⊢
    rw [← hkind]
    cases hk : a.kind with
    | precise | wildcard =>
      rw [hk] at hwalk hsingle
      obtain ⟨w, ws', rfl, hw, hrest⟩ := hwalk
      obtain ⟨-, hws'⟩ := List.forall_mem_cons.1 hws
      exact ⟨w, ws', rfl, hsingle (by decide) w List.mem_cons_self hw, ih hws' hrest⟩
    | recursive =>
      rw [hk] at hwalk hsingle
      obtain ⟨components, ws', rfl, hall, hrest⟩ := hwalk
      refine ⟨components, ws', rfl, fun w hw => ?_, ih (List.forall_mem_append.1 hws).2 hrest⟩
      exact hsingle (by decide) w (List.mem_append_left _ hw) (hall w hw)
    | tail =>
      rw [hk] at hwalk
      obtain ⟨hne, hw, hrest⟩ := hwalk
      exact ⟨hne, hadmits _ (fun htail => absurd hk htail) hw, ih (fun _ h => absurd h List.not_mem_nil) hrest⟩

section Made

variable {s : Segment} {a b : Selector}

/-- Steps for the same segment are of the same kind, and admit what their options do. -/
theorem Plan.Made.head_admits (h : Plan.Made o p (s :: ss) (a :: steps)) (h' : Plan.Made o' p (s :: ss) (b :: steps'))
    (hcase : o.caseSensitive = true) (hcase' : o'.caseSensitive = true) (hdot : o.literalLeadingDot = o'.literalLeadingDot)
    (hcompares : ∀ x, (a.kind ≠ .tail → Mark.slash ∉ x) → o.Compares (fun _ _ => True) x o') : a.AdmitsWithin b := by
  have hkind : a.kind = b.kind := h.head.1.kind.trans h'.head.1.kind.symm
  refine ⟨hkind, fun w hw haccepts => ?_⟩
  cases h with
  | recursive =>
    cases h' with
    | recursive =>
      rw [Selector.accepts] at haccepts ⊢
      rwa [← hdot]
    | precise | wildcard | tail => cases hkind
  | precise =>
    cases h' with
    | precise =>
      simp only [Selector.accepts, hcase, hcase'] at haccepts ⊢
      exact haccepts
    | recursive | wildcard | tail => cases hkind
  | wildcard _ _ _ slice hm =>
    cases h' with
    | wildcard _ _ _ slice' hm' => exact slice.accepts_mono slice' hcase hcase' hm hm' (hcompares w hw) haccepts
    | recursive | precise | tail => cases hkind
  | tail _ _ _ slice hm =>
    cases h' with
    | tail _ _ _ slice' hm' => exact slice.accepts_mono slice' hcase hcase' hm hm' (hcompares w hw) haccepts
    | recursive | precise | wildcard => cases hkind

/-- **Steps that are made under two options admit what the options do.** -/
theorem Plan.Made.admitsWithin (h : Plan.Made o p ss steps) (h' : Plan.Made o' p ss steps')
    (hcase : o.caseSensitive = true) (hcase' : o'.caseSensitive = true) (hdot : o.literalLeadingDot = o'.literalLeadingDot)
    (hcompares : ∀ step ∈ steps, ∀ x, (step.kind ≠ .tail → Mark.slash ∉ x) → o.Compares (fun _ _ => True) x o') :
    List.Forall₂ Selector.AdmitsWithin steps steps' := by
  induction steps generalizing ss steps' with
  | nil =>
    cases h
    cases h'
    exact .nil
  | cons a steps ih =>
    obtain ⟨s, ss, rfl⟩ := h.exists_segment
    obtain ⟨b, steps', rfl⟩ := h'.exists_step
    obtain ⟨hhead, hrest⟩ := List.forall_mem_cons.1 hcompares
    have hadmits := h.head_admits h' hcase hcase' hdot hhead
    refine .cons hadmits ?_
    rcases h.head.2 with ⟨hk, rfl⟩ | ⟨hk, hmade⟩ <;> rcases h'.head.2 with ⟨hk', rfl⟩ | ⟨hk', hmade'⟩
    · exact .nil
    · exact absurd (hadmits.1 ▸ hk) hk'
    · exact absurd (hadmits.1 ▸ hk') hk
    · exact ih hmade hmade' hrest

end Made

/-! ## Plans -/

variable {tree : Pattern} {c c' : Cache}

/-- **A plan admits the paths that its pattern matches without a wildcard taking a separator**, and without a tail no
others.  These are paths that the pattern matches; where wildcards may take separators it may match more. -/
theorem walk_crossing (hparse : Pattern.parse p = .ok tree)
    (hlast : ∀ s, tree.segments.getLast? = some s → s.nodes = [] → tree.segments.length = 1)
    (hescaped : ∀ s ∈ tree.segments, s.isLiteral = true → Mark.slash ∉ s.literalText) (hcase : o.caseSensitive = true)
    (hc : c.Reached) (hc' : c'.Reached) :
    ∃ steps m m', (plan c o p).1 = .ok steps ∧ (c'.compile o p).1 = .ok m ∧
      (c'.compile o.separating p).1 = .ok m' ∧ ∀ path, (tree.BelowRoot → path ≠ []) →
        (m'.matcher.accepts path = true →
          m.matcher.accepts path = true ∧ Walks steps (Text.splitAt Mark.slash path)) ∧
        ((∀ step ∈ steps, step.kind ≠ .tail) →
          (Walks steps (Text.splitAt Mark.slash path) ↔ m'.matcher.accepts path = true)) := by
  have hwhole : ReadAs p tree.segments := ⟨tree, hparse, rfl⟩
  have hcase' : o.separating.caseSensitive = true := hcase
  have hm := ofPattern?_of_parse hparse o
  obtain ⟨m', hm', hderives⟩ := ofPattern?_derives (o := o.separating) hparse (fun h => absurd (h.symm.trans hcase) nofun)
    fun _ => rfl
  obtain ⟨v, _, hv, hvm, -⟩ := Cache.compile_ok hc'.faithful hm
  obtain ⟨v', _, hv', rfl, -⟩ := Cache.compile_ok hc'.faithful hm'
  obtain ⟨steps, hsteps, hmade⟩ := plan_made (c := c) (o := o) hparse hc.faithful
  obtain ⟨steps', -, hmade'⟩ := plan_made (c := c) (o := o.separating) hparse hc.faithful
  rw [walked_eq hlast] at hmade hmade'
  -- the plan of the options that refuse separators admits what its pattern matches
  have hwalk' : ∀ path, (tree.BelowRoot → path ≠ []) →
      (Walks steps' (Text.splitAt Mark.slash path) ↔ v'.matcher.accepts path = true) := by
    intro path hpath
    have hroot : ¬ (tree.BelowRoot ∧ path = []) := fun h => hpath h.1 h.2
    rw [hderives, and_iff_left hroot]
    exact (hmade'.follows hcase' rfl hescaped).derives (parse_wellFormed hparse).nonempty path
  have hpieces : ∀ path, ∀ w ∈ Text.splitAt Mark.slash path, Mark.slash ∉ w := fun path w hw =>
    Text.not_mem_of_mem_splitAt hw
  refine ⟨steps, v, v', by rw [hsteps], by rw [hv], by rw [hv'], fun path hpath => ⟨fun haccepts => ⟨?_, ?_⟩, fun htail => ?_⟩⟩
  · rw [hvm]
    exact hwhole.accepts_mono hwhole hcase' hcase hm' hm (Options.compares_separating hcase path) haccepts
  · have hwithin := hmade'.admitsWithin hmade hcase' hcase rfl fun _ _ x _ => Options.compares_separating hcase x
    exact Walks.mono hwithin (hpieces path) ((hwalk' path hpath).2 haccepts)
  · have hwithin := hmade.admitsWithin hmade' hcase hcase' rfl fun step hstep x hx =>
      Options.separating_compares hcase (hx (htail step hstep))
    have hwithin' := hmade'.admitsWithin hmade hcase' hcase rfl fun _ _ x _ => Options.compares_separating hcase x
    rw [← hwalk' path hpath]
    exact ⟨Walks.mono hwithin (hpieces path), Walks.mono hwithin' (hpieces path)⟩

/-- The pattern `**/b*`, where wildcards may cross separators. -/
theorem walk_crossing_recursive :
    ∃ steps m m', (plan Cache.empty ⟨true, false, true⟩ (Text.of "**/b*")).1 = .ok steps ∧
      (Cache.empty.compile ⟨true, false, true⟩ (Text.of "**/b*")).1 = .ok m ∧
      (Cache.empty.compile ⟨true, true, true⟩ (Text.of "**/b*")).1 = .ok m' ∧
      ∀ path, m'.matcher.accepts path = true →
        m.matcher.accepts path = true ∧ Walks steps (Text.splitAt Mark.slash path) := by
  have hparse : Pattern.parse (Text.of "**/b*") = .ok ⟨Text.of "**/b*",
      [⟨[.doubleStar ⟨0, 2⟩], ⟨0, 2⟩⟩, ⟨[.literal [0x62] ⟨3, 4⟩, .star ⟨4, 5⟩], ⟨3, 5⟩⟩]⟩ := rfl
  obtain ⟨steps, m, m', hsteps, hm, hm', hwalk⟩ := walk_crossing (o := ⟨true, false, true⟩) hparse
    (fun s hs hnil => by
      obtain rfl := Option.some.inj hs
      cases hnil)
    (by decide) rfl .empty .empty
  refine ⟨steps, m, m', hsteps, hm, hm', fun path => (hwalk path ?_).1⟩
  rintro ⟨root, last, hsegments, hnil, -⟩
  obtain ⟨rfl, -⟩ := List.cons.inj hsegments
  cases hnil

/-- The pattern `*` matches `a/b` where it may cross separators, but its plan has one step for two components. -/
theorem crossing_path_pruned :
    ∃ steps m, (plan Cache.empty ⟨true, false, false⟩ (Text.of "*")).1 = .ok steps ∧
      (Cache.empty.compile ⟨true, false, false⟩ (Text.of "*")).1 = .ok m ∧
      m.matcher.accepts (Text.of "a/b") = true ∧ ¬ Walks steps (Text.splitAt Mark.slash (Text.of "a/b")) := by
  refine ⟨_, _, rfl, rfl, rfl, ?_⟩
  rintro ⟨w, ws, heq, -, hrest⟩
  obtain rfl : ws = [] := hrest
  cases heq

end Glob
