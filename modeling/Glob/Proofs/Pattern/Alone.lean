import Glob.Plan
import Glob.Proofs.Pattern.Bare
import Glob.Proofs.Pattern.Pieces
import Glob.Proofs.Pattern.Places
/-!
# A piece of a candidate by itself

What nodes take of a candidate does not depend on what stands around it, if it begins at the start of a component and
no dot comes behind it (`Inside.nodes_take`).  So the reading of a tree along a candidate only tests pieces of it, each
one by itself: `derives_iff_pieces`.

Nodes in which no separator stands take none, where wildcards do not either (`nodesTake_between`).
-/
namespace Glob

open Expression (drop_of_drop_eq)

variable {o : Options} {x w t : Text} {i j a b : Nat}

/-! ## Nodes take what is before them -/

mutual

theorem Node.Takes.le : (n : Node) → {i j : Nat} → n.Takes o x i j → i ≤ j
  | .literal _ _, _, _, h => h.1 ▸ Nat.le_add_right _ _
  | .anyChar _, _, _, h => h.2.1 ▸ Nat.le_succ _
  | .star _, _, _, h | .doubleStar _, _, _, h => h.2.1
  | .set _ _ _, _, _, h => h.2.1 ▸ Nat.le_succ _
  | .alternation bs _, _, _, h => branchesTake_le bs h

theorem nodesTake_le : (ns : List Node) → {i j : Nat} → nodesTake o x ns i j → i ≤ j
  | [], _, _, h => Nat.le_of_eq h.symm
  | n :: ns, _, _, ⟨_, hn, hns⟩ => Nat.le_trans (Node.Takes.le n hn) (nodesTake_le ns hns)

theorem branchesTake_le : (bs : List (List Node)) → {i j : Nat} → branchesTake o x bs i j → i ≤ j
  | b :: bs, _, _, h => h.elim (nodesTake_le b) (branchesTake_le bs)

end

/-! ## Within a piece -/

/-- The piece stands in the candidate at offset `i`, the start of a component, and no dot comes behind it. -/
structure Inside (x : Text) (i : Nat) (w : Text) : Prop where
  start : ComponentStart x i
  part : x.drop i = w ++ x.drop (i + w.length)
  behind : x[i + w.length]? ≠ some Mark.dot

theorem Inside.getElem? (h : Inside x i w) (ha : a < w.length) : x[i + a]? = w[a]? := by
  rw [← List.getElem?_drop, h.part, List.getElem?_append_left ha]

theorem Inside.componentStart (h : Inside x i w) (ha : a ≤ w.length) :
    ComponentStart x (i + a) ↔ ComponentStart w a := by
  cases a with
  | zero => exact iff_of_true h.start (.inl rfl)
  | succ k =>
    have hk : x[i + k]? = w[k]? := h.getElem? (by omega)
    unfold ComponentStart
    constructor
    · rintro (hzero | ⟨m, hm, hslash⟩)
      · omega
      · obtain rfl : m = i + k := by omega
        exact .inr ⟨k, rfl, hk ▸ hslash⟩
    · rintro (hzero | ⟨m, hm, hslash⟩)
      · omega
      · obtain rfl : m = k := by omega
        exact .inr ⟨i + m, rfl, hk.trans hslash⟩

theorem Inside.guarded (h : Inside x i w) (ha : a ≤ w.length) : o.Guarded x (i + a) ↔ o.Guarded w a := by
  have hdot : x[i + a]? ≠ some Mark.dot ↔ w[a]? ≠ some Mark.dot := by
    rcases Nat.lt_or_eq_of_le ha with hlt | rfl
    · rw [h.getElem? hlt]
    · exact iff_of_true h.behind (by simp)
  rw [Options.Guarded, Options.Guarded, h.componentStart ha, hdot]

theorem Inside.between (h : Inside x i w) {test : CodePoint → Prop} (hb : b ≤ w.length) :
    Between x test (i + a) (i + b) ↔ Between w test a b := by
  unfold Between
  constructor
  · rintro ⟨hab, hall⟩
    refine ⟨by omega, fun k hk hkb => ?_⟩
    rw [← h.getElem? (by omega)]
    exact hall (i + k) (by omega) (by omega)
  · rintro ⟨hab, hall⟩
    refine ⟨by omega, fun k hk hkb => ?_⟩
    obtain ⟨m, rfl⟩ := Nat.exists_eq_add_of_le (Nat.le_trans (Nat.le_add_right i a) hk)
    rw [h.getElem? (by omega)]
    exact hall m (by omega) (by omega)

theorem Inside.single (h : Inside x i w) {test : CodePoint → Prop} (hb : b ≤ w.length) :
    (i + b = i + a + 1 ∧ ∃ d, x[i + a]? = some d ∧ test d) ↔ b = a + 1 ∧ ∃ d, w[a]? = some d ∧ test d := by
  constructor
  · rintro ⟨hnext, htest⟩
    rw [h.getElem? (by omega)] at htest
    exact ⟨by omega, htest⟩
  · rintro ⟨rfl, htest⟩
    rw [← h.getElem? (by omega)] at htest
    exact ⟨rfl, htest⟩

theorem Inside.stands (h : Inside x i w) {text : Text} (hb : a + text.length ≤ w.length) :
    o.Stands x text (i + a) ↔ o.Stands w text a := by
  induction text generalizing a with
  | nil => exact Iff.rfl
  | cons p text ih =>
    rw [List.length_cons] at hb
    have hnext := ih (a := a + 1) (by omega)
    rw [Options.Stands, Options.Stands, h.getElem? (by omega), ← hnext]
    rfl

mutual

theorem Inside.node_takes (h : Inside x i w) :
    (n : Node) → {a b : Nat} → b ≤ w.length → (n.Takes o x (i + a) (i + b) ↔ n.Takes o w a b)
  | .literal text _, a, b, hb => by
    simp only [Node.Takes]
    constructor
    · rintro ⟨hlen, hstands⟩
      exact ⟨by omega, (h.stands (by omega)).1 hstands⟩
    · rintro ⟨rfl, hstands⟩
      exact ⟨by omega, (h.stands hb).2 hstands⟩
  | .anyChar _, a, b, hb | .set _ _ _, a, b, hb => by
    simp only [Node.Takes, h.single hb]
    refine ⟨fun hn => ⟨(h.guarded ?_).1 hn.1, hn.2⟩, fun hn => ⟨(h.guarded ?_).2 hn.1, hn.2⟩⟩
    all_goals
      have := hn.2.1
      omega
  | .star _, a, b, hb | .doubleStar _, a, b, hb => by
    simp only [Node.Takes, h.between hb]
    refine ⟨fun hn => ⟨(h.guarded ?_).1 hn.1, hn.2⟩, fun hn => ⟨(h.guarded ?_).2 hn.1, hn.2⟩⟩
    all_goals
      have := hn.2.1
      omega
  | .alternation bs _, _, _, hb => h.branches_take bs hb

theorem Inside.nodes_take (h : Inside x i w) :
    (ns : List Node) → {a b : Nat} → b ≤ w.length → (nodesTake o x ns (i + a) (i + b) ↔ nodesTake o w ns a b)
  | [], a, b, _ => by
    simp only [nodesTake]
    omega
  | n :: ns, a, b, hb => by
    simp only [nodesTake]
    constructor
    · rintro ⟨k, hn, hns⟩
      obtain ⟨m, rfl⟩ := Nat.exists_eq_add_of_le (Nat.le_trans (Nat.le_add_right i a) (Node.Takes.le n hn))
      have hm := nodesTake_le ns hns
      exact ⟨m, (h.node_takes n (by omega)).1 hn, (h.nodes_take ns hb).1 hns⟩
    · rintro ⟨m, hn, hns⟩
      have hm := nodesTake_le ns hns
      exact ⟨i + m, (h.node_takes n (by omega)).2 hn, (h.nodes_take ns hb).2 hns⟩

theorem Inside.branches_take (h : Inside x i w) :
    (bs : List (List Node)) → {a b : Nat} → b ≤ w.length →
      (branchesTake o x bs (i + a) (i + b) ↔ branchesTake o w bs a b)
  | [], _, _, _ => Iff.rfl
  | b :: bs, _, _, hb => or_congr (h.nodes_take b hb) (h.branches_take bs hb)

end

/-! ## Segments by themselves -/

/-- A segment that is not recursive, by itself. -/
def Segment.Accepts (o : Options) (s : Segment) (w : Text) : Prop := nodesTake o w s.nodes 0 w.length

theorem Laid.inside {ws : List Text} (h : Laid x i (w :: ws)) : Inside x i w where
  start := h.start (List.cons_ne_nil _ _)
  part := h.part
  behind := Expression.no_dot_of_drop h.behind

/-- **Reading a pattern along a candidate tests pieces of it, each by itself.** -/
theorem derives_iff_pieces {p : Pattern} :
    p.Derives o x ↔
      ∃ ws, PickBy o.Component (Segment.Accepts o) p.segments ws ∧ x = Text.join [Mark.slash] ws :=
  derives_iff fun s _ i w _ h => by
    have := h.inside.nodes_take (o := o) s.nodes (a := 0) (Nat.le_refl w.length)
    rwa [Nat.add_zero] at this

/-- Segments that are the same without spans accept the same. -/
theorem pickBy_congr {ss ss' : List Segment} {ws : List Text}
    (h : List.Forall₂ (fun s s' => nodesBare s.nodes = nodesBare s'.nodes) ss ss') :
    PickBy o.Component (Segment.Accepts o) ss ws ↔ PickBy o.Component (Segment.Accepts o) ss' ws := by
  induction h generalizing ws with
  | nil => exact Iff.rfl
  | @cons s s' ss ss' hs _ ih =>
    have haccepts : ∀ w, s.Accepts o w ↔ s'.Accepts o w := fun w => nodesTake_congr hs
    simp only [PickBy, Segment.isRecursive_congr hs, haccepts, ih]

/-! ## Without separators -/

theorem Between.trans {test : CodePoint → Prop} {k : Nat} (h : Between x test i k) (h' : Between x test k j) :
    Between x test i j := by
  refine ⟨Nat.le_trans h.1 h'.1, fun m him hmj => ?_⟩
  rcases Nat.lt_or_ge m k with hlt | hge
  · exact h.2 m him hlt
  · exact h'.2 m hge hmj

theorem Between.one {test : CodePoint → Prop} {d : CodePoint} (hd : x[i]? = some d) (h : test d) :
    Between x test i (i + 1) := by
  refine ⟨Nat.le_succ i, fun m him hmi => ?_⟩
  obtain rfl : m = i := by omega
  exact ⟨d, hd, h⟩

theorem stands_between {text : Text} (h : Mark.slash ∉ text) (hs : o.Stands x text i) :
    Between x (· ≠ Mark.slash) i (i + text.length) := by
  induction text generalizing i with
  | nil => exact ⟨Nat.le_refl i, fun k hik hki => by simp only [List.length_nil] at hki; omega⟩
  | cons p text ih =>
    obtain ⟨hp, htext⟩ := List.ne_and_not_mem_of_not_mem_cons h
    obtain ⟨⟨d, hd, hsame⟩, hs⟩ := hs
    have hslash : d ≠ Mark.slash := by
      rintro rfl
      exact hp ((Options.same_slash p).1 (Options.same_comm.1 hsame)).symm
    have hrest := ih htext hs
    rw [List.length_cons, Nat.add_comm text.length, ← Nat.add_assoc]
    exact (Between.one hd hslash).trans hrest

mutual

theorem Node.Takes.between (hsep : o.literalSeparator = true) :
    (n : Node) → n.crossesSeparator = false → {i j : Nat} → n.Takes o x i j → Between x (· ≠ Mark.slash) i j
  | .literal text _, hn, _, _, ⟨rfl, hs⟩ => stands_between (by simpa [Node.crossesSeparator] using hn) hs
  | .anyChar _, _, _, _, ⟨_, rfl, _, hd, hadmits⟩ => .one hd (hadmits hsep)
  | .set _ _ _, _, _, _, ⟨_, rfl, _, hd, hclass⟩ => .one hd (hclass.1 hsep)
  | .star _, _, _, _, ⟨_, h⟩ | .doubleStar _, _, _, _, ⟨_, h⟩ =>
    ⟨h.1, fun k hik hkj => (h.2 k hik hkj).imp fun _ hd => ⟨hd.1, hd.2 hsep⟩⟩
  | .alternation bs _, hn, _, _, h => branchesTake_between hsep bs hn h

theorem nodesTake_between (hsep : o.literalSeparator = true) :
    (ns : List Node) → crossesSeparator ns = false → {i j : Nat} → nodesTake o x ns i j →
      Between x (· ≠ Mark.slash) i j
  | [], _, _, _, rfl => ⟨Nat.le_refl _, fun _ hik hki => absurd hki (Nat.not_lt.2 hik)⟩
  | n :: ns, hns, _, _, ⟨_, hn, htail⟩ =>
    have hcross := Bool.or_eq_false_iff.1 hns
    (Node.Takes.between hsep n hcross.1 hn).trans (nodesTake_between hsep ns hcross.2 htail)

theorem branchesTake_between (hsep : o.literalSeparator = true) :
    (bs : List (List Node)) → branchesCrossSeparator bs = false → {i j : Nat} → branchesTake o x bs i j →
      Between x (· ≠ Mark.slash) i j
  | b :: bs, hbs, _, _, h =>
    have hcross := Bool.or_eq_false_iff.1 hbs
    h.elim (nodesTake_between hsep b hcross.1) (branchesTake_between hsep bs hcross.2)

end

/-- **A segment without separators takes a piece without separators.** -/
theorem Segment.Accepts.not_mem {s : Segment} (hsep : o.literalSeparator = true) (hs : crossesSeparator s.nodes = false)
    (h : s.Accepts o w) : Mark.slash ∉ w := by
  intro hmem
  obtain ⟨k, hk, hslash⟩ := List.getElem_of_mem hmem
  obtain ⟨d, hd, hne⟩ := (nodesTake_between hsep s.nodes hs h).2 k (Nat.zero_le _) hk
  rw [List.getElem?_eq_getElem hk, hslash] at hd
  exact hne (Option.some.inj hd).symm

end Glob
