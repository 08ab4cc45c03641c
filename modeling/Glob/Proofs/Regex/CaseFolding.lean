import Glob.Proofs.Regex.ReadBack
/-!
# Ignoring case, member by member

When case is ignored, a member of a set should stand for its whole case class: a set then has the code points of which
some case variant lies in one of its ranges (`Variant`).  The two rules for members beyond U+FFFF break this for a
single capital letter among other members, and for a range that begins behind one of four letters whose capital is
written with several code points.  `Whole` is the condition under which a member stands for its class; `inItems_iff`
says that it then does.

An alternative of one character is a member like any other after `condensed`, so inside alternatives what a character
matches may depend on its neighbours.  It does not if it is `Steady`, and a set of which all members are, or which has
two of them, is tested member by member (`Settled`).  `matches_condensed` says that an expression with nothing but such
characters and sets (`Folds`) matches the same in condensed form.
-/
namespace Glob.Regex

open Relation (ReflTransGen)

/-! ## Members of sets -/

/-- Some case variant of the code point lies in one of the ranges; where case matters, the code point itself. -/
def Variant (ignoreCase : Bool) (items : List (CodePoint × CodePoint)) (c : CodePoint) : Prop :=
  ∃ item ∈ items, ∃ d, (item.1 ≤ d ∧ d ≤ item.2) ∧ sameChar ignoreCase d c = true

/-- The member stands for its case class wherever it is among other members: it does not reach beyond U+FFFF, or it
is one code point that has no other lower case, or it is a range that does not begin between one of `firstCapitals`
and its capital. -/
def Whole (item : CodePoint × CodePoint) : Prop :=
  item.2 ≤ lastFolded ∨ (item.1 = item.2 ∧ Text.lower item.1 = item.1) ∨
    (item.1 ≠ item.2 ∧ ∀ capital ∈ Text.firstCapitals, item.1 ≤ capital.2 → item.1 ≤ capital.1)

instance (item : CodePoint × CodePoint) : Decidable (Whole item) := by
  unfold Whole
  infer_instance

/-- No letter beyond U+FFFF has relatives. -/
theorem kin_beyond {l m : CodePoint} (h : m ∈ Text.kin l) (hm : lastFolded < m) : m = l := by
  have hall : ∀ s ∈ Text.relatives, ∀ l ∈ s, l ≤ lastFolded := by decide
  unfold Text.kin at h
  cases hf : Text.relatives.find? (·.contains l) with
  | none =>
    rw [hf] at h
    simpa using h
  | some s =>
    rw [hf] at h
    exact absurd (hall s (List.mem_of_find?_eq_some hf) m h) (Nat.not_le.2 hm)

theorem mates_any {c : CodePoint} {item : CodePoint × CodePoint} :
    (Text.classMates c).any (inRange item) = true ↔ ∃ d, (item.1 ≤ d ∧ d ≤ item.2) ∧ Text.sameClass d c = true := by
  simp only [List.any_eq_true, Text.mem_classMates_iff, inRange, Bool.and_eq_true, decide_eq_true_eq,
    Text.sameClass_comm c]
  exact exists_congr fun d => and_comm

theorem inRangeFolded_iff {item : CodePoint × CodePoint} (h : Whole item) (c : CodePoint) :
    inRangeFolded item c = true ↔ ∃ d, (item.1 ≤ d ∧ d ≤ item.2) ∧ Text.sameClass d c = true := by
  obtain ⟨lo, hi⟩ := item
  unfold inRangeFolded
  by_cases hle : hi ≤ lastFolded
  · rw [if_pos hle, mates_any]
  rw [if_neg hle]
  by_cases heq : lo = hi
  · subst heq
    rw [if_pos rfl]
    have hlower : Text.lower lo = lo := by
      rcases h with h | h | h
      · exact absurd h hle
      · exact h.2
      · exact absurd rfl h.1
    simp only [beq_iff_eq]
    constructor
    · intro hc
      refine ⟨lo, ⟨Nat.le_refl _, Nat.le_refl _⟩, ?_⟩
      rw [Text.sameClass, List.contains_iff_mem, hlower, hc]
      exact Text.mem_kin_self lo
    · rintro ⟨d, ⟨h1, h2⟩, hd⟩
      obtain rfl := Nat.le_antisymm h2 h1
      rw [Text.sameClass_comm, Text.sameClass, List.contains_iff_mem, hlower] at hd
      exact (kin_beyond hd (Nat.lt_of_not_le hle)).symm
  · rw [if_neg heq, Bool.or_eq_true, mates_any, or_iff_left_iff_imp]
    -- the capital of `c` is in the range, so the range does not begin behind `c`
    intro hcapital
    cases hc : Text.firstCapital? c with
    | none => simp [hc] at hcapital
    | some capital =>
      have hmem : (c, capital) ∈ Text.firstCapitals := by
        obtain ⟨l₁, l₂, hl, _⟩ := List.lookup_eq_some_iff.1 hc
        rw [hl]
        exact List.mem_append_right _ List.mem_cons_self
      have hsmall : ∀ e ∈ Text.firstCapitals, e.1 ≤ e.2 := by decide
      simp only [hc, Option.any_some, inRange, Bool.and_eq_true, decide_eq_true_eq] at hcapital
      have hlo : lo ≤ c := by
        rcases h with h | h | h
        · exact absurd h hle
        · exact absurd h.1 heq
        · exact h.2 _ hmem hcapital.1
      exact ⟨c, ⟨hlo, Nat.le_trans (hsmall _ hmem) hcapital.2⟩, Text.sameClass_self c⟩

theorem inRange_iff {item : CodePoint × CodePoint} (c : CodePoint) :
    inRange item c = true ↔ ∃ d, (item.1 ≤ d ∧ d ≤ item.2) ∧ sameChar false d c = true := by
  simp [inRange, sameChar]

/-- The set of one code point is that code point. -/
theorem inItems_single (ignoreCase : Bool) (p c : CodePoint) :
    inItems ignoreCase [(p, p)] c = sameChar ignoreCase p c := by
  cases ignoreCase with
  | true => simp [inItems, sameChar]
  | false =>
    rw [Bool.eq_iff_iff]
    simp only [inItems, List.any_cons, List.any_nil, Bool.or_false, inRange, sameChar, Bool.and_eq_true,
      decide_eq_true_eq, Bool.false_eq_true, if_false, beq_iff_eq]
    exact ⟨fun h => Nat.le_antisymm h.1 h.2, fun h => h ▸ ⟨Nat.le_refl _, Nat.le_refl _⟩⟩

theorem variant_single (ignoreCase : Bool) (p c : CodePoint) :
    Variant ignoreCase [(p, p)] c ↔ sameChar ignoreCase p c = true := by
  simp only [Variant, List.mem_singleton, exists_eq_left]
  constructor
  · rintro ⟨d, ⟨h1, h2⟩, hd⟩
    exact Nat.le_antisymm h2 h1 ▸ hd
  · intro h
    exact ⟨p, ⟨Nat.le_refl _, Nat.le_refl _⟩, h⟩

/-- **A set has the code points with a case variant in one of its ranges**, if its members stand for their classes or
it is a single character. -/
theorem inItems_iff {ignoreCase : Bool} {items : List (CodePoint × CodePoint)}
    (h : ignoreCase = true → (∀ item ∈ items, Whole item) ∨ ∃ p, items = [(p, p)]) (c : CodePoint) :
    inItems ignoreCase items c = true ↔ Variant ignoreCase items c := by
  cases ignoreCase with
  | false => simp only [inItems, List.any_eq_true, Variant, inRange_iff]
  | true =>
    rcases h rfl with hwhole | ⟨p, rfl⟩
    · have hany : items.any (inRangeFolded · c) = true ↔ Variant true items c := by
        simp only [List.any_eq_true, Variant, sameChar, if_true]
        exact exists_congr fun item => and_congr_right fun hi => inRangeFolded_iff (hwhole item hi) c
      unfold inItems
      split
      · contradiction
      · next lo hi heq =>
        split
        · next hlohi =>
          subst hlohi
          exact (variant_single true lo c).symm
        · simpa using hany
      · exact hany
    · rw [inItems_single, variant_single]

/-! ## Members among others -/

/-- The member is compared among others as it is alone; a capital letter beyond U+FFFF is not. -/
def Steady (item : CodePoint × CodePoint) : Prop :=
  item.1 = item.2 → item.2 ≤ lastFolded ∨ Text.lower item.1 = item.1

instance (item : CodePoint × CodePoint) : Decidable (Steady item) := by
  unfold Steady
  infer_instance

/-- The members are compared as members, whatever other ones there are: all of them are steady, or there are two. -/
def Settled (items : List (CodePoint × CodePoint)) : Prop :=
  (∀ item ∈ items, Steady item) ∨ ∃ a ∈ items, ∃ b ∈ items, a ≠ b

instance (items : List (CodePoint × CodePoint)) : Decidable (Settled items) := by
  unfold Settled
  infer_instance

theorem Whole.steady {item : CodePoint × CodePoint} (h : Whole item) : Steady item := by
  intro heq
  rcases h with h | h | h
  · exact .inl h
  · exact .inr h.2
  · exact absurd heq h.1

theorem Steady.of_ne {item : CodePoint × CodePoint} (h : item.1 ≠ item.2) : Steady item := fun heq => absurd heq h

theorem Steady.inRangeFolded_single {p : CodePoint} (h : Steady (p, p)) (c : CodePoint) :
    inRangeFolded (p, p) c = Text.sameClass p c := by
  have hwhole : Whole (p, p) := (h rfl).imp_right fun hlower => .inl ⟨rfl, hlower⟩
  rw [Bool.eq_iff_iff, inRangeFolded_iff hwhole]
  constructor
  · rintro ⟨d, ⟨h1, h2⟩, hd⟩
    obtain rfl : d = p := Nat.le_antisymm h2 h1
    exact hd
  · intro hc
    exact ⟨p, ⟨Nat.le_refl _, Nat.le_refl _⟩, hc⟩

theorem Settled.steady {item : CodePoint × CodePoint} (h : Settled [item]) : Steady item := by
  rcases h with h | ⟨a, ha, b, hb, hab⟩
  · exact h item List.mem_cons_self
  · exact absurd ((List.mem_singleton.1 ha).trans (List.mem_singleton.1 hb).symm) hab

/-- Settled sets are settled together. -/
theorem Settled.union (parts : List (List (CodePoint × CodePoint))) {items : List (CodePoint × CodePoint)}
    (hitems : ∀ item, item ∈ items ↔ ∃ part ∈ parts, item ∈ part) (h : ∀ part ∈ parts, Settled part) :
    Settled items := by
  by_cases hsteady : ∀ item ∈ items, Steady item
  · exact .inl hsteady
  · obtain ⟨item, hitem, hnot⟩ : ∃ item ∈ items, ¬ Steady item := by simpa using hsteady
    obtain ⟨part, hpart, hin⟩ := (hitems item).1 hitem
    obtain ⟨a, ha, b, hb, hab⟩ := (h part hpart).resolve_left fun hall => hnot (hall item hin)
    exact .inr ⟨a, (hitems a).2 ⟨part, hpart, ha⟩, b, (hitems b).2 ⟨part, hpart, hb⟩, hab⟩

theorem Settled.congr {items items' : List (CodePoint × CodePoint)} (hitems : ∀ item, item ∈ items' ↔ item ∈ items)
    (h : Settled items) : Settled items' :=
  .union [items] (by simpa using hitems) (by simpa using h)

/-- **Where case is ignored, a settled set has what one of its members has.** -/
theorem Settled.inItems_iff {items : List (CodePoint × CodePoint)} (h : Settled items) (c : CodePoint) :
    inItems true items c = true ↔ ∃ item ∈ items, inRangeFolded item c = true := by
  match items, h with
  | [], _ => simp [inItems]
  | [(lo, hi)], h =>
    simp only [inItems, List.mem_singleton, exists_eq_left]
    split
    · next heq =>
      subst heq
      rw [h.steady.inRangeFolded_single]
    · exact .rfl
  | _ :: _ :: _, _ => simp only [inItems, List.any_eq_true]

/-! ## Expressions that may be condensed -/

/-- All sets are settled, except that one that is negated or outside alternatives may have any single member, and inside
alternatives all characters are steady, because there they may become members. -/
def Folds (inside : Bool) : Regex → Prop
  | .char c => inside = true → Steady (c, c)
  | .set negated items => Settled items ∨ ((inside = false ∨ negated = true) ∧ ∃ item, items = [item])
  | .seq a b => a.Folds inside ∧ b.Folds inside
  | .either a b => a.Folds true ∧ b.Folds true
  | .group a | .many a | .optional a | .notAhead a | .notBehind a => a.Folds inside
  | .empty | .any | .start | .stop => True

theorem Folds.weaken {r : Regex} {inside : Bool} (h : r.Folds true) : r.Folds inside := by
  induction r with
  | char c => exact fun _ => h rfl
  | set negated items => exact h.imp_right fun h => ⟨.inr (h.1.resolve_left Bool.noConfusion), h.2⟩
  | seq a b iha ihb => exact ⟨iha h.1, ihb h.2⟩
  | either a b => exact h
  | group a ih => exact ih h
  | many a ih => exact ih h
  | optional a ih => exact ih h
  | notAhead a ih => exact ih h
  | notBehind a ih => exact ih h
  | _ => trivial

/-- All atoms of the branches fold. -/
def BranchesFold (inside : Bool) (branches : List (List Regex)) : Prop :=
  ∀ branch ∈ branches, ∀ atom ∈ branch, atom.Folds inside

theorem folds_sequence {atoms : List Regex} {inside : Bool} (h : ∀ atom ∈ atoms, atom.Folds inside) :
    (sequence atoms).Folds inside := by
  induction atoms with
  | nil => trivial
  | cons atom atoms ih =>
    have htail := ih fun a ha => h a (List.mem_cons_of_mem _ ha)
    cases atoms with
    | nil => exact h atom List.mem_cons_self
    | cons next atoms => exact ⟨h atom List.mem_cons_self, htail⟩

theorem folds_alternatives {rs : List Regex} {inside : Bool} (h : ∀ r ∈ rs, r.Folds true) :
    (alternatives rs).Folds inside := by
  induction rs generalizing inside with
  | nil => trivial
  | cons r rs ih =>
    cases rs with
    | nil => exact (h r List.mem_cons_self).weaken
    | cons next rs => exact ⟨h r List.mem_cons_self, ih fun a ha => h a (List.mem_cons_of_mem _ ha)⟩

theorem folds_assembled {branches : List (List Regex)} {inside : Bool} (h : BranchesFold inside branches)
    (hmany : 2 ≤ branches.length → BranchesFold true branches) : (assembled branches).Folds inside := by
  match branches, h, hmany with
  | [], _, _ => trivial
  | [branch], h, _ => exact folds_sequence (h branch List.mem_cons_self)
  | branch :: next :: rest, _, hmany =>
    refine folds_alternatives fun r hr => ?_
    obtain ⟨b, hb, rfl⟩ := List.mem_map.1 hr
    exact folds_sequence (hmany (by simp) b hb)

/-! ## The condensed form -/

section Condensed

variable {t : Text}

/-- `branches` are alternatives that say the same as `r`. -/
structure Condenses (t : Text) (inside : Bool) (branches : List (List Regex)) (r : Regex) : Prop where
  nonempty : branches ≠ []
  folds : BranchesFold inside branches
  folds_of_many : 2 ≤ branches.length → BranchesFold true branches
  same : ∀ i j, (∃ branch ∈ branches, Matches true t (sequence branch) i j) ↔ Matches true t r i j

theorem Condenses.single {inside : Bool} {atom r : Regex} (hfolds : atom.Folds inside)
    (hsame : ∀ i j, Matches true t atom i j ↔ Matches true t r i j) : Condenses t inside [[atom]] r where
  nonempty := List.cons_ne_nil _ _
  folds := by simpa [BranchesFold] using hfolds
  folds_of_many := by simp
  same := by simpa [sequence] using hsame

theorem common_begins (as bs : List Regex) : common as bs <+: as ∧ common as bs <+: bs := by
  fun_induction common as bs with
  | case1 a as b bs h ih =>
    obtain ⟨rfl, _⟩ := h
    exact ⟨List.cons_prefix_cons.2 ⟨rfl, ih.1⟩, List.cons_prefix_cons.2 ⟨rfl, ih.2⟩⟩
  | case2 => exact ⟨List.nil_prefix, List.nil_prefix⟩
  | case3 => exact ⟨List.nil_prefix, List.nil_prefix⟩

/-- What all branches have in common is at the beginning of each. -/
theorem foldl_common_begins (branch : List Regex) (branches : List (List Regex)) :
    ∀ b ∈ branch :: branches, branches.foldl common branch <+: b := by
  induction branches generalizing branch with
  | nil => simp
  | cons next rest ih =>
    intro b hb
    have hfold := ih (common branch next)
    have hstart := hfold _ List.mem_cons_self
    rw [List.foldl_cons]
    rcases List.mem_cons.1 hb with rfl | hb
    · exact hstart.trans (common_begins b next).1
    rcases List.mem_cons.1 hb with rfl | hb
    · exact hstart.trans (common_begins branch b).2
    · exact hfold b (List.mem_cons_of_mem _ hb)

/-- A branch that is one member or one set matches one code point that one of the members has. -/
theorem matches_of_members? {branch : List Regex} {items : List (CodePoint × CodePoint)}
    (h : members? branch = some items) (hfolds : ∀ atom ∈ branch, atom.Folds true) :
    Settled items ∧ ∀ i j, Matches true t (sequence branch) i j ↔
      j = i + 1 ∧ ∃ c, t[i]? = some c ∧ ∃ item ∈ items, inRangeFolded item c = true := by
  unfold members? at h
  split at h
  · next c =>
    cases h
    have hc : Steady (c, c) := hfolds _ List.mem_cons_self rfl
    refine ⟨.inl (by simpa using hc), fun i j => ?_⟩
    simp only [sequence, Matches, sameChar, if_true, List.mem_singleton, exists_eq_left, hc.inRangeFolded_single]
  · next items' =>
    cases h
    have hsettled : Settled items := by
      rcases hfolds _ List.mem_cons_self with h | h
      · exact h
      · exact absurd h.1 (by simp)
    refine ⟨hsettled, fun i j => ?_⟩
    simp only [sequence, Matches, inSet, Bool.bne_false, hsettled.inItems_iff]
  · cases h

/-- The members of several branches, each one member or one set. -/
theorem mapM_members? {branches : List (List Regex)} {members : List (List (CodePoint × CodePoint))}
    (h : branches.mapM members? = some members) :
    (∀ branch ∈ branches, ∃ items, members? branch = some items) ∧
      ∀ item, item ∈ members.flatten ↔ ∃ branch ∈ branches, ∃ items, members? branch = some items ∧ item ∈ items := by
  induction branches generalizing members with
  | nil =>
    cases h
    simp
  | cons branch branches ih =>
    rw [List.mapM_cons] at h
    cases hb : members? branch with
    | none => simp [hb] at h
    | some items =>
      cases hbs : branches.mapM members? with
      | none => simp [hb, hbs] at h
      | some rest =>
        simp only [hb, hbs, Option.pure_def, Option.bind_eq_bind, Option.bind_some, Option.some.injEq] at h
        subst h
        obtain ⟨hsome, hmem⟩ := ih hbs
        refine ⟨?_, by simp [hb, hmem]⟩
        simpa [hb] using hsome

/-- Several alternatives as one expression match what one of them matches. -/
theorem matches_oneOf {branches : List (List Regex)} (hne : branches ≠ []) (h : BranchesFold true branches) :
    (oneOf branches).Folds true ∧ ∀ i j, Matches true t (oneOf branches) i j ↔
      ∃ branch ∈ branches, Matches true t (sequence branch) i j := by
  unfold oneOf
  cases hm : branches.mapM members? with
  | none =>
    refine ⟨folds_alternatives fun r hr => ?_, fun i j => ?_⟩
    · obtain ⟨b, hb, rfl⟩ := List.mem_map.1 hr
      exact folds_sequence (h b hb)
    · exact matches_assembled hne
  | some members =>
    obtain ⟨hsome, hmem⟩ := mapM_members? hm
    have hset : ∀ item, item ∈ members.flatten.eraseDups ↔
        ∃ branch ∈ branches, ∃ items, members? branch = some items ∧ item ∈ items :=
      fun item => List.mem_eraseDups.trans (hmem item)
    have hsettled : Settled members.flatten.eraseDups := by
      refine .union (branches.filterMap members?) (fun item => ?_) fun part hpart => ?_
      · simp only [hset, List.mem_filterMap]
        constructor
        · rintro ⟨b, hb, items, hbi, hi⟩
          exact ⟨items, ⟨b, hb, hbi⟩, hi⟩
        · rintro ⟨items, ⟨b, hb, hbi⟩, hi⟩
          exact ⟨b, hb, items, hbi, hi⟩
      · obtain ⟨b, hb, hbi⟩ := List.mem_filterMap.1 hpart
        exact (matches_of_members? (t := t) hbi (h b hb)).1
    refine ⟨.inl hsettled, fun i j => ?_⟩
    simp only [Matches, inSet, Bool.bne_false, hsettled.inItems_iff, hset]
    constructor
    · rintro ⟨hj, c, hc, item, ⟨b, hb, items, hbi, hi⟩, hd⟩
      exact ⟨b, hb, ((matches_of_members? hbi (h b hb)).2 i j).2 ⟨hj, c, hc, item, hi, hd⟩⟩
    · rintro ⟨b, hb, hij⟩
      obtain ⟨items, hbi⟩ := hsome b hb
      obtain ⟨hj, c, hc, item, hi, hd⟩ := ((matches_of_members? hbi (h b hb)).2 i j).1 hij
      exact ⟨hj, c, hc, item, ⟨b, hb, items, hbi, hi⟩, hd⟩

/-- Alternatives joined to one sequence match what one of them matches. -/
theorem Condenses.joined {inside : Bool} {branches : List (List Regex)} {r : Regex}
    (h : Condenses t inside branches r) :
    (∀ atom ∈ joined branches, atom.Folds inside) ∧
      ∀ i j, Matches true t (sequence (Regex.joined branches)) i j ↔ Matches true t r i j := by
  match branches, h with
  | [], h => exact absurd rfl h.nonempty
  | [branch], h =>
    refine ⟨h.folds branch List.mem_cons_self, fun i j => ?_⟩
    rw [← h.same]
    simp [Regex.joined]
  | branch :: next :: rest, h =>
    have hfold : BranchesFold true (branch :: next :: rest) := h.folds_of_many (by simp)
    have hfront := foldl_common_begins branch (next :: rest)
    simp only [Regex.joined]
    generalize (next :: rest).foldl common branch = front at hfront
    have hdrop : BranchesFold true ((branch :: next :: rest).map (·.drop front.length)) := fun b hb a ha => by
      obtain ⟨b', hb', rfl⟩ := List.mem_map.1 hb
      exact hfold b' hb' a (List.mem_of_mem_drop ha)
    obtain ⟨hone, hmatch⟩ := matches_oneOf (t := t) (by simp) hdrop
    constructor
    · intro atom hatom
      rcases List.mem_append.1 hatom with ha | ha
      · exact (hfold branch List.mem_cons_self atom ((hfront branch List.mem_cons_self).subset ha)).weaken
      · rw [List.mem_singleton.1 ha]
        exact hone.weaken
    · intro i j
      rw [← h.same, matches_sequence_append]
      simp only [show ∀ r : Regex, sequence [r] = r from fun _ => rfl, hmatch]
      constructor
      · rintro ⟨k, hk, b, hb, hkj⟩
        obtain ⟨b', hb', rfl⟩ := List.mem_map.1 hb
        refine ⟨b', hb', ?_⟩
        rw [← List.prefix_iff_eq_append.1 (hfront b' hb'), matches_sequence_append]
        exact ⟨k, hk, hkj⟩
      · rintro ⟨b, hb, hij⟩
        rw [← List.prefix_iff_eq_append.1 (hfront b hb), matches_sequence_append] at hij
        obtain ⟨k, hk, hkj⟩ := hij
        exact ⟨k, hk, _, List.mem_map_of_mem hb, hkj⟩

/-- Members that are repeated do not count, and a set of one character is that character. -/
theorem matches_ofSet {inside negated : Bool} {items : List (CodePoint × CodePoint)}
    (h : (Regex.set negated items).Folds inside) :
    (ofSet negated items).Folds inside ∧
      ∀ i j, Matches true t (ofSet negated items) i j ↔ Matches true t (.set negated items) i j := by
  have hdups : (Regex.set negated items.eraseDups).Folds inside ∧
      ∀ c, inItems true items.eraseDups c = inItems true items c := by
    rcases h with hsettled | ⟨hout, item, rfl⟩
    · have hsettled' : Settled items.eraseDups := hsettled.congr fun _ => List.mem_eraseDups
      refine ⟨.inl hsettled', fun c => ?_⟩
      rw [Bool.eq_iff_iff, hsettled.inItems_iff, hsettled'.inItems_iff]
      simp only [List.mem_eraseDups]
    · have hone : [item].eraseDups = [item] := by simp [List.eraseDups_cons]
      rw [hone]
      exact ⟨.inr ⟨hout, item, rfl⟩, fun _ => rfl⟩
  obtain ⟨hfolds, hsame⟩ := hdups
  unfold ofSet
  generalize items.eraseDups = dups at hfolds hsame
  split
  · next lo hi =>
    split
    · next heq =>
      subst heq
      refine ⟨fun hinside => ?_, fun i j => ?_⟩
      · rcases hfolds with hsettled | ⟨hout, -⟩
        · exact hsettled.steady
        · exact absurd hout (by simp [hinside])
      · simp only [Matches, inSet, Bool.bne_false, ← hsame, inItems_single]
    · exact ⟨hfolds, fun i j => by simp only [Matches, inSet, hsame]⟩
  · exact ⟨hfolds, fun i j => by simp only [Matches, inSet, hsame]⟩

/-- **The branches of an expression say the same as the expression.** -/
theorem condenses_branches {r : Regex} {inside : Bool} (h : r.Folds inside) :
    Condenses t inside (branches r) r := by
  induction r generalizing inside with
  | empty =>
    exact ⟨List.cons_ne_nil _ _, by simp [BranchesFold, branches], by simp [branches], by simp [branches, sequence]⟩
  | char c => exact .single h fun _ _ => .rfl
  | any => exact .single h fun _ _ => .rfl
  | set negated items => exact .single (matches_ofSet (t := t) h).1 (matches_ofSet h).2
  | start => exact .single h fun _ _ => .rfl
  | stop => exact .single h fun _ _ => .rfl
  | seq a b iha ihb =>
    obtain ⟨hfa, hma⟩ := (iha h.1).joined
    obtain ⟨hfb, hmb⟩ := (ihb h.2).joined
    refine ⟨List.cons_ne_nil _ _, fun branch hb atom ha => ?_, by simp [branches], fun i j => ?_⟩
    · rw [branches, List.mem_singleton] at hb
      subst hb
      rcases List.mem_append.1 ha with ha | ha
      · exact hfa atom ha
      · exact hfb atom ha
    · simp only [branches, List.mem_singleton, exists_eq_left, matches_sequence_append, hma, hmb, Matches]
  | either a b iha ihb =>
    obtain ⟨hfa, hma⟩ := (iha h.1).joined
    have hb : Condenses t true (branches b) b := ihb h.2
    have hfold : BranchesFold true (branches (.either a b)) := fun branch hbranch => by
      rcases List.mem_cons.1 hbranch with rfl | hbranch
      · exact hfa
      · exact hb.folds branch hbranch
    refine ⟨List.cons_ne_nil _ _, fun branch hbranch atom ha => (hfold branch hbranch atom ha).weaken,
      fun _ => hfold, fun i j => ?_⟩
    simp only [branches, List.mem_cons, exists_eq_or_imp, hma, hb.same, Matches]
  | group a ih =>
    obtain ⟨hf, hm⟩ := (ih h).joined
    refine ⟨List.cons_ne_nil _ _, fun branch hb => ?_, by simp [branches], fun i j => ?_⟩
    · rw [branches, List.mem_singleton] at hb
      exact hb ▸ hf
    · simp only [branches, List.mem_singleton, exists_eq_left, hm, Matches]
  | many a ih =>
    obtain ⟨hf, hm⟩ := (ih h).joined
    have : Matches true t (sequence (joined (branches a))) = Matches true t a :=
      funext₂ fun i j => propext (hm i j)
    exact .single (folds_sequence hf) fun i j => by simp only [Matches, this]
  | optional a ih =>
    obtain ⟨hf, hm⟩ := (ih h).joined
    exact .single (folds_sequence hf) fun i j => by simp only [Matches, hm]
  | notAhead a ih =>
    obtain ⟨hf, hm⟩ := (ih h).joined
    exact .single (folds_sequence hf) fun i j => by simp only [Matches, hm]
  | notBehind a ih =>
    obtain ⟨hf, hm⟩ := (ih h).joined
    exact .single (folds_sequence hf) fun i j => by simp only [Matches, hm]

theorem matches_condensed {r : Regex} {inside : Bool} (h : r.Folds inside) (i j : Nat) :
    Matches true t r.condensed i j ↔ Matches true t r i j :=
  (condenses_branches h).joined.2 i j

end Condensed

/-! ## Reading back keeps the condition -/

theorem branchesFold_single {atom : Regex} {inside : Bool} (h : atom.Folds inside) :
    BranchesFold inside [[atom]] ∧ (2 ≤ [[atom]].length → BranchesFold true [[atom]]) := by
  simpa [BranchesFold] using h

theorem folds_parts {r : Regex} {inside : Bool} (hr : r.Readable) (h : r.Folds inside) :
    BranchesFold inside (parts r) ∧ (2 ≤ (parts r).length → BranchesFold true (parts r)) := by
  have whole : ∀ {a : Regex} {inside : Bool},
      BranchesFold inside (parts a) ∧ (2 ≤ (parts a).length → BranchesFold true (parts a)) →
        (assembled (parts a)).Folds inside := fun h => folds_assembled h.1 h.2
  induction r generalizing inside with
  | empty => simp [parts, BranchesFold]
  | seq a b iha ihb =>
    obtain ⟨⟨ha, hb⟩, hra, hrb⟩ := hr
    obtain ⟨as, has⟩ := parts_of_isSequence ha
    obtain ⟨bs, hbs⟩ := parts_of_isSequence hb
    have hfa := (iha hra h.1).1
    have hfb := (ihb hrb h.2).1
    rw [has] at hfa
    rw [hbs] at hfb
    refine ⟨fun branch hbranch atom hatom => ?_, by simp [parts]⟩
    simp only [parts, has, hbs, List.flatten_cons, List.flatten_nil, List.append_nil, List.mem_singleton] at hbranch
    subst hbranch
    rcases List.mem_append.1 hatom with hatom | hatom
    · exact hfa as List.mem_cons_self atom hatom
    · exact hfb bs List.mem_cons_self atom hatom
  | either a b iha ihb =>
    obtain ⟨ha, hra, hrb⟩ := hr
    obtain ⟨as, has⟩ := parts_of_isSequence ha
    have hfa := (iha hra h.1).1
    have hfb := (ihb hrb h.2).1
    rw [has] at hfa
    have hfold : BranchesFold true (parts (.either a b)) := fun branch hbranch => by
      simp only [parts, has, List.flatten_cons, List.flatten_nil, List.append_nil, List.mem_cons] at hbranch
      rcases hbranch with rfl | hbranch
      · exact hfa branch List.mem_cons_self
      · exact hfb branch hbranch
    exact ⟨fun branch hb atom ha => (hfold branch hb atom ha).weaken, fun _ => hfold⟩
  | group a ih => exact branchesFold_single (whole (ih hr h))
  | many a ih => exact branchesFold_single (whole (ih hr.2 h))
  | optional a ih => exact branchesFold_single (whole (ih hr.2 h))
  | notAhead a ih => exact branchesFold_single (whole (ih hr h))
  | notBehind a ih => exact branchesFold_single (whole (ih hr.2 h))
  | _ => exact branchesFold_single h

theorem folds_reread {r : Regex} {inside : Bool} (hr : r.Readable) (h : r.Folds inside) : r.reread.Folds inside :=
  folds_assembled (folds_parts hr h).1 (folds_parts hr h).2

/-- **A text that was written is read back and run with the meaning of the expression**, whether case matters or
not. -/
theorem accepts_reread {ignoreCase : Bool} {r : Regex} (hr : r.Readable) (hf : ignoreCase = true → r.Folds false)
    (t : Text) : r.reread.accepts ignoreCase t = true ↔ ∃ j, Matches ignoreCase t r 0 j := by
  rw [accepts_iff]
  refine exists_congr fun j => ?_
  cases ignoreCase with
  | false => exact matches_reread hr
  | true => exact (matches_condensed (folds_reread hr (hf rfl)) 0 j).trans (matches_reread hr)

end Glob.Regex
