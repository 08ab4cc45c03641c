import Glob.Proofs.Regex.CaseFolding
import Mathlib.Data.List.Forall2
/-!
# Condensed forms side by side

When case is ignored an expression is run in condensed form, and what a part of it then matches may depend on what stands
beside it.  Two expressions are compared without a look at their letters if they differ only in parts that condensing
leaves alone.  Of a sequence these are the pieces that begin with an expression that is not simple: they are neither taken
out of alternatives nor made members of a set.  `Below` is the comparison of two such sequences, `Within` the one of two
expressions, and `Within.accepts` says that all that the first accepts the second accepts.

`Regex.ran` is the form in which an expression is run.  It does not matter for it whether the expression was written as
text and read back (`condensed_reread`), and what comes one after the other is run one after the other
(`matches_ran_seq`).
-/
namespace Glob.Regex

/-! ## Condensing what was read back -/

def atoms (r : Regex) : List Regex := joined (branches r)

theorem branches_of_isSequence {r : Regex} (h : r.isSequence = true) : branches r = [r.atoms] := by
  cases r with
  | either a b => simp [isSequence] at h
  | _ => rfl

theorem atoms_sequence (rs : List Regex) : (sequence rs).atoms = rs.flatMap atoms := by
  induction rs with
  | nil => rfl
  | cons r rs ih =>
    cases rs with
    | nil => simp [sequence]
    | cons s rs =>
      rw [List.flatMap_cons, ← ih]
      rfl

/-- How a sequence is nested does not show in its condensed form. -/
theorem branches_seq_seq (a b c : Regex) : branches (.seq (.seq a b) c) = branches (.seq a (.seq b c)) :=
  congrArg (fun atoms => [atoms]) (List.append_assoc a.atoms b.atoms c.atoms)

theorem isSequence_sequence {rs : List Regex} (h : ∀ r ∈ rs, r.isSequence = true) : (sequence rs).isSequence = true := by
  induction rs with
  | nil => rfl
  | cons r rs ih =>
    have hr := List.forall_mem_cons.1 h
    cases rs with
    | nil => exact hr.1
    | cons s rs => exact Bool.and_eq_true_iff.2 ⟨hr.1, ih hr.2⟩

/-- No expression in a sequence that was read back has alternatives outside of groups. -/
theorem isSequence_of_mem_parts {r : Regex} : ∀ branch ∈ parts r, ∀ atom ∈ branch, atom.isSequence = true := by
  induction r with
  | seq a b iha ihb =>
    intro branch hbranch atom hatom
    simp only [parts, List.mem_singleton] at hbranch
    subst hbranch
    rcases List.mem_append.1 hatom with hatom | hatom
    · obtain ⟨branch, hbranch, hatom⟩ := List.mem_flatten.1 hatom
      exact iha branch hbranch atom hatom
    · obtain ⟨branch, hbranch, hatom⟩ := List.mem_flatten.1 hatom
      exact ihb branch hbranch atom hatom
  | either a b iha ihb =>
    intro branch hbranch atom hatom
    rcases List.mem_cons.1 hbranch with rfl | hbranch
    · obtain ⟨branch, hbranch, hatom⟩ := List.mem_flatten.1 hatom
      exact iha branch hbranch atom hatom
    · exact ihb branch hbranch atom hatom
  | _ => simp [parts, isSequence]

theorem branches_reread {r : Regex} (h : r.Readable) : branches r.reread = branches r := by
  unfold reread
  induction r with
  | seq a b iha ihb =>
    obtain ⟨⟨ha, hb⟩, hra, hrb⟩ := h
    obtain ⟨as, has⟩ := parts_of_isSequence ha
    obtain ⟨bs, hbs⟩ := parts_of_isSequence hb
    rw [has, assembled_singleton] at iha
    rw [hbs, assembled_singleton] at ihb
    have hasa : (sequence as).atoms = a.atoms := congrArg joined (iha hra)
    have hbsb : (sequence bs).atoms = b.atoms := congrArg joined (ihb hrb)
    have hall : ∀ atom ∈ as ++ bs, atom.isSequence = true := fun atom hatom => by
      rcases List.mem_append.1 hatom with hatom | hatom
      · exact isSequence_of_mem_parts as (has ▸ List.mem_singleton_self as) atom hatom
      · exact isSequence_of_mem_parts bs (hbs ▸ List.mem_singleton_self bs) atom hatom
    have hparts : assembled (parts (.seq a b)) = sequence (as ++ bs) := by simp [parts, has, hbs, assembled_singleton]
    rw [hparts, branches_of_isSequence (isSequence_sequence hall), atoms_sequence, List.flatMap_append, ← atoms_sequence,
      ← atoms_sequence, hasa, hbsb]
    rfl
  | either a b iha ihb =>
    obtain ⟨ha, hra, hrb⟩ := h
    obtain ⟨as, has⟩ := parts_of_isSequence ha
    rw [has, assembled_singleton] at iha
    have hasa : (sequence as).atoms = a.atoms := congrArg joined (iha hra)
    rw [parts, assembled_cons (parts_ne_nil b), has, List.flatten_cons, List.flatten_nil, List.append_nil, branches,
      ihb hrb]
    exact congrArg (· :: branches b) hasa
  | group a ih => simp only [parts, assembled_singleton, sequence, branches, ih h]
  | many a ih => simp only [parts, assembled_singleton, sequence, branches, ih h.2]
  | optional a ih => simp only [parts, assembled_singleton, sequence, branches, ih h.2]
  | notAhead a ih => simp only [parts, assembled_singleton, sequence, branches, ih h]
  | notBehind a ih => simp only [parts, assembled_singleton, sequence, branches, ih h.2]
  | _ => rfl

/-- **Condensing does not see whether an expression was read back.** -/
theorem condensed_reread {r : Regex} (h : r.Readable) : r.reread.condensed = r.condensed := by
  rw [condensed, condensed, branches_reread h]

/-! ## The form that is run -/

def ran (ignoreCase : Bool) (r : Regex) : Regex := if ignoreCase then r.condensed else r

variable {ignoreCase : Bool} {t : Text}

theorem accepts_reread_iff {r : Regex} (h : r.Readable) :
    r.reread.accepts ignoreCase t = true ↔ ∃ j, Matches ignoreCase t (r.ran ignoreCase) 0 j := by
  rw [accepts_iff]
  refine exists_congr fun j => ?_
  cases ignoreCase with
  | false => exact matches_reread h
  | true => rw [if_pos rfl, condensed_reread h, ran, if_pos rfl]

theorem matches_ran_seq {a b : Regex} {i j : Nat} :
    Matches ignoreCase t ((Regex.seq a b).ran ignoreCase) i j ↔
      ∃ k, Matches ignoreCase t (a.ran ignoreCase) i k ∧ Matches ignoreCase t (b.ran ignoreCase) k j := by
  cases ignoreCase with
  | false => exact .rfl
  | true => exact matches_sequence_append _ _

/-- An expression of which no letter is at issue is run as it stands. -/
theorem matches_ran_of_folds {r : Regex} (h : r.Folds false) {i j : Nat} :
    Matches ignoreCase t (r.ran ignoreCase) i j ↔ Matches ignoreCase t r i j := by
  cases ignoreCase with
  | false => exact .rfl
  | true => exact matches_condensed h i j

/-! ## Sequences -/

/-- A piece of a sequence that does not begin with a simple expression. -/
def Solid (u : List Regex) : Prop := ∃ a as, u = a :: as ∧ a.isSimple = false

/-- The second sequence has the simple expressions of the first, and in between solid pieces that match no less where case
is ignored. -/
inductive Below (t : Text) : List Regex → List Regex → Prop
  | nil : Below t [] []
  | simple {a : Regex} {as bs : List Regex} (h : a.isSimple = true) (rest : Below t as bs) :
    Below t (a :: as) (a :: bs)
  | piece {u v as bs : List Regex} (hu : Solid u) (hv : Solid v)
    (h : ∀ i j, Matches true t (sequence u) i j → Matches true t (sequence v) i j)
    (rest : Below t as bs) : Below t (u ++ as) (v ++ bs)

variable {a : Regex} {as as' bs bs' : List Regex} {i j : Nat}

theorem Solid.append (h : Solid as) (bs : List Regex) : Solid (as ++ bs) := by
  obtain ⟨a, as, rfl, ha⟩ := h
  exact ⟨a, as ++ bs, rfl, ha⟩

theorem solid_singleton (h : a.isSimple = false) : Solid [a] := ⟨a, [], rfl, h⟩

namespace Below

theorem refl : (as : List Regex) → Below t as as
  | [] => .nil
  | a :: as =>
    match h : a.isSimple with
    | true => .simple h (refl as)
    | false => .piece (solid_singleton h) (solid_singleton h) (fun _ _ hm => hm) (refl as)

theorem append (h : Below t as as') (h' : Below t bs bs') :
    Below t (as ++ bs) (as' ++ bs') := by
  induction h with
  | nil => exact h'
  | simple ha _ ih => exact .simple ha ih
  | piece hu hv hm _ ih =>
    rw [List.append_assoc, List.append_assoc]
    exact .piece hu hv hm ih

/-- **What the first sequence matches, the second does.** -/
theorem matches_sequence (h : Below t as bs) :
    Matches true t (sequence as) i j → Matches true t (sequence bs) i j := by
  induction h generalizing i with
  | nil => exact id
  | simple _ _ ih =>
    rw [matches_sequence_cons, matches_sequence_cons]
    rintro ⟨k, hk, hrest⟩
    exact ⟨k, hk, ih hrest⟩
  | piece _ _ hm _ ih =>
    rw [matches_sequence_append, matches_sequence_append]
    rintro ⟨k, hk, hrest⟩
    exact ⟨k, hm i k hk, ih hrest⟩

/-! ### What alternatives have in common -/

theorem common_of_solid (h : Solid as) (bs : List Regex) : common as bs = [] := by
  obtain ⟨a, as, rfl, ha⟩ := h
  cases bs with
  | nil => rfl
  | cons b bs => exact if_neg fun h => Bool.noConfusion (ha.symm.trans h.2)

theorem common_solid (as : List Regex) (h : Solid bs) : common as bs = [] := by
  obtain ⟨b, bs, rfl, hb⟩ := h
  cases as with
  | nil => rfl
  | cons a as => exact if_neg fun h => Bool.noConfusion (hb.symm.trans (h.1 ▸ h.2))

theorem common_eq (ha : Below t as as') (hb : Below t bs bs') : common as bs = common as' bs' := by
  induction ha generalizing bs bs' with
  | nil => rfl
  | simple _ _ ih =>
    cases hb with
    | nil => rfl
    | simple _ hrest => rw [common, common, ih hrest]
    | piece hu hv _ _ => rw [common_solid _ (hu.append _), common_solid _ (hv.append _)]
  | piece hu hv _ _ _ => rw [common_of_solid (hu.append _), common_of_solid (hv.append _)]

theorem common_simple (as bs : List Regex) : ∀ a ∈ common as bs, a.isSimple = true := by
  fun_induction common as bs with
  | case1 a as b bs h ih => exact List.forall_mem_cons.2 ⟨h.2, ih⟩
  | case2 => exact fun _ h => absurd h List.not_mem_nil
  | case3 => exact fun _ h => absurd h List.not_mem_nil

variable {branches branches' : List (List Regex)}

theorem foldl_common_eq (h : List.Forall₂ (Below t) branches branches') (front : List Regex) :
    branches.foldl common front = branches'.foldl common front := by
  induction h generalizing front with
  | nil => rfl
  | cons hb _ ih => rw [List.foldl_cons, List.foldl_cons, common_eq (refl front) hb, ih]

/-- What several alternatives have in common is simple. -/
theorem foldl_common_simple (branch next : List Regex) (rest : List (List Regex)) :
    ∀ a ∈ (next :: rest).foldl common branch, a.isSimple = true := fun a ha =>
  common_simple branch next a ((foldl_common_begins (common branch next) rest _ List.mem_cons_self).subset ha)

/-- Behind simple expressions at the beginning of both, the sequences still compare. -/
theorem drop {front : List Regex} (h : Below t as bs) (hfront : front <+: as)
    (hsimple : ∀ a ∈ front, a.isSimple = true) : Below t (as.drop front.length) (bs.drop front.length) := by
  induction front generalizing as bs with
  | nil => exact h
  | cons a front ih =>
    have hfa := List.forall_mem_cons.1 hsimple
    cases h with
    | nil => exact .nil
    | simple _ hrest => exact ih hrest (List.cons_prefix_cons.1 hfront).2 hfa.2
    | piece hu _ _ _ =>
      obtain ⟨b, u, rfl, hb⟩ := hu
      rw [List.cons_append, List.cons_prefix_cons] at hfront
      rw [← hfront.1, hfa.1] at hb
      cases hb

/-! ### Alternatives as one expression -/

theorem members?_of_solid (h : Solid as) : members? as = none := by
  obtain ⟨a, as, rfl, ha⟩ := h
  unfold members?
  split
  · next heq =>
    obtain ⟨rfl, -⟩ := List.cons.inj heq
    cases ha
  · next heq =>
    obtain ⟨rfl, -⟩ := List.cons.inj heq
    cases ha
  · rfl

theorem nil_iff (h : Below t as bs) : as = [] ↔ bs = [] := by
  cases h with
  | nil => exact .rfl
  | simple => exact iff_of_false (List.cons_ne_nil _ _) (List.cons_ne_nil _ _)
  | piece hu hv _ _ =>
    obtain ⟨a, u, rfl, -⟩ := hu
    obtain ⟨b, v, rfl, -⟩ := hv
    exact iff_of_false (List.cons_ne_nil _ _) (List.cons_ne_nil _ _)

theorem members?_eq (h : Below t as bs) : members? as = members? bs := by
  cases h with
  | nil => rfl
  | piece hu hv _ _ => rw [members?_of_solid (hu.append _), members?_of_solid (hv.append _)]
  | @simple a as bs _ hrest =>
    by_cases has : as = []
    · rw [has, hrest.nil_iff.1 has]
    · obtain ⟨b, as, rfl⟩ := List.exists_cons_of_ne_nil has
      obtain ⟨c, bs, rfl⟩ := List.exists_cons_of_ne_nil (mt hrest.nil_iff.2 has)
      rw [members?, members?]
      all_goals simp

theorem mapM_members?_eq (h : List.Forall₂ (Below t) branches branches') :
    branches.mapM members? = branches'.mapM members? := by
  induction h with
  | nil => rfl
  | cons hb _ ih => rw [List.mapM_cons, List.mapM_cons, hb.members?_eq, ih]

theorem single {a b : Regex} (ha : a.isSimple = false) (hb : b.isSimple = false)
    (h : ∀ i j, Matches true t a i j → Matches true t b i j) : Below t [a] [b] :=
  .piece (solid_singleton ha) (solid_singleton hb) h .nil

theorem exists_branch (h : List.Forall₂ (Below t) branches branches') :
    ∀ branch ∈ branches, ∃ branch' ∈ branches', Below t branch branch' := by
  induction h with
  | nil => exact fun _ h => absurd h List.not_mem_nil
  | cons hb _ ih =>
    refine List.forall_mem_cons.2 ⟨⟨_, List.mem_cons_self, hb⟩, fun branch hbranch => ?_⟩
    obtain ⟨branch', hmem, hbelow⟩ := ih branch hbranch
    exact ⟨branch', List.mem_cons_of_mem _ hmem, hbelow⟩

/-- Either both are the same set, or both are groups. -/
theorem oneOf (hne : branches ≠ []) (h : List.Forall₂ (Below t) branches branches') :
    Below t [oneOf branches] [Regex.oneOf branches'] := by
  unfold Regex.oneOf
  rw [mapM_members?_eq h]
  cases branches'.mapM members? with
  | some items => exact refl _
  | none =>
    refine single rfl rfl fun i j hm => ?_
    obtain ⟨branch, hbranch, hij⟩ := (matches_assembled hne).1 hm
    obtain ⟨branch', hbranch', hbelow⟩ := exists_branch h branch hbranch
    exact (matches_assembled (List.ne_nil_of_mem hbranch')).2 ⟨branch', hbranch', hbelow.matches_sequence hij⟩

/-- **Joined to one sequence, alternatives still compare.** -/
theorem joined (h : List.Forall₂ (Below t) branches branches') :
    Below t (joined branches) (Regex.joined branches') := by
  cases h with
  | nil => exact .nil
  | @cons branch branch' _ _ hb h =>
    cases h with
    | nil => exact hb
    | @cons next next' rest rest' hnext hrest =>
      have hall : List.Forall₂ (Below t) (branch :: next :: rest) (branch' :: next' :: rest') :=
        .cons hb (.cons hnext hrest)
      have hfront : (next' :: rest').foldl common branch' = (next :: rest).foldl common branch := by
        rw [List.foldl_cons, List.foldl_cons, ← common_eq hb hnext, foldl_common_eq hrest]
      have hbegins := foldl_common_begins branch (next :: rest)
      have hsimple := foldl_common_simple branch next rest
      simp only [Regex.joined, hfront]
      generalize (next :: rest).foldl common branch = front at hbegins hsimple
      refine (refl front).append (oneOf (List.cons_ne_nil _ _) ?_)
      rw [List.forall₂_map_left_iff, List.forall₂_map_right_iff]
      exact ((List.forall₂_and_left _ _).2 ⟨hbegins, hall⟩).imp fun _ _ h => h.2.drop h.1 hsimple

end Below

/-! ## Expressions -/

/-- The second expression matches what the first does; where case is ignored, whatever they stand beside. -/
structure Within (ignoreCase : Bool) (t : Text) (r s : Regex) : Prop where
  plain : ∀ i j, Matches ignoreCase t r i j → Matches ignoreCase t s i j
  branches : ignoreCase = true → List.Forall₂ (Below t) (branches r) (branches s)

namespace Within

variable {a b c r r' s s' u v : Regex}

theorem refl (r : Regex) : Within ignoreCase t r r := ⟨fun _ _ h => h, fun _ => List.forall₂_same.2 fun as _ => .refl as⟩

theorem atoms (h : Within ignoreCase t r s) (hcase : ignoreCase = true) : Below t r.atoms s.atoms :=
  .joined (h.branches hcase)

theorem seq (h : Within ignoreCase t r r') (h' : Within ignoreCase t s s') :
    Within ignoreCase t (.seq r s) (.seq r' s') := by
  refine ⟨fun i j => ?_, fun hcase => .cons ((h.atoms hcase).append (h'.atoms hcase)) .nil⟩
  rintro ⟨k, hk, hj⟩
  exact ⟨k, h.plain i k hk, h'.plain k j hj⟩

theorem group (h : Within ignoreCase t r s) : Within ignoreCase t (.group r) (.group s) :=
  ⟨h.plain, fun hcase => .cons (h.atoms hcase) .nil⟩

theorem either (h : Within ignoreCase t r r') (h' : Within ignoreCase t s s') :
    Within ignoreCase t (.either r s) (.either r' s') :=
  ⟨fun i j => Or.imp (h.plain i j) (h'.plain i j), fun hcase => .cons (h.atoms hcase) (h'.branches hcase)⟩

theorem alternatives {rs ss : List Regex} (h : List.Forall₂ (Within ignoreCase t) rs ss) :
    Within ignoreCase t (alternatives rs) (Regex.alternatives ss) := by
  induction h with
  | nil => exact refl _
  | cons hr hrest ih =>
    cases hrest with
    | nil => exact hr
    | cons => exact hr.either ih

/-- Fronts that do not begin with a simple expression, and of which no letter is at issue, are compared by what they
match. -/
theorem front (hu : Solid u.atoms) (hv : Solid v.atoms) (hfu : u.Folds false) (hfv : v.Folds false)
    (h : ∀ i j, Matches ignoreCase t u i j → Matches ignoreCase t v i j) (hrest : Within ignoreCase t r s) :
    Within ignoreCase t (.seq u r) (.seq v s) := by
  constructor
  · rintro i j ⟨k, hk, hj⟩
    exact ⟨k, h i k hk, hrest.plain k j hj⟩
  · rintro rfl
    refine .cons (.piece hu hv (fun i j hm => ?_) (hrest.atoms rfl)) .nil
    exact (matches_condensed hfv i j).2 (h i j ((matches_condensed hfu i j).1 hm))

theorem assoc_left (h : Within ignoreCase t (.seq (.seq a b) c) s) : Within ignoreCase t (.seq a (.seq b c)) s := by
  constructor
  · rintro i j ⟨k, hk, l, hl, hj⟩
    exact h.plain i j ⟨l, ⟨k, hk, hl⟩, hj⟩
  · intro hcase
    have hbranches := h.branches hcase
    rwa [branches_seq_seq] at hbranches

theorem assoc_right (h : Within ignoreCase t r (.seq (.seq a b) c)) : Within ignoreCase t r (.seq a (.seq b c)) := by
  constructor
  · intro i j hm
    obtain ⟨l, ⟨k, hk, hl⟩, hj⟩ := h.plain i j hm
    exact ⟨k, hk, l, hl, hj⟩
  · intro hcase
    have hbranches := h.branches hcase
    rwa [branches_seq_seq] at hbranches

/-- What the first expression matches as it is run, the second does. -/
theorem ran (h : Within ignoreCase t r s) {i j : Nat} :
    Matches ignoreCase t (r.ran ignoreCase) i j → Matches ignoreCase t (s.ran ignoreCase) i j := by
  cases ignoreCase with
  | false => exact h.plain i j
  | true => exact (h.atoms rfl).matches_sequence

/-- **Written as text and read back, the second expression accepts what the first does.** -/
theorem accepts (h : Within ignoreCase t r s) (hr : r.Readable) (hs : s.Readable) :
    r.reread.accepts ignoreCase t = true → s.reread.accepts ignoreCase t = true := by
  rw [accepts_reread_iff hr, accepts_reread_iff hs]
  rintro ⟨j, hj⟩
  exact ⟨j, h.ran hj⟩

end Within

end Glob.Regex
