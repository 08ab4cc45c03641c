import Glob.Proofs.Pattern.Segments
import Glob.Proofs.Regex.Condensed
/-!
# Behind whole components

What an expression matches does not depend on what stands before it, if all that it asks about this is whether a separator
comes right before, and what stands there are whole components: nothing, or a text that ends with a separator.  Then the
start of a component is the start of a component (`componentStart_append`), and offsets only move (`matches_append`).

The expressions of nodes and segments are of this kind (`segmentsAfter_local`), and so are their condensed forms, which are
run where case is ignored (`Local.condensed`).
-/
namespace Glob

open Regex (Matches)
open Relation (ReflTransGen)

/-- Nothing, or a text that ends with a separator. -/
def WholeComponents (d : Text) : Prop := d = [] ∨ d.getLast? = some Mark.slash

variable {o : Options} {d x : Text} {i j : Nat}

theorem getElem?_behind (d x : Text) (i : Nat) : (d ++ x)[d.length + i]? = x[i]? := by
  rw [List.getElem?_append_right (Nat.le_add_right _ _), Nat.add_sub_cancel_left]

theorem componentStart_append (hd : WholeComponents d) : ComponentStart (d ++ x) (d.length + i) ↔ ComponentStart x i := by
  cases i with
  | zero =>
    refine iff_of_true ?_ (.inl rfl)
    rcases hd with rfl | hd
    · exact .inl rfl
    · obtain ⟨u, rfl⟩ := List.getLast?_eq_some_iff.1 hd
      exact .inr ⟨u.length, List.length_append, by simp⟩
  | succ k =>
    have hk := getElem?_behind d x k
    constructor
    · rintro (hzero | ⟨m, hm, hslash⟩)
      · cases hzero
      · obtain rfl := Nat.succ.inj hm
        exact .inr ⟨k, rfl, hk ▸ hslash⟩
    · rintro (hzero | ⟨m, hm, hslash⟩)
      · cases hzero
      · obtain rfl := Nat.succ.inj hm
        exact .inr ⟨d.length + k, rfl, hk.trans hslash⟩

namespace Regex

/-- Of what comes before, the expression asks only whether it is a separator. -/
def Local : Regex → Prop
  | .start => False
  | .notBehind a => a = Expression.notSeparator
  | .seq a b | .either a b => a.Local ∧ b.Local
  | .group a | .many a | .optional a | .notAhead a => a.Local
  | _ => True

/-- **Behind whole components a local expression matches what it matches at the beginning.** -/
theorem matches_append (hd : WholeComponents d) {r : Regex} (h : r.Local) (hi : i ≤ x.length) :
    Matches (!o.caseSensitive) (d ++ x) r (d.length + i) (d.length + j) ↔ Matches (!o.caseSensitive) x r i j := by
  -- an expression begun behind `d` ends behind it
  have hends : ∀ {a : Regex} {i k : Nat}, Matches (!o.caseSensitive) (d ++ x) a (d.length + i) k →
      ∃ j, k = d.length + j := fun hm => Nat.exists_eq_add_of_le ((Nat.le_add_right _ _).trans hm.le)
  induction r generalizing i j with
  | empty => exact Nat.add_left_cancel_iff
  | char p | set negated items => simp only [Matches, getElem?_behind, Nat.add_assoc, Nat.add_left_cancel_iff]
  | any => simp only [Matches, List.length_append, Nat.add_assoc, Nat.add_left_cancel_iff, Nat.add_lt_add_iff_left]
  | start => exact h.elim
  | stop => simp only [Matches, List.length_append, Nat.add_left_cancel_iff]
  | seq a b iha ihb =>
    constructor
    · rintro ⟨k, hk, hj⟩
      obtain ⟨k, rfl⟩ := hends hk
      have hk := (iha h.1 hi).1 hk
      exact ⟨k, hk, (ihb h.2 (hk.le_length hi)).1 hj⟩
    · rintro ⟨k, hk, hj⟩
      exact ⟨d.length + k, (iha h.1 hi).2 hk, (ihb h.2 (hk.le_length hi)).2 hj⟩
  | either a b iha ihb => exact or_congr (iha h.1 hi) (ihb h.2 hi)
  | group a ih => exact ih h hi
  | many a ih =>
    constructor
    · intro hm
      have hall : ∀ k, ReflTransGen (Matches (!o.caseSensitive) (d ++ x) a) (d.length + i) k →
          ∀ j, k = d.length + j → Matches (!o.caseSensitive) x (.many a) i j := by
        intro k hk
        induction hk with
        | refl =>
          intro j hj
          obtain rfl := Nat.add_left_cancel hj
          exact .refl
        | @tail l m hl hstep ihl =>
          rintro j rfl
          obtain ⟨l, rfl⟩ := hends (show Matches (!o.caseSensitive) (d ++ x) (.many a) (d.length + i) _ from hl)
          have hmore := ihl l rfl
          exact .tail hmore ((ih h (hmore.le_length hi)).1 hstep)
      exact hall _ hm j rfl
    · intro hm
      induction hm with
      | refl => exact .refl
      | tail hmore hstep ihm =>
        have hle := Matches.le_length (r := .many a) hmore hi
        exact .tail ihm ((ih h hle).2 hstep)
  | optional a ih => exact or_congr Nat.add_left_cancel_iff (ih h hi)
  | notAhead a ih =>
    refine and_congr Nat.add_left_cancel_iff ⟨fun hnot k hk => hnot _ ((ih h hi).2 hk), fun hnot k hk => ?_⟩
    obtain ⟨k, rfl⟩ := hends hk
    exact hnot k ((ih h hi).1 hk)
  | notBehind a _ =>
    obtain rfl := h
    rw [Expression.notBehind_matches hi, Expression.notBehind_matches (by simpa using hi), componentStart_append hd,
      Nat.add_left_cancel_iff]

/-! ## Condensed forms -/

theorem local_sequence {rs : List Regex} (h : ∀ r ∈ rs, r.Local) : (sequence rs).Local := by
  induction rs with
  | nil => trivial
  | cons r rs ih =>
    have hrs := List.forall_mem_cons.1 h
    cases rs with
    | nil => exact hrs.1
    | cons s rs => exact ⟨hrs.1, ih hrs.2⟩

theorem local_alternatives {rs : List Regex} (h : ∀ r ∈ rs, r.Local) : (alternatives rs).Local := by
  induction rs with
  | nil => trivial
  | cons r rs ih =>
    have hrs := List.forall_mem_cons.1 h
    cases rs with
    | nil => exact hrs.1
    | cons s rs => exact ⟨hrs.1, ih hrs.2⟩

variable {bs : List (List Regex)}

theorem local_oneOf (h : ∀ branch ∈ bs, ∀ r ∈ branch, r.Local) : (oneOf bs).Local := by
  unfold oneOf
  split
  · trivial
  · refine local_alternatives fun r hr => ?_
    obtain ⟨branch, hbranch, rfl⟩ := List.mem_map.1 hr
    exact local_sequence (h branch hbranch)

theorem local_joined (h : ∀ branch ∈ bs, ∀ r ∈ branch, r.Local) : ∀ r ∈ joined bs, r.Local := by
  match bs with
  | [] => exact fun r hr => absurd hr List.not_mem_nil
  | [branch] => exact h branch List.mem_cons_self
  | branch :: next :: rest =>
    intro r hr
    rcases List.mem_append.1 hr with hr | hr
    · exact h branch List.mem_cons_self r ((foldl_common_begins _ _ _ List.mem_cons_self).subset hr)
    · obtain rfl := List.mem_singleton.1 hr
      refine local_oneOf fun dropped hdropped r hr => ?_
      obtain ⟨branch, hbranch, rfl⟩ := List.mem_map.1 hdropped
      exact h branch hbranch r (List.mem_of_mem_drop hr)

theorem local_branches {r : Regex} (h : r.Local) : ∀ branch ∈ branches r, ∀ atom ∈ branch, atom.Local := by
  have hsingle : ∀ atom : Regex, atom.Local → ∀ branch ∈ [[atom]], ∀ a ∈ branch, a.Local := by
    simp
  induction r with
  | empty => simp [branches]
  | char | any | stop => exact hsingle _ trivial
  | set negated items =>
    refine hsingle _ ?_
    unfold ofSet
    split
    · split <;> trivial
    · trivial
  | start => exact h.elim
  | seq a b iha ihb =>
    rw [branches, List.forall_mem_singleton]
    intro atom hatom
    exact (List.mem_append.1 hatom).elim (local_joined (iha h.1) atom) (local_joined (ihb h.2) atom)
  | either a b iha ihb => exact List.forall_mem_cons.2 ⟨local_joined (iha h.1), ihb h.2⟩
  | group a ih =>
    rw [branches, List.forall_mem_singleton]
    exact local_joined (ih h)
  | many a ih | optional a ih | notAhead a ih => exact hsingle _ (local_sequence (local_joined (ih h)))
  | notBehind a _ =>
    obtain rfl := h
    exact hsingle _ rfl

theorem Local.condensed {r : Regex} (h : r.Local) : r.condensed.Local := local_sequence (local_joined (local_branches h))

theorem Local.ran {r : Regex} (h : r.Local) (ignoreCase : Bool) : (r.ran ignoreCase).Local := by
  cases ignoreCase with
  | false => exact h
  | true => exact h.condensed

end Regex

/-! ## The expressions of nodes and segments -/

namespace Expression

open Regex (Local)

theorem guard_local (o : Options) (place : Place) : (guard o place).Local := by
  unfold guard
  split
  · cases place with
    | componentStart => exact trivial
    | maybeStart => exact ⟨rfl, trivial⟩
    | inside => trivial
  · trivial

theorem anyChar_local (o : Options) : (anyChar o).Local := by
  unfold anyChar
  split <;> trivial

theorem set_local (o : Options) (negated : Bool) (items : List (CodePoint × CodePoint)) : (set o negated items).Local := by
  unfold set
  split
  · trivial
  · split
    · exact ⟨trivial, trivial⟩
    · trivial

mutual

theorem node_local (o : Options) (place : Place) : (n : Node) → (node o place n).Local
  | .literal text _ => Regex.local_sequence fun r hr => by
    obtain ⟨c, -, rfl⟩ := List.mem_map.1 hr
    trivial
  | .anyChar _ => ⟨guard_local o place, anyChar_local o⟩
  | .star _ => ⟨guard_local o place, anyChar_local o⟩
  | .doubleStar _ => ⟨anyChar_local o, anyChar_local o⟩
  | .set negated items _ => ⟨guard_local o place, set_local o negated items⟩
  | .alternation bs _ => Regex.local_alternatives (branches_local o place bs)

theorem nodes_local (o : Options) (place : Place) : (ns : List Node) → (nodes o place ns).Local
  | [] => trivial
  | n :: ns => ⟨node_local o place n, nodes_local o _ ns⟩

theorem branches_local (o : Options) (place : Place) : (bs : List (List Node)) → ∀ r ∈ branches o place bs, r.Local
  | [] => fun _ hr => absurd hr List.not_mem_nil
  | b :: bs => List.forall_mem_cons.2 ⟨nodes_local o place b, branches_local o place bs⟩

end

theorem component_local (o : Options) : (component o).Local := by
  unfold component
  split
  · exact ⟨trivial, trivial⟩
  · trivial

theorem components_local (o : Options) : (components o).Local := ⟨component_local o, trivial⟩

theorem anyPath_local (o : Options) : (anyPath o).Local := by
  unfold anyPath
  split
  · exact ⟨component_local o, trivial, component_local o⟩
  · trivial

theorem segmentsAfter_local (o : Options) (due underRoot : Bool) (ss : List Segment) :
    (segmentsAfter o due underRoot ss).Local := by
  have hdue : ∀ due : Bool, (if due then separator else .empty : Regex).Local := by
    rintro (_ | _) <;> trivial
  induction ss generalizing due underRoot with
  | nil => trivial
  | cons s ss ih =>
    cases hrec : s.isRecursive with
    | false =>
      rw [segmentsAfter_plain hrec]
      exact ⟨hdue due, nodes_local o _ s.nodes, ih true false⟩
    | true =>
      by_cases hss : ss = []
      · subst hss
        rw [segmentsAfter_last hrec]
        cases underRoot with
        | true => exact ⟨trivial, anyPath_local o⟩
        | false => exact ⟨trivial, anyPath_local o⟩
      · rw [segmentsAfter_recursive hrec hss]
        exact ⟨hdue due, components_local o, ih false false⟩

end Expression

end Glob
