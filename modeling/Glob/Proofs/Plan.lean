import Glob.Plan
import Glob.Proofs.Cache
/-!
# Plans made through the cache

`Plan.steps` adds one step for a segment, and what it adds depends on the segment alone: there is one equation for each
kind of step.  A plan leaves the cache faithful, so `Cache.Reached` may have plans made in between.
-/
namespace Glob

namespace Plan

variable {p : Text} {o : Options} {stop : Int} {s : Segment} {rest : List Segment} {c c' : Cache}

def withStep (step : Selector) (r : Except ParseFailure (List Selector) × Cache) :
    Except ParseFailure (List Selector) × Cache :=
  match r with
  | (.ok steps, c) => (.ok (step :: steps), c)
  | (.error f, c) => (.error f, c)

theorem withStep_snd (step : Selector) (r : Except ParseFailure (List Selector) × Cache) :
    (withStep step r).2 = r.2 := by
  obtain ⟨r, c⟩ := r
  cases r <;> rfl

theorem steps_recursive (h : s.isRecursive = true) :
    steps p o stop (s :: rest) c =
      withStep ⟨.recursive, [Mark.star, Mark.star], none, o⟩ (steps p o stop rest c) := by
  rw [steps]
  exact if_pos h

theorem steps_precise (h : s.isRecursive = false) (hliteral : s.isLiteral = true) :
    steps p o stop (s :: rest) c = withStep ⟨.precise, s.literalText, none, o⟩ (steps p o stop rest c) := by
  rw [steps]
  exact (if_neg (Bool.eq_false_iff.1 h)).trans (if_pos hliteral)

/-- The text of a tail step is all that is left of the pattern. -/
theorem steps_tail (h : s.isRecursive = false) (hliteral : s.isLiteral = false)
    (hcross : crossesSeparator s.nodes = true) :
    steps p o stop (s :: rest) c =
      match c.compile o (Span.extract ⟨s.span.start, stop⟩ p) with
      | (.ok m, c) => (.ok [⟨.tail, Span.extract ⟨s.span.start, stop⟩ p, some m.matcher, o⟩], c)
      | (.error f, c) => (.error f, c) := by
  rw [steps, if_neg (Bool.eq_false_iff.1 h)]
  exact (if_neg (Bool.eq_false_iff.1 hliteral)).trans (if_pos hcross)

theorem steps_wildcard (h : s.isRecursive = false) (hliteral : s.isLiteral = false)
    (hcross : crossesSeparator s.nodes = false) :
    steps p o stop (s :: rest) c =
      match c.compile o (s.span.extract p) with
      | (.ok m, c) => withStep ⟨.wildcard, s.span.extract p, some m.matcher, o⟩ (steps p o stop rest c)
      | (.error f, c) => (.error f, c) := by
  rw [steps, if_neg (Bool.eq_false_iff.1 h)]
  exact (if_neg (Bool.eq_false_iff.1 hliteral)).trans (if_neg (Bool.eq_false_iff.1 hcross))

theorem steps_faithful (h : c.Faithful) : (steps p o stop rest c).2.Faithful := by
  induction rest generalizing c with
  | nil => exact h
  | cons s rest ih =>
    cases hrec : s.isRecursive with
    | true =>
      rw [steps_recursive hrec, withStep_snd]
      exact ih h
    | false =>
      cases hliteral : s.isLiteral with
      | true =>
        rw [steps_precise hrec hliteral, withStep_snd]
        exact ih h
      | false =>
        cases hcross : crossesSeparator s.nodes with
        | true =>
          have hcompile := (Cache.compile_faithful h o (Span.extract ⟨s.span.start, stop⟩ p)).1
          rw [steps_tail hrec hliteral hcross]
          split
          · next heq =>
            rw [heq] at hcompile
            exact hcompile
          · next heq =>
            rw [heq] at hcompile
            exact hcompile
        | false =>
          have hcompile := (Cache.compile_faithful h o (s.span.extract p)).1
          rw [steps_wildcard hrec hliteral hcross]
          split
          · next heq =>
            rw [heq] at hcompile
            rw [withStep_snd]
            exact ih hcompile
          · next heq =>
            rw [heq] at hcompile
            exact hcompile

end Plan

namespace Cache

variable {c : Cache}

theorem plan_faithful (h : c.Faithful) (o : Options) (p : Text) : (plan c o p).2.Faithful := by
  unfold plan
  split
  · exact h
  · exact Plan.steps_faithful h

/-- The caches of a program that compiles patterns, through the cache and past it, plans walks and purges the cache. -/
inductive Reached : Cache → Prop
  | empty : Reached Cache.empty
  | compile {c : Cache} (h : Reached c) (o : Options) (p : Text) : Reached (c.compile o p).2
  | make {c : Cache} (h : Reached c) (o : Options) (p : Text) : Reached (c.make o p).2
  | plan {c : Cache} (h : Reached c) (o : Options) (p : Text) : Reached (plan c o p).2
  | purge {c : Cache} (h : Reached c) : Reached c.purge

theorem Reached.faithful (h : c.Reached) : c.Faithful := by
  induction h with
  | empty => exact faithful_empty
  | compile _ o p ih => exact (compile_faithful ih o p).1
  | make _ o p ih => exact ih.make o p
  | plan _ o p ih => exact plan_faithful ih o p
  | purge _ ih => exact ih.purge

end Cache

end Glob
