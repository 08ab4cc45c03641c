import Glob.Cache
/-!
# What the cache holds

Whatever was compiled before, the cache gives a pattern the matcher that it would be compiled to without one.
`Cache.Faithful` is the invariant; the serial numbers, which tell matchers apart that are equal, do not matter to it.
-/
namespace Glob

namespace Cache

variable {c : Cache} {o : Options} {p : Text} {m : Matcher}

/-- Every stored matcher is the one of its key. -/
def Faithful (c : Cache) : Prop :=
  ∀ entry ∈ c.stored.entries, Matcher.ofPattern? entry.1.2 entry.1.1 = .ok entry.2.matcher

theorem faithful_empty : Cache.empty.Faithful := fun _ h => absurd h List.not_mem_nil

theorem Faithful.purge (_ : c.Faithful) : c.purge.Faithful := fun _ h => absurd h List.not_mem_nil

theorem Faithful.make (h : c.Faithful) (o : Options) (p : Text) : (c.make o p).2.Faithful := by
  unfold Cache.make
  cases Matcher.ofPattern? o p <;> exact h

theorem Faithful.get? (h : c.Faithful) {v : Compiled} (hv : c.stored.get? (p, o) = some v) :
    Matcher.ofPattern? o p = .ok v.matcher := by
  obtain ⟨⟨key, v⟩, hfind, rfl⟩ := Option.map_eq_some_iff.1 hv
  have hkey := List.find?_some hfind
  obtain rfl : key = (p, o) := of_decide_eq_true hkey
  exact h _ (List.mem_of_find?_eq_some hfind)

/-- One more entry, in front of what is kept of the others. -/
theorem Faithful.entries {v : Compiled} (h : c.Faithful) (hv : Matcher.ofPattern? o p = .ok v.matcher) :
    ∀ entry ∈ ((p, o), v) :: c.stored.without (p, o), Matcher.ofPattern? entry.1.2 entry.1.1 = .ok entry.2.matcher :=
  List.forall_mem_cons.2 ⟨hv, fun entry hentry => h entry (List.mem_filter.1 hentry).1⟩

theorem compile_hit {v : Compiled} (hget : c.stored.get? (p, o) = some v) :
    c.compile o p = (.ok v, { c with stored := c.stored.touch (p, o) v, hits := c.hits + 1 }) := by
  simp only [Cache.compile, hget]

theorem compile_made (hget : c.stored.get? (p, o) = none) (hm : Matcher.ofPattern? o p = .ok m) :
    c.compile o p =
      (.ok ⟨c.made, m⟩,
        { c with stored := c.stored.insert (p, o) ⟨c.made, m⟩, misses := c.misses + 1, made := c.made + 1 }) := by
  simp only [Cache.compile, hget, Cache.make, hm]

theorem compile_failed {f : ParseFailure} (hget : c.stored.get? (p, o) = none)
    (hm : Matcher.ofPattern? o p = .error f) :
    c.compile o p = (.error f, { c with misses := c.misses + 1 }) := by
  simp only [Cache.compile, hget, Cache.make, hm]

/-- **Compiling through the cache gives what compiling without it gives.** -/
theorem compile_faithful (h : c.Faithful) (o : Options) (p : Text) :
    (c.compile o p).2.Faithful ∧ Compiled.matcher <$> (c.compile o p).1 = Matcher.ofPattern? o p := by
  cases hget : c.stored.get? (p, o) with
  | some v =>
    rw [compile_hit hget]
    exact ⟨h.entries (h.get? hget), (h.get? hget).symm⟩
  | none =>
    cases hm : Matcher.ofPattern? o p with
    | error f =>
      rw [compile_failed hget hm]
      exact ⟨h, rfl⟩
    | ok m =>
      rw [compile_made hget hm]
      exact ⟨fun entry hentry => h.entries hm entry (List.mem_of_mem_take hentry), rfl⟩

theorem compile_ok (h : c.Faithful) (hm : Matcher.ofPattern? o p = .ok m) :
    ∃ v c', c.compile o p = (.ok v, c') ∧ v.matcher = m ∧ c'.Faithful := by
  obtain ⟨hfaithful, hsame⟩ := compile_faithful h o p
  rw [hm] at hsame
  cases hv : (c.compile o p).1 with
  | error f =>
    rw [hv] at hsame
    cases hsame
  | ok v =>
    rw [hv] at hsame
    exact ⟨v, _, Prod.ext hv rfl, Except.ok.inj hsame, hfaithful⟩

end Cache

end Glob
