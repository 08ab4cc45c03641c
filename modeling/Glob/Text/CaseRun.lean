import Glob.Text
/-!
# Runs of a case mapping

Case mappings move whole blocks of an alphabet by one distance, either every letter of the block or
every second one.  A mapping is a list of such runs, and a code point outside all of them stays
where it is (`CaseRun.move`).  `CaseRun.preimage` reads the same list backwards, and
`CaseRun.mem_preimage_iff` says that it finds exactly what is moved there.
-/
namespace Glob.Text

/-- The code points `first`, `first + stride`, … up to `last`, with `first` going to `image` and the
others following at the same distance. -/
structure CaseRun where
  first : CodePoint
  last : CodePoint
  stride : Nat
  image : CodePoint

namespace CaseRun

def contains (r : CaseRun) (c : CodePoint) : Bool :=
  r.first ≤ c && c ≤ r.last && (c - r.first) % r.stride == 0

def moved? (r : CaseRun) (c : CodePoint) : Option CodePoint :=
  if r.contains c then some (r.image + (c - r.first)) else none

def source? (r : CaseRun) (l : CodePoint) : Option CodePoint :=
  let c := r.first + (l - r.image)
  if r.image ≤ l && r.contains c then some c else none

def move (runs : List CaseRun) (c : CodePoint) : CodePoint :=
  (runs.findSome? (·.moved? c)).getD c

/-- The code points that `runs` move to `l`, and `l` itself if they leave it alone. -/
def preimage (runs : List CaseRun) (l : CodePoint) : List CodePoint :=
  (l :: runs.filterMap (·.source? l)).filter (move runs · == l)

theorem source?_of_moved? {r : CaseRun} {c l : CodePoint} (h : r.moved? c = some l) :
    r.source? l = some c := by
  unfold moved? at h
  split at h
  · next hc =>
    have hb := hc
    simp only [contains, Bool.and_eq_true, decide_eq_true_eq] at hb
    cases h
    have hs : r.first + (c - r.first) = c := by
      simp only [CodePoint] at *
      omega
    simp [source?, hs, hc]
  · cases h

theorem mem_preimage_iff (runs : List CaseRun) (c l : CodePoint) :
    c ∈ preimage runs l ↔ move runs c = l := by
  simp only [preimage, List.mem_filter, beq_iff_eq, List.mem_cons, List.mem_filterMap]
  refine ⟨And.right, fun h => ⟨?_, h⟩⟩
  unfold move at h
  cases hf : runs.findSome? (·.moved? c) with
  | none =>
    rw [hf] at h
    exact .inl h
  | some l' =>
    rw [hf] at h
    obtain ⟨r, hr, hl⟩ := List.exists_of_findSome?_eq_some hf
    cases h
    exact .inr ⟨r, hr, source?_of_moved? hl⟩

end CaseRun

end Glob.Text
