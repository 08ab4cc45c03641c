import Glob.Text.LowerCase
/-!
# Characters that are one when case is ignored

Two code points are of one case class if their lower cases are equal, or belong to the same set of
`relatives`: letters that share an upper case without having one lower case, such as the two small
sigmas.  `sameClass` decides it, and `classMates` lists all members of a code point's class, which
is how a range of characters is tested without walking through the range.
-/
namespace Glob.Text

/-- The sets of lower-case letters that count as one letter. -/
def relatives : List (List CodePoint) := [
  [0x69, 0x131], [0x73, 0x17F], [0xB5, 0x3BC], [0x345, 0x3B9, 0x1FBE], [0x390, 0x1FD3],
  [0x3B0, 0x1FE3], [0x3B2, 0x3D0], [0x3B5, 0x3F5], [0x3B8, 0x3D1], [0x3BA, 0x3F0], [0x3C0, 0x3D6],
  [0x3C1, 0x3F1], [0x3C2, 0x3C3], [0x3C6, 0x3D5], [0x432, 0x1C80], [0x434, 0x1C81],
  [0x43E, 0x1C82], [0x441, 0x1C83], [0x442, 0x1C84, 0x1C85], [0x44A, 0x1C86], [0x463, 0x1C87],
  [0x1C88, 0xA64B], [0x1E61, 0x1E9B], [0xFB05, 0xFB06]]

def kin (l : CodePoint) : List CodePoint := (relatives.find? (·.contains l)).getD [l]

/-- The letters that have no capital but a text of several code points, the first of which comes after
all members of the letter's class; with that first code point. -/
def firstCapitals : List (CodePoint × CodePoint) := [
  (0x149, 0x2BC), (0x1FB2, 0x1FBA), (0x1FC2, 0x1FCA), (0x1FF2, 0x1FFA)]

def firstCapital? (c : CodePoint) : Option CodePoint := firstCapitals.lookup c

def sameClass (a b : CodePoint) : Bool := (kin (lower a)).contains (lower b)

def classMates (c : CodePoint) : List CodePoint := (kin (lower c)).flatMap lowerPreimage

theorem mem_classMates_iff (c x : CodePoint) : x ∈ classMates c ↔ sameClass c x = true := by
  simp [classMates, sameClass, lowerPreimage, CaseRun.mem_preimage_iff, lower]

/-- No set of relatives overlaps another, so a letter's kin does not depend on the member asked. -/
theorem kin_eq_of_mem_relatives : ∀ s ∈ relatives, ∀ l ∈ s, kin l = s := by decide

theorem mem_kin_self (l : CodePoint) : l ∈ kin l := by
  unfold kin
  cases h : relatives.find? (·.contains l) with
  | none => simp
  | some s => simpa using List.find?_some h

theorem kin_eq_of_mem {l m : CodePoint} (h : m ∈ kin l) : kin m = kin l := by
  unfold kin at h
  cases hf : relatives.find? (·.contains l) with
  | none =>
    rw [hf] at h
    simp at h
    rw [h]
  | some s =>
    rw [hf] at h
    have hs := List.mem_of_find?_eq_some hf
    rw [kin_eq_of_mem_relatives s hs m h, kin, hf]
    rfl

theorem sameClass_self (a : CodePoint) : sameClass a a = true := by
  simpa [sameClass] using mem_kin_self (lower a)

theorem sameClass_comm (a b : CodePoint) : sameClass a b = sameClass b a := by
  have key : ∀ {a b}, sameClass a b = true → sameClass b a = true := by
    intro a b h
    simp only [sameClass, List.contains_iff_mem] at *
    rw [kin_eq_of_mem h]
    exact mem_kin_self _
  exact Bool.eq_iff_iff.2 ⟨key, key⟩

end Glob.Text
