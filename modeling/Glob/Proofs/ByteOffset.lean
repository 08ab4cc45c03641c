import Glob.Proofs.Pattern.Faults
import Glob.Proofs.Text.Utf8
/-!
# Where an error is in the bytes of a pattern

A pattern may be given as bytes, well-formed or not.  What is wrong with it is found in the text that is read of the
bytes, and `GlobError.byteOffset` takes the place back to the bytes.  All that is read of bytes is written as these
bytes, so the offset is the one of the place in the bytes that were given, and the byte there is the first one of the
text that is at fault (`byteOffset_points`).
-/
namespace Glob

open Reading (RangeText StandsAt outline)

variable {p w : Text} {k : Nat} {e : GlobError}

/-- The byte at this offset is the first one of the text that is at fault. -/
def GlobError.MarksByte (e : GlobError) (p : Text) (b : Bytes) (n : Nat) : Prop :=
  match e.kind with
  | .unterminatedEscape => b[n]? = some Mark.backslash.toUInt8
  | .unclosedClass => b[n]? = some Mark.openBracket.toUInt8
  | .unclosedAlternation => b[n]? = some Mark.openBrace.toUInt8
  | .invalidRange =>
    ∃ lo hi first rest, hi < lo ∧ RangeText (e.span.extract p) lo hi ∧
      (outline p).bad?.bind Reading.ClassReading.inverted? = some ⟨lo, hi, e.span⟩ ∧
      Utf8.encode (e.span.extract p) = .ok (first :: rest) ∧ b[n]? = some first
  | .engineRejected => False

/-- A text that stands in a text with bytes has bytes, and they stand behind those of what comes before it. -/
theorem encode_standsAt {bs : Bytes} (h : Utf8.encode p = .ok bs) (hw : StandsAt p w k) :
    ∃ n ≤ bs.length, Utf8.encode (p.take k) = .ok (bs.take n) ∧
      ∃ piece, Utf8.encode w = .ok piece ∧ piece <+: bs.drop n := by
  obtain ⟨before, behind, rfl, rfl⟩ := hw
  obtain ⟨ws, vs, hws, hvs, rfl⟩ := Utf8.exists_encode_append h
  obtain ⟨piece, us, hpiece, -, rfl⟩ := Utf8.exists_encode_append hvs
  refine ⟨ws.length, by simp, ?_, piece, hpiece, ?_⟩
  · rw [List.take_left, List.take_left, hws]
  · rw [List.drop_left]
    exact List.prefix_append _ _

theorem getElem?_of_prefix_drop {a : UInt8} {as bs : Bytes} {n : Nat} (h : a :: as <+: bs.drop n) : bs[n]? = some a := by
  obtain ⟨rest, hrest⟩ := h
  rw [← List.head?_drop, ← hrest]
  rfl

theorem getElem?_of_ascii {c : CodePoint} {bs piece : Bytes} {n : Nat} (hc : c ≤ 0x7F) (hw : Utf8.encode [c] = .ok piece)
    (hpiece : piece <+: bs.drop n) : bs[n]? = some c.toUInt8 := by
  rw [Utf8.encode_ascii hc] at hw
  obtain rfl := Except.ok.inj hw
  exact getElem?_of_prefix_drop hpiece

theorem GlobError.AtFault.marksByte {bs piece : Bytes} {n : Nat} (h : e.AtFault p w) (hw : Utf8.encode w = .ok piece)
    (hpiece : piece <+: bs.drop n) : e.MarksByte p bs n := by
  unfold GlobError.AtFault at h
  unfold GlobError.MarksByte
  cases hkind : e.kind with
  | unterminatedEscape | unclosedClass | unclosedAlternation =>
    rw [hkind] at h
    subst h
    exact getElem?_of_ascii (by decide) hw hpiece
  | invalidRange =>
    rw [hkind] at h
    obtain ⟨lo, hi, hlt, htext, rfl, hrange⟩ := h
    obtain ⟨a, as, rfl⟩ := List.exists_cons_of_ne_nil (Utf8.encode_ne_nil hw htext.ne_nil)
    exact ⟨lo, hi, a, as, hlt, htext, hrange, hw, getElem?_of_prefix_drop hpiece⟩
  | engineRejected =>
    rw [hkind] at h
    exact h

/-- **The byte offset of an error points into the bytes that were given as the pattern**, whatever bytes they are: those
before it are the bytes of the pattern before the error, and the one there is the bracket or brace that stays open, the
backslash at the end, or the first byte of the range that is turned around.  So there is an offset for every error. -/
theorem byteOffset_points {c : Cache} (hc : c.Reached) (o : Options) (b : Bytes) {q : QueryFailure}
    (h : (c.compileLike o (.bytes b)).1 = .error q) :
    ∃ e, q = .pattern (.rejected e) ∧ e.pattern = some (Utf8.decodeLossless b) ∧ 0 ≤ e.span.start ∧
      ∃ n : Nat, e.byteOffset = .ok n ∧ n ≤ b.length ∧
        Utf8.encode ((Utf8.decodeLossless b).upTo e.span.start) = .ok (b.take n) ∧
        e.MarksByte (Utf8.decodeLossless b) b n := by
  obtain ⟨e, rfl, he⟩ := compileLike_error hc rfl h
  obtain ⟨hpattern, w, k, hfault, hstands, hstart⟩ := parse_error_places he
  obtain ⟨n, hn, hbefore, piece, hpiece, hthere⟩ := encode_standsAt (Utf8.encode_decodeLossless b) hstands
  have hupTo : (Utf8.decodeLossless b).upTo e.span.start = (Utf8.decodeLossless b).take k := by
    rw [hstart, Text.upTo, if_neg (Int.not_lt.2 (Int.natCast_nonneg k)), Int.toNat_natCast]
  have hlength : (b.take n).length = n := List.length_take_of_le hn
  refine ⟨e, rfl, hpattern, hstart ▸ Int.natCast_nonneg k, n, ?_, hn, hupTo ▸ hbefore, hfault.marksByte hpiece hthere⟩
  rw [GlobError.byteOffset, hpattern]
  dsimp only
  rw [hupTo, hbefore]
  show Except.ok ((b.take n).length : Int) = _
  rw [hlength]

/-- The byte FF, the letter `é`, two bytes of a sequence of three, and `[z-a]`: its range is at byte 6. -/
theorem byteOffset_points_stray :
    let b : Bytes := [0xFF, 0xC3, 0xA9, 0xE2, 0x82, 0x5B, 0x7A, 0x2D, 0x61, 0x5D]
    ∃ e, (Cache.empty.compileLike {} (.bytes b)).1 = .error (.pattern (.rejected e)) ∧ e.byteOffset = .ok 6 ∧
      Utf8.encode ((Utf8.decodeLossless b).upTo e.span.start) = .ok (b.take 6) ∧
      e.MarksByte (Utf8.decodeLossless b) b 6 ∧ b[6]? = some 0x7A := by
  intro b
  have h : (Cache.empty.compileLike {} (.bytes b)).1 = .error (.pattern (Parser.invalidRange
    [0xDCFF, 0xE9, 0xDCE2, 0xDC82, 0x5B, 0x7A, 0x2D, 0x61, 0x5D] 0x7A 0x61 ⟨5, 8⟩)) := rfl
  obtain ⟨e, hq, -, -, n, hn, -, hbefore, hbyte⟩ := byteOffset_points .empty {} b h
  cases hq
  obtain rfl : 6 = n := Int.ofNat.inj (Except.ok.inj (hn : Except.ok (6 : Int) = _))
  exact ⟨_, h, hn, hbefore, hbyte, rfl⟩

end Glob
