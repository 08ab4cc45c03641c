import Glob.Proofs.Text.Unescaped
import Glob.Proofs.Text.Utf8
/-!
# Texts and bytes that stand for themselves

A backslash before each backslash, `*`, `?`, `[` and `{` takes their meaning away: `Text.verbatim` is the pattern that
says a text as it is.  It has no wildcard, and without its escapes it is the text again.

The same can be done to bytes (`Bytes.verbatim`).  The five marks and the backslash are ASCII, and no byte of a longer
sequence is, so it makes no difference whether the bytes are read before or after (`decodeLossless_verbatim`), also where
a sequence breaks off right before a mark.
-/
namespace Glob

variable {b : UInt8} {bs : Bytes} {c : CodePoint} {t u : Text}

/-! ## Texts -/

namespace Text

/-- The code point says more than itself unless a backslash stands before it. -/
def isMark (c : CodePoint) : Bool :=
  [Mark.backslash, Mark.star, Mark.question, Mark.openBracket, Mark.openBrace].contains c

/-- A backslash before every mark. -/
def verbatim (t : Text) : Text := t.flatMap fun c => if isMark c then [Mark.backslash, c] else [c]

@[simp] theorem verbatim_nil : verbatim [] = [] := rfl

theorem verbatim_append (t u : Text) : verbatim (t ++ u) = verbatim t ++ verbatim u := List.flatMap_append

theorem verbatim_mark (h : isMark c = true) (t : Text) : verbatim (c :: t) = Mark.backslash :: c :: verbatim t := by
  rw [verbatim, List.flatMap_cons, if_pos h]
  rfl

theorem verbatim_plain (h : isMark c = false) (t : Text) : verbatim (c :: t) = c :: verbatim t := by
  rw [verbatim, List.flatMap_cons, if_neg (Bool.eq_false_iff.1 h)]
  rfl

theorem ne_backslash_of_plain (h : isMark c = false) : c ≠ Mark.backslash := by
  rintro rfl
  cases h

theorem not_mem_of_plain (h : isMark c = false) :
    c ∉ [Mark.backslash, Mark.star, Mark.question, Mark.openBracket, Mark.openBrace] := by
  simpa [isMark] using h

/-- Without its escapes it is the text again. -/
theorem unescape?_verbatim (t : Text) : unescape? t.verbatim = some t := by
  induction t with
  | nil => rfl
  | cons c t ih =>
    cases hc : isMark c with
    | true => rw [verbatim_mark hc, unescape?_escaped, ih]; rfl
    | false => rw [verbatim_plain hc, unescape?_cons (ne_backslash_of_plain hc), ih]; rfl

theorem wildcards_verbatim (t : Text) : wildcards t.verbatim = false := by
  induction t with
  | nil => rfl
  | cons c t ih =>
    cases hc : isMark c with
    | true => rw [verbatim_mark hc]; exact ih
    | false => rw [verbatim_plain hc, wildcards_cons (not_mem_of_plain hc), ih]

/-- All marks are ASCII. -/
theorem isMark_of_lt (h : 0x7F < c) : isMark c = false := by
  have hascii : ∀ m ∈ [Mark.backslash, Mark.star, Mark.question, Mark.openBracket, Mark.openBrace], m ≤ 0x7F := by decide
  have hne : c ∉ [Mark.backslash, Mark.star, Mark.question, Mark.openBracket, Mark.openBrace] :=
    fun hc => Nat.not_lt.2 (hascii c hc) h
  simpa [isMark] using hne

end Text

/-! ## Bytes -/

/-- A backslash before every byte that is a mark. -/
def Bytes.verbatim (bs : Bytes) : Bytes :=
  bs.flatMap fun b => if Text.isMark b.toNat then [Mark.backslash.toUInt8, b] else [b]

theorem Bytes.verbatim_mark (h : Text.isMark b.toNat = true) (bs : Bytes) :
    Bytes.verbatim (b :: bs) = Mark.backslash.toUInt8 :: b :: Bytes.verbatim bs := by
  rw [Bytes.verbatim, List.flatMap_cons, if_pos h]
  rfl

theorem Bytes.verbatim_plain (h : Text.isMark b.toNat = false) (bs : Bytes) :
    Bytes.verbatim (b :: bs) = b :: Bytes.verbatim bs := by
  rw [Bytes.verbatim, List.flatMap_cons, if_neg (Bool.eq_false_iff.1 h)]
  rfl

namespace Utf8

variable {p q : Pending} {state : Option Pending}

theorem first_ascii (h : b.toNat ≤ 0x7F) : first b = .complete b.toNat := if_pos h

theorem eq_of_first (h : first b = .complete c) : c = b.toNat := by
  by_cases hb : b.toNat ≤ 0x7F
  · rw [first_ascii hb] at h
    exact (Advance.complete.inj h).symm
  · unfold first at h
    rw [if_neg hb] at h
    repeat' first | cases h | split at h

theorem decodeFrom_ascii (h : b.toNat ≤ 0x7F) (bs : Bytes) : decodeFrom none (b :: bs) = b.toNat :: decodeFrom none bs := by
  rw [decodeFrom, first_ascii h]

/-- A byte that does not go on with the sequence begins anew. -/
theorem decodeFrom_stuck (h : p.advance b = .stuck) (bs : Bytes) :
    decodeFrom (some p) (b :: bs) = p.read.map escapeByte ++ decodeFrom none (b :: bs) := by
  conv_lhs => rw [decodeFrom, h]
  conv_rhs => rw [decodeFrom]

/-- What a sequence in progress has to be: sound, and begun. -/
def Pending.Begun (p : Pending) : Prop := p.Sound ∧ p.read ≠ []

theorem begun_of_first (h : first b = .more p) : p.Begun := by
  obtain ⟨hread, hp⟩ := sound_of_first h
  exact ⟨hp, by rw [hread]; exact List.cons_ne_nil _ _⟩

theorem Pending.Begun.more (hp : p.Begun) (h : p.advance b = .more q) : q.Begun := by
  obtain ⟨hread, hq⟩ := hp.1.more h
  exact ⟨hq, by rw [hread]; exact List.append_ne_nil_of_left_ne_nil hp.2 _⟩

/-- An ASCII byte goes on with no sequence. -/
theorem Pending.Begun.stuck (hp : p.Begun) (h : b.toNat ≤ 0x7F) : p.advance b = .stuck := by
  by_contra hstuck
  have hlow := hp.1.low
  have hb := Pending.advance_bounds hstuck
  omega

/-- A code point of several bytes is not ASCII, so it is no mark. -/
theorem Pending.Begun.plain (hp : p.Begun) (h : p.advance b = .complete c) : Text.isMark c = false := by
  refine Text.isMark_of_lt (Nat.lt_of_not_le fun hc => ?_)
  have hwritten := hp.1.complete h
  rw [encodePoint?_ascii hc] at hwritten
  have hlength := congrArg List.length (Option.some.inj hwritten)
  have hread := List.length_pos_of_ne_nil hp.2
  rw [List.length_append, List.length_singleton, List.length_singleton] at hlength
  omega

theorem verbatim_map_escapeByte (bs : Bytes) : Text.verbatim (bs.map escapeByte) = bs.map escapeByte := by
  induction bs with
  | nil => rfl
  | cons b bs ih =>
    have hb : 0x7F < escapeByte b := Nat.lt_of_lt_of_le (by decide) (Nat.le_add_right 0xDC00 b.toNat)
    rw [List.map_cons, Text.verbatim_plain (Text.isMark_of_lt hb), ih]

theorem decodeFrom_verbatim (h : ∀ p ∈ state, p.Begun) (bs : Bytes) :
    decodeFrom state bs.verbatim = (decodeFrom state bs).verbatim := by
  have hnone : ∀ p ∈ (none : Option Pending), p.Begun := nofun
  induction bs generalizing state with
  | nil =>
    cases state with
    | none => rfl
    | some p => exact (verbatim_map_escapeByte p.read).symm
  | cons b bs ih =>
    cases hb : Text.isMark b.toNat with
    | true =>
      -- a mark and its backslash are read by themselves, and end what is in progress
      have hascii : b.toNat ≤ 0x7F := Nat.le_of_not_lt fun hlt => by
        rw [Text.isMark_of_lt hlt] at hb
        cases hb
      have hfresh : decodeFrom none (Bytes.verbatim (b :: bs)) = (decodeFrom none (b :: bs)).verbatim := by
        rw [Bytes.verbatim_mark hb, decodeFrom_ascii (by decide), decodeFrom_ascii hascii, decodeFrom_ascii hascii,
          Text.verbatim_mark hb, ih hnone]
        rfl
      cases state with
      | none => exact hfresh
      | some p =>
        have hp := h p rfl
        rw [decodeFrom_stuck (hp.stuck hascii), Text.verbatim_append, verbatim_map_escapeByte, ← hfresh,
          Bytes.verbatim_mark hb, decodeFrom_stuck (hp.stuck (by decide))]
    | false =>
      rw [Bytes.verbatim_plain hb]
      have hfresh : decodeFrom none (b :: Bytes.verbatim bs) = (decodeFrom none (b :: bs)).verbatim := by
        rw [decodeFrom, decodeFrom]
        cases hfirst : first b with
        | complete c =>
          have hc : Text.isMark c = false := eq_of_first hfirst ▸ hb
          exact (congrArg (c :: ·) (ih hnone)).trans (Text.verbatim_plain hc _).symm
        | more q => exact ih fun _ hq => Option.some.inj hq ▸ begun_of_first hfirst
        | stuck =>
          show [escapeByte b] ++ decodeFrom none (Bytes.verbatim bs) = Text.verbatim ([escapeByte b] ++ decodeFrom none bs)
          rw [Text.verbatim_append, ih hnone]
          exact congrArg (· ++ _) (verbatim_map_escapeByte [b]).symm
      cases state with
      | none => exact hfresh
      | some p =>
        have hp := h p rfl
        cases hadvance : p.advance b with
        | complete c =>
          rw [decodeFrom, decodeFrom, hadvance]
          exact (congrArg (c :: ·) (ih hnone)).trans (Text.verbatim_plain (hp.plain hadvance) _).symm
        | more q =>
          rw [decodeFrom, decodeFrom, hadvance]
          exact ih fun _ hq => Option.some.inj hq ▸ hp.more hadvance
        | stuck =>
          rw [decodeFrom_stuck hadvance, decodeFrom_stuck hadvance, Text.verbatim_append, verbatim_map_escapeByte, hfresh]

/-- **Bytes may be read before or after they are made to stand for themselves.** -/
theorem decodeLossless_verbatim (bs : Bytes) : decodeLossless bs.verbatim = (decodeLossless bs).verbatim :=
  @decodeFrom_verbatim none nofun bs

/-- Different bytes are read as different texts. -/
theorem decodeLossless_inj {bs bs' : Bytes} : decodeLossless bs = decodeLossless bs' ↔ bs = bs' := by
  refine ⟨fun h => ?_, congrArg decodeLossless⟩
  have hbytes := encode_decodeLossless bs
  rw [h, encode_decodeLossless bs'] at hbytes
  exact (Except.ok.inj hbytes).symm

end Utf8

end Glob
