import Mathlib.Data.List.Forall2
import Glob.Text.Utf8
/-!
# Bytes that were read are written as they were

`decodeLossless` reads any bytes, and `encode` gives the same bytes back (`encode_decodeLossless`): a code point of two
to four bytes is written as these, and a stray byte is above the ASCII ones, so there is a surrogate for it.

What holds of a sequence in progress is `Pending.Sound`: in whatever way it can be completed, the code point is
written as the bytes read so far and those that complete it.  A text is written code point by code point, so the bytes
of its beginning are a beginning of its bytes (`exists_encode_append`).
-/
namespace Glob.Utf8

variable {b : UInt8} {bs bs' : Bytes} {c : CodePoint} {k : Nat} {t u : Text} {p q : Pending}

/-! ## Writing one code point after the other -/

theorem encodeFrom_cons (h : encodePoint? c = some bs) (k : Nat) (t : Text) :
    encodeFrom k (c :: t) = (bs ++ ·) <$> encodeFrom (k + 1) t := by
  rw [encodeFrom, h]

/-- A text has bytes exactly if each of its code points has. -/
theorem encodeFrom_eq_ok :
    encodeFrom k t = .ok bs ↔ ∃ pieces, List.Forall₂ (fun c piece => encodePoint? c = some piece) t pieces ∧
      bs = pieces.flatten := by
  induction t generalizing k bs with
  | nil =>
    refine ⟨fun h => ⟨[], .nil, (Except.ok.inj h).symm⟩, ?_⟩
    rintro ⟨pieces, hpieces, rfl⟩
    cases hpieces
    rfl
  | cons c t ih =>
    constructor
    · intro h
      cases hc : encodePoint? c with
      | none =>
        rw [encodeFrom, hc] at h
        cases h
      | some piece =>
        rw [encodeFrom_cons hc] at h
        cases ht : encodeFrom (k + 1) t with
        | error e =>
          rw [ht] at h
          cases h
        | ok rest =>
          rw [ht] at h
          obtain ⟨pieces, hpieces, rfl⟩ := ih.1 ht
          exact ⟨piece :: pieces, .cons hc hpieces, (Except.ok.inj h).symm⟩
    · rintro ⟨pieces, hpieces, rfl⟩
      cases hpieces with
      | cons hc hpieces =>
        rw [encodeFrom_cons hc, ih.2 ⟨_, hpieces, rfl⟩]
        rfl

theorem encode_cons (hc : encodePoint? c = some bs) (ht : encode t = .ok bs') : encode (c :: t) = .ok (bs ++ bs') := by
  obtain ⟨pieces, hpieces, rfl⟩ := encodeFrom_eq_ok.1 ht
  exact encodeFrom_eq_ok.2 ⟨_, .cons hc hpieces, rfl⟩

theorem encode_append (ht : encode t = .ok bs) (hu : encode u = .ok bs') : encode (t ++ u) = .ok (bs ++ bs') := by
  obtain ⟨pieces, hpieces, rfl⟩ := encodeFrom_eq_ok.1 ht
  obtain ⟨pieces', hpieces', rfl⟩ := encodeFrom_eq_ok.1 hu
  exact encodeFrom_eq_ok.2 ⟨_, List.rel_append hpieces hpieces', List.flatten_append.symm⟩

/-- The parts of a text that has bytes have bytes. -/
theorem exists_encode_append (h : encode (t ++ u) = .ok bs) :
    ∃ before behind, encode t = .ok before ∧ encode u = .ok behind ∧ bs = before ++ behind := by
  obtain ⟨pieces, hpieces, rfl⟩ := encodeFrom_eq_ok.1 h
  have hbefore := List.forall₂_take t.length hpieces
  have hbehind := List.forall₂_drop t.length hpieces
  rw [List.take_left] at hbefore
  rw [List.drop_left] at hbehind
  refine ⟨_, _, encodeFrom_eq_ok.2 ⟨_, hbefore, rfl⟩, encodeFrom_eq_ok.2 ⟨_, hbehind, rfl⟩, ?_⟩
  rw [← List.flatten_append, List.take_append_drop]

theorem encodePoint?_ne_nil (h : encodePoint? c = some bs) : bs ≠ [] := by
  rintro rfl
  unfold encodePoint? at h
  repeat' split at h
  all_goals cases h

theorem encode_ne_nil (h : encode t = .ok bs) (ht : t ≠ []) : bs ≠ [] := by
  obtain ⟨pieces, hpieces, rfl⟩ := encodeFrom_eq_ok.1 h
  cases hpieces with
  | nil => exact absurd rfl ht
  | cons hc _ => exact List.append_ne_nil_of_left_ne_nil (encodePoint?_ne_nil hc) _

theorem encodePoint?_ascii (h : c ≤ 0x7F) : encodePoint? c = some [c.toUInt8] := if_pos h

theorem encode_ascii (h : c ≤ 0x7F) : encode [c] = .ok [c.toUInt8] :=
  encode_cons (encodePoint?_ascii h) (t := []) rfl

/-! ## The bytes of a sequence -/

theorem toUInt8_eq {n : Nat} (h : n = b.toNat) : n.toUInt8 = b := by
  rw [h]
  exact UInt8.ofNat_toNat

theorem isSurrogate_eq_false {n : Nat} (h : n < 0xD800 ∨ 0xDFFF < n) : Text.isSurrogate n = false := by
  have hnot : ¬ (0xD800 ≤ n ∧ n ≤ 0xDFFF) := by omega
  simpa [Text.isSurrogate] using hnot

theorem encodePoint?_two {a b : UInt8} (ha : 0xC2 ≤ a.toNat ∧ a.toNat ≤ 0xDF) (hb : 0x80 ≤ b.toNat ∧ b.toNat ≤ 0xBF) :
    encodePoint? ((a.toNat - 0xC0) * 0x40 + (b.toNat - 0x80)) = some [a, b] := by
  generalize hn : (a.toNat - 0xC0) * 0x40 + (b.toNat - 0x80) = n
  have h1 : ¬ n ≤ 0x7F := by omega
  have h2 : n ≤ 0x7FF := by omega
  rw [encodePoint?, if_neg h1, if_pos h2, toUInt8_eq (b := a) (by omega), toUInt8_eq (b := b) (by omega)]

theorem encodePoint?_three {a b c : UInt8} (ha : 0xE0 ≤ a.toNat ∧ a.toNat ≤ 0xEF)
    (hb : 0x80 ≤ b.toNat ∧ b.toNat ≤ 0xBF) (hlow : a.toNat = 0xE0 → 0xA0 ≤ b.toNat)
    (hhigh : a.toNat = 0xED → b.toNat ≤ 0x9F) (hc : 0x80 ≤ c.toNat ∧ c.toNat ≤ 0xBF) :
    encodePoint? (((a.toNat - 0xE0) * 0x40 + (b.toNat - 0x80)) * 0x40 + (c.toNat - 0x80)) = some [a, b, c] := by
  generalize hn : ((a.toNat - 0xE0) * 0x40 + (b.toNat - 0x80)) * 0x40 + (c.toNat - 0x80) = n
  have h2 : ¬ n ≤ 0x7FF := by omega
  have h1 : ¬ n ≤ 0x7F := by omega
  have h3 : n ≤ 0xFFFF := by omega
  rw [encodePoint?, if_neg h1, if_neg h2, isSurrogate_eq_false (n := n) (by omega), if_neg (by decide), if_pos h3,
    toUInt8_eq (b := a) (by omega), toUInt8_eq (b := b) (by omega), toUInt8_eq (b := c) (by omega)]

theorem encodePoint?_four {a b c d : UInt8} (ha : 0xF0 ≤ a.toNat ∧ a.toNat ≤ 0xF4)
    (hb : 0x80 ≤ b.toNat ∧ b.toNat ≤ 0xBF) (hlow : a.toNat = 0xF0 → 0x90 ≤ b.toNat)
    (hc : 0x80 ≤ c.toNat ∧ c.toNat ≤ 0xBF) (hd : 0x80 ≤ d.toNat ∧ d.toNat ≤ 0xBF) :
    encodePoint? ((((a.toNat - 0xF0) * 0x40 + (b.toNat - 0x80)) * 0x40 + (c.toNat - 0x80)) * 0x40 + (d.toNat - 0x80)) =
      some [a, b, c, d] := by
  generalize hn : (((a.toNat - 0xF0) * 0x40 + (b.toNat - 0x80)) * 0x40 + (c.toNat - 0x80)) * 0x40 + (d.toNat - 0x80) = n
  have h3 : ¬ n ≤ 0xFFFF := by omega
  have h2 : ¬ n ≤ 0x7FF := by omega
  have h1 : ¬ n ≤ 0x7F := by omega
  rw [encodePoint?, if_neg h1, if_neg h2, isSurrogate_eq_false (n := n) (by omega), if_neg (by decide), if_neg h3,
    toUInt8_eq (b := a) (by omega), toUInt8_eq (b := b) (by omega), toUInt8_eq (b := c) (by omega),
    toUInt8_eq (b := d) (by omega)]

/-- A stray byte comes back from its surrogate. -/
theorem encodePoint?_escapeByte (h : 0x80 ≤ b.toNat) : encodePoint? (escapeByte b) = some [b] := by
  have hlt := b.toNat_lt
  unfold escapeByte
  generalize hn : 0xDC00 + b.toNat = n
  have h1 : ¬ n ≤ 0x7F := by omega
  have h2 : ¬ n ≤ 0x7FF := by omega
  have hsurrogate : 0xD800 ≤ n ∧ n ≤ 0xDFFF := by omega
  have hstray : 0xDC80 ≤ n ∧ n ≤ 0xDCFF := by omega
  rw [encodePoint?, if_neg h1, if_neg h2, if_pos (by simpa [Text.isSurrogate] using hsurrogate), if_pos hstray,
    toUInt8_eq (b := b) (by omega)]

theorem encode_map_escapeByte (h : ∀ b ∈ bs, 0x80 ≤ b.toNat) : encode (bs.map escapeByte) = .ok bs := by
  induction bs with
  | nil => rfl
  | cons b bs ih =>
    have hb := List.forall_mem_cons.1 h
    exact encode_cons (encodePoint?_escapeByte hb.1) (ih hb.2)

/-! ## A sequence in progress -/

/-- The code point that exactly these bytes complete. -/
def Pending.completed? (p : Pending) : Bytes → Option CodePoint
  | [] => none
  | b :: rest =>
    match p.advance b with
    | .complete c => if rest = [] then some c else none
    | .more q => q.completed? rest
    | .stuck => none

/-- However the sequence is completed, the code point is written as its bytes; and each of the bytes read may be a
stray one. -/
structure Pending.Sound (p : Pending) : Prop where
  stray : ∀ b ∈ p.read, 0x80 ≤ b.toNat
  low : 0x80 ≤ p.low
  written : ∀ {bs c}, p.completed? bs = some c → encodePoint? c = some (p.read ++ bs)

theorem Pending.advance_bounds (h : p.advance b ≠ .stuck) : p.low ≤ b.toNat ∧ b.toNat ≤ p.high := by
  by_contra hb
  exact h (if_neg hb)

/-- Bytes that complete a sequence to which one more byte is owed. -/
theorem Pending.completed?_one (howed : p.owed = 1) (h : p.completed? bs = some c) :
    ∃ b, bs = [b] ∧ (p.low ≤ b.toNat ∧ b.toNat ≤ p.high) ∧ c = p.value * 0x40 + (b.toNat - 0x80) := by
  cases bs with
  | nil => cases h
  | cons b rest =>
    unfold Pending.completed? Pending.advance at h
    by_cases hb : p.low ≤ b.toNat ∧ b.toNat ≤ p.high
    · simp only [if_pos hb, howed, Nat.le_refl, if_true] at h
      by_cases hrest : rest = []
      · rw [if_pos hrest] at h
        exact ⟨b, by rw [hrest], hb, (Option.some.inj h).symm⟩
      · rw [if_neg hrest] at h
        cases h
    · simp only [if_neg hb] at h
      cases h

/-- Bytes that complete a sequence to which more than one byte is owed. -/
theorem Pending.completed?_more (howed : 1 < p.owed) (h : p.completed? bs = some c) :
    ∃ b rest, bs = b :: rest ∧ (p.low ≤ b.toNat ∧ b.toNat ≤ p.high) ∧
      Pending.completed? ⟨p.read ++ [b], p.value * 0x40 + (b.toNat - 0x80), p.owed - 1, 0x80, 0xBF⟩ rest = some c := by
  cases bs with
  | nil => cases h
  | cons b rest =>
    unfold Pending.completed? Pending.advance at h
    by_cases hb : p.low ≤ b.toNat ∧ b.toNat ≤ p.high
    · simp only [if_pos hb, if_neg (Nat.not_le.2 howed)] at h
      exact ⟨b, rest, rfl, hb, h⟩
    · simp only [if_neg hb] at h
      cases h

variable {value low high : Nat}

theorem Pending.Sound.two (ha : 0xC2 ≤ b.toNat ∧ b.toNat ≤ 0xDF) (hvalue : value = b.toNat - 0xC0) :
    (Pending.mk [b] value 1 0x80 0xBF).Sound := by
  refine ⟨fun d hd => ?_, Nat.le_refl _, fun {bs c} h => ?_⟩
  · obtain rfl := List.mem_singleton.1 hd
    omega
  · obtain ⟨d, rfl, hd, hc⟩ := Pending.completed?_one rfl h
    rw [hc, hvalue]
    exact encodePoint?_two ha hd

theorem Pending.Sound.three (ha : 0xE0 ≤ b.toNat ∧ b.toNat ≤ 0xEF) (hvalue : value = b.toNat - 0xE0) (hlow : 0x80 ≤ low)
    (hhigh : high ≤ 0xBF) (hE0 : b.toNat = 0xE0 → 0xA0 ≤ low) (hED : b.toNat = 0xED → high ≤ 0x9F) :
    (Pending.mk [b] value 2 low high).Sound := by
  refine ⟨fun d hd => ?_, hlow, fun {bs c} h => ?_⟩
  · obtain rfl := List.mem_singleton.1 hd
    omega
  · obtain ⟨d, rest, rfl, hd, h⟩ := Pending.completed?_more Nat.one_lt_two h
    obtain ⟨e, rfl, he, hc⟩ := Pending.completed?_one rfl h
    dsimp only at hd
    rw [hc, hvalue]
    exact encodePoint?_three ha (by omega) (by omega) (by omega) he

theorem Pending.Sound.four (ha : 0xF0 ≤ b.toNat ∧ b.toNat ≤ 0xF4) (hvalue : value = b.toNat - 0xF0) (hlow : 0x80 ≤ low)
    (hhigh : high ≤ 0xBF) (hF0 : b.toNat = 0xF0 → 0x90 ≤ low) : (Pending.mk [b] value 3 low high).Sound := by
  refine ⟨fun d hd => ?_, hlow, fun {bs c} h => ?_⟩
  · obtain rfl := List.mem_singleton.1 hd
    omega
  · obtain ⟨d, rest, rfl, hd, h⟩ := Pending.completed?_more (by decide : 1 < 3) h
    obtain ⟨e, rest, rfl, he, h⟩ := Pending.completed?_more (by decide : 1 < 2) h
    obtain ⟨f, rfl, hf, hc⟩ := Pending.completed?_one rfl h
    dsimp only at hd
    rw [hc, hvalue]
    exact encodePoint?_four ha (by omega) (by omega) he hf

/-- What a first byte begins is sound. -/
theorem sound_of_first (h : first b = .more p) : p.read = [b] ∧ p.Sound := by
  unfold first at h
  dsimp only at h
  -- the ranges of a first byte, one after the other
  split at h
  · cases h
  split at h
  · cases h
  split at h
  · cases h
    exact ⟨rfl, .two (by omega) rfl⟩
  split at h
  · cases h
    exact ⟨rfl, .three (by omega) (by omega) (by omega) (by omega) (by omega) (by omega)⟩
  split at h
  · cases h
    exact ⟨rfl, .three (by omega) (by omega) (by omega) (by omega) (by omega) (by omega)⟩
  split at h
  · cases h
    exact ⟨rfl, .three (by omega) rfl (by omega) (by omega) (by omega) (by omega)⟩
  split at h
  · cases h
    exact ⟨rfl, .four (by omega) (by omega) (by omega) (by omega) (by omega)⟩
  split at h
  · cases h
    exact ⟨rfl, .four (by omega) rfl (by omega) (by omega) (by omega)⟩
  split at h
  · cases h
    exact ⟨rfl, .four (by omega) (by omega) (by omega) (by omega) (by omega)⟩
  · cases h

theorem ascii_of_first (h : first b = .complete c) : encodePoint? c = some [b] := by
  unfold first at h
  simp only at h
  split at h
  · next hb =>
    cases h
    rw [encodePoint?_ascii hb, toUInt8_eq rfl]
  all_goals repeat' first | cases h | split at h

theorem stray_of_first (h : first b = .stuck) : 0x80 ≤ b.toNat := by
  unfold first at h
  by_contra hb
  rw [if_pos (by omega)] at h
  cases h

theorem Pending.Sound.complete (hp : p.Sound) (h : p.advance b = .complete c) : encodePoint? c = some (p.read ++ [b]) := by
  refine hp.written ?_
  rw [Pending.completed?, h]
  rfl

theorem Pending.Sound.more (hp : p.Sound) (h : p.advance b = .more q) : q.read = p.read ++ [b] ∧ q.Sound := by
  have hb := Pending.advance_bounds (p := p) (b := b) (by rw [h]; nofun)
  have hread : q.read = p.read ++ [b] ∧ q.low = 0x80 := by
    unfold Pending.advance at h
    rw [if_pos hb] at h
    dsimp only at h
    split at h
    · cases h
    · cases h
      exact ⟨rfl, rfl⟩
  refine ⟨hread.1, ⟨?_, Nat.le_of_eq hread.2.symm, fun {bs c} hbs => ?_⟩⟩
  · rw [hread.1]
    intro d hd
    rcases List.mem_append.1 hd with hd | hd
    · exact hp.stray d hd
    · obtain rfl := List.mem_singleton.1 hd
      exact Nat.le_trans hp.low hb.1
  · rw [hread.1, List.append_assoc]
    refine hp.written ?_
    rw [List.singleton_append, Pending.completed?, h]
    exact hbs

/-! ## Reading and writing -/

def readSoFar (state : Option Pending) : Bytes := state.elim [] Pending.read

theorem none_sound : ∀ p ∈ (none : Option Pending), p.Sound := nofun

/-- **What is read of any bytes is written as these bytes.** -/
theorem encode_decodeFrom {state : Option Pending} (h : ∀ p ∈ state, p.Sound) (bs : Bytes) :
    encode (decodeFrom state bs) = .ok (readSoFar state ++ bs) := by
  induction bs generalizing state with
  | nil =>
    cases state with
    | none => rfl
    | some p =>
      rw [decodeFrom, encode_map_escapeByte (h p rfl).stray]
      exact congrArg Except.ok (List.append_nil _).symm
  | cons b bs ih =>
    -- where no sequence is in progress the byte begins one, is one, or is a stray byte
    have hfresh : encode (decodeFrom none (b :: bs)) = .ok (b :: bs) := by
      rw [decodeFrom]
      split
      · next c hfirst => exact encode_cons (ascii_of_first hfirst) (ih none_sound)
      · next q hfirst =>
        obtain ⟨hread, hq⟩ := sound_of_first hfirst
        have hbytes := ih (fun _ h => Option.some.inj h ▸ hq)
        rwa [readSoFar, Option.elim_some, hread] at hbytes
      · next hfirst => exact encode_cons (encodePoint?_escapeByte (stray_of_first hfirst)) (ih none_sound)
    cases state with
    | none => exact hfresh
    | some p =>
      have hp := h p rfl
      rw [decodeFrom]
      split
      · next c hadvance =>
        have hbytes := encode_cons (hp.complete hadvance) (ih none_sound)
        rwa [List.append_assoc] at hbytes
      · next q hadvance =>
        obtain ⟨hread, hq⟩ := hp.more hadvance
        have hbytes := ih (fun _ h => Option.some.inj h ▸ hq)
        rwa [readSoFar, Option.elim_some, hread, List.append_assoc] at hbytes
      · next hadvance =>
        refine encode_append (encode_map_escapeByte hp.stray) ?_
        rw [decodeFrom] at hfresh
        exact hfresh

theorem encode_decodeLossless (bs : Bytes) : encode (decodeLossless bs) = .ok bs :=
  encode_decodeFrom none_sound bs

end Glob.Utf8
