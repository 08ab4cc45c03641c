import Glob.Text
/-!
# UTF-8, with room for stray bytes

File names are bytes, and most of them are UTF-8.  `decodeLossless` reads any bytes at all: a byte
that belongs to no well-formed sequence becomes the lone surrogate U+DC00 + byte, and `encode`
turns such a surrogate back into its byte, so nothing is lost.  `decode?` is the strict reading,
for text that has to be UTF-8; it says where and why it stopped.

Both run one machine, `advance`, a byte at a time.  A sequence in progress is a `Pending`: the
bytes read, their value, how many more are owed, and the bounds of the next one.  The bounds are
what rules out overlong sequences, surrogates and values above U+10FFFF.
-/
namespace Glob

abbrev Bytes := List UInt8

namespace Utf8

/-- A sequence whose first bytes were read. -/
structure Pending where
  read : Bytes
  value : Nat
  owed : Nat
  low : Nat
  high : Nat

inductive Advance
  | complete (c : CodePoint)
  | more (p : Pending)
  | stuck

def opening (b : UInt8) (value owed : Nat) (low : Nat := 0x80) (high : Nat := 0xBF) : Advance :=
  .more ⟨[b], value, owed, low, high⟩

/-- A byte where a sequence may begin. -/
def first (b : UInt8) : Advance :=
  let n := b.toNat
  if n ≤ 0x7F then .complete n
  else if n ≤ 0xC1 then .stuck
  else if n ≤ 0xDF then opening b (n - 0xC0) 1
  else if n = 0xE0 then opening b 0 2 0xA0 0xBF
  else if n = 0xED then opening b 0xD 2 0x80 0x9F
  else if n ≤ 0xEF then opening b (n - 0xE0) 2
  else if n = 0xF0 then opening b 0 3 0x90 0xBF
  else if n ≤ 0xF3 then opening b (n - 0xF0) 3
  else if n = 0xF4 then opening b 4 3 0x80 0x8F
  else .stuck

def Pending.advance (p : Pending) (b : UInt8) : Advance :=
  let n := b.toNat
  if p.low ≤ n ∧ n ≤ p.high then
    let value := p.value * 0x40 + (n - 0x80)
    if p.owed ≤ 1 then .complete value
    else .more ⟨p.read ++ [b], value, p.owed - 1, 0x80, 0xBF⟩
  else .stuck

def advance : Option Pending → UInt8 → Advance
  | none, b => first b
  | some p, b => p.advance b

/-! ## Reading bytes -/

/-- The lone surrogate that stands for a stray byte. -/
def escapeByte (b : UInt8) : CodePoint := 0xDC00 + b.toNat

def decodeFrom : Option Pending → Bytes → Text
  | none, [] => []
  | some p, [] => p.read.map escapeByte
  | none, b :: rest =>
    match first b with
    | .complete c => c :: decodeFrom none rest
    | .more p => decodeFrom (some p) rest
    | .stuck => escapeByte b :: decodeFrom none rest
  | some p, b :: rest =>
    match p.advance b with
    | .complete c => c :: decodeFrom none rest
    | .more q => decodeFrom (some q) rest
    | .stuck =>
      p.read.map escapeByte ++
        match first b with
        | .complete c => c :: decodeFrom none rest
        | .more q => decodeFrom (some q) rest
        | .stuck => escapeByte b :: decodeFrom none rest

/-- Any bytes as text: UTF-8 where it is well formed, a lone surrogate for each other byte. -/
def decodeLossless (bytes : Bytes) : Text := decodeFrom none bytes

inductive DecodeError.Reason
  | startByte
  | continuationByte
  | endOfData

structure DecodeError where
  bytes : Bytes
  position : Nat
  reason : DecodeError.Reason

def decodeStrictFrom (position : Nat) : Option Pending → Bytes → Except DecodeError Text
  | none, [] => .ok []
  | some p, [] => .error ⟨p.read, position - p.read.length, .endOfData⟩
  | state, b :: rest =>
    match advance state b with
    | .complete c => (c :: ·) <$> decodeStrictFrom (position + 1) none rest
    | .more p => decodeStrictFrom (position + 1) (some p) rest
    | .stuck =>
      match state with
      | none => .error ⟨[b], position, .startByte⟩
      | some p => .error ⟨p.read, position - p.read.length, .continuationByte⟩

def decode? (bytes : Bytes) : Except DecodeError Text := decodeStrictFrom 0 none bytes

/-! ## Writing bytes -/

/-- The bytes of a code point; a surrogate has some only if it stands for a stray byte. -/
def encodePoint? (c : CodePoint) : Option Bytes :=
  if c ≤ 0x7F then some [c.toUInt8]
  else if c ≤ 0x7FF then some [(0xC0 + c / 0x40).toUInt8, (0x80 + c % 0x40).toUInt8]
  else if Text.isSurrogate c then
    if 0xDC80 ≤ c ∧ c ≤ 0xDCFF then some [(c - 0xDC00).toUInt8] else none
  else if c ≤ 0xFFFF then
    some [(0xE0 + c / 0x1000).toUInt8, (0x80 + c / 0x40 % 0x40).toUInt8,
      (0x80 + c % 0x40).toUInt8]
  else
    some [(0xF0 + c / 0x40000).toUInt8, (0x80 + c / 0x1000 % 0x40).toUInt8,
      (0x80 + c / 0x40 % 0x40).toUInt8, (0x80 + c % 0x40).toUInt8]

/-- How many bytes a text has; a surrogate without bytes counts for none. -/
def size (t : Text) : Nat := (t.flatMap fun c => (encodePoint? c).getD []).length

/-- The surrogates that have no bytes: the first one, its position, and how many follow at once. -/
structure EncodeError where
  first : CodePoint
  position : Nat
  count : Nat

def encodeFrom (position : Nat) : Text → Except EncodeError Bytes
  | [] => .ok []
  | c :: rest =>
    match encodePoint? c with
    | some bytes => (bytes ++ ·) <$> encodeFrom (position + 1) rest
    | none => .error ⟨c, position, 1 + (rest.takeWhile Text.isSurrogate).length⟩

def encode (t : Text) : Except EncodeError Bytes := encodeFrom 0 t

def surrogates? (t : Text) : Option EncodeError :=
  let before := t.takeWhile fun c => !Text.isSurrogate c
  match t.drop before.length with
  | [] => none
  | c :: rest => some ⟨c, before.length, 1 + (rest.takeWhile Text.isSurrogate).length⟩

/-! ## Messages -/

def hex (width n : Nat) : Text :=
  let digits := (Nat.toDigits 16 n).map Char.toNat
  List.replicate (width - digits.length) 0x30 ++ digits

def positions (first count : Nat) : Text :=
  if count ≤ 1 then Text.ofNat first
  else Text.ofNat first ++ Text.of "-" ++ Text.ofNat (first + count - 1)

def DecodeError.Reason.message : Reason → Text
  | .startByte => Text.of "invalid start byte"
  | .continuationByte => Text.of "invalid continuation byte"
  | .endOfData => Text.of "unexpected end of data"

def DecodeError.message (e : DecodeError) : Text :=
  let subject :=
    match e.bytes with
    | [b] => Text.of "byte 0x" ++ hex 2 b.toNat
    | _ => Text.of "bytes"
  Text.of "'utf-8' codec can't decode " ++ subject ++ Text.of " in position " ++
    positions e.position e.bytes.length ++ Text.of ": " ++ e.reason.message

def EncodeError.message (e : EncodeError) : Text :=
  let subject :=
    if e.count ≤ 1 then Text.of "character '\\u" ++ hex 4 e.first ++ Text.of "'"
    else Text.of "characters"
  Text.of "'utf-8' codec can't encode " ++ subject ++ Text.of " in position " ++
    positions e.position e.count ++ Text.of ": surrogates not allowed"

end Utf8

end Glob
