import Glob.Setting
/-!
# TOML: keys, strings, numbers, dates

Readers for the parts of a TOML document that hold no other values.  Each takes the text from where
the part begins and gives the part and the text after it, or nothing if no such part begins there.

One thing may be well formed and yet not be read: a whole number in decimal notation that has too
many digits (`Glob.Number.Decimal`).  So the reader of values gives a `Refusal`.
-/
namespace Glob.Toml

inductive Refusal
  | malformed
  | tooLong (e : Whole.TooLong)

def isBlank (c : CodePoint) : Bool := c == 0x20 || c == 0x09

def isBlankOrNewline (c : CodePoint) : Bool := isBlank c || c == Mark.newline

/-- Control characters other than the tab stand nowhere in a line. -/
def isIllegal (c : CodePoint) : Bool := (c < 0x20 && c != 0x09) || c == 0x7F

def isDigit (c : CodePoint) : Bool := 0x30 ≤ c && c ≤ 0x39

def isHexDigit (c : CodePoint) : Bool :=
  isDigit c || (0x41 ≤ c && c ≤ 0x46) || (0x61 ≤ c && c ≤ 0x66)

def isBareKeyChar (c : CodePoint) : Bool :=
  isDigit c || (0x41 ≤ c && c ≤ 0x5A) || (0x61 ≤ c && c ≤ 0x7A) || c == Mark.dash || c == 0x5F

def skipBlanks (t : Text) : Text := t.dropWhile isBlank

def after? (before t : Text) : Option Text :=
  if before.isPrefixOf t then some (t.drop before.length) else none

def digitValue (c : CodePoint) : Nat :=
  if c ≤ 0x39 then c - 0x30 else if c ≤ 0x46 then c - 0x37 else c - 0x57

def numeral (base : Nat) (digits : Text) : Nat :=
  digits.foldl (fun n c => n * base + digitValue c) 0

/-! ## Strings -/

def literalString : Text → Option (Text × Text)
  | [] => none
  | Mark.singleQuote :: rest => some ([], rest)
  | c :: rest =>
    if isIllegal c then none
    else
      match literalString rest with
      | some (t, rest) => some (c :: t, rest)
      | none => none

def literalLines : Text → Option (Text × Text)
  | [] => none
  | Mark.singleQuote :: Mark.singleQuote :: Mark.singleQuote :: rest => some ([], rest)
  | c :: rest =>
    if isIllegal c && c != Mark.newline then none
    else
      match literalLines rest with
      | some (t, rest) => some (c :: t, rest)
      | none => none

/-- The code point of hexadecimal digits, unless it is a surrogate or too large. -/
def escaped? (digits : Text) : Option CodePoint :=
  if digits.all isHexDigit then
    let c := numeral 16 digits
    if c ≤ 0x10FFFF && !Text.isSurrogate c then some c else none
  else none

def escapeLetter? (c : CodePoint) : Option CodePoint :=
  match c with
  | 0x62 => some 0x08
  | 0x74 => some 0x09
  | 0x6E => some 0x0A
  | 0x66 => some 0x0C
  | 0x72 => some 0x0D
  | Mark.doubleQuote => some Mark.doubleQuote
  | Mark.backslash => some Mark.backslash
  | _ => none

/-- What is skipped after a backslash at the end of a line. -/
inductive Skipping
  | nothing
  /-- Blanks, up to the newline that has to come. -/
  | line
  /-- Blanks and newlines. -/
  | gap
  deriving DecidableEq

def consText (c : CodePoint) : Option (Text × Text) → Option (Text × Text)
  | some (t, rest) => some (c :: t, rest)
  | none => none

def basicString (lines : Bool) (skipping : Skipping) : Text → Option (Text × Text)
  | [] => none
  | c :: rest =>
    if skipping = .line then
      if isBlank c then basicString lines .line rest
      else if c = Mark.newline then basicString lines .gap rest
      else none
    else if skipping = .gap && isBlankOrNewline c then basicString lines .gap rest
    else if c = Mark.doubleQuote then
      if lines then
        match rest with
        | Mark.doubleQuote :: Mark.doubleQuote :: rest => some ([], rest)
        | rest => consText c (basicString lines .nothing rest)
      else some ([], rest)
    else if c = Mark.backslash then
      match rest with
      | [] => none
      | 0x75 :: d1 :: d2 :: d3 :: d4 :: rest =>
        match escaped? [d1, d2, d3, d4] with
        | some c => consText c (basicString lines .nothing rest)
        | none => none
      | 0x55 :: d1 :: d2 :: d3 :: d4 :: d5 :: d6 :: d7 :: d8 :: rest =>
        match escaped? [d1, d2, d3, d4, d5, d6, d7, d8] with
        | some c => consText c (basicString lines .nothing rest)
        | none => none
      | e :: rest =>
        if lines && isBlank e then basicString lines .line rest
        else if lines && e = Mark.newline then basicString lines .gap rest
        else
          match escapeLetter? e with
          | some c => consText c (basicString lines .nothing rest)
          | none => none
    else if isIllegal c && !(lines && c == Mark.newline) then none
    else consText c (basicString lines .nothing rest)

/-- A string on several lines may end with one or two quotes of its own. -/
def ownQuotes (quote : CodePoint) : Text × Text → Text × Text
  | (t, rest) =>
    match rest with
    | a :: b :: more =>
      if a = quote then if b = quote then (t ++ [a, b], more) else (t ++ [a], b :: more)
      else (t, rest)
    | [a] => if a = quote then (t ++ [a], []) else (t, rest)
    | [] => (t, rest)

/-- A newline right after the opening quotes is not part of the string. -/
def dropNewline : Text → Text
  | Mark.newline :: rest => rest
  | t => t

def string? (t : Text) : Option (Text × Text) :=
  match t with
  | Mark.doubleQuote :: Mark.doubleQuote :: Mark.doubleQuote :: rest =>
    (basicString true .nothing (dropNewline rest)).map (ownQuotes Mark.doubleQuote)
  | Mark.singleQuote :: Mark.singleQuote :: Mark.singleQuote :: rest =>
    (literalLines (dropNewline rest)).map (ownQuotes Mark.singleQuote)
  | Mark.doubleQuote :: rest => basicString false .nothing rest
  | Mark.singleQuote :: rest => literalString rest
  | _ => none

/-! ## Keys -/

/-- One part of a key: bare, or a string on one line. -/
def keyPart (t : Text) : Option (Text × Text) :=
  match t with
  | Mark.doubleQuote :: rest => basicString false .nothing rest
  | Mark.singleQuote :: rest => literalString rest
  | _ =>
    match t.takeWhile isBareKeyChar with
    | [] => none
    | part => some (part, t.dropWhile isBareKeyChar)

/-- A dotted key, with at most `parts` parts, and the blanks after it. -/
def key (parts : Nat) (t : Text) : Option (List Text × Text) :=
  match parts with
  | 0 => none
  | parts + 1 =>
    match keyPart t with
    | none => none
    | some (part, rest) =>
      match skipBlanks rest with
      | Mark.dot :: rest =>
        match key parts (skipBlanks rest) with
        | none => none
        | some (more, rest) => some (part :: more, rest)
      | rest => some ([part], rest)

/-! ## Numbers -/

/-- Digits after a first one, with single underscores between them. -/
def moreDigits (isDigit : CodePoint → Bool) : Text → Text × Text
  | [] => ([], [])
  | 0x5F :: c :: rest =>
    if isDigit c then
      let (digits, rest) := moreDigits isDigit rest
      (c :: digits, rest)
    else ([], 0x5F :: c :: rest)
  | c :: rest =>
    if isDigit c then
      let (digits, rest) := moreDigits isDigit rest
      (c :: digits, rest)
    else ([], c :: rest)

def digits? (isDigit : CodePoint → Bool) (t : Text) : Option (Text × Text) :=
  match t with
  | [] => none
  | c :: rest =>
    if isDigit c then
      let (digits, rest) := moreDigits isDigit rest
      some (c :: digits, rest)
    else none

def based? (t : Text) : Option (Nat × Text) :=
  match t with
  | 0x30 :: base :: rest =>
    match base with
    | 0x78 => (digits? isHexDigit rest).map fun (ds, rest) => (numeral 16 ds, rest)
    | 0x62 =>
      (digits? (fun c => c == 0x30 || c == 0x31) rest).map fun (ds, rest) => (numeral 2 ds, rest)
    | 0x6F => (digits? (fun c => 0x30 ≤ c && c ≤ 0x37) rest).map fun (ds, rest) => (numeral 8 ds, rest)
    | _ => none
  | _ => none

/-- A sign, if there is one; true for minus. -/
def sign (t : Text) : Bool × Text :=
  match t with
  | 0x2B :: rest => (false, rest)
  | Mark.dash :: rest => (true, rest)
  | _ => (false, t)

def fraction? (t : Text) : Option (Text × Text) :=
  match t with
  | Mark.dot :: rest => digits? isDigit rest
  | _ => none

def exponent? (t : Text) : Option (Int × Text) :=
  match t with
  | c :: rest =>
    if c = 0x65 || c = 0x45 then
      let (negative, rest) := sign rest
      (digits? isDigit rest).map fun (ds, rest) =>
        let n : Int := numeral 10 ds
        (if negative then -n else n, rest)
    else none
  | [] => none

/-- The whole part of a decimal number: zero, or digits of which the first is not zero. -/
def whole? (t : Text) : Option (Text × Text) :=
  match t with
  | 0x30 :: rest => some ([0x30], rest)
  | _ => digits? isDigit t

/-- The whole number of some decimal digits, unless there are too many of them. -/
def ofDigits (negative : Bool) (digits : Text) : Except Refusal Setting :=
  if Whole.digitLimit < digits.length then .error (.tooLong ⟨some digits.length⟩)
  else
    let n : Int := numeral 10 digits
    .ok (.integer (if negative then -n else n))

def decimal (t : Text) : Except Refusal (Setting × Text) :=
  let (negative, rest) := sign t
  match whole? rest with
  | none => .error .malformed
  | some (whole, rest) =>
    match fraction? rest, exponent? ((fraction? rest).elim rest Prod.snd) with
    | none, none => (ofDigits negative whole).map (·, rest)
    | fraction, exponent =>
      let places := (fraction.map Prod.fst).getD []
      let rest := (fraction.map Prod.snd).getD rest
      let rest := (exponent.map Prod.snd).getD rest
      .ok (.number (Binary64.ofDecimal negative (numeral 10 (whole ++ places))
        ((exponent.map Prod.fst).getD 0 - places.length)), rest)

def special? (t : Text) : Option (Setting × Text) :=
  let (negative, rest) := sign t
  match after? (Text.of "inf") rest, after? (Text.of "nan") rest with
  | some rest, _ => some (.number (.infinite negative), rest)
  | none, some rest => some (.number .nan, rest)
  | none, none => none

/-! ## Dates and times -/

def two? (lo hi : Nat) (a b : CodePoint) : Option Nat :=
  let n := numeral 10 [a, b]
  if isDigit a && isDigit b && lo ≤ n && n ≤ hi then some n else none

/-- Decimal places of a second as microseconds; places beyond the sixth are dropped. -/
def microseconds (places : Text) : Nat :=
  numeral 10 (places.take 6) * Nat.pow 10 (6 - places.length)

def time? (t : Text) : Option (TimeOfDay × Text) :=
  match t with
  | h1 :: h2 :: Mark.colon :: m1 :: m2 :: Mark.colon :: s1 :: s2 :: rest =>
    match two? 0 23 h1 h2, two? 0 59 m1 m2, two? 0 59 s1 s2 with
    | some h, some m, some s =>
      match rest with
      | Mark.dot :: c :: more =>
        if isDigit c then
          let places := (c :: more).takeWhile isDigit
          some (⟨h, m, s, microseconds places⟩, (c :: more).dropWhile isDigit)
        else some (⟨h, m, s, 0⟩, rest)
      | _ => some (⟨h, m, s, 0⟩, rest)
    | _, _, _ => none
  | _ => none

/-- The minutes that a clock is ahead of universal time, where they are given. -/
def offset (t : Text) : Option Int × Text :=
  match t with
  | 0x5A :: rest | 0x7A :: rest => (some 0, rest)
  | s :: h1 :: h2 :: Mark.colon :: m1 :: m2 :: rest =>
    match two? 0 23 h1 h2, two? 0 59 m1 m2 with
    | some h, some m =>
      let minutes : Int := 60 * h + m
      if s = 0x2B then (some minutes, rest)
      else if s = Mark.dash then (some (-minutes), rest)
      else (none, t)
    | _, _ => (none, t)
  | _ => (none, t)

def date? (t : Text) : Option (Date × Text) :=
  match t with
  | y1 :: y2 :: y3 :: y4 :: Mark.dash :: m1 :: m2 :: Mark.dash :: d1 :: d2 :: rest =>
    match two? 1 12 m1 m2, two? 1 31 d1 d2 with
    | some m, some d =>
      let date : Date := ⟨numeral 10 [y1, y2, y3, y4], m, d⟩
      if [y1, y2, y3, y4].all isDigit && date.isValid then some (date, rest) else none
    | _, _ => none
  | _ => none

/-- A date, or a date with a time after `T` or a space. -/
def dateTime? (t : Text) : Option (Setting × Text) :=
  match date? t with
  | none => none
  | some (date, rest) =>
    match rest with
    | c :: more =>
      if c = 0x54 || c = 0x74 || c = Mark.space then
        match time? more with
        | some (time, rest) =>
          let (offset, rest) := offset rest
          some (.dateTime ⟨date, time, offset⟩, rest)
        | none => some (.date date, rest)
      else some (.date date, rest)
    | [] => some (.date date, rest)

/-! ## Any of them -/

/-- A value that holds no other values, and is no number in decimal notation. -/
def plain? (t : Text) : Option (Setting × Text) :=
  (string? t).map (fun (s, rest) => (Setting.text s, rest))
    <|> (after? (Text.of "true") t).map (fun rest => (Setting.boolean true, rest))
    <|> (after? (Text.of "false") t).map (fun rest => (Setting.boolean false, rest))
    <|> dateTime? t
    <|> (time? t).map (fun (time, rest) => (Setting.time time, rest))
    <|> (based? t).map (fun (n, rest) => (Setting.integer n, rest))
    <|> special? t

def scalar (t : Text) : Except Refusal (Setting × Text) :=
  match plain? t with
  | some read => .ok read
  | none => decimal t

end Glob.Toml
