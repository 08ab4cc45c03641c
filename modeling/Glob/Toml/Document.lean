import Glob.Toml.Scalar
/-!
# TOML documents

`Toml.read` gives the table that a document describes, or says why it is not read; of several
reasons the first one in the text counts.

Besides the grammar there are rules about what may be said twice.  A table may be opened by a header
once, and only if no dotted key of an earlier section made it; a dotted key may not reach into a table
that was opened by a header; and an array or table written as a value is complete, so nothing may be
added to it later.  A `PathMark` keeps account of each: a path is `closed` to headers and to dotted
keys, or `frozen` with all that is below it.  A header of an array of tables begins a new element, so
it takes away all marks below it.  The marks that dotted keys make count only from the next header on.

Arrays and inline tables may be nested to any depth here: the depth that `value` is given is never used
up.  A reader without such a number runs out of stack at several hundred arrays; that limit is left out.
-/
namespace Glob.Toml

/-! ## Values -/

def skipGap (inComment : Bool) : Text → Option Text
  | [] => some []
  | c :: rest =>
    if inComment then
      if c = Mark.newline then skipGap false rest
      else if isIllegal c then none
      else skipGap true rest
    else if isBlankOrNewline c then skipGap false rest
    else if c = 0x23 then skipGap true rest
    else some (c :: rest)

/-- Changes the table at a path, making the tables on the way that are not there.  On the way through
an array of tables, if that is allowed, the last element counts. -/
def changeAt (throughLists : Bool) (change : Table → Option Table) :
    List Text → Table → Option Table
  | [], t => change t
  | key :: path, t =>
    match t.get? key with
    | none => (changeAt throughLists change path []).map fun inner => t.put key (.table inner)
    | some (.table inner) =>
      (changeAt throughLists change path inner).map fun inner => t.put key (.table inner)
    | some (.list items) =>
      match throughLists, items.getLast? with
      | true, some (.table inner) =>
        (changeAt throughLists change path inner).map fun inner =>
          t.put key (.list (items.dropLast ++ [.table inner]))
      | _, _ => none
    | some _ => none

/-- A new entry; nothing if the key is taken. -/
def addEntry (key : Text) (value : Setting) (t : Table) : Option Table :=
  match t.get? key with
  | some _ => none
  | none => some (t.put key value)

def addAt (throughLists : Bool) (path : List Text) (value : Setting) (t : Table) : Option Table :=
  match path.getLast? with
  | none => none
  | some key => changeAt throughLists (addEntry key value) path.dropLast t

/-- A value that is complete as it is written. -/
def isComplete : Setting → Bool
  | .list _ | .table _ => true
  | _ => false

mutual

/-- A value, nested at most `depth` deep, its items counted as depth too. -/
def value (depth : Nat) (t : Text) : Except Refusal (Setting × Text) :=
  match depth with
  | 0 => .error .malformed
  | depth + 1 =>
    match t with
    | Mark.openBracket :: rest =>
      match skipGap false rest with
      | some (Mark.closeBracket :: rest) => .ok (.list [], rest)
      | some rest => (items depth rest).map fun (vs, rest) => (.list vs, rest)
      | none => .error .malformed
    | Mark.openBrace :: rest =>
      match skipBlanks rest with
      | Mark.closeBrace :: rest => .ok (.table [], rest)
      | rest => (entries depth [] [] rest).map fun (t, rest) => (.table t, rest)
    | t => scalar t

/-- The items of an array, of which there is one more, and its closing bracket. -/
def items (depth : Nat) (t : Text) : Except Refusal (List Setting × Text) :=
  match depth with
  | 0 => .error .malformed
  | depth + 1 =>
    match value depth t with
    | .error e => .error e
    | .ok (v, rest) =>
      match skipGap false rest with
      | some (Mark.closeBracket :: rest) => .ok ([v], rest)
      | some (Mark.comma :: rest) =>
        match skipGap false rest with
        | some (Mark.closeBracket :: rest) => .ok ([v], rest)
        | some rest => (items depth rest).map fun (vs, rest) => (v :: vs, rest)
        | none => .error .malformed
      | _ => .error .malformed

/-- The entries of an inline table, of which there is one more, and its closing brace; the paths in
`frozen` have complete values. -/
def entries (depth : Nat) (frozen : List (List Text)) (table : Table) (t : Text) :
    Except Refusal (Table × Text) :=
  match depth with
  | 0 => .error .malformed
  | depth + 1 =>
    match key t.length t with
    | some (path, 0x3D :: rest) =>
      match value depth (skipBlanks rest) with
      | .error e => .error e
      | .ok (v, rest) =>
        if frozen.any (·.isPrefixOf path) then .error .malformed
        else
          match addAt false path v table with
          | none => .error .malformed
          | some table =>
            match skipBlanks rest with
            | Mark.closeBrace :: rest => .ok (table, rest)
            | Mark.comma :: rest =>
              entries depth (if isComplete v then path :: frozen else frozen) table
                (skipBlanks rest)
            | _ => .error .malformed
    | _ => .error .malformed

end

/-! ## Statements -/

inductive MarkKind
  | closed
  | frozen
  deriving DecidableEq, Repr

structure PathMark where
  path : List Text
  kind : MarkKind

structure Document where
  table : Table
  marks : List PathMark
  /-- The paths that will be closed at the next header. -/
  pending : List (List Text)
  header : List Text

namespace Document

def empty : Document := ⟨[], [], [], []⟩

def isFrozen (d : Document) (path : List Text) : Bool :=
  d.marks.any fun m => m.kind = .frozen && m.path.isPrefixOf path

def isClosed (d : Document) (path : List Text) : Bool :=
  d.marks.any fun m => m.kind = .closed && m.path = path

/-- Closes the paths that were waiting for a header. -/
def settle (d : Document) : Document :=
  { d with marks := d.pending.map (⟨·, .closed⟩) ++ d.marks, pending := [] }

def openTable (d : Document) (path : List Text) : Option Document :=
  if d.isClosed path || d.isFrozen path then none
  else
    (changeAt true some path d.table).map fun table =>
      { d with table, marks := ⟨path, .closed⟩ :: d.marks, header := path }

/-- One more element, empty so far, for the array of tables under a key. -/
def addElement (key : Text) (t : Table) : Option Table :=
  match t.get? key with
  | none => some (t.put key (.list [.table []]))
  | some (.list items) => some (t.put key (.list (items ++ [.table []])))
  | some _ => none

def openElement (d : Document) (path : List Text) : Option Document :=
  if d.isFrozen path then none
  else
    match path.getLast? with
    | none => none
    | some key =>
      (changeAt true (addElement key) path.dropLast d.table).map fun table =>
        { d with
          table
          marks := ⟨path, .closed⟩ :: d.marks.filter fun m => !path.isPrefixOf m.path
          header := path }

/-- The tables that a dotted key makes: all its beginnings but the whole. -/
def containers (d : Document) (path : List Text) : List (List Text) :=
  (List.range (path.length - 1)).map fun i => d.header ++ path.take (i + 1)

def addValue (d : Document) (path : List Text) (v : Setting) : Option Document :=
  let whole := d.header ++ path
  if (d.containers path).any d.isClosed || d.isFrozen whole.dropLast then none
  else
    (addAt true whole v d.table).map fun table =>
      { d with
        table
        marks := if isComplete v then ⟨whole, .frozen⟩ :: d.marks else d.marks
        pending := d.containers path ++ d.pending }

end Document

/-- What may stand after a statement: blanks, a comment, and the end of the line or of the text. -/
def lineEnd (inComment : Bool) : Text → Option Text
  | [] => some []
  | c :: rest =>
    if c = Mark.newline then some rest
    else if inComment then if isIllegal c then none else lineEnd true rest
    else if isBlank c then lineEnd false rest
    else if c = 0x23 then lineEnd true rest
    else none

def orMalformed {α : Type} : Option α → Except Refusal α
  | some a => .ok a
  | none => .error .malformed

/-- One line, or more if its value goes on; without a statement, it is blank or a comment. -/
def statement (d : Document) (t : Text) : Except Refusal (Document × Text) :=
  match t with
  | Mark.openBracket :: Mark.openBracket :: rest =>
    match key t.length (skipBlanks rest) with
    | some (path, Mark.closeBracket :: Mark.closeBracket :: rest) =>
      orMalformed ((d.settle.openElement path).map (·, rest))
    | _ => .error .malformed
  | Mark.openBracket :: rest =>
    match key t.length (skipBlanks rest) with
    | some (path, Mark.closeBracket :: rest) =>
      orMalformed ((d.settle.openTable path).map (·, rest))
    | _ => .error .malformed
  | [] => .ok (d, t)
  | c :: _ =>
    if c = Mark.newline || c = 0x23 then .ok (d, t)
    else
      match key t.length t with
      | some (path, 0x3D :: rest) =>
        match value (2 * t.length) (skipBlanks rest) with
        | .ok (v, rest) => orMalformed ((d.addValue path v).map (·, rest))
        | .error e => .error e
      | _ => .error .malformed

/-- The statements of a text of at most `lines` lines. -/
def statements (lines : Nat) (d : Document) (t : Text) : Except Refusal Table :=
  match lines with
  | 0 => if t.isEmpty then .ok d.table else .error .malformed
  | lines + 1 =>
    if t.isEmpty then .ok d.table
    else
      match statement d (skipBlanks t) with
      | .error e => .error e
      | .ok (d, rest) =>
        match lineEnd false rest with
        | none => .error .malformed
        | some rest => statements lines d rest

/-- Lines may end with a carriage return and a newline; the two are read as a newline. -/
def unixLines : Text → Text
  | Mark.carriageReturn :: Mark.newline :: rest => Mark.newline :: unixLines rest
  | c :: rest => c :: unixLines rest
  | [] => []

def read (t : Text) : Except Refusal Table :=
  let t := unixLines t
  statements (t.count Mark.newline + 1) .empty t

end Glob.Toml
