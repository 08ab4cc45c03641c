import Glob.Calendar
import Glob.Number.Decimal
import Glob.Text.Printable
/-!
# Settings

The values that a configuration may hold, in tables of any depth.  A table is a list of entries in
the order in which they were made.  `Table.merge` lays one table over another: where both have a
table under a key the two are merged in turn, and everywhere else the upper one wins.

`Setting.toText` and `Setting.quoted` are the written forms of a value, by itself and inside another
value; a value that holds too long a whole number has none (`Setting.isWritable`).
-/
namespace Glob

inductive Setting
  | unset
  | boolean (b : Bool)
  | integer (n : Int)
  | number (x : Binary64)
  | text (t : Text)
  | date (d : Date)
  | time (t : TimeOfDay)
  | dateTime (d : DateTime)
  | list (items : List Setting)
  | table (entries : List (Text × Setting))

abbrev Table := List (Text × Setting)

namespace Table

def get? (t : Table) (key : Text) : Option Setting := List.lookup key t

/-- Puts a value under a key: in its place, if the key is there, and else at the end. -/
def put (t : Table) (key : Text) (value : Setting) : Table :=
  match t with
  | [] => [(key, value)]
  | (k, v) :: rest => if key = k then (k, value) :: rest else (k, v) :: put rest key value

theorem get?_put (t : Table) (key : Text) (value : Setting) (k : Text) :
    (t.put key value).get? k = if k = key then some value else t.get? k := by
  induction t with
  | nil =>
    by_cases h : k = key
    · simp [put, get?, h]
    · have hb : (k == key) = false := by simpa using h
      simp [put, get?, List.lookup_cons, h, hb]
  | cons e rest ih =>
    obtain ⟨k', v⟩ := e
    unfold put
    by_cases h : key = k'
    · subst h
      by_cases hk : k = key
      · simp [get?, hk]
      · have hb : (k == key) = false := by simpa using hk
        simp [get?, List.lookup_cons, hk, hb]
    · by_cases hk : k = k'
      · subst hk
        simp [get?, h, Ne.symm h]
      · have hb : (k == k') = false := by simpa using hk
        simpa [get?, List.lookup_cons, h, hb] using ih

end Table

mutual

/-- What stands under a key after merging, given what stood there before. -/
def Setting.over (old : Option Setting) : Setting → Setting
  | .table entries =>
    match old with
    | some (.table base) => .table (Table.merge base entries)
    | _ => .table entries
  | value => value

def Table.merge (base : Table) : List (Text × Setting) → Table
  | [] => base
  | (key, value) :: rest => Table.merge (base.put key (Setting.over (base.get? key) value)) rest

end

namespace Setting

/-- The value counts as yes: anything but false, zero and what is empty. -/
def isTrue : Setting → Bool
  | .unset => false
  | .boolean b => b
  | .integer n => n != 0
  | .number x => !x.isZero
  | .text t => !t.isEmpty
  | .date _ | .time _ | .dateTime _ => true
  | .list items => !items.isEmpty
  | .table entries => !entries.isEmpty

/-! ## Written forms -/

mutual

def isWritable : Setting → Bool
  | .integer n => Whole.isWritable n
  | .list items => areWritable items
  | .table entries => entriesAreWritable entries
  | _ => true

def areWritable : List Setting → Bool
  | [] => true
  | item :: rest => item.isWritable && areWritable rest

def entriesAreWritable : List (Text × Setting) → Bool
  | [] => true
  | (_, value) :: rest => value.isWritable && entriesAreWritable rest

end

mutual

/-- A value inside another one. -/
def quoted : Setting → Text
  | .unset => Text.of "None"
  | .boolean true => Text.of "True"
  | .boolean false => Text.of "False"
  | .integer n => Text.ofInt n
  | .number x => x.toText
  | .text t => t.quoted
  | .date d => d.construction
  | .time t => t.construction
  | .dateTime d => d.construction
  | .list items => Text.of "[" ++ quotedItems items ++ Text.of "]"
  | .table entries => Mark.openBrace :: quotedEntries entries ++ [Mark.closeBrace]

def quotedItems : List Setting → Text
  | [] => []
  | [item] => item.quoted
  | item :: rest => item.quoted ++ Text.of ", " ++ quotedItems rest

def quotedEntries : List (Text × Setting) → Text
  | [] => []
  | [(key, value)] => key.quoted ++ Text.of ": " ++ value.quoted
  | (key, value) :: rest =>
    key.quoted ++ Text.of ": " ++ value.quoted ++ Text.of ", " ++ quotedEntries rest

end

def toText : Setting → Text
  | .text t => t
  | .date d => d.toText
  | .time t => t.toText
  | .dateTime d => d.toText
  | value => value.quoted

/-- The name of a value's type, without the module it is from. -/
def typeName : Setting → String
  | .unset => "NoneType"
  | .boolean _ => "bool"
  | .integer _ => "int"
  | .number _ => "float"
  | .text _ => "str"
  | .date _ => "date"
  | .time _ => "time"
  | .dateTime _ => "datetime"
  | .list _ => "list"
  | .table _ => "dict"

def notATableMessage : Setting → Text
  | .text _ => Text.of "string indices must be integers, not 'str'"
  | .list _ => Text.of "list indices must be integers or slices, not str"
  | value =>
    let family :=
      match value with
      | .date _ | .time _ | .dateTime _ => "datetime."
      | _ => ""
    Text.of "'" ++ Text.of family ++ Text.of value.typeName ++
      Text.of "' object is not subscriptable"

end Setting

end Glob
