/-!
# A table that forgets what was not used for longest

An `Lru` keeps the values of a limited number of keys, ordered by their last use.  Looking a key up
is a use of it, and so is storing a value.  `keys_touch` and `keys_insert` say what each does to the
order of the keys; both keep them distinct and within the capacity.
-/
namespace Glob

structure Lru (κ α : Type) where
  capacity : Nat
  /-- The keys with their values, the most recently used first. -/
  entries : List (κ × α)

namespace Lru

variable {κ α : Type} [DecidableEq κ]

def empty (capacity : Nat) : Lru κ α := ⟨capacity, []⟩

def size (t : Lru κ α) : Nat := t.entries.length

def keys (t : Lru κ α) : List κ := t.entries.map Prod.fst

/-- The value of a key; looking at it this way is no use of it. -/
def get? (t : Lru κ α) (k : κ) : Option α := (t.entries.find? (·.1 = k)).map Prod.snd

def without (t : Lru κ α) (k : κ) : List (κ × α) := t.entries.filter (·.1 ≠ k)

def touch (t : Lru κ α) (k : κ) (v : α) : Lru κ α := { t with entries := (k, v) :: t.without k }

/-- Stores a value, and forgets the key not used for longest if there is no room for one more. -/
def insert (t : Lru κ α) (k : κ) (v : α) : Lru κ α :=
  { t with entries := ((k, v) :: t.without k).take t.capacity }

omit [DecidableEq κ] in
theorem map_fst_filter (p : κ → Bool) (l : List (κ × α)) :
    (l.filter fun e => p e.1).map Prod.fst = (l.map Prod.fst).filter p := by
  rw [List.filter_map]
  rfl

theorem keys_touch (t : Lru κ α) (k : κ) (v : α) :
    (t.touch k v).keys = k :: t.keys.filter (· ≠ k) := by
  simp only [touch, without, keys, List.map_cons, map_fst_filter (fun x => decide (x ≠ k))]

theorem keys_insert (t : Lru κ α) (k : κ) (v : α) :
    (t.insert k v).keys = (k :: t.keys.filter (· ≠ k)).take t.capacity := by
  simp only [insert, without, keys, List.map_take, List.map_cons,
    map_fst_filter (fun x => decide (x ≠ k))]

end Lru

end Glob
