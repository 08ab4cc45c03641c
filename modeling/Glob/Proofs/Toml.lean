import Glob.Proofs.Merging
import Glob.Toml.Document
/-!
# Tables that are read have no key twice

Whatever a document says, in the table that is read of it every key stands once, at every depth (`Toml.read_distinct`):
an entry is made where there is none, or put in the place of what the key had before.  So it is a table that may be laid
over another one.
-/
namespace Glob

variable {key k : Text} {path : List Text} {t t' : Table} {v : Setting}

theorem Setting.distinct_list (items : List Setting) : (Setting.list items).Distinct := trivial

namespace Table

theorem keys_put : k ∈ (t.put key v).map Prod.fst ↔ k = key ∨ k ∈ t.map Prod.fst := by
  induction t with
  | nil => simp [put]
  | cons e rest ih =>
    rw [put]
    by_cases hkey : key = e.1
    · rw [if_pos hkey, hkey]
      simp
    · rw [if_neg hkey, List.map_cons, List.mem_cons, ih, List.map_cons, List.mem_cons, or_left_comm]

theorem Distinct.put (h : t.Distinct) (hv : v.Distinct) (key : Text) : (t.put key v).Distinct := by
  induction t with
  | nil => exact ⟨List.not_mem_nil, hv, trivial⟩
  | cons e rest ih =>
    obtain ⟨hfirst, hvalue, hrest⟩ := h
    rw [Table.put]
    by_cases hkey : key = e.1
    · rw [if_pos hkey]
      exact ⟨hfirst, hv, hrest⟩
    · rw [if_neg hkey]
      refine ⟨fun hmem => ?_, hvalue, ih hrest⟩
      rcases keys_put.1 hmem with heq | hmem
      · exact hkey heq.symm
      · exact hfirst hmem

theorem Distinct.get?_value (h : t.Distinct) (hv : t.get? key = some v) : v.Distinct := h.value (mem_of_get? hv)

end Table

namespace Toml

/-! ## Changes -/

/-- A change that keeps keys apart keeps them apart wherever it is made. -/
theorem changeAt_distinct {change : Table → Option Table}
    (hchange : ∀ {t t' : Table}, t.Distinct → change t = some t' → t'.Distinct) (throughLists : Bool) (ht : t.Distinct)
    (h : changeAt throughLists change path t = some t') : t'.Distinct := by
  induction path generalizing t t' with
  | nil => exact hchange ht h
  | cons key path ih =>
    rw [changeAt] at h
    split at h
    · obtain ⟨inner, hinner, rfl⟩ := Option.map_eq_some_iff.1 h
      have hdistinct : (Setting.table inner).Distinct := ih (t := []) trivial hinner
      exact ht.put hdistinct key
    · next entries hentries =>
      obtain ⟨inner, hinner, rfl⟩ := Option.map_eq_some_iff.1 h
      have hdistinct : (Setting.table inner).Distinct := ih (ht.get?_value hentries) hinner
      exact ht.put hdistinct key
    · split at h
      · obtain ⟨inner, hinner, rfl⟩ := Option.map_eq_some_iff.1 h
        exact ht.put (Setting.distinct_list _) key
      · cases h
    · cases h

theorem addEntry_distinct (hv : v.Distinct) (ht : t.Distinct) (h : addEntry key v t = some t') : t'.Distinct := by
  unfold addEntry at h
  split at h
  · cases h
  · exact Option.some.inj h ▸ ht.put hv key

theorem addAt_distinct {throughLists : Bool} (hv : v.Distinct) (ht : t.Distinct)
    (h : addAt throughLists path v t = some t') : t'.Distinct := by
  unfold addAt at h
  split at h
  · cases h
  · exact changeAt_distinct (addEntry_distinct hv) throughLists ht h

/-! ## Values -/

variable {text rest : Text}

theorem dateTime?_distinct (h : dateTime? text = some (v, rest)) : v.Distinct := by
  unfold dateTime? at h
  repeat' split at h
  all_goals cases h
  all_goals trivial

theorem special?_distinct (h : special? text = some (v, rest)) : v.Distinct := by
  unfold special? at h
  dsimp only at h
  split at h <;> cases h <;> trivial

theorem plain?_distinct (h : plain? text = some (v, rest)) : v.Distinct := by
  unfold plain? at h
  simp only [Option.orElse_eq_orElse, Option.orElse_eq_or, Option.or_eq_some_iff, Option.map_eq_some_iff,
    Prod.mk.injEq] at h
  -- a value of each kind in turn, none of them a table
  rcases h with ⟨_, -, rfl, -⟩ | ⟨-, ⟨_, -, rfl, -⟩ | ⟨-, ⟨_, -, rfl, -⟩ | ⟨-, h | ⟨-, ⟨_, -, rfl, -⟩ | ⟨-, ⟨_, -, rfl, -⟩ |
    ⟨-, h⟩⟩⟩⟩⟩⟩
  · trivial
  · trivial
  · trivial
  · exact dateTime?_distinct h
  · trivial
  · trivial
  · exact special?_distinct h

theorem decimal_distinct (h : decimal text = .ok (v, rest)) : v.Distinct := by
  unfold decimal ofDigits at h
  dsimp only at h
  repeat' split at h
  all_goals cases h
  all_goals trivial

theorem scalar_distinct (h : scalar text = .ok (v, rest)) : v.Distinct := by
  unfold scalar at h
  split at h
  · next hplain =>
    obtain rfl := Except.ok.inj h
    exact plain?_distinct hplain
  · exact decimal_distinct h

/-- What is made of what was read. -/
theorem exists_of_map {α β : Type} {r : Except Refusal α} {f : α → β} {b : β} (h : r.map f = .ok b) :
    ∃ a, r = .ok a ∧ f a = b := by
  cases r with
  | error e => cases h
  | ok a => exact ⟨a, rfl, Except.ok.inj h⟩

mutual

theorem value_distinct : ∀ (depth : Nat) {text rest : Text} {v : Setting}, value depth text = .ok (v, rest) → v.Distinct
  | 0, _, _, _, h => by rw [value] at h; cases h
  | depth + 1, text, rest, v, h => by
    unfold value at h
    split at h
    -- an array
    · split at h
      · cases h
        trivial
      · obtain ⟨_, -, hread⟩ := exists_of_map h
        cases hread
        trivial
      · cases h
    -- an inline table
    · split at h
      · cases h
        trivial
      · obtain ⟨_, hentries, hread⟩ := exists_of_map h
        cases hread
        exact entries_distinct depth (t := []) trivial hentries
    · exact scalar_distinct h

theorem entries_distinct : ∀ (depth : Nat) {frozen : List (List Text)} {t t' : Table} {text rest : Text}, t.Distinct →
    entries depth frozen t text = .ok (t', rest) → t'.Distinct
  | 0, _, _, _, _, _, _, h => by rw [entries] at h; cases h
  | depth + 1, frozen, t, t', text, rest, ht, h => by
    rw [entries] at h
    split at h
    · split at h
      · cases h
      · next v _ hv =>
        have hvalue : v.Distinct := value_distinct depth hv
        split at h
        · cases h
        · split at h
          · cases h
          · next added hadded =>
            have htable : Table.Distinct added := addAt_distinct hvalue ht hadded
            split at h
            · cases h
              exact htable
            · exact entries_distinct depth htable h
            · cases h
    · cases h

end

/-! ## Documents -/

namespace Document

variable {d d' : Document}

theorem openTable_distinct (hd : d.table.Distinct) (h : d.openTable path = some d') : d'.table.Distinct := by
  unfold openTable at h
  split at h
  · cases h
  · obtain ⟨table, htable, rfl⟩ := Option.map_eq_some_iff.1 h
    exact changeAt_distinct (fun ht heq => Option.some.inj heq ▸ ht) true hd htable

theorem addElement_distinct (ht : t.Distinct) (h : addElement key t = some t') : t'.Distinct := by
  unfold addElement at h
  split at h
  · exact Option.some.inj h ▸ ht.put (Setting.distinct_list _) key
  · exact Option.some.inj h ▸ ht.put (Setting.distinct_list _) key
  · cases h

theorem openElement_distinct (hd : d.table.Distinct) (h : d.openElement path = some d') : d'.table.Distinct := by
  unfold openElement at h
  split at h
  · cases h
  · split at h
    · cases h
    · obtain ⟨table, htable, rfl⟩ := Option.map_eq_some_iff.1 h
      exact changeAt_distinct addElement_distinct true hd htable

theorem addValue_distinct (hv : v.Distinct) (hd : d.table.Distinct) (h : d.addValue path v = some d') :
    d'.table.Distinct := by
  unfold addValue at h
  dsimp only at h
  split at h
  · cases h
  · obtain ⟨table, htable, rfl⟩ := Option.map_eq_some_iff.1 h
    exact addAt_distinct hv hd htable

end Document

variable {d d' : Document}

theorem orMalformed_eq_ok {α : Type} {o : Option α} {a : α} (h : orMalformed o = .ok a) : o = some a := by
  cases o with
  | none => cases h
  | some b => exact congrArg some (Except.ok.inj h)

/-- One statement keeps keys apart. -/
theorem statement_distinct (hd : d.table.Distinct) (h : statement d text = .ok (d', rest)) : d'.table.Distinct := by
  have hsettled : d.settle.table.Distinct := hd
  unfold statement at h
  split at h
  · split at h
    · obtain ⟨_, hopened, hread⟩ := Option.map_eq_some_iff.1 (orMalformed_eq_ok h)
      cases hread
      exact Document.openElement_distinct hsettled hopened
    · cases h
  · split at h
    · obtain ⟨_, hopened, hread⟩ := Option.map_eq_some_iff.1 (orMalformed_eq_ok h)
      cases hread
      exact Document.openTable_distinct hsettled hopened
    · cases h
  · cases h
    exact hd
  · split at h
    · cases h
      exact hd
    · split at h
      · split at h
        · next v _ hv =>
          obtain ⟨_, hadded, hread⟩ := Option.map_eq_some_iff.1 (orMalformed_eq_ok h)
          cases hread
          exact Document.addValue_distinct (value_distinct _ hv) hd hadded
        · cases h
      · cases h

theorem statements_distinct {lines : Nat} (hd : d.table.Distinct) (h : statements lines d text = .ok t) : t.Distinct := by
  induction lines generalizing d text with
  | zero =>
    unfold statements at h
    split at h
    · exact Except.ok.inj h ▸ hd
    · cases h
  | succ lines ih =>
    unfold statements at h
    split at h
    · exact Except.ok.inj h ▸ hd
    · split at h
      · cases h
      · next d' _ hstatement =>
        split at h
        · cases h
        · exact ih (statement_distinct hd hstatement) h

/-- **In a table that is read every key stands once**, at every depth. -/
theorem read_distinct (h : read text = .ok t) : t.Distinct := statements_distinct (d := .empty) trivial h

end Toml

end Glob
