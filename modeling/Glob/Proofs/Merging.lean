import Glob.Setting
/-!
# One table over another

What a key path leads to in tables of any depth (`Setting.at?`), and what it leads to where one table is laid over another.
A value of the upper table that is no table decides for all paths through its place; where the upper table has a table, so
has the whole; and everywhere else the lower table is seen as it was (`Table.merge_overrides`).

A table of a configuration has no key twice, and neither have the tables in it (`Table.Distinct`).  This is asked of the
upper table only: of two entries under one key the first would be found and the last would be laid over.
-/
namespace Glob

/-! ## Keys -/

mutual

/-- The tables that the value consists of have no key twice; those within a list do not count. -/
def Setting.Distinct : Setting → Prop
  | .table entries => Table.Distinct entries
  | _ => True

def Table.Distinct : Table → Prop
  | [] => True
  | (key, value) :: rest => key ∉ rest.map Prod.fst ∧ value.Distinct ∧ Table.Distinct rest

end

def Setting.IsTable (v : Setting) : Prop := ∃ entries, v = .table entries

def Setting.at? : Setting → List Text → Option Setting
  | v, [] => some v
  | .table entries, key :: path =>
    match Table.get? entries key with
    | some v => v.at? path
    | none => none
  | _, _ :: _ => none

def Table.at? (t : Table) (path : List Text) : Option Setting := (Setting.table t).at? path

/-- On the path, or at its end, there is a value that is no table. -/
def Setting.Decides (v : Setting) (path : List Text) : Prop :=
  ∃ begun, begun <+: path ∧ ∃ w, v.at? begun = some w ∧ ¬ w.IsTable

def Table.Decides (t : Table) (path : List Text) : Prop := (Setting.table t).Decides path

variable {base entries override rest t : Table} {key k : Text} {old : Option Setting} {path : List Text} {v w : Setting}

namespace Table

theorem get?_cons : Table.get? ((key, v) :: rest) k = if k = key then some v else Table.get? rest k := by
  by_cases h : k = key
  · simp [get?, h]
  · have hb : (k == key) = false := by simpa using h
    simp [get?, List.lookup_cons, h, hb]

theorem get?_eq_none (h : key ∉ t.map Prod.fst) : t.get? key = none := by
  induction t with
  | nil => rfl
  | cons e rest ih =>
    rw [List.map_cons, List.mem_cons, not_or] at h
    rw [get?_cons, if_neg h.1, ih h.2]

theorem mem_of_get? (h : t.get? key = some v) : (key, v) ∈ t := by
  induction t with
  | nil => cases h
  | cons e rest ih =>
    rw [get?_cons] at h
    split at h
    · next hkey =>
      obtain rfl := Option.some.inj h
      rw [hkey]
      exact List.mem_cons_self
    · exact List.mem_cons_of_mem _ (ih h)

/-- Every entry of a table without repeated keys is found. -/
theorem Distinct.get? (h : t.Distinct) (he : (key, v) ∈ t) : t.get? key = some v := by
  induction t with
  | nil => cases he
  | cons e rest ih =>
    obtain ⟨hkey, -, hrest⟩ := h
    rw [get?_cons]
    rcases List.mem_cons.1 he with rfl | he
    · exact if_pos rfl
    · rw [if_neg, ih hrest he]
      rintro rfl
      exact hkey (List.mem_map.2 ⟨_, he, rfl⟩)

theorem Distinct.value (h : t.Distinct) (he : (key, v) ∈ t) : v.Distinct := by
  induction t with
  | nil => cases he
  | cons e rest ih =>
    obtain ⟨-, hvalue, hrest⟩ := h
    rcases List.mem_cons.1 he with rfl | he
    · exact hvalue
    · exact ih hrest he

/-- Putting what is there already changes nothing. -/
theorem put_get? (h : t.get? key = some v) : t.put key v = t := by
  induction t with
  | nil => cases h
  | cons e rest ih =>
    rw [get?_cons] at h
    rw [put]
    split at h
    · next hkey =>
      rw [if_pos hkey]
      exact congrArg (fun w => (e.1, w) :: rest) (Option.some.inj h).symm
    · next hkey => rw [if_neg hkey, ih h]

end Table

/-! ## One value over another -/

theorem Setting.over_none (v : Setting) : Setting.over none v = v := by cases v <;> rfl

/-- Unless both are tables, the upper value takes the place of the lower one. -/
theorem Setting.over_of_not_both (h : ¬ ∃ t entries, old = some (.table t) ∧ v = .table entries) :
    Setting.over old v = v := by
  cases v with
  | table entries =>
    unfold Setting.over
    split
    · exact absurd ⟨_, _, rfl, rfl⟩ h
    · rfl
  | _ => rfl

theorem Setting.over_isTable (old : Option Setting) (entries : Table) : (Setting.over old (.table entries)).IsTable := by
  unfold Setting.over
  split <;> exact ⟨_, rfl⟩

namespace Table

/-- **What stands under a key after merging.** -/
theorem get?_merge (h : override.Distinct) (base : Table) (k : Text) :
    (base.merge override).get? k = ((override.get? k).map (Setting.over (base.get? k))).or (base.get? k) := by
  induction override generalizing base with
  | nil => rfl
  | cons e rest ih =>
    obtain ⟨hkey, -, hrest⟩ := h
    rw [merge, ih hrest, get?_cons, get?_put]
    by_cases hk : k = e.1
    · rw [if_pos hk, if_pos hk, hk, get?_eq_none hkey]
      rfl
    · rw [if_neg hk, if_neg hk]

/-- Entries that are there already, or laid over what is there give it again, change nothing. -/
theorem merge_eq_self (h : ∀ e ∈ override, t.get? e.1 = some (Setting.over (t.get? e.1) e.2)) : t.merge override = t := by
  induction override with
  | nil => rfl
  | cons e rest ih =>
    obtain ⟨he, hrest⟩ := List.forall_mem_cons.1 h
    rw [merge, put_get? he, ih hrest]

end Table

mutual

/-- A value that is laid over what it was laid over changes nothing. -/
theorem Setting.over_over : ∀ (v : Setting) (_ : v.Distinct) (old : Option Setting),
    Setting.over (some (Setting.over old v)) v = Setting.over old v
  | .table entries, h, old => by
    -- laid over itself or over what it was laid over, a table finds its entries laid over already
    have hdistinct : Table.Distinct entries := h
    have hentries := Table.over_over entries h
    have hself : Table.merge entries entries = entries := Table.merge_eq_self fun e he => by
      rw [hdistinct.get? he]
      have hvalue := hentries e he none
      rw [Setting.over_none] at hvalue
      exact congrArg some hvalue.symm
    have hagain : ∀ t : Table, (t.merge entries).merge entries = t.merge entries := fun t =>
      Table.merge_eq_self fun e he => by
        rw [Table.get?_merge hdistinct, hdistinct.get? he]
        exact congrArg some (hentries e he _).symm
    by_cases hold : ∃ t, old = some (.table t)
    · obtain ⟨t, rfl⟩ := hold
      exact congrArg Setting.table (hagain t)
    · have hover : Setting.over old (.table entries) = .table entries :=
        Setting.over_of_not_both fun ⟨t, _, ht, _⟩ => hold ⟨t, ht⟩
      rw [hover]
      exact congrArg Setting.table hself
  | .unset, _, _ | .boolean _, _, _ | .integer _, _, _ | .number _, _, _ | .text _, _, _ | .date _, _, _ | .time _, _, _
  | .dateTime _, _, _ | .list _, _, _ => rfl

theorem Table.over_over : ∀ (entries : Table) (_ : entries.Distinct), ∀ e ∈ entries,
    ∀ old, Setting.over (some (Setting.over old e.2)) e.2 = Setting.over old e.2
  | [], _ => nofun
  | (key, value) :: rest, h => by
    obtain ⟨-, hvalue, hrest⟩ := h
    exact List.forall_mem_cons.2 ⟨Setting.over_over value hvalue, Table.over_over rest hrest⟩

end

/-! ## Paths -/

namespace Setting

@[simp] theorem at?_nil (v : Setting) : v.at? [] = some v := by cases v <;> rfl

theorem at?_table (t : Table) (key : Text) (path : List Text) :
    (table t).at? (key :: path) = (t.get? key).bind (·.at? path) := by
  show (match t.get? key with | some v => v.at? path | none => none) = _
  cases t.get? key <;> rfl

theorem at?_cons_of_not_isTable (h : ¬ v.IsTable) (key : Text) (path : List Text) : v.at? (key :: path) = none := by
  cases v with
  | table entries => exact absurd ⟨entries, rfl⟩ h
  | _ => rfl

theorem decides_of_not_isTable (h : ¬ v.IsTable) (path : List Text) : v.Decides path :=
  ⟨[], List.nil_prefix, v, v.at?_nil, h⟩

theorem not_decides_nil (t : Table) : ¬ (table t).Decides [] := by
  rintro ⟨begun, hbegun, w, hw, hplain⟩
  obtain rfl := List.prefix_nil.1 hbegun
  exact hplain ⟨t, (Option.some.inj hw).symm⟩

theorem decides_table : (table t).Decides (key :: path) ↔ ∃ v, t.get? key = some v ∧ v.Decides path := by
  constructor
  · rintro ⟨begun, hbegun, w, hw, hplain⟩
    cases begun with
    | nil => exact absurd ⟨t, (Option.some.inj hw).symm⟩ hplain
    | cons k begun =>
      obtain ⟨rfl, hpath⟩ := List.cons_prefix_cons.1 hbegun
      obtain ⟨v, hv, hat⟩ := Option.bind_eq_some_iff.1 ((at?_table t k begun).symm.trans hw)
      exact ⟨v, hv, begun, hpath, w, hat, hplain⟩
  · rintro ⟨v, hv, begun, hbegun, w, hw, hplain⟩
    refine ⟨key :: begun, List.cons_prefix_cons.2 ⟨rfl, hbegun⟩, w, ?_, hplain⟩
    rw [at?_table, hv]
    exact hw

/-- A value of the upper one that is no table decides for all paths through its place. -/
theorem at?_over_of_decides (h : v.Distinct) (hpath : v.Decides path) (old : Option Setting) :
    (Setting.over old v).at? path = v.at? path := by
  induction path generalizing v old with
  | nil =>
    have htable : ¬ v.IsTable := by
      rintro ⟨t, rfl⟩
      exact not_decides_nil t hpath
    rw [over_of_not_both fun ⟨_, entries, _, hv⟩ => htable ⟨entries, hv⟩]
  | cons key path ih =>
    by_cases htables : ∃ t entries, old = some (table t) ∧ v = table entries
    · obtain ⟨t, entries, rfl, rfl⟩ := htables
      obtain ⟨w, hw, hdecides⟩ := decides_table.1 hpath
      show (table (Table.merge t entries)).at? (key :: path) = _
      rw [at?_table, at?_table, Table.get?_merge h, hw]
      exact ih (Table.Distinct.value h (Table.mem_of_get? hw)) hdecides _
    · rw [over_of_not_both htables]

/-- Elsewhere the upper one is laid over what the path led to. -/
theorem at?_over_of_not_decides (h : v.Distinct) (hpath : ¬ v.Decides path) (old : Option Setting) :
    (Setting.over old v).at? path = ((v.at? path).map (Setting.over (old.bind (·.at? path)))).or (old.bind (·.at? path)) := by
  induction path generalizing v old with
  | nil => simp
  | cons key path ih =>
    obtain ⟨entries, rfl⟩ : v.IsTable :=
      Classical.byContradiction fun hplain => hpath (decides_of_not_isTable hplain _)
    by_cases hold : ∃ t, old = some (table t)
    · obtain ⟨t, rfl⟩ := hold
      show (table (Table.merge t entries)).at? (key :: path) = _
      rw [Option.bind_some, at?_table, at?_table, at?_table, Table.get?_merge h]
      cases hw : Table.get? entries key with
      | none => rfl
      | some w =>
        have hplain : ¬ w.Decides path := fun hdecides => hpath (decides_table.2 ⟨w, hw, hdecides⟩)
        exact ih (Table.Distinct.value h (Table.mem_of_get? hw)) hplain _
    · have hnone : (old.bind (·.at? (key :: path))) = none := by
        cases old with
        | none => rfl
        | some w => exact at?_cons_of_not_isTable (fun ⟨t, ht⟩ => hold ⟨t, congrArg some ht⟩) key path
      rw [over_of_not_both fun ⟨t, _, ht, _⟩ => hold ⟨t, ht⟩, hnone, Option.or_none]
      cases (table entries).at? (key :: path) with
      | none => rfl
      | some w => exact congrArg some (over_none w).symm

end Setting

/-- **The law of a merge, path by path.**  Where the upper table has a value that is no table, on the path or at its end, it
decides; where the path leads to a table of the upper one it leads to a table; and for all other paths the lower table is
as it was.  Merging the same table again changes nothing. -/
theorem Table.merge_overrides (base : Table) (h : override.Distinct) :
    (∀ path : List Text,
      (override.Decides path → (base.merge override).at? path = override.at? path) ∧
      (¬ override.Decides path → (∃ v ∈ override.at? path, v.IsTable) → ∃ v ∈ (base.merge override).at? path, v.IsTable) ∧
      (¬ override.Decides path → (¬ ∃ v ∈ override.at? path, v.IsTable) →
        (base.merge override).at? path = base.at? path)) ∧
    (base.merge override).merge override = base.merge override := by
  have hdistinct : (Setting.table override).Distinct := h
  have helse : ∀ path, ¬ override.Decides path → (base.merge override).at? path =
      ((override.at? path).map (Setting.over (base.at? path))).or (base.at? path) := fun path hpath =>
    Setting.at?_over_of_not_decides hdistinct hpath (some (.table base))
  refine ⟨fun path => ⟨fun hpath => ?_, ?_, ?_⟩, ?_⟩
  · exact Setting.at?_over_of_decides hdistinct hpath (some (.table base))
  · rintro hpath ⟨v, hv, entries, rfl⟩
    rw [helse path hpath, hv]
    exact ⟨_, rfl, Setting.over_isTable _ entries⟩
  · intro hpath hnone
    rw [helse path hpath]
    cases hv : override.at? path with
    | none => rfl
    | some v =>
      have htable : ¬ v.IsTable := fun htable => hnone ⟨v, hv, htable⟩
      exact absurd ⟨path, List.prefix_rfl, v, hv, htable⟩ hpath
  · exact Setting.table.inj (Setting.over_over (.table override) hdistinct (some (.table base)))

/-- A table over a number and a number over a table, and a table over a table that holds a number there. -/
theorem Table.merge_overrides_mixed :
    let base : Table := [(Text.of "a", .table [(Text.of "x", .integer 1), (Text.of "y", .integer 2)]),
      (Text.of "b", .integer 1), (Text.of "c", .table [(Text.of "z", .integer 3)])]
    let override : Table := [(Text.of "a", .table [(Text.of "x", .table [(Text.of "u", .integer 5)])]),
      (Text.of "b", .table [(Text.of "w", .integer 6)]), (Text.of "c", .integer 7)]
    override.Distinct ∧
      (base.merge override).at? [Text.of "c", Text.of "z"] = none ∧
      (∃ v ∈ (base.merge override).at? [Text.of "a", Text.of "x"], v.IsTable) ∧
      (base.merge override).at? [Text.of "a", Text.of "y"] = some (.integer 2) ∧
      (base.merge override).merge override = base.merge override := by
  intro base override
  have hdistinct : override.Distinct := by
    simp [override, Distinct, Setting.Distinct, Text.of]
  obtain ⟨hlaw, hagain⟩ := merge_overrides base hdistinct
  have hundecided : ∀ key, ¬ override.Decides [Text.of "a", key] := by
    intro key hdecides
    obtain ⟨v, hv, hdecides⟩ := Setting.decides_table.1 hdecides
    obtain rfl := Option.some.inj hv
    obtain ⟨w, hw, hdecides⟩ := Setting.decides_table.1 hdecides
    obtain rfl := (Prod.mk.inj (List.mem_singleton.1 (mem_of_get? hw))).2
    exact Setting.not_decides_nil _ hdecides
  refine ⟨hdistinct, ?_, ?_, ?_, hagain⟩
  · exact (hlaw [Text.of "c", Text.of "z"]).1
      ⟨[Text.of "c"], ⟨[Text.of "z"], rfl⟩, .integer 7, rfl, nofun⟩
  · exact (hlaw [Text.of "a", Text.of "x"]).2.1 (hundecided _) ⟨_, rfl, _, rfl⟩
  · exact (hlaw [Text.of "a", Text.of "y"]).2.2 (hundecided _) nofun

end Glob
