import Glob.Proofs.Session
import Mathlib.Data.List.Dedup
import Mathlib.Data.List.DropRight
/-!
# What the cache keeps

The cache keeps the keys used last.  `asked` are the keys of the compile calls since the last purge, in order, and
`used` those of them that compile.  Their distinct keys, the one used last in front, are `(used calls).dedup.reverse`:
the first 256 of them are what the cache holds after the calls (`after_keys`).

Which object a compile call gives follows: the one of the previous call with this key if the key is still held, and else
one with a serial number that none before it has (`compile_again`).
-/
namespace Glob

/-! ## Distinct keys by their last use -/

section Distinct

variable {κ : Type} [DecidableEq κ]

theorem dedup_concat (l : List κ) (k : κ) : (l ++ [k]).dedup = l.dedup.filter (· ≠ k) ++ [k] := by
  induction l with
  | nil => rfl
  | cons a l ih =>
    rw [List.cons_append]
    by_cases ha : a ∈ l
    · rw [List.dedup_cons_of_mem (List.mem_append_left _ ha), List.dedup_cons_of_mem ha, ih]
    · rw [List.dedup_cons_of_notMem ha]
      by_cases hk : a = k
      · subst hk
        rw [List.dedup_cons_of_mem (by simp), ih, List.filter_cons_of_neg (by simp)]
      · rw [List.dedup_cons_of_notMem (by simp [ha, hk]), ih, List.filter_cons_of_pos (by simpa using hk)]
        rfl

/-- What comes last keeps its place. -/
theorem dedup_append_cons (before : List κ) {l : List κ} {k : κ} (h : k ∉ l) :
    ∃ older, (before ++ k :: l).dedup = older ++ k :: l.dedup := by
  rw [List.dedup_append, List.dedup_cons_of_notMem h]
  obtain ⟨older, hunion⟩ := List.suffix_union_right before (k :: l.dedup)
  exact ⟨older, hunion.symm⟩

/-- Taking one key out and cutting may change places, if the cut leaves room for one more before. -/
theorem take_filter_take {l : List κ} (h : l.Nodup) (k : κ) (n : Nat) :
    ((l.take (n + 1)).filter (· ≠ k)).take n = (l.filter (· ≠ k)).take n := by
  induction l generalizing n with
  | nil => simp
  | cons a l ih =>
    obtain ⟨ha, hl⟩ := List.nodup_cons.1 h
    rw [List.take_succ_cons]
    by_cases hk : a = k
    · subst hk
      have hkept : ∀ ks : List κ, a ∉ ks → ks.filter (· ≠ a) = ks := fun ks hks =>
        List.filter_eq_self.2 fun x hx => decide_eq_true fun hxa => hks (hxa ▸ hx)
      rw [List.filter_cons_of_neg (by simp), List.filter_cons_of_neg (by simp), hkept _ ha,
        hkept _ fun hmem => ha (List.mem_of_mem_take hmem), List.take_take, Nat.min_self]
    · rw [List.filter_cons_of_pos (by simpa using hk), List.filter_cons_of_pos (by simpa using hk)]
      cases n with
      | zero => rfl
      | succ n => rw [List.take_succ_cons, List.take_succ_cons, ih hl]

omit [DecidableEq κ] in
theorem mem_take_append {before l : List κ} {k : κ} (h : k ∉ before) (n : Nat) :
    k ∈ (before ++ k :: l).take n ↔ before.length < n := by
  constructor
  · intro hmem
    by_contra hn
    rw [List.take_append_of_le_length (Nat.le_of_not_lt hn)] at hmem
    exact h (List.mem_of_mem_take hmem)
  · intro hn
    obtain ⟨m, hm⟩ := Nat.exists_eq_succ_of_ne_zero (Nat.sub_ne_zero_of_lt hn)
    rw [List.take_append, hm, List.take_succ_cons]
    exact List.mem_append_right _ List.mem_cons_self

end Distinct

/-! ## The keys of calls -/

abbrev Key := Text × Options

namespace Call

def key? : Call → Option Key
  | compile key => some key
  | purge => none

/-- The keys of the compile calls since the last purge. -/
def asked (calls : List Call) : List Key := (calls.rtakeWhile (· ≠ purge)).filterMap key?

end Call

def Compiles (key : Key) : Bool := (Matcher.ofPattern? key.2 key.1).isOk

namespace Call

/-- The keys that were compiled well since the last purge. -/
def used (calls : List Call) : List Key := (asked calls).filter Compiles

variable {calls more : List Call} {key : Key}

theorem asked_compile (calls : List Call) (key : Key) : asked (calls ++ [compile key]) = asked calls ++ [key] := by
  rw [asked, List.rtakeWhile_concat_pos _ _ _ (by simp), List.filterMap_append]
  rfl

theorem asked_purge (calls : List Call) : asked (calls ++ [purge]) = [] := by
  rw [asked, List.rtakeWhile_concat_neg _ _ _ (by simp)]
  rfl

theorem asked_append (h : purge ∉ more) : asked (calls ++ more) = asked calls ++ asked more := by
  induction more using List.reverseRecOn with
  | nil => simp [asked]
  | append_singleton more call ih =>
    rw [List.mem_append, not_or] at h
    cases call with
    | purge => exact absurd (List.mem_singleton_self _) h.2
    | compile key => rw [← List.append_assoc, asked_compile, asked_compile, ih h.1, List.append_assoc]

/-- A purge forgets all that comes before it. -/
theorem asked_append_purge (h : purge ∈ more) : asked (calls ++ more) = asked more := by
  induction more using List.reverseRecOn with
  | nil => exact absurd h List.not_mem_nil
  | append_singleton more call ih =>
    cases call with
    | purge => rw [← List.append_assoc, asked_purge, asked_purge]
    | compile key =>
      have hmore : purge ∈ more := by simpa using h
      rw [← List.append_assoc, asked_compile, asked_compile, ih hmore]

theorem mem_asked (h : key ∈ asked calls) : compile key ∈ calls := by
  obtain ⟨call, hcall, hkey⟩ := List.mem_filterMap.1 h
  cases call with
  | purge => cases hkey
  | compile key' =>
    obtain rfl := Option.some.inj hkey
    exact (List.rtakeWhile_suffix _ _).subset hcall

theorem used_compile (h : Compiles key = true) : used (calls ++ [compile key]) = used calls ++ [key] := by
  rw [used, asked_compile, List.filter_append, List.filter_singleton, h]
  rfl

theorem used_append (h : purge ∉ more) : used (calls ++ more) = used calls ++ used more := by
  rw [used, asked_append h, List.filter_append]
  rfl

theorem used_append_purge (h : purge ∈ more) : used (calls ++ more) = used more := by
  rw [used, asked_append_purge h]
  rfl

theorem used_failed (h : Compiles key = false) : used (calls ++ [compile key]) = used calls := by
  rw [used, asked_compile, List.filter_append, List.filter_singleton, h]
  exact List.append_nil _

end Call

open Call (asked used)

namespace Lru

variable {κ α : Type} [DecidableEq κ] {t : Lru κ α} {k k' : κ} {v w : α}

theorem get?_eq_none : t.get? k = none ↔ k ∉ t.keys := by
  rw [get?, Option.map_eq_none_iff, List.find?_eq_none, keys, List.mem_map]
  constructor
  · rintro h ⟨e, he, rfl⟩
    exact h e he (decide_eq_true rfl)
  · exact fun h e he hk => h ⟨e, he, of_decide_eq_true hk⟩

/-- Using another key changes nothing for this one. -/
theorem get?_touch_of_ne (h : k ≠ k') : (t.touch k' v).get? k = t.get? k := by
  have hother : ∀ e : κ × α, (decide (decide (e.1 ≠ k') = true ∧ decide (e.1 = k) = true)) = decide (e.1 = k) := by
    intro e
    by_cases he : e.1 = k <;> simp [he, h]
  rw [get?, get?, touch, without, List.find?_cons_of_neg (by simpa using Ne.symm h), List.find?_filter]
  simp only [hother]

theorem get?_insert_of_ne (h : k ≠ k') (hw : (t.insert k' v).get? k = some w) : t.get? k = some w := by
  rw [← get?_touch_of_ne (v := v) h]
  obtain ⟨e, hfind, rfl⟩ := Option.map_eq_some_iff.1 hw
  exact Option.map_eq_some_iff.2 ⟨e, (List.take_prefix _ _).find?_eq_some hfind, rfl⟩

end Lru

namespace Cache

variable {c : Cache} {o : Options} {p : Text} {v : Compiled} {calls between : List Call} {key : Key}

/-! ## One call -/

/-- **All that a compile call can do.** -/
theorem compile_cases (h : c.Faithful) (o : Options) (p : Text) :
    (∃ v, c.stored.get? (p, o) = some v ∧ Matcher.ofPattern? o p = .ok v.matcher ∧
      c.compile o p = (.ok v, { c with stored := c.stored.touch (p, o) v, hits := c.hits + 1 })) ∨
    (∃ m, c.stored.get? (p, o) = none ∧ Matcher.ofPattern? o p = .ok m ∧
      c.compile o p =
        (.ok ⟨c.made, m⟩,
          { c with stored := c.stored.insert (p, o) ⟨c.made, m⟩, misses := c.misses + 1, made := c.made + 1 })) ∨
    (∃ f, c.stored.get? (p, o) = none ∧ Matcher.ofPattern? o p = .error f ∧
      c.compile o p = (.error f, { c with misses := c.misses + 1 })) := by
  cases hget : c.stored.get? (p, o) with
  | some v => exact .inl ⟨v, rfl, h.get? hget, compile_hit hget⟩
  | none =>
    cases hm : Matcher.ofPattern? o p with
    | ok m => exact .inr (.inl ⟨m, rfl, rfl, compile_made hget hm⟩)
    | error f => exact .inr (.inr ⟨f, rfl, rfl, compile_failed hget hm⟩)

theorem capacity_call (h : c.Faithful) (call : Call) (hcap : c.stored.capacity = capacity) :
    (c.call call).stored.capacity = capacity := by
  cases call with
  | purge => rfl
  | compile key =>
    obtain ⟨p, o⟩ := key
    rw [Cache.call]
    obtain ⟨v, -, -, hc⟩ | ⟨m, -, -, hc⟩ | ⟨f, -, -, hc⟩ := compile_cases h o p <;> rw [hc] <;> exact hcap

/-- A key that compiles comes to the front, and if there is no room the one used last of all goes. -/
theorem keys_compile (h : c.Faithful) {n : Nat} (hcap : c.stored.capacity = n + 1) {keys : List Key}
    (hnodup : keys.Nodup) (hkeys : c.stored.keys = keys.take (n + 1)) (hkey : Compiles key = true) :
    (c.call (.compile key)).stored.keys = (key :: keys.filter (· ≠ key)).take (n + 1) := by
  obtain ⟨p, o⟩ := key
  rw [Cache.call, List.take_succ_cons, ← take_filter_take hnodup]
  obtain ⟨v, hget, -, hc⟩ | ⟨m, -, -, hc⟩ | ⟨f, -, hf, -⟩ := compile_cases h o p
  · have hmem : (p, o) ∈ keys.take (n + 1) := by
      rw [← hkeys]
      by_contra hnone
      rw [Lru.get?_eq_none.2 hnone] at hget
      cases hget
    have hroom : ((keys.take (n + 1)).filter (· ≠ (p, o))).length < (keys.take (n + 1)).length :=
      List.length_filter_lt_length_iff_exists.2 ⟨_, hmem, by simp⟩
    have hfits := Nat.le_of_lt_succ (Nat.lt_of_lt_of_le hroom (List.length_take_le _ _))
    rw [hc, Lru.keys_touch, hkeys]
    exact congrArg (List.cons _) (List.take_of_length_le hfits).symm
  · rw [hc, Lru.keys_insert, hkeys, hcap, List.take_succ_cons]
  · rw [Compiles, hf] at hkey
    cases hkey

theorem stored_failed (h : c.Faithful) (hkey : Compiles key = false) : (c.call (.compile key)).stored = c.stored := by
  obtain ⟨p, o⟩ := key
  rw [Cache.call]
  obtain ⟨v, -, hm, -⟩ | ⟨m, -, hm, -⟩ | ⟨f, -, -, hc⟩ := compile_cases h o p
  · rw [Compiles, hm] at hkey
    cases hkey
  · rw [Compiles, hm] at hkey
    cases hkey
  · rw [hc]

/-- A compile call is a hit or a miss. -/
theorem count_compile (h : c.Faithful) (key : Key) :
    (c.call (.compile key)).hits + (c.call (.compile key)).misses = c.hits + c.misses + 1 := by
  obtain ⟨p, o⟩ := key
  rw [Cache.call]
  obtain ⟨v, -, -, hc⟩ | ⟨m, -, -, hc⟩ | ⟨f, -, -, hc⟩ := compile_cases h o p <;> rw [hc] <;> simp only <;> omega

/-! ## All calls -/

theorem after_concat (c : Cache) (calls : List Call) (call : Call) :
    c.after (calls ++ [call]) = (c.after calls).call call := after_append c calls [call]

theorem after_faithful (calls : List Call) : (empty.after calls).Faithful := faithful_empty.after calls

theorem after_capacity (calls : List Call) : (empty.after calls).stored.capacity = capacity := by
  induction calls using List.reverseRecOn with
  | nil => rfl
  | append_singleton calls call ih =>
    rw [after_concat]
    exact capacity_call (after_faithful calls) call ih

/-- **The cache holds the keys used last since the last purge.** -/
theorem after_keys (calls : List Call) :
    (empty.after calls).stored.keys = (used calls).dedup.reverse.take capacity := by
  induction calls using List.reverseRecOn with
  | nil => rfl
  | append_singleton calls call ih =>
    have hfaithful := after_faithful calls
    rw [after_concat]
    cases call with
    | purge =>
      rw [used, Call.asked_purge]
      rfl
    | compile key =>
      cases hkey : Compiles key with
      | true =>
        have hnodup : (used calls).dedup.reverse.Nodup := List.nodup_reverse.2 (List.nodup_dedup _)
        rw [keys_compile hfaithful (after_capacity calls) hnodup ih hkey, Call.used_compile hkey, dedup_concat,
          List.reverse_concat, List.filter_reverse]
        rfl
      | false => rw [stored_failed hfaithful hkey, Call.used_failed hkey, ih]

theorem after_count (calls : List Call) :
    (empty.after calls).hits + (empty.after calls).misses = (asked calls).length := by
  induction calls using List.reverseRecOn with
  | nil => rfl
  | append_singleton calls call ih =>
    rw [after_concat]
    cases call with
    | purge =>
      rw [Call.asked_purge]
      rfl
    | compile key =>
      rw [count_compile (after_faithful calls), ih, Call.asked_compile, List.length_append, List.length_singleton]

theorem after_size (calls : List Call) :
    (empty.after calls).stored.size = min capacity (used calls).dedup.length := by
  have hsize : (empty.after calls).stored.size = (empty.after calls).stored.keys.length := (List.length_map _).symm
  rw [hsize, after_keys, List.length_take, List.length_reverse]

/-! ## The same object again -/

/-- What is given is held. -/
theorem get?_compile (h : c.Faithful) (hcap : c.stored.capacity = capacity) (hv : (c.compile o p).1 = .ok v) :
    (c.call (.compile (p, o))).stored.get? (p, o) = some v := by
  rw [Cache.call]
  obtain ⟨w, -, -, hc⟩ | ⟨m, -, -, hc⟩ | ⟨f, -, -, hc⟩ := compile_cases h o p
  · rw [hc] at hv ⊢
    cases hv
    simp [Lru.get?, Lru.touch]
  · rw [hc] at hv ⊢
    cases hv
    simp [Lru.get?, Lru.insert, hcap, capacity]
  · rw [hc] at hv
    cases hv

/-- Other calls give a key no other object. -/
theorem get?_call (h : c.Faithful) {call : Call} (hcall : call ≠ .compile key)
    (hv : (c.call call).stored.get? key = some v) : c.stored.get? key = some v := by
  cases call with
  | purge => cases hv
  | compile key' =>
    obtain ⟨p, o⟩ := key'
    have hne : key ≠ (p, o) := fun heq => hcall (by rw [heq])
    rw [Cache.call] at hv
    obtain ⟨w, -, -, hc⟩ | ⟨m, -, -, hc⟩ | ⟨f, -, -, hc⟩ := compile_cases h o p
    · rw [hc] at hv
      exact (Lru.get?_touch_of_ne hne).symm.trans hv
    · rw [hc] at hv
      exact Lru.get?_insert_of_ne hne hv
    · rw [hc] at hv
      exact hv

theorem get?_after (h : c.Faithful) (hbetween : Call.compile key ∉ between)
    (hv : (c.after between).stored.get? key = some v) : c.stored.get? key = some v := by
  induction between generalizing c with
  | nil => exact hv
  | cons call between ih =>
    obtain ⟨hcall, hbetween⟩ := List.ne_and_not_mem_of_not_mem_cons hbetween
    exact get?_call h (Ne.symm hcall) (ih (h.call call) hbetween hv)

/-- Every object that is held was made before. -/
def Dated (c : Cache) : Prop := ∀ entry ∈ c.stored.entries, entry.2.serial < c.made

theorem Dated.get? (h : c.Dated) (hv : c.stored.get? key = some v) : v.serial < c.made := by
  obtain ⟨entry, hfind, rfl⟩ := Option.map_eq_some_iff.1 hv
  exact h entry (List.mem_of_find?_eq_some hfind)

/-- A compile call gives an object that was made before, or makes it. -/
theorem Dated.compile (h : c.Faithful) (hd : c.Dated) (o : Options) (p : Text) :
    (c.compile o p).2.Dated ∧ c.made ≤ (c.compile o p).2.made ∧
      ∀ v, (c.compile o p).1 = .ok v → v.serial < (c.compile o p).2.made := by
  have hothers : ∀ entry ∈ c.stored.without (p, o), entry.2.serial < c.made := fun entry hentry =>
    hd entry (List.mem_filter.1 hentry).1
  obtain ⟨w, hget, -, hc⟩ | ⟨m, -, -, hc⟩ | ⟨f, -, -, hc⟩ := compile_cases h o p
  · rw [hc]
    refine ⟨List.forall_mem_cons.2 ⟨hd.get? hget, hothers⟩, Nat.le_refl _, fun v hv => ?_⟩
    cases hv
    exact hd.get? hget
  · rw [hc]
    refine ⟨fun entry hentry => ?_, Nat.le_succ _, fun v hv => ?_⟩
    · rcases List.mem_cons.1 (List.mem_of_mem_take hentry) with rfl | hentry
      · exact Nat.lt_succ_self _
      · exact Nat.lt_succ_of_lt (hothers entry hentry)
    · cases hv
      exact Nat.lt_succ_self _
  · rw [hc]
    exact ⟨hd, Nat.le_refl _, fun v hv => nomatch hv⟩

theorem Dated.call (h : c.Faithful) (hd : c.Dated) (call : Call) :
    (c.call call).Dated ∧ c.made ≤ (c.call call).made := by
  cases call with
  | purge => exact ⟨fun _ hentry => absurd hentry List.not_mem_nil, Nat.le_refl _⟩
  | compile key =>
    obtain ⟨hdated, hmade, -⟩ := hd.compile h key.2 key.1
    exact ⟨hdated, hmade⟩

theorem Dated.after (h : c.Faithful) (hd : c.Dated) (calls : List Call) :
    (c.after calls).Dated ∧ c.made ≤ (c.after calls).made := by
  induction calls generalizing c with
  | nil => exact ⟨hd, Nat.le_refl _⟩
  | cons call calls ih =>
    obtain ⟨hdated, hmade⟩ := hd.call h call
    obtain ⟨hdated', hmade'⟩ := ih (h.call call) hdated
    exact ⟨hdated', hmade.trans hmade'⟩

theorem after_dated (calls : List Call) : (empty.after calls).Dated :=
  (Dated.after faithful_empty (fun _ hentry => absurd hentry List.not_mem_nil) calls).1

/-- Objects that were given earlier were made earlier. -/
theorem serial_lt {earlier later : List Call} (hcalls : calls = earlier ++ .compile (p, o) :: later)
    (hv : ((empty.after earlier).compile o p).1 = .ok v) : v.serial < (empty.after calls).made := by
  subst hcalls
  obtain ⟨hdated, -, hserial⟩ := (after_dated earlier).compile (after_faithful earlier) o p
  have hfaithful := (compile_faithful (after_faithful earlier) o p).1
  rw [after_append]
  exact Nat.lt_of_lt_of_le (hserial v hv) (Dated.after hfaithful hdated later).2

/-- A key is held as long as there was no purge and the keys used since leave room for it. -/
theorem mem_keys_after (before : List Call) (hkey : Compiles key = true) (hbetween : Call.compile key ∉ between) :
    key ∈ (empty.after (before ++ .compile key :: between)).stored.keys ↔
      Call.purge ∉ between ∧ (used between).dedup.length < capacity := by
  have hsince : key ∉ used between := fun hmem => hbetween (Call.mem_asked (List.mem_filter.1 hmem).1)
  rw [after_keys]
  by_cases hpurge : Call.purge ∈ between
  · rw [List.append_cons, Call.used_append_purge hpurge]
    refine iff_of_false (fun hmem => hsince ?_) fun h => h.1 hpurge
    exact List.mem_dedup.1 (List.mem_reverse.1 (List.mem_of_mem_take hmem))
  · obtain ⟨older, holder⟩ := dedup_append_cons (used before) hsince
    have hlater : key ∉ (used between).dedup.reverse := fun hmem => hsince (List.mem_dedup.1 (List.mem_reverse.1 hmem))
    have hlength : (used between).dedup.length = (used between).dedup.reverse.length := List.length_reverse.symm
    rw [and_iff_right hpurge, List.append_cons, Call.used_append hpurge, Call.used_compile hkey, ← List.append_cons,
      holder, List.reverse_append, List.reverse_cons, List.append_assoc, hlength]
    exact mem_take_append hlater capacity

/-- **The next compile call with a key gives the same object** as long as the key is held, and else one that was never
given before. -/
theorem compile_again {before : List Call} (hv : ((empty.after before).compile o p).1 = .ok v)
    (hbetween : Call.compile (p, o) ∉ between) :
    let calls := before ++ .compile (p, o) :: between
    let again := ((empty.after calls).compile o p).1
    (again = .ok v ↔ Call.purge ∉ between ∧ (used between).dedup.length < capacity) ∧
      (again ≠ .ok v → ∃ w, again = .ok w ∧ ∀ earlier o' p' later u, calls = earlier ++ .compile (p', o') :: later →
        ((empty.after earlier).compile o' p').1 = .ok u → u.serial < w.serial) := by
  intro calls again
  have hbefore := after_faithful before
  have hmatcher : Matcher.ofPattern? o p = .ok v.matcher := by
    rw [← (compile_faithful hbefore o p).2, hv]
    rfl
  have hkey : Compiles (p, o) = true := by
    rw [Compiles, hmatcher]
    rfl
  have hsame : ∀ w, (empty.after calls).stored.get? (p, o) = some w → w = v := by
    intro w hw
    have hcalls : empty.after calls = ((empty.after before).call (.compile (p, o))).after between :=
      after_append empty before _
    rw [hcalls] at hw
    have hheld := get?_after (hbefore.call _) hbetween hw
    rw [get?_compile hbefore (after_capacity before) hv] at hheld
    exact (Option.some.inj hheld).symm
  have hearlier : ∀ earlier o' p' later u, calls = earlier ++ .compile (p', o') :: later →
      ((empty.after earlier).compile o' p').1 = .ok u → u.serial < (empty.after calls).made :=
    fun _ _ _ _ _ => serial_lt
  rw [← mem_keys_after before hkey hbetween]
  obtain ⟨w, hget, -, hc⟩ | ⟨m, hget, -, hc⟩ | ⟨f, -, hf, -⟩ := compile_cases (after_faithful calls) o p
  · have hagain : again = .ok v := by
      rw [← hsame w hget]
      exact congrArg Prod.fst hc
    refine ⟨iff_of_true hagain ?_, fun hne => absurd hagain hne⟩
    by_contra hnone
    rw [Lru.get?_eq_none.2 hnone] at hget
    cases hget
  · have hagain : again = .ok ⟨(empty.after calls).made, m⟩ := congrArg Prod.fst hc
    refine ⟨iff_of_false (fun heq => ?_) (Lru.get?_eq_none.1 hget), fun _ => ⟨_, hagain, hearlier⟩⟩
    obtain rfl := Except.ok.inj (hagain.symm.trans heq)
    exact Nat.lt_irrefl _ (serial_lt rfl hv)
  · rw [hmatcher] at hf
    cases hf

end Cache

/-- **The cache keeps the 256 keys used last.**  A session does to it what the calls of its requests do.  After any
calls it holds the last 256 distinct keys that compiled since the last purge; hits and misses add up to the compile
calls since then; what does not compile is a miss and nothing else.  Compiling a key again gives the object of the time
before if there was no purge since and fewer than 256 other keys compiled, and else a new one. -/
theorem cache_recency :
    (∀ rs : List Request, (Cache.empty.session rs).2 = Cache.empty.after (rs.flatMap Request.calls)) ∧
      (∀ calls : List Call,
        (Cache.empty.after calls).stored.keys = (used calls).dedup.reverse.take 256 ∧
          (Cache.empty.after calls).hits + (Cache.empty.after calls).misses = (asked calls).length ∧
          (Cache.empty.after calls).stored.size = min 256 (used calls).dedup.length) ∧
      (∀ (c : Cache) (o : Options) (p : Text) (f : ParseFailure), (c.compile o p).1 = .error f →
        (c.compile o p).2 = { c with misses := c.misses + 1 }) ∧
      ∀ (before between : List Call) (o : Options) (p : Text) (v : Compiled),
        ((Cache.empty.after before).compile o p).1 = .ok v → Call.compile (p, o) ∉ between →
          let calls := before ++ .compile (p, o) :: between
          let again := ((Cache.empty.after calls).compile o p).1
          (again = .ok v ↔ Call.purge ∉ between ∧ (used between).dedup.length < 256) ∧
            (again ≠ .ok v → ∃ w, again = .ok w ∧
              ∀ earlier o' p' later u, calls = earlier ++ .compile (p', o') :: later →
                ((Cache.empty.after earlier).compile o' p').1 = .ok u → u.serial < w.serial) :=
  ⟨Cache.session_calls, fun calls => ⟨Cache.after_keys calls, Cache.after_count calls, Cache.after_size calls⟩,
    fun _ _ _ _ => Cache.compile_error, fun _ _ _ _ _ => Cache.compile_again⟩

/-- The pattern `a` again, behind one that does not compile and another one, and behind a purge. -/
theorem cache_recency_purged :
    let a : Call := .compile (Text.of "a", {})
    let between : List Call := [.compile (Text.of "[", {}), .compile (Text.of "b", {})]
    ∃ v w, ((Cache.empty.after []).compile {} (Text.of "a")).1 = .ok v ∧
      ((Cache.empty.after (a :: between)).compile {} (Text.of "a")).1 = .ok v ∧
      ((Cache.empty.after [a, .purge]).compile {} (Text.of "a")).1 = .ok w ∧ v.serial < w.serial := by
  intro a between
  obtain ⟨-, -, -, hagain⟩ := cache_recency
  obtain ⟨v, hv⟩ : ∃ v, ((Cache.empty.after []).compile {} (Text.of "a")).1 = .ok v := ⟨_, rfl⟩
  have hfew : (used between).dedup.length < 256 :=
    Nat.lt_of_le_of_lt ((List.dedup_sublist _).length_le.trans (List.length_filter_le _ _)) (by decide)
  have hsame := (hagain [] between {} (Text.of "a") v hv (by decide)).1.2 ⟨by decide, hfew⟩
  obtain ⟨hiff, hnew⟩ := hagain [] [.purge] {} (Text.of "a") v hv (by decide)
  obtain ⟨w, hw, hserial⟩ := hnew fun heq => (hiff.1 heq).1 List.mem_cons_self
  exact ⟨v, w, hv, hsame, hw, hserial [] {} (Text.of "a") [.purge] v rfl hv⟩

end Glob
