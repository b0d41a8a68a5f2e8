import Mathlib.Algebra.BigOperators.Group.Finset.Basic
import Mathlib.Algebra.GroupWithZero.Nat
import Mathlib.Data.List.AList

/-! # Finite tables

A table is an association list without repeated keys. Reading after an update is by cases on the key
(`Table.lookup_insert_eq`, `Table.lookup_erase_eq`, `Table.lookup_mergeWith`), and stored numbers
sum up to what is read at any keys that cover them (`Table.sum_values_eq`).
-/

/-- A finite map from keys to values. -/
abbrev Table (Key Value : Type*) := AList fun _ : Key => Value

namespace Table

open List AList

variable {Key Value : Type*} [DecidableEq Key] {table : Table Key Value} {value : Value} {key : Key}

/-- Tables are compared by their entries, in a form that can be evaluated. -/
instance [DecidableEq Value] : DecidableEq (Table Key Value) := fun left right =>
  decidable_of_iff (left.entries = right.entries) AList.ext_iff.symm

def size (table : Table Key Value) : ℕ := table.entries.length

def values (table : Table Key Value) : List Value := table.entries.map Sigma.snd

/-- Combine every entry of another table into a table, starting from a default
where the table has none. -/
def mergeWith (combine : Value → Value → Value) (fallback : Value)
    (table other : Table Key Value) : Table Key Value :=
  other.entries.foldl (fun merged entry =>
    merged.insert entry.1 (combine ((merged.lookup entry.1).getD fallback) entry.2)) table

/-- Every value changed, under the same keys. -/
def mapValues {Other : Type*} (change : Value → Other) (table : Table Key Value) :
    Table Key Other where
  entries := table.entries.map fun entry => ⟨entry.1, change entry.2⟩
  nodupKeys := by
    rw [List.NodupKeys, List.keys, List.map_map]
    exact table.nodupKeys

/-- The entries that a test keeps. -/
def filter (keep : Key → Value → Bool) (table : Table Key Value) : Table Key Value where
  entries := table.entries.filter fun entry => keep entry.1 entry.2
  nodupKeys := table.nodupKeys.sublist List.filter_sublist

theorem lookup_mapValues {Other : Type*} (change : Value → Other) (table : Table Key Value)
    (key : Key) : (table.mapValues change).lookup key = (table.lookup key).map change :=
  dlookup_map₂ (f := fun _ => change) key

theorem lookup_filter (keep : Key → Value → Bool) (table : Table Key Value) (key : Key) :
    (table.filter keep).lookup key = (table.lookup key).filter (keep key) := by
  have member (value : Value) : value ∈ (table.filter keep).lookup key ↔
      value ∈ (table.lookup key).filter (keep key) := by
    rw [mem_lookup_iff, Option.mem_filter_iff, mem_lookup_iff]
    exact mem_filter
  exact Option.ext member

theorem mem_values_iff :
    value ∈ table.values ↔ ∃ key, table.lookup key = some value := by
  simp [values, ← mem_lookup_iff]

theorem lookup_insert_eq (table : Table Key Value) (key query : Key) (value : Value) :
    (table.insert key value).lookup query =
      if query = key then some value else table.lookup query := by
  by_cases same : query = key
  · subst same
    rw [if_pos rfl, lookup_insert]
  · rw [if_neg same, lookup_insert_ne same]

theorem eq_or_lookup_of_insert {query : Key} {other : Value}
    (found : (table.insert key value).lookup query = some other) :
    query = key ∧ other = value ∨ query ≠ key ∧ table.lookup query = some other := by
  rw [lookup_insert_eq] at found
  split at found
  · next same => exact .inl ⟨same, (Option.some.inj found).symm⟩
  · next different => exact .inr ⟨different, found⟩

theorem lookup_erase_eq (table : Table Key Value) (key query : Key) :
    (table.erase key).lookup query = if query = key then none else table.lookup query := by
  by_cases same : query = key
  · subst same
    rw [if_pos rfl, lookup_erase]
  · rw [if_neg same, lookup_erase_ne same]

theorem values_perm_of_lookup (found : table.lookup key = some value) :
    table.values.Perm (value :: values (table.erase key)) := by
  have member : key ∈ table.entries.keys := lookup_isSome.mp (by rw [found]; rfl)
  obtain ⟨stored, front, back, -, entries, erased⟩ := exists_of_kerase member
  obtain rfl : stored = value := by
    have present : (⟨key, stored⟩ : Sigma fun _ => Value) ∈ table.entries := by simp [entries]
    exact Option.some.inj ((mem_lookup_iff.mpr present).symm.trans found)
  have rest : values (table.erase key) = (front ++ back).map Sigma.snd := by
    rw [← erased]
    rfl
  rw [rest, values, entries, map_append, map_append, map_cons]
  exact perm_middle

theorem erase_eq_self (missing : table.lookup key = none) :
    table.erase key = table := by
  apply AList.ext
  exact kerase_of_notMem_keys (lookup_eq_none.mp missing)

theorem values_insert (table : Table Key Value) (key : Key) (value : Value) :
    values (table.insert key value) = value :: values (table.erase key) := by
  unfold values
  rw [entries_insert]
  rfl

/-- Folding an update over entries without repeated keys updates each key once. -/
theorem lookup_foldl_insert {Entry : Type*} (update : Option Value → Entry → Value)
    (entries : List (Sigma fun _ : Key => Entry)) (distinct : entries.NodupKeys)
    (table : Table Key Value) (key : Key) :
    (entries.foldl (fun merged entry =>
        merged.insert entry.1 (update (merged.lookup entry.1) entry.2)) table).lookup key =
      ((entries.dlookup key).map (update (table.lookup key))).or (table.lookup key) := by
  induction entries generalizing table with
  | nil => simp
  | cons entry rest ih =>
    obtain ⟨entryKey, value⟩ := entry
    obtain ⟨fresh, restDistinct⟩ := nodupKeys_cons.mp distinct
    rw [foldl_cons, ih restDistinct, lookup_insert_eq]
    by_cases same : key = entryKey
    · subst same
      rw [if_pos rfl, dlookup_cons_eq, dlookup_eq_none.mpr fresh]
      rfl
    · rw [if_neg same, dlookup_cons_ne _ _ same]

theorem lookup_mergeWith (combine : Value → Value → Value) (fallback : Value)
    (table other : Table Key Value) (key : Key) :
    (table.mergeWith combine fallback other).lookup key =
      ((other.lookup key).map (combine ((table.lookup key).getD fallback))).or (table.lookup key) :=
  lookup_foldl_insert (fun old new => combine (old.getD fallback) new) other.entries
    other.nodupKeys table key

theorem sum_values_eq (table : Table Key ℕ) (support : Finset Key)
    (covers : ∀ key ∉ support, (table.lookup key).getD 0 = 0) :
    table.values.sum = ∑ key ∈ support, (table.lookup key).getD 0 := by
  have entriesSum (entries : List (Sigma fun _ : Key => ℕ)) (distinct : entries.NodupKeys) :
      (entries.map Sigma.snd).sum =
        ∑ key ∈ entries.keys.toFinset, (entries.dlookup key).getD 0 := by
    induction entries with
    | nil => rfl
    | cons entry rest ih =>
      obtain ⟨entryKey, value⟩ := entry
      obtain ⟨fresh, restDistinct⟩ := nodupKeys_cons.mp distinct
      rw [map_cons, sum_cons, keys_cons, toFinset_cons,
        Finset.sum_insert (by rwa [mem_toFinset]), dlookup_cons_eq, ih restDistinct]
      congr 1
      apply Finset.sum_congr rfl
      intro key member
      have different : key ≠ entryKey := by
        rintro rfl
        exact fresh (mem_toFinset.mp member)
      rw [dlookup_cons_ne _ _ different]
  have stored : table.values.sum =
      ∑ key ∈ table.keys.toFinset, (table.lookup key).getD 0 :=
    entriesSum table.entries table.nodupKeys
  have absent (key : Key) (missing : key ∉ table.keys.toFinset) :
      (table.lookup key).getD 0 = 0 := by
    rw [lookup_eq_none.mpr (fun present =>
      missing (mem_toFinset.mpr (mem_keys.mp present)))]
    rfl
  calc table.values.sum
      = ∑ key ∈ table.keys.toFinset ∪ support, (table.lookup key).getD 0 := by
        rw [stored]
        exact Finset.sum_subset Finset.subset_union_left fun key _ missing => absent key missing
    _ = ∑ key ∈ support, (table.lookup key).getD 0 :=
        (Finset.sum_subset Finset.subset_union_right fun key _ missing => covers key missing).symm

end Table
