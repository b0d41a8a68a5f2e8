import Warp.Foundation.Table

/-! # Ledgers of holdings

Holders hold sets of items, and a count is kept for each item beside them. Claiming an item counts
it and adds it to a holder's set; releasing a holder counts each item of its set down. The count is
at least the number of holders (`Ledger.Backed`), but at most that number (`Ledger.Tight`) only if
no holder claims an item it has (`Ledger.Tight.claim`).
-/

/-- Items without repetitions, in some order. -/
structure Collection (Item : Type*) where
  items : List Item
  nodup : items.Nodup

namespace Collection

open Collection List Table

variable {Item : Type*}

instance : EmptyCollection (Collection Item) := ⟨⟨[], List.nodup_nil⟩⟩

instance : Membership Item (Collection Item) := ⟨fun collection item => item ∈ collection.items⟩

variable {collection : Collection Item}

@[simp] theorem mem_items {item : Item} :
    item ∈ collection.items ↔ item ∈ collection := Iff.rfl

@[simp] theorem notMem_empty (item : Item) : item ∉ (∅ : Collection Item) := List.not_mem_nil

variable [DecidableEq Item]

instance (item : Item) (collection : Collection Item) : Decidable (item ∈ collection) :=
  inferInstanceAs (Decidable (item ∈ collection.items))

def insert (collection : Collection Item) (item : Item) : Collection Item :=
  ⟨collection.items.insert item, collection.nodup.insert⟩

@[simp] theorem mem_insert {item other : Item} :
    other ∈ collection.insert item ↔ other = item ∨ other ∈ collection :=
  mem_insert_iff

theorem insert_insert (collection : Collection Item) (item : Item) :
    (collection.insert item).insert item = collection.insert item := by
  simp [insert]

end Collection

/-- What each holder holds. -/
abbrev Holdings (Holder Item : Type*) := Table Holder (Collection Item)

namespace Holdings

open Collection List Table

variable {Holder Item : Type*} [DecidableEq Holder] [DecidableEq Item]

/-- What a holder holds, nothing if it is not listed. -/
def heldBy (holdings : Holdings Holder Item) (holder : Holder) : Collection Item :=
  (holdings.lookup holder).getD ∅

/-- The number of holders of an item. -/
def holders (holdings : Holdings Holder Item) (item : Item) : ℕ :=
  (Table.values holdings).countP (item ∈ ·)

/-- Hold one more item. -/
def hold (holdings : Holdings Holder Item) (holder : Holder) (item : Item) : Holdings Holder Item :=
  holdings.insert holder ((heldBy holdings holder).insert item)

variable (holdings : Holdings Holder Item)

/-- The holders of an item are one holder, if it has the item, and the others. -/
theorem holders_eq (holder : Holder) (item : Item) :
    holders holdings item = holders (holdings.erase holder) item +
      if item ∈ heldBy holdings holder then 1 else 0 := by
  cases found : holdings.lookup holder with
  | none =>
    rw [erase_eq_self found, heldBy, found]
    simp
  | some items =>
    rw [holders, (values_perm_of_lookup found).countP_eq, countP_cons, heldBy, found]
    simp only [decide_eq_true_eq]
    rfl

theorem holders_hold (holder : Holder) (item other : Item) :
    holders (hold holdings holder item) other = holders holdings other +
      if other = item ∧ item ∉ heldBy holdings holder then 1 else 0 := by
  rw [holders, hold, values_insert, countP_cons, ← holders, holders_eq holdings holder]
  simp only [mem_insert, decide_eq_true_eq]
  grind

theorem hold_hold (holder : Holder) (item : Item) :
    hold (hold holdings holder item) holder item = hold holdings holder item := by
  have held : heldBy (hold holdings holder item) holder =
      (heldBy holdings holder).insert item := by
    rw [heldBy, hold, AList.lookup_insert]
    rfl
  rw [hold, held, hold, AList.insert_insert, insert_insert]

theorem holders_pos_iff {item : Item} :
    0 < holders holdings item ↔ ∃ holder, item ∈ heldBy holdings holder := by
  rw [holders, countP_pos_iff]
  constructor
  · rintro ⟨items, member, held⟩
    obtain ⟨holder, found⟩ := mem_values_iff.mp member
    refine ⟨holder, ?_⟩
    rw [heldBy, found]
    simpa using held
  · rintro ⟨holder, held⟩
    cases found : holdings.lookup holder with
    | none =>
      rw [heldBy, found] at held
      exact absurd held (notMem_empty item)
    | some items =>
      refine ⟨items, mem_values_iff.mpr ⟨holder, found⟩, ?_⟩
      rw [heldBy, found] at held
      simpa using held

end Holdings

/-- Holdings and a count for each item. -/
@[ext] structure Ledger (Holder Item : Type*) where
  holdings : Holdings Holder Item
  counts : Item → ℕ

namespace Ledger

open Holdings

variable {Holder Item : Type*} [DecidableEq Holder] [DecidableEq Item]
  (ledger : Ledger Holder Item)

/-- Hold an item without counting it. -/
def hold (holder : Holder) (item : Item) : Ledger Holder Item :=
  { ledger with holdings := ledger.holdings.hold holder item }

/-- Set the count of an item. -/
def recount (item : Item) (count : ℕ) : Ledger Holder Item :=
  { ledger with counts := Function.update ledger.counts item count }

/-- Hold an item and count it. -/
def claim (holder : Holder) (item : Item) : Ledger Holder Item :=
  (ledger.recount item (ledger.counts item + 1)).hold holder item

/-- Let everything go. -/
def release (holder : Holder) : Ledger Holder Item where
  holdings := ledger.holdings.erase holder
  counts item :=
    if item ∈ ledger.holdings.heldBy holder then ledger.counts item - 1 else ledger.counts item

/-- Every holder is counted. -/
def Backed : Prop := ∀ item, ledger.holdings.holders item ≤ ledger.counts item

/-- Nothing but holders is counted. -/
def Tight : Prop := ∀ item, ledger.counts item ≤ ledger.holdings.holders item

variable {ledger} {holder : Holder}

theorem Backed.claim (backed : ledger.Backed) (holder : Holder) (item : Item) :
    (ledger.claim holder item).Backed := by
  intro other
  have before := backed other
  change (ledger.holdings.hold holder item).holders other ≤
    Function.update ledger.counts item (ledger.counts item + 1) other
  rw [holders_hold, Function.update_apply]
  split
  · grind
  · grind

theorem Backed.release (backed : ledger.Backed) (holder : Holder) :
    (ledger.release holder).Backed := by
  intro item
  have before := backed item
  rw [holders_eq ledger.holdings holder] at before
  simp only [Ledger.release]
  split
  · rename_i held
    rw [if_pos held] at before
    exact Nat.le_sub_of_add_le before
  · exact le_trans (Nat.le_add_right _ _) before

theorem Backed.pos (backed : ledger.Backed) {item : Item}
    (held : item ∈ ledger.holdings.heldBy holder) : 0 < ledger.counts item :=
  lt_of_lt_of_le (ledger.holdings.holders_pos_iff.mpr ⟨holder, held⟩) (backed item)

variable (tight : ledger.Tight)
include tight

theorem Tight.hold (holder : Holder) (item : Item) :
    (ledger.hold holder item).Tight := by
  intro other
  change ledger.counts other ≤ (ledger.holdings.hold holder item).holders other
  rw [holders_hold]
  exact le_trans (tight other) (Nat.le_add_right _ _)

omit [DecidableEq Holder] in
theorem Tight.recount {item : Item} {count : ℕ} (atMost : count ≤ ledger.holdings.holders item) :
    (ledger.recount item count).Tight := by
  intro other
  change Function.update ledger.counts item count other ≤ ledger.holdings.holders other
  rw [Function.update_apply]
  split
  · rename_i same
    rwa [same]
  · exact tight other

theorem Tight.claim {item : Item} (fresh : item ∉ ledger.holdings.heldBy holder) :
    (ledger.claim holder item).Tight := by
  intro other
  have before := tight other
  change Function.update ledger.counts item (ledger.counts item + 1) other ≤
    (ledger.holdings.hold holder item).holders other
  rw [holders_hold, Function.update_apply]
  grind

theorem Tight.release (holder : Holder) : (ledger.release holder).Tight := by
  intro item
  have before := tight item
  rw [holders_eq ledger.holdings holder] at before
  simp only [Ledger.release]
  split
  · rename_i held
    rw [if_pos held] at before
    exact Nat.sub_le_of_le_add before
  · rename_i free
    rwa [if_neg free] at before

theorem Tight.eq_zero {item : Item} (free : ∀ holder, item ∉ ledger.holdings.heldBy holder) :
    ledger.counts item = 0 := by
  apply Nat.le_zero.mp
  apply le_trans (tight item)
  apply Nat.le_zero.mpr
  by_contra positive
  obtain ⟨holder, held⟩ := ledger.holdings.holders_pos_iff.mp (Nat.pos_of_ne_zero positive)
  exact free holder held

end Ledger
