import WegOS.Lib.CArray

/-! Stores into a buffer, in the order in which they are made. -/

namespace Stores

open CArray

variable {α : Type}

/-- The first `count` cells of `source` go to a buffer, from its cell `start` on. -/
structure Store (α : Type) where
  start : Nat
  count : Nat
  source : Nat → α

def Store.Hits (store : Store α) (i : Nat) : Prop := store.start ≤ i ∧ i < store.start + store.count

def run (buf : Nat → α) (stores : List (Store α)) : Nat → α :=
  stores.foldl (fun buf store => memcpy buf store.start store.source store.count) buf

def Inside (size : Nat) (stores : List (Store α)) : Prop :=
  ∀ store ∈ stores, ∀ i, store.Hits i → i < size

variable {buf buf' : Nat → α} {stores : List (Store α)} {size i : Nat}

@[simp] theorem run_nil (buf : Nat → α) : run buf [] = buf := rfl

@[simp] theorem run_cons (buf : Nat → α) (store : Store α) (stores : List (Store α)) :
    run buf (store :: stores) = run (memcpy buf store.start store.source store.count) stores := rfl

theorem run_append (buf : Nat → α) (first second : List (Store α)) :
    run buf (first ++ second) = run (run buf first) second := List.foldl_append

theorem run_missed (missed : ∀ store ∈ stores, ¬store.Hits i) : run buf stores i = buf i := by
  induction stores generalizing buf with
  | nil => rfl
  | cons store stores ih =>
      rw [run_cons, ih fun later member => missed later (List.mem_cons_of_mem _ member)]
      exact if_neg (missed store List.mem_cons_self)

/-- A cell that agrees before the stores, or is hit by one, agrees after them. -/
theorem run_congr (agree : buf i = buf' i ∨ ∃ store ∈ stores, store.Hits i) : run buf stores i = run buf' stores i := by
  induction stores generalizing buf buf' with
  | nil => simpa using agree
  | cons store stores ih =>
      rw [run_cons, run_cons]
      apply ih
      by_cases here : store.start ≤ i ∧ i < store.start + store.count
      · exact Or.inl ((if_pos here).trans (if_pos here).symm)
      · rcases agree with same | ⟨other, member, hits⟩
        · exact Or.inl ((if_neg here).trans (same.trans (if_neg here).symm))
        · rcases List.mem_cons.mp member with rfl | later
          · exact absurd hits here
          · exact Or.inr ⟨other, later, hits⟩

theorem Inside.mono {large : Nat} (inside : Inside size stores) (less : size ≤ large) : Inside large stores :=
  fun store member i hits => Nat.lt_of_lt_of_le (inside store member i hits) less

@[simp] theorem inside_nil (size : Nat) : Inside size ([] : List (Store α)) := fun _ none => absurd none List.not_mem_nil

theorem Store.hits_lt_iff {store : Store α} :
    (∀ i, store.Hits i → i < size) ↔ store.count = 0 ∨ store.start + store.count ≤ size := by
  constructor
  · intro inside
    by_contra outside
    have last := inside (store.start + store.count - 1)
    unfold Store.Hits at last
    omega
  · rintro bound i ⟨low, high⟩
    omega

theorem inside_iff : Inside size stores ↔ ∀ store ∈ stores, store.count = 0 ∨ store.start + store.count ≤ size :=
  forall₂_congr fun _ _ => Store.hits_lt_iff

instance : Decidable (Inside size stores) := decidable_of_iff _ inside_iff.symm

@[simp] theorem inside_cons {store : Store α} :
    Inside size (store :: stores) ↔ (store.count = 0 ∨ store.start + store.count ≤ size) ∧ Inside size stores := by
  rw [← Store.hits_lt_iff]
  exact List.forall_mem_cons

theorem inside_append {first second : List (Store α)} :
    Inside size (first ++ second) ↔ Inside size first ∧ Inside size second := List.forall_mem_append

/-- The cells from `size` on stay as they are, whatever they hold, just when no store hits them. -/
theorem leaves_iff_inside [Nontrivial α] :
    (∀ buf i, size ≤ i → run buf stores i = buf i) ↔ Inside size stores := by
  constructor
  · intro leaves store member i hits
    by_contra outside
    obtain ⟨a, b, different⟩ := exists_pair_ne α
    apply different
    calc
      a = run (fun _ => a) stores i := (leaves (fun _ => a) i (Nat.not_lt.mp outside)).symm
      _ = run (fun _ => b) stores i := run_congr (Or.inr ⟨store, member, hits⟩)
      _ = b := leaves (fun _ => b) i (Nat.not_lt.mp outside)
  · intro inside buf i beyond
    exact run_missed fun store member hits => Nat.not_lt.mpr beyond (inside store member i hits)

end Stores
