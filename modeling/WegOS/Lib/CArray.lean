import Mathlib.Tactic

/-! Arrays of a fixed size, and copying between memories. -/

/-- An array of `n` cells. What lies beyond it is no part of it, and reads as zero. -/
structure CArray (α : Type) [Zero α] (n : Nat) where
  cell : Nat → α
  outside : ∀ i, n ≤ i → cell i = 0

namespace CArray

variable {α : Type} [Zero α] {n : Nat}

def ofCells (n : Nat) (cells : Nat → α) : CArray α n where
  cell i := if i < n then cells i else 0
  outside _ beyond := if_neg (Nat.not_lt.mpr beyond)

theorem cell_ofCells {cells : Nat → α} {i : Nat} (inside : i < n) :
    (ofCells n cells).cell i = cells i := if_pos inside

theorem eq_of_cells {a b : CArray α n} (same : ∀ i < n, a.cell i = b.cell i) : a = b := by
  cases a with
  | mk cellA outsideA =>
      cases b with
      | mk cellB outsideB =>
          have cells : cellA = cellB := by
            funext i
            by_cases inside : i < n
            · exact same i inside
            · rw [outsideA i (Nat.not_lt.mp inside), outsideB i (Nat.not_lt.mp inside)]
          subst cells
          rfl

@[simp] theorem ofCells_cell (a : CArray α n) : ofCells n a.cell = a :=
  eq_of_cells fun _ inside => cell_ofCells inside

theorem ofCells_congr {f g : Nat → α} (same : ∀ i < n, f i = g i) : ofCells n f = ofCells n g :=
  eq_of_cells fun i inside => by rw [cell_ofCells inside, cell_ofCells inside, same i inside]

omit [Zero α] in
def memcpy (target : Nat → α) (start : Nat) (source : Nat → α) (n : Nat) : Nat → α :=
  fun i => if start ≤ i ∧ i < start + n then source (i - start) else target i

section Memcpy

omit [Zero α]

variable {target source : Nat → α} {start n i : Nat}

theorem memcpy_inside (low : start ≤ i) (high : i < start + n) :
    memcpy target start source n i = source (i - start) := if_pos ⟨low, high⟩

theorem memcpy_below (below : i < start) : memcpy target start source n i = target i :=
  if_neg fun both => absurd both.1 (Nat.not_le.mpr below)

theorem memcpy_above (above : start + n ≤ i) : memcpy target start source n i = target i :=
  if_neg fun both => absurd both.2 (Nat.not_lt.mpr above)

theorem memcpy_append (target source : Nat → α) (start first second : Nat) :
    memcpy (memcpy target start source first) (start + first) (fun i => source (first + i)) second =
      memcpy target start source (first + second) := by
  funext i
  simp only [memcpy]
  split_ifs
  all_goals try omega
  all_goals first | rfl | (congr 1; omega)

theorem memcpy_none (target source : Nat → α) (start : Nat) : memcpy target start source 0 = target := by
  funext i
  exact if_neg (by omega)

theorem memcpy_congr {other : Nat → α} (same : ∀ i < n, source i = other i) :
    memcpy target start source n = memcpy target start other n := by
  funext i
  simp only [memcpy]
  split_ifs with inside
  · exact same _ (by omega)
  · rfl

end Memcpy

end CArray
