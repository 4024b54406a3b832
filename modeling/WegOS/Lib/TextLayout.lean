import Mathlib.Tactic

/-! Text laid out on lines of a fixed width, with no end to the lines. -/

namespace TextLayout

variable {α : Type}

/-- What stands in each column of each line, and where the next character goes. -/
structure Page (α : Type) where
  cell : Nat → Nat → Option α
  line : Nat
  column : Nat

namespace Page

def empty : Page α := ⟨fun _ _ => none, 0, 0⟩

def put (width : Nat) (page : Page α) (a : α) : Page α where
  cell line column := if line = page.line ∧ column = page.column then some a else page.cell line column
  line := if page.column + 1 = width then page.line + 1 else page.line
  column := if page.column + 1 = width then 0 else page.column + 1

def newline (page : Page α) : Page α := { page with line := page.line + 1, column := 0 }

def Fresh (page : Page α) : Prop :=
  ∀ line column, page.line < line ∨ page.line = line ∧ page.column ≤ column → page.cell line column = none

theorem fresh_empty : Fresh (empty : Page α) := fun _ _ _ => rfl

theorem Fresh.newline {page : Page α} (fresh : page.Fresh) : page.newline.Fresh := by
  intro line column behind
  apply fresh line column
  simp only [Page.newline] at behind
  omega

variable {width : Nat} {page : Page α}

theorem put_cell_here (a : α) : (page.put width a).cell page.line page.column = some a := if_pos ⟨rfl, rfl⟩

theorem put_cell_other {line column : Nat} (a : α) (other : ¬(line = page.line ∧ column = page.column)) :
    (page.put width a).cell line column = page.cell line column := if_neg other

theorem Fresh.put (fresh : page.Fresh) (a : α) : (page.put width a).Fresh := by
  intro line column behind
  simp only [Page.put] at behind
  rw [put_cell_other]
  · apply fresh line column
    split_ifs at behind <;> omega
  · split_ifs at behind <;> omega

theorem put_column (inside : page.column < width) (a : α) : (page.put width a).column < width := by
  simp only [Page.put]
  split_ifs <;> omega

end Page

end TextLayout
