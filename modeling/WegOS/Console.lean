import Mathlib.Data.UInt
import Mathlib.Tactic

/-! The console: the text memory, the cursor, and scrolling.

Addresses are 32-bit words, and the text memory has a cell at each of them that a pointer to
`uint16_t` can hold. -/

namespace WegOS

def rows : Nat := 25
def cols : Nat := 80
def videoMemTextModeStart : UInt32 := 0xB8000

def newline : UInt32 := 10
def backspace : UInt32 := 8
def blank : UInt8 := 32

structure TextCell where
  character : UInt8
  colour : UInt8

structure CursorState where
  pLastChar : UInt32
  cursorCol : UInt8
  cursorRow : UInt8

/-- `position` is the cursor of the display controller. The cells that were stored to and the number of
calls of `scroll_up` are recorded. -/
structure Console where
  text : UInt32 → TextCell
  cursor : CursorState
  position : UInt16
  written : List UInt32
  scrolls : Nat

def storeCell (s : Console) (ptr : UInt32) (cell : TextCell) : Console :=
  { s with text := Function.update s.text ptr cell, written := ptr :: s.written }

/-- A store of one byte, which is the character of the cell. -/
def storeChar (s : Console) (ptr : UInt32) (c : UInt8) : Console :=
  storeCell s ptr { s.text ptr with character := c }

def gotoxy (s : Console) (col row : UInt8) : Console :=
  { s with position := row.toUInt16 * 80 + col.toUInt16 }

/-- The offset is a difference of pointers, made unsigned. -/
def setCursorState (s : Console) (pLastChar : UInt32) : Console :=
  let offset := UInt32.ofInt ((pLastChar - videoMemTextModeStart).toInt32.toInt / 2)
  let col := (offset % 80).toUInt8
  let row := (offset / 80).toUInt8
  gotoxy { s with cursor := ⟨pLastChar, col, row⟩ } col row

def cursorStateInit (s : Console) : Console := setCursorState s videoMemTextModeStart

def cursorStateInc (s : Console) : Console := setCursorState s (s.cursor.pLastChar + 2)

def scrollCells : Nat → UInt32 → Console → Console
  | 0, _, s => s
  | left + 1, ptr, s => scrollCells left (ptr + 2) (storeCell s ptr (s.text (ptr + 160)))

def scrollUp (s : Console) : Console :=
  let s := scrollCells (rows * cols) videoMemTextModeStart s
  setCursorState { s with scrolls := s.scrolls + 1 } (s.cursor.pLastChar - 160)

def screenEnd : UInt32 := videoMemTextModeStart + 4000

/-- The loop of `check_scroll_up`. Each turn takes 160 off an address above `screenEnd`. -/
def checkScrollUpFrom : Nat → Console → Console
  | 0, s => s
  | fuel + 1, s => if screenEnd < s.cursor.pLastChar then checkScrollUpFrom fuel (scrollUp s) else s

def checkScrollUp (s : Console) : Console := checkScrollUpFrom s.cursor.pLastChar.toNat s

def println (s : Console) : Console :=
  let row := (s.cursor.pLastChar - videoMemTextModeStart) / 160
  checkScrollUp (setCursorState s (videoMemTextModeStart + (row + 1) * 160))

def printBack (s : Console) : Console :=
  let s := setCursorState s (s.cursor.pLastChar - 2)
  storeChar s s.cursor.pLastChar blank

def putchar (s : Console) (c : UInt32) : Console :=
  if c = newline then println s
  else if c = backspace then printBack s
  else checkScrollUp (cursorStateInc (storeChar s s.cursor.pLastChar c.toUInt8))

def clearCells : Nat → UInt32 → Console → Console
  | 0, _, s => s
  | left + 1, ptr, s => clearCells left (ptr + 2) (storeChar s ptr blank)

def cls (s : Console) : Console := clearCells (rows * cols) videoMemTextModeStart (cursorStateInit s)

section Fields

variable (s : Console) (p : UInt32)

@[simp] theorem setCursorState_pLastChar : (setCursorState s p).cursor.pLastChar = p := rfl
@[simp] theorem setCursorState_text : (setCursorState s p).text = s.text := rfl
@[simp] theorem setCursorState_written : (setCursorState s p).written = s.written := rfl
@[simp] theorem setCursorState_scrolls : (setCursorState s p).scrolls = s.scrolls := rfl

end Fields

/-! ## Cells by number -/

def cellAddress (i : Nat) : UInt32 := videoMemTextModeStart + UInt32.ofNat (2 * i)

theorem cellAddress_toNat {i : Nat} (small : i ≤ 4000) : (cellAddress i).toNat = 753664 + 2 * i := by
  have start : videoMemTextModeStart.toNat = 753664 := rfl
  rw [cellAddress, UInt32.toNat_add, UInt32.toNat_ofNat', start]
  omega

theorem cellAddress_inj {i j : Nat} (smallI : i ≤ 4000) (smallJ : j ≤ 4000) :
    cellAddress i = cellAddress j ↔ i = j := by
  rw [← UInt32.toNat_inj, cellAddress_toNat smallI, cellAddress_toNat smallJ]
  omega

theorem cellAddress_add (i k : Nat) : cellAddress i + UInt32.ofNat (2 * k) = cellAddress (i + k) := by
  rw [cellAddress, cellAddress, UInt32.add_assoc, ← UInt32.ofNat_add, ← Nat.mul_add]

theorem cellAddress_sub {i k : Nat} (inside : k ≤ i) :
    cellAddress i - UInt32.ofNat (2 * k) = cellAddress (i - k) := by
  have whole := cellAddress_add (i - k) k
  rw [Nat.sub_add_cancel inside] at whole
  rw [← whole]
  exact UInt32.add_sub_cancel _ _

theorem cellAddress_zero : cellAddress 0 = videoMemTextModeStart := rfl

theorem screenEnd_eq : screenEnd = cellAddress 2000 := rfl

theorem cellAddress_offset (i : Nat) : cellAddress i - videoMemTextModeStart = UInt32.ofNat (2 * i) := by
  rw [cellAddress, UInt32.add_comm]
  exact UInt32.add_sub_cancel _ _

/-- The three fields of the cursor agree on cell `i`. -/
def CursorState.At (cursor : CursorState) (i : Nat) : Prop :=
  cursor = ⟨cellAddress i, UInt8.ofNat (i % 80), UInt8.ofNat (i / 80)⟩

theorem setCursorState_at (s : Console) {i : Nat} (small : i ≤ 4000) :
    (setCursorState s (cellAddress i)).cursor.At i := by
  have offset : (UInt32.ofInt ((cellAddress i - videoMemTextModeStart).toInt32.toInt / 2)).toNat = i := by
    have signed : (UInt32.ofNat (2 * i)).toInt32.toInt = 2 * i := by
      rw [UInt32.toInt32_ofNat', Int32.toInt_ofNat_of_lt (by omega)]
      push_cast
      rfl
    rw [cellAddress_offset, signed, UInt32.ofInt, UInt32.toNat_ofNat']
    omega
  simp only [setCursorState, gotoxy]
  generalize UInt32.ofInt ((cellAddress i - videoMemTextModeStart).toInt32.toInt / 2) = number at offset
  have col : (number % 80).toUInt8 = UInt8.ofNat (i % 80) := by
    apply UInt8.toNat_inj.mp
    rw [UInt32.toNat_toUInt8, UInt32.toNat_mod, offset, UInt8.toNat_ofNat']
    rfl
  have row : (number / 80).toUInt8 = UInt8.ofNat (i / 80) := by
    apply UInt8.toNat_inj.mp
    rw [UInt32.toNat_toUInt8, UInt32.toNat_div, offset, UInt8.toNat_ofNat']
    rfl
  rw [col, row]
  rfl

/-! ## What the operations do -/

def WrittenBetween (s s' : Console) (k n : Nat) : Prop :=
  ∀ p ∈ s'.written, p ∈ s.written ∨ ∃ i, k ≤ i ∧ i < k + n ∧ p = cellAddress i

theorem WrittenBetween.cons {s s' : Console} {k n : Nat} {cell : TextCell}
    (rest : WrittenBetween (storeCell s (cellAddress k) cell) s' (k + 1) n) : WrittenBetween s s' k (n + 1) := by
  intro p member
  rcases rest p member with first | ⟨i, low, high, equal⟩
  · rcases List.mem_cons.mp first with rfl | old
    · exact Or.inr ⟨k, Nat.le_refl k, by omega, rfl⟩
    · exact Or.inl old
  · exact Or.inr ⟨i, by omega, by omega, equal⟩

theorem cellAddress_succ (i : Nat) : cellAddress i + 2 = cellAddress (i + 1) := cellAddress_add i 1

theorem storeCell_text (s : Console) (cell : TextCell) {i j : Nat} (smallI : i ≤ 4000) (smallJ : j ≤ 4000) :
    (storeCell s (cellAddress i) cell).text (cellAddress j) = if j = i then cell else s.text (cellAddress j) := by
  split_ifs with same
  · subst same
    exact Function.update_self _ _ _
  · exact Function.update_of_ne (fun equal => same ((cellAddress_inj smallJ smallI).mp equal)) _ _

theorem scrollCells_spec {left k : Nat} (s : Console) (inside : k + left ≤ 2000) :
    (scrollCells left (cellAddress k) s).cursor = s.cursor ∧
      (scrollCells left (cellAddress k) s).scrolls = s.scrolls ∧
      (∀ j ≤ 2080, (scrollCells left (cellAddress k) s).text (cellAddress j) =
        if k ≤ j ∧ j < k + left then s.text (cellAddress (j + 80)) else s.text (cellAddress j)) ∧
      WrittenBetween s (scrollCells left (cellAddress k) s) k left := by
  induction left generalizing k s with
  | zero =>
      refine ⟨rfl, rfl, fun j _ => ?_, fun p member => Or.inl member⟩
      rw [if_neg (by omega)]
      rfl
  | succ left ih =>
      have below : cellAddress k + 160 = cellAddress (k + 80) := cellAddress_add k 80
      rw [scrollCells, below, cellAddress_succ]
      obtain ⟨cursor, scrolls, text, written⟩ :=
        ih (storeCell s (cellAddress k) (s.text (cellAddress (k + 80)))) (show k + 1 + left ≤ 2000 by omega)
      refine ⟨cursor, scrolls, fun j small => ?_, written.cons⟩
      rw [text j small]
      by_cases later : k + 1 ≤ j ∧ j < k + 1 + left
      · rw [if_pos later, if_pos (by omega), storeCell_text _ _ (by omega) (show j + 80 ≤ 4000 by omega),
          if_neg (by omega)]
      · rw [if_neg later, storeCell_text _ _ (by omega) (show j ≤ 4000 by omega)]
        by_cases here : j = k
        · rw [if_pos here, if_pos (by omega), here]
        · rw [if_neg here, if_neg (by omega)]

theorem clearCells_spec {left k : Nat} (s : Console) (inside : k + left ≤ 2000) :
    (clearCells left (cellAddress k) s).cursor = s.cursor ∧
      (clearCells left (cellAddress k) s).scrolls = s.scrolls ∧
      (∀ j ≤ 2080, ((clearCells left (cellAddress k) s).text (cellAddress j)).character =
        if k ≤ j ∧ j < k + left then blank else (s.text (cellAddress j)).character) ∧
      WrittenBetween s (clearCells left (cellAddress k) s) k left := by
  induction left generalizing k s with
  | zero =>
      refine ⟨rfl, rfl, fun j _ => ?_, fun p member => Or.inl member⟩
      rw [if_neg (by omega)]
      rfl
  | succ left ih =>
      rw [clearCells, cellAddress_succ]
      obtain ⟨cursor, scrolls, text, written⟩ := ih (storeChar s (cellAddress k) blank)
        (show k + 1 + left ≤ 2000 by omega)
      refine ⟨cursor, scrolls, fun j small => ?_, written.cons⟩
      have cell := storeCell_text s { s.text (cellAddress k) with character := blank } (show k ≤ 4000 by omega)
        (show j ≤ 4000 by omega)
      rw [text j small, storeChar, cell]
      by_cases here : j = k
      · rw [if_neg (by omega), if_pos here, if_pos (by omega)]
      · rw [if_neg here]
        split_ifs <;> first | rfl | omega

theorem screen_cells : rows * cols = 2000 := rfl

theorem cls_spec (s : Console) :
    (cls s).cursor.At 0 ∧ (cls s).scrolls = s.scrolls ∧
      (∀ j ≤ 2080, ((cls s).text (cellAddress j)).character =
        if j < 2000 then blank else (s.text (cellAddress j)).character) ∧
      WrittenBetween s (cls s) 0 2000 := by
  have start : (cursorStateInit s).cursor.At 0 := setCursorState_at s (Nat.zero_le _)
  obtain ⟨cursor, scrolls, text, written⟩ :=
    @clearCells_spec (rows * cols) 0 (cursorStateInit s) (Nat.le_of_eq screen_cells)
  rw [screen_cells, cellAddress_zero, Nat.zero_add] at text
  rw [screen_cells, cellAddress_zero] at cursor scrolls written
  rw [cls, screen_cells]
  refine ⟨?_, scrolls, fun j small => ?_, written⟩
  · rw [CursorState.At, cursor]
    exact start
  · rw [text j small]
    simp only [Nat.zero_le, true_and]
    rfl

theorem scrollUp_spec {s : Console} {i : Nat} (place : s.cursor.pLastChar = cellAddress i) (low : 80 ≤ i)
    (high : i ≤ 4000) :
    (scrollUp s).cursor.At (i - 80) ∧ (scrollUp s).scrolls = s.scrolls + 1 ∧
      (∀ j ≤ 2080, (scrollUp s).text (cellAddress j) =
        if j < 2000 then s.text (cellAddress (j + 80)) else s.text (cellAddress j)) ∧
      WrittenBetween s (scrollUp s) 0 2000 := by
  obtain ⟨cursor, scrolls, text, written⟩ := @scrollCells_spec (rows * cols) 0 s (Nat.le_of_eq screen_cells)
  have above : cellAddress i - 160 = cellAddress (i - 80) := cellAddress_sub (k := 80) low
  rw [screen_cells, cellAddress_zero, Nat.zero_add] at text
  rw [screen_cells, cellAddress_zero] at cursor scrolls written
  rw [scrollUp, screen_cells]
  generalize scrollCells 2000 videoMemTextModeStart s = copied at cursor scrolls text written ⊢
  simp only [cursor, place, above]
  refine ⟨setCursorState_at _ (by omega), ?_, fun j small => ?_, ?_⟩
  · rw [setCursorState_scrolls, scrolls]
  · rw [setCursorState_text, text j small]
    simp only [Nat.zero_le, true_and]
  · exact written

theorem checkScrollUp_stays {s : Console} {i : Nat} (place : s.cursor.pLastChar = cellAddress i)
    (visible : i ≤ 2000) : checkScrollUp s = s := by
  have inside : ¬screenEnd < s.cursor.pLastChar := by
    rw [place, screenEnd_eq, UInt32.lt_iff_toNat_lt, cellAddress_toNat (by omega), cellAddress_toNat (by omega)]
    omega
  rw [checkScrollUp]
  cases s.cursor.pLastChar.toNat with
  | zero => rfl
  | succ fuel => rw [checkScrollUpFrom, if_neg inside]

/-- Up to a row behind the end, one scroll is enough. -/
theorem checkScrollUp_once {s : Console} {i : Nat} (place : s.cursor.pLastChar = cellAddress i)
    (low : 2000 < i) (high : i ≤ 2080) : checkScrollUp s = scrollUp s := by
  have outside : screenEnd < s.cursor.pLastChar := by
    rw [place, screenEnd_eq, UInt32.lt_iff_toNat_lt, cellAddress_toNat (by omega), cellAddress_toNat (by omega)]
    omega
  obtain ⟨cursor, -⟩ := scrollUp_spec place (by omega) (by omega)
  have inside : ¬screenEnd < (scrollUp s).cursor.pLastChar := by
    rw [cursor, screenEnd_eq, UInt32.lt_iff_toNat_lt, cellAddress_toNat (by omega), cellAddress_toNat (by omega)]
    omega
  obtain ⟨fuel, enough⟩ : ∃ fuel, s.cursor.pLastChar.toNat = fuel + 2 := by
    rw [place, cellAddress_toNat (by omega)]
    exact ⟨753662 + 2 * i, by omega⟩
  rw [checkScrollUp, enough, checkScrollUpFrom, if_pos outside, checkScrollUpFrom, if_neg inside]

theorem println_row {s : Console} {i : Nat} (place : s.cursor.pLastChar = cellAddress i) (visible : i ≤ 2000) :
    println s = checkScrollUp (setCursorState s (cellAddress ((i / 80 + 1) * 80))) := by
  have row : (cellAddress i - videoMemTextModeStart) / 160 = UInt32.ofNat (i / 80) := by
    apply UInt32.toNat_inj.mp
    have width : (160 : UInt32).toNat = 160 := rfl
    rw [cellAddress_offset, UInt32.toNat_div, UInt32.toNat_ofNat', UInt32.toNat_ofNat', width]
    omega
  have next : videoMemTextModeStart + (UInt32.ofNat (i / 80) + 1) * 160 = cellAddress ((i / 80 + 1) * 80) := by
    have cells : 2 * ((i / 80 + 1) * 80) = (i / 80 + 1) * 160 := by omega
    rw [cellAddress, cells, UInt32.ofNat_mul, UInt32.ofNat_add]
    rfl
  rw [println, place, row]
  simp only [next]

theorem putchar_print {c : UInt32} (s : Console) (line : c ≠ newline) (back : c ≠ backspace) :
    putchar s c = checkScrollUp (cursorStateInc (storeChar s s.cursor.pLastChar c.toUInt8)) := by
  rw [putchar, if_neg line, if_neg back]

theorem putchar_newline (s : Console) : putchar s newline = println s := if_pos rfl

theorem putchar_backspace (s : Console) : putchar s backspace = printBack s := by
  rw [putchar, if_neg (by decide), if_pos rfl]

def blankConsole : Console := ⟨fun _ => ⟨blank, 7⟩, ⟨videoMemTextModeStart, 0, 0⟩, 0, [], 0⟩

end WegOS
