import WegOS.Console
import WegOS.Lib.Transition

/-! The keyboard, and where the cursor goes. -/

namespace WegOS

open Transition

/-- The other fields of the state are set once and never read. -/
structure KeyboardState where
  capsPressed : Bool
  leftShiftPressed : Bool

structure AsciiCase where
  isValid : Bool
  normalAsciiCode : UInt8
  capsAsciiCode : UInt8

def keyCaps : UInt8 := 0x3A
def keyLshift : UInt8 := 0x2A
def keyBackspace : UInt8 := 0x0E

def noKey : AsciiCase := ⟨false, 32, 32⟩

def usualKeys (normal caps : String) : List AsciiCase :=
  List.zipWith (fun c d => ⟨true, UInt8.ofNat c.toNat, UInt8.ofNat d.toNat⟩) normal.toList caps.toList

/-- The entries of the table that are written out, from scan code 0 on. -/
def scanToAsciiEntries : List AsciiCase :=
  [noKey, noKey] ++ usualKeys "1234567890-=" "!@#$%^&*()_+" ++ [⟨false, 0x7F, 0x7F⟩] ++
    usualKeys "\tqwertyuiop[]\n" "\tQWERTYUIOP\x7b\x7d\n" ++ [noKey] ++
    usualKeys "asdfghjkl;'`" "ABDFGHJKL:\"~" ++ [noKey] ++ usualKeys "\\zxcvbnm,./" "|ZXCVBNM<>?" ++
    [noKey, noKey, noKey] ++ usualKeys " " " " ++ [noKey, noKey, noKey, noKey, noKey, noKey]

def scanToAscii (scanCode : UInt8) : AsciiCase := scanToAsciiEntries.getD scanCode.toNat ⟨false, 0, 0⟩

def isUsualKey (scanCode : UInt8) : Bool := (scanToAscii (scanCode &&& 0x7F)).isValid

def shouldEnableUpperCase (keyboard : KeyboardState) : Bool := keyboard.capsPressed ^^ keyboard.leftShiftPressed

structure Terminal where
  console : Console
  keyboard : KeyboardState

def onKey (t : Terminal) (scanCode : UInt8) : Terminal :=
  let stripped := scanCode &&& 0x7F
  let realKey :=
    if shouldEnableUpperCase t.keyboard then (scanToAscii stripped).capsAsciiCode
    else (scanToAscii stripped).normalAsciiCode
  let leftShift := { t.keyboard with leftShiftPressed := !t.keyboard.leftShiftPressed }
  if scanCode &&& 0x80 ≠ 0 then
    if isUsualKey scanCode then t
    else if stripped = keyLshift then { t with keyboard := leftShift }
    else t
  else
    if isUsualKey scanCode then { t with console := putchar t.console realKey.toUInt32 }
    else if stripped = keyBackspace then { t with console := printBack t.console }
    else if stripped = keyCaps then
      { t with keyboard := { t.keyboard with capsPressed := !t.keyboard.capsPressed } }
    else if stripped = keyLshift then { t with keyboard := leftShift }
    else t

inductive ConsoleCall
  | putchar (c : UInt32)
  | println
  | printBack
  | cls
  | key (scanCode : UInt8)

def consoleStep (t : Terminal) : ConsoleCall → Terminal
  | .putchar c => { t with console := putchar t.console c }
  | .println => { t with console := println t.console }
  | .printBack => { t with console := printBack t.console }
  | .cls => { t with console := cls t.console }
  | .key scanCode => onKey t scanCode

/-! ## Where the cursor is visible -/

def OnScreen (p : UInt32) : Prop := ∃ i < rows * cols, p = cellAddress i

/-- The cursor is on a visible cell and its fields agree, and all stores were to visible cells. -/
structure Console.Visible (s : Console) : Prop where
  place : ∃ i < rows * cols, s.cursor.pLastChar = cellAddress i ∧
    i = s.cursor.cursorRow.toNat * cols + s.cursor.cursorCol.toNat ∧ s.cursor.cursorCol.toNat < cols
  written : ∀ p ∈ s.written, OnScreen p

/-- The character does not lead from the last cell, a new line not from the last row, and a
step back not from the first cell. -/
def Console.Stays (s : Console) (c : UInt32) : Prop :=
  if c = newline then s.cursor.pLastChar < cellAddress 1920
  else if c = backspace then videoMemTextModeStart < s.cursor.pLastChar
  else s.cursor.pLastChar ≠ cellAddress 1999

def keyChar (keyboard : KeyboardState) (scanCode : UInt8) : Option UInt32 :=
  if scanCode &&& 0x80 ≠ 0 then none
  else if isUsualKey scanCode then
    some (if shouldEnableUpperCase keyboard then (scanToAscii (scanCode &&& 0x7F)).capsAsciiCode
      else (scanToAscii (scanCode &&& 0x7F)).normalAsciiCode).toUInt32
  else if scanCode &&& 0x7F = keyBackspace then some backspace
  else none

def CallStays (t : Terminal) : ConsoleCall → Prop
  | .putchar c => t.console.Stays c
  | .println => t.console.Stays newline
  | .printBack => t.console.Stays backspace
  | .cls => True
  | .key scanCode => ∀ c, keyChar t.keyboard scanCode = some c → t.console.Stays c

theorem CursorState.At.visible {s : Console} {i : Nat} (here : s.cursor.At i) (inside : i < rows * cols)
    (written : ∀ p ∈ s.written, OnScreen p) : s.Visible := by
  rw [screen_cells] at inside
  have place : s.cursor.pLastChar = cellAddress i := by rw [here]
  have row : s.cursor.cursorRow.toNat = i / 80 := by
    rw [here, UInt8.toNat_ofNat']
    omega
  have col : s.cursor.cursorCol.toNat = i % 80 := by
    rw [here, UInt8.toNat_ofNat']
    omega
  refine ⟨⟨i, by rw [screen_cells]; exact inside, place, ?_, ?_⟩, written⟩
  · rw [row, col, cols]
    omega
  · rw [col, cols]
    omega

theorem not_visible_of_place {s : Console} {p : UInt32} (place : s.cursor.pLastChar = p) (away : ¬OnScreen p) :
    ¬s.Visible := by
  rintro ⟨⟨i, inside, here, -⟩, -⟩
  exact away ⟨i, inside, place.symm.trans here⟩

theorem cellAddress_onScreen {i : Nat} (small : i ≤ 4000) : OnScreen (cellAddress i) ↔ i < 2000 := by
  constructor
  · rintro ⟨j, inside, equal⟩
    rw [screen_cells] at inside
    rw [(cellAddress_inj small (by omega)).mp equal]
    exact inside
  · exact fun inside => ⟨i, by rw [screen_cells]; exact inside, rfl⟩

section Visible

variable {s : Console} {i : Nat}

theorem visible_cons (visible : s.Visible) (inside : i < 2000) (c : UInt8) :
    ∀ p ∈ (storeChar s (cellAddress i) c).written, OnScreen p := by
  intro p member
  rcases List.mem_cons.mp member with rfl | old
  · exact (cellAddress_onScreen (by omega)).mpr inside
  · exact visible.written p old

/-- An ordinary character is visible, and so is the cursor behind it unless it was the last cell. -/
theorem print_visible (visible : s.Visible) (place : s.cursor.pLastChar = cellAddress i) (inside : i < 2000)
    {c : UInt32} (line : c ≠ newline) (back : c ≠ backspace) : (putchar s c).Visible ↔ i ≠ 1999 := by
  have next : (cursorStateInc (storeChar s (cellAddress i) c.toUInt8)).cursor.At (i + 1) := by
    have address : (storeChar s (cellAddress i) c.toUInt8).cursor.pLastChar + 2 = cellAddress (i + 1) := by
      rw [← cellAddress_succ, ← place]
      rfl
    rw [cursorStateInc, address]
    exact setCursorState_at _ (by omega)
  have there : (cursorStateInc (storeChar s (cellAddress i) c.toUInt8)).cursor.pLastChar = cellAddress (i + 1) := by
    rw [next]
  rw [putchar_print s line back, place, checkScrollUp_stays there (by omega)]
  constructor
  · rintro shown rfl
    exact not_visible_of_place there ((cellAddress_onScreen (by omega)).not.mpr (by omega)) shown
  · intro notLast
    exact next.visible (by rw [screen_cells]; omega) (visible_cons visible inside c.toUInt8)

theorem println_visible (visible : s.Visible) (place : s.cursor.pLastChar = cellAddress i) (inside : i < 2000) :
    (println s).Visible ↔ i < 1920 := by
  have next : (setCursorState s (cellAddress ((i / 80 + 1) * 80))).cursor.At ((i / 80 + 1) * 80) :=
    setCursorState_at s (by omega)
  rw [println_row place (by omega), checkScrollUp_stays (setCursorState_pLastChar _ _) (by omega)]
  constructor
  · intro shown
    by_contra last
    exact not_visible_of_place (setCursorState_pLastChar _ _)
      ((cellAddress_onScreen (by omega)).not.mpr (by omega)) shown
  · intro above
    exact next.visible (by rw [screen_cells]; omega) visible.written

theorem printBack_visible (visible : s.Visible) (place : s.cursor.pLastChar = cellAddress i) (inside : i < 2000) :
    (printBack s).Visible ↔ 0 < i := by
  rcases Nat.eq_zero_or_pos i with rfl | positive
  · -- The cell before the first one.
    have before : (printBack s).cursor.pLastChar = videoMemTextModeStart - 2 := by
      change s.cursor.pLastChar - 2 = _
      rw [place, cellAddress_zero]
    refine iff_of_false (not_visible_of_place before ?_) (Nat.lt_irrefl 0)
    rintro ⟨j, small, equal⟩
    rw [screen_cells] at small
    have number := congrArg UInt32.toNat equal
    rw [cellAddress_toNat (by omega)] at number
    have outside : (videoMemTextModeStart - 2).toNat = 753662 := by decide
    omega
  · have address : cellAddress i - 2 = cellAddress (i - 1) := cellAddress_sub (k := 1) positive
    refine iff_of_true ?_ positive
    rw [printBack, place, address]
    have here : (setCursorState s (cellAddress (i - 1))).cursor.At (i - 1) := setCursorState_at s (by omega)
    have moved : (setCursorState s (cellAddress (i - 1))).Visible :=
      here.visible (by rw [screen_cells]; omega) visible.written
    have stored : (storeChar (setCursorState s (cellAddress (i - 1))) (cellAddress (i - 1)) blank).cursor.At (i - 1) :=
      here
    exact stored.visible (by rw [screen_cells]; omega) (visible_cons moved (by omega) blank)

theorem cls_visible (visible : s.Visible) : (cls s).Visible := by
  obtain ⟨cursor, -, -, written⟩ := cls_spec s
  refine cursor.visible (by decide) fun p member => ?_
  rcases written p member with old | ⟨i, -, inside, rfl⟩
  · exact visible.written p old
  · exact (cellAddress_onScreen (by omega)).mpr (by omega)

theorem putchar_visible (visible : s.Visible) (c : UInt32) : (putchar s c).Visible ↔ s.Stays c := by
  obtain ⟨i, inside, place, -⟩ := visible.place
  rw [screen_cells] at inside
  unfold Console.Stays
  by_cases line : c = newline
  · rw [if_pos line, line, putchar_newline, println_visible visible place inside, place, UInt32.lt_iff_toNat_lt,
      cellAddress_toNat (by omega), cellAddress_toNat (by omega)]
    omega
  · rw [if_neg line]
    by_cases back : c = backspace
    · rw [if_pos back, back, putchar_backspace, printBack_visible visible place inside, place,
        ← cellAddress_zero, UInt32.lt_iff_toNat_lt, cellAddress_toNat (by omega), cellAddress_toNat (by omega)]
      omega
    · rw [if_neg back, print_visible visible place inside line back, place, ne_eq, ne_eq,
        cellAddress_inj (by omega) (by omega)]

end Visible

theorem onKey_console (t : Terminal) (scanCode : UInt8) :
    (onKey t scanCode).console =
      (keyChar t.keyboard scanCode).elim t.console fun c => putchar t.console c := by
  unfold onKey keyChar
  dsimp only
  by_cases released : scanCode &&& 0x80 ≠ 0
  · rw [if_pos released, if_pos released]
    split_ifs <;> rfl
  · rw [if_neg released, if_neg released]
    by_cases valid : isUsualKey scanCode = true
    · rw [if_pos valid, if_pos valid]
      rfl
    · rw [if_neg valid, if_neg valid]
      by_cases back : scanCode &&& 0x7F = keyBackspace
      · rw [if_pos back, if_pos back]
        exact (putchar_backspace t.console).symm
      · rw [if_neg back, if_neg back]
        split_ifs <;> rfl

theorem consoleStep_visible (t : Terminal) (call : ConsoleCall) (visible : t.console.Visible) :
    (consoleStep t call).console.Visible ↔ CallStays t call := by
  cases call with
  | putchar c => exact putchar_visible visible c
  | println =>
      have line := putchar_visible visible newline
      rw [putchar_newline] at line
      exact line
  | printBack =>
      have back := putchar_visible visible backspace
      rw [putchar_backspace] at back
      exact back
  | cls =>
      simp only [consoleStep, CallStays, iff_true]
      exact cls_visible visible
  | key scanCode =>
      rw [consoleStep, onKey_console]
      cases shown : keyChar t.keyboard scanCode with
      | none =>
          rw [Option.elim_none]
          refine iff_of_true visible fun c some => ?_
          rw [shown] at some
          cases some
      | some c =>
          have one := putchar_visible visible c
          simpa only [CallStays, shown, Option.elim_some, Option.some.injEq, forall_eq'] using one

def Terminal.cleared (t : Terminal) : Terminal := { t with console := cls { t.console with written := [] } }

theorem cleared_visible (t : Terminal) : t.cleared.console.Visible := by
  simp only [Terminal.cleared]
  obtain ⟨cursor, -, -, written⟩ := cls_spec { t.console with written := [] }
  refine cursor.visible (by decide) fun p member => ?_
  rcases written p member with none | ⟨i, -, inside, rfl⟩
  · cases none
  · exact (cellAddress_onScreen (by omega)).mpr (by omega)

/-- In a run of calls and keys after `cls` the cursor is visible all along, and all stores are to
visible cells, exactly when no call takes it from the last cell or row on, or from the first cell back. -/
theorem cursor_visible_iff (t : Terminal) (calls : List ConsoleCall) :
    (∀ before, before <+: calls → (before.foldl consoleStep t.cleared).console.Visible) ↔
      ∀ before call, before ++ [call] <+: calls → CallStays (before.foldl consoleStep t.cleared) call :=
  @foldl_keeps_iff Terminal ConsoleCall consoleStep (fun _ => True) (fun t => t.console.Visible) CallStays
    (fun _ _ fixed => fixed) (fun t call _ visible => consoleStep_visible t call visible) t.cleared trivial
    (cleared_visible t) calls

def blankTerminal : Terminal := ⟨blankConsole, ⟨false, false⟩⟩

theorem backspace_leaves_screen :
    ¬([ConsoleCall.key keyBackspace].foldl consoleStep blankTerminal.cleared).console.Visible := by
  have first : blankTerminal.cleared.console.cursor.At 0 := by
    simp only [Terminal.cleared]
    exact (cls_spec _).left
  have pressed : keyChar blankTerminal.cleared.keyboard keyBackspace = some backspace := by decide
  rw [List.foldl_cons, List.foldl_nil, consoleStep_visible _ _ (cleared_visible blankTerminal)]
  intro stays
  have positive := stays backspace pressed
  rw [Console.Stays, if_neg (by decide), if_pos rfl, first] at positive
  exact absurd positive (by decide)

end WegOS
