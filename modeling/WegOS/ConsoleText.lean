import WegOS.Console
import WegOS.Lib.TextLayout
import WegOS.Lib.Transition

/-! Text on the console, beside the same text laid out on lines.

The cursor can stand behind the last visible cell, on the first cell of a hidden row. A character
that is put there stays there when the row is scrolled in. -/

namespace WegOS

open TextLayout Transition

def Console.char (s : Console) (i : Nat) : UInt8 := (s.text (cellAddress i)).character

section Steps

variable {s : Console} {i : Nat}

theorem storeChar_char (s : Console) (c : UInt8) {i j : Nat} (smallI : i ≤ 4000) (smallJ : j ≤ 4000) :
    (storeChar s (cellAddress i) c).char j = if j = i then c else s.char j := by
  rw [Console.char, storeChar, storeCell_text _ _ smallI smallJ]
  split_ifs <;> rfl

theorem scrollUp_char (place : s.cursor.pLastChar = cellAddress i) (low : 80 ≤ i) (high : i ≤ 4000) {j : Nat}
    (small : j ≤ 2080) : (scrollUp s).char j = if j < 2000 then s.char (j + 80) else s.char j := by
  obtain ⟨-, -, text, -⟩ := scrollUp_spec place low high
  rw [Console.char, text j small]
  split_ifs <;> rfl

def printed (s : Console) (c : UInt32) : Console := cursorStateInc (storeChar s s.cursor.pLastChar c.toUInt8)

theorem printed_pLastChar (place : s.cursor.pLastChar = cellAddress i) (c : UInt32) :
    (printed s c).cursor.pLastChar = cellAddress (i + 1) := by
  rw [← cellAddress_succ, ← place]
  rfl

theorem printed_char (place : s.cursor.pLastChar = cellAddress i) (small : i ≤ 4000) (c : UInt32) {j : Nat}
    (inside : j ≤ 4000) : (printed s c).char j = if j = i then c.toUInt8 else s.char j := by
  rw [printed, place]
  exact storeChar_char s c.toUInt8 small inside

theorem putchar_inside (place : s.cursor.pLastChar = cellAddress i) (inside : i < 2000) {c : UInt32}
    (line : c ≠ newline) (back : c ≠ backspace) : putchar s c = printed s c := by
  rw [putchar_print s line back]
  exact checkScrollUp_stays (printed_pLastChar place c) (by omega)

theorem putchar_behind (place : s.cursor.pLastChar = cellAddress 2000) {c : UInt32} (line : c ≠ newline)
    (back : c ≠ backspace) : putchar s c = scrollUp (printed s c) := by
  rw [putchar_print s line back]
  exact checkScrollUp_once (printed_pLastChar place c) (by omega) (by omega)

def lineFed (s : Console) (i : Nat) : Console := setCursorState s (cellAddress ((i / 80 + 1) * 80))

theorem println_inside (place : s.cursor.pLastChar = cellAddress i) (inside : i < 2000) : println s = lineFed s i := by
  rw [println_row place (by omega)]
  exact checkScrollUp_stays (setCursorState_pLastChar s _) (by omega)

theorem println_behind (place : s.cursor.pLastChar = cellAddress 2000) :
    println s = scrollUp (lineFed s 2000) := by
  rw [println_row place (Nat.le_refl _)]
  exact checkScrollUp_once (setCursorState_pLastChar s _) (by omega) (by omega)

end Steps

/-! ## The console and the page -/

def TextChar : Type := { c : UInt32 // c ≠ backspace }

def textPut (s : Console) (c : TextChar) : Console := putchar s c.val

def pagePut (page : Page UInt8) (c : TextChar) : Page UInt8 :=
  if c.val = newline then page.newline else page.put cols c.val.toUInt8

def Shows (s : Console) (page : Page UInt8) : Prop :=
  ∀ row < rows, ∀ col < cols, s.char (row * cols + col) = (page.cell (row + s.scrolls) col).getD blank

/-- No new line while the cursor is on the hidden row and a character stands there. -/
def NothingStale (s : Console) (c : TextChar) : Prop :=
  c.val = newline → s.cursor.pLastChar = cellAddress 2000 → s.char 2000 = blank

/-- The cursor is in row `row`, which is the line of the page that is written to. Behind the first
cell of the hidden row all is blank. -/
structure Tracks (s : Console) (page : Page UInt8) (row : Nat) : Prop where
  line : page.line = row + s.scrolls
  column : page.column < cols
  visible : row * 80 + page.column ≤ 2000
  place : s.cursor.pLastChar = cellAddress (row * 80 + page.column)
  hidden : ∀ j, 2000 < j → j < 2080 → s.char j = blank
  fresh : page.Fresh

theorem cols_eq : cols = 80 := rfl
theorem rows_eq : rows = 25 := rfl

section Inside

variable {s : Console} {page : Page UInt8} {row : Nat} (tracks : Tracks s page row)
  (inside : row * 80 + page.column < 2000)

include tracks inside

theorem print_inside_tracks {c : UInt32} (line : c ≠ newline) (back : c ≠ backspace) :
    Tracks (putchar s c) (page.put cols c.toUInt8) (if page.column + 1 = cols then row + 1 else row) := by
  have width := tracks.column
  have place := printed_pLastChar tracks.place c
  rw [putchar_inside tracks.place inside line back]
  rw [cols_eq] at width ⊢
  refine ⟨?_, page.put_column width _, ?_, ?_, fun j low high => ?_, tracks.fresh.put _⟩
  · have same : (printed s c).scrolls = s.scrolls := rfl
    have here := tracks.line
    simp only [Page.put, same]
    split_ifs <;> omega
  · simp only [Page.put]
    split_ifs <;> omega
  · rw [place]
    simp only [Page.put]
    split_ifs with full
    · congr 1
      omega
    · rfl
  · rw [printed_char tracks.place (by omega) c (by omega), if_neg (by omega)]
    exact tracks.hidden j low high

theorem print_inside_shows {c : UInt32} (line : c ≠ newline) (back : c ≠ backspace) (shows : Shows s page) :
    Shows (putchar s c) (page.put cols c.toUInt8) := by
  have width := tracks.column
  have here := tracks.line
  rw [putchar_inside tracks.place inside line back]
  intro r low col narrow
  have same : (printed s c).scrolls = s.scrolls := rfl
  rw [rows_eq] at low
  rw [cols_eq] at width narrow ⊢
  rw [printed_char tracks.place (by omega) c (by omega), same]
  by_cases cell : r + s.scrolls = page.line ∧ col = page.column
  · have equal : r = row := by omega
    rw [if_pos (by rw [equal, cell.right]), cell.left, cell.right, Page.put_cell_here]
    rfl
  · rw [if_neg (by omega), Page.put_cell_other _ cell]
    exact shows r low col narrow

theorem newline_inside_tracks : Tracks (println s) page.newline (row + 1) := by
  have width := tracks.column
  have here := tracks.line
  have next : (row * 80 + page.column) / 80 + 1 = row + 1 := by
    rw [cols_eq] at width
    omega
  rw [println_inside tracks.place inside, lineFed, next]
  refine ⟨?_, ?_, ?_, rfl, tracks.hidden, tracks.fresh.newline⟩
  · simp only [Page.newline, setCursorState_scrolls]
    omega
  · exact Nat.zero_lt_succ 79
  · simp only [Page.newline]
    omega

theorem newline_inside_shows (shows : Shows s page) : Shows (println s) page.newline := by
  rw [println_inside tracks.place inside]
  exact shows

end Inside

section Behind

variable {s : Console} {page : Page UInt8} (tracks : Tracks s page 25)

include tracks

theorem behind_column : page.column = 0 := by
  have last := tracks.visible
  omega

theorem behind_place : s.cursor.pLastChar = cellAddress 2000 := by
  have place := tracks.place
  rw [behind_column tracks] at place
  exact place

theorem scrolled_shows {t : Console} {later : Page UInt8} {i : Nat} (place : t.cursor.pLastChar = cellAddress i)
    (low : 80 ≤ i) (high : i ≤ 4000) (scrolls : t.scrolls = s.scrolls)
    (same : ∀ j < 2000, t.char j = s.char j) (hidden : ∀ j, 2000 < j → j < 2080 → t.char j = blank)
    (kept : ∀ line column, ¬(line = page.line ∧ column = 0) → later.cell line column = page.cell line column)
    (shows : Shows s page) :
    Shows (scrollUp t) later ↔ t.char 2000 = (later.cell page.line 0).getD blank := by
  have here := tracks.line
  have count : (scrollUp t).scrolls = s.scrolls + 1 := by
    rw [(scrollUp_spec place low high).right.left, scrolls]
  -- Every cell but the first of the last row is right.
  have others : ∀ r < 25, ∀ col < 80, ¬(r = 24 ∧ col = 0) →
      (scrollUp t).char (r * 80 + col) = (later.cell (r + (s.scrolls + 1)) col).getD blank := by
    intro r small col narrow other
    rw [scrollUp_char place low high (by omega), if_pos (by omega), kept _ _ (by omega)]
    by_cases last : r = 24
    · have empty : page.cell (r + (s.scrolls + 1)) col = none := tracks.fresh _ _ (by
        rw [behind_column tracks]
        omega)
      rw [empty, hidden _ (by omega) (by omega)]
      rfl
    · have below := shows (r + 1) (by rw [rows_eq]; omega) col narrow
      have line : r + 1 + s.scrolls = r + (s.scrolls + 1) := by omega
      have cell : r * 80 + col + 80 = (r + 1) * cols + col := by
        rw [cols_eq]
        omega
      rw [same _ (by omega), cell, below, line]
  have corner : (scrollUp t).char 1920 = t.char 2000 := by
    rw [scrollUp_char place low high (by omega), if_pos (by omega)]
  have line : page.line = 24 + (s.scrolls + 1) := by omega
  constructor
  · intro shown
    have cell := shown 24 (by decide) 0 (by decide)
    rw [count, ← line] at cell
    exact corner.symm.trans cell
  · intro right r small col narrow
    rw [count]
    by_cases cell : r = 24 ∧ col = 0
    · rw [cell.left, cell.right, ← line]
      exact corner.trans right
    · exact others r small col narrow cell

theorem print_behind_tracks {c : UInt32} (line : c ≠ newline) (back : c ≠ backspace) :
    Tracks (putchar s c) (page.put cols c.toUInt8) 24 := by
  have here := tracks.line
  have start := behind_column tracks
  have place := printed_pLastChar (behind_place tracks) c
  obtain ⟨cursor, scrolls, -⟩ := scrollUp_spec place (by omega) (by omega)
  have same : (printed s c).scrolls = s.scrolls := rfl
  have inLine : ¬(0 + 1 = cols) := by decide
  rw [putchar_behind (behind_place tracks) line back]
  refine ⟨?_, page.put_column tracks.column _, ?_, ?_, fun j low high => ?_, tracks.fresh.put _⟩
  · simp only [Page.put, start, if_neg inLine, scrolls, same]
    omega
  · simp only [Page.put, start, if_neg inLine]
    omega
  · simp only [Page.put, start, if_neg inLine]
    rw [cursor]
  · rw [scrollUp_char place (by omega) (by omega) (by omega), if_neg (by omega),
      printed_char (behind_place tracks) (by omega) c (by omega), if_neg (by omega)]
    exact tracks.hidden j low high

theorem print_behind_shows {c : UInt32} (line : c ≠ newline) (back : c ≠ backspace) (shows : Shows s page) :
    Shows (putchar s c) (page.put cols c.toUInt8) := by
  have place := printed_pLastChar (behind_place tracks) c
  have char : ∀ j ≤ 4000, (printed s c).char j = if j = 2000 then c.toUInt8 else s.char j :=
    fun j small => printed_char (behind_place tracks) (by omega) c small
  have first : (page.put cols c.toUInt8).cell page.line 0 = some c.toUInt8 := by
    have cell := @Page.put_cell_here _ cols page c.toUInt8
    rw [behind_column tracks] at cell
    exact cell
  rw [putchar_behind (behind_place tracks) line back]
  apply (scrolled_shows tracks place (by omega) (by omega) rfl ?_ ?_ ?_ shows).mpr
  · rw [char 2000 (by omega), if_pos rfl, first]
    rfl
  · intro j small
    rw [char j (by omega), if_neg (by omega)]
  · intro j low high
    rw [char j (by omega), if_neg (by omega)]
    exact tracks.hidden j low high
  · intro line column other
    apply Page.put_cell_other
    rw [behind_column tracks]
    exact other

theorem newline_behind_tracks : Tracks (println s) page.newline 25 := by
  have here := tracks.line
  have place : (lineFed s 2000).cursor.pLastChar = cellAddress 2080 := rfl
  obtain ⟨cursor, scrolls, -⟩ := scrollUp_spec place (by omega) (by omega)
  have same : (lineFed s 2000).scrolls = s.scrolls := rfl
  rw [println_behind (behind_place tracks)]
  refine ⟨?_, Nat.zero_lt_succ 79, Nat.le_refl 2000, ?_, fun j low high => ?_, tracks.fresh.newline⟩
  · simp only [Page.newline, scrolls, same]
    omega
  · rw [cursor]
    rfl
  · rw [scrollUp_char place (by omega) (by omega) (by omega), if_neg (by omega)]
    exact tracks.hidden j low high

/-- The hidden row is scrolled in as it is. -/
theorem newline_behind_shows (shows : Shows s page) : Shows (println s) page.newline ↔ s.char 2000 = blank := by
  have place : (lineFed s 2000).cursor.pLastChar = cellAddress 2080 := rfl
  have empty : page.newline.cell page.line 0 = none :=
    tracks.fresh page.line 0 (Or.inr ⟨rfl, Nat.le_of_eq (behind_column tracks)⟩)
  have exact : Shows (scrollUp (lineFed s 2000)) page.newline ↔ _ :=
    scrolled_shows tracks place (by omega) (by omega) rfl (fun j _ => rfl) tracks.hidden (fun _ _ _ => rfl) shows
  rw [empty] at exact
  rw [println_behind (behind_place tracks)]
  exact exact

end Behind

/-! ## Runs -/

section Runs

variable {s : Console} {page : Page UInt8} {row : Nat}

theorem textPut_tracks (tracks : Tracks s page row) (c : TextChar) :
    ∃ later, Tracks (textPut s c) (pagePut page c) later := by
  unfold textPut pagePut
  by_cases behind : row = 25
  · subst behind
    by_cases line : c.val = newline
    · rw [if_pos line, line, putchar_newline]
      exact ⟨25, newline_behind_tracks tracks⟩
    · rw [if_neg line]
      exact ⟨24, print_behind_tracks tracks line c.property⟩
  · have visible := tracks.visible
    have width := tracks.column
    have inside : row * 80 + page.column < 2000 := by
      rw [cols_eq] at width
      omega
    by_cases line : c.val = newline
    · rw [if_pos line, line, putchar_newline]
      exact ⟨row + 1, newline_inside_tracks tracks inside⟩
    · rw [if_neg line]
      exact ⟨_, print_inside_tracks tracks inside line c.property⟩

theorem textPut_shows (tracks : Tracks s page row) (shows : Shows s page) (c : TextChar) :
    Shows (textPut s c) (pagePut page c) ↔ NothingStale s c := by
  unfold textPut pagePut NothingStale
  by_cases behind : row = 25
  · subst behind
    by_cases line : c.val = newline
    · rw [if_pos line, line, putchar_newline, newline_behind_shows tracks shows]
      exact ⟨fun blank _ _ => blank, fun fits => fits rfl (behind_place tracks)⟩
    · rw [if_neg line]
      exact iff_of_true (print_behind_shows tracks line c.property shows) fun same => absurd same line
  · have visible := tracks.visible
    have width := tracks.column
    have inside : row * 80 + page.column < 2000 := by
      rw [cols_eq] at width
      omega
    by_cases line : c.val = newline
    · rw [if_pos line, line, putchar_newline]
      refine iff_of_true (newline_inside_shows tracks inside shows) fun _ place => ?_
      rw [tracks.place, cellAddress_inj (by omega) (by omega)] at place
      omega
    · rw [if_neg line]
      exact iff_of_true (print_inside_shows tracks inside line c.property shows) fun same => absurd same line

theorem text_from (tracks : Tracks s page row) (shows : Shows s page) (text : List TextChar) :
    (∀ before, before <+: text → Shows (before.foldl textPut s) (before.foldl pagePut page)) ↔
      ∀ before c, before ++ [c] <+: text → NothingStale (before.foldl textPut s) c := by
  have run := @foldl_keeps_iff (Console × Page UInt8) TextChar (fun pair c => (textPut pair.1 c, pagePut pair.2 c))
    (fun pair => ∃ row, Tracks pair.1 pair.2 row) (fun pair => Shows pair.1 pair.2)
    (fun pair c => NothingStale pair.1 c) (fun _ c tracked => tracked.elim fun _ tracks => textPut_tracks tracks c)
    (fun _ c tracked shows => tracked.elim fun _ tracks => textPut_shows tracks shows c) (s, page)
    ⟨row, tracks⟩ shows text
  simp only [foldl_pair] at run
  exact run

end Runs

/-- The console after `cls`; the count of scrolls begins there. -/
def Console.cleared (s : Console) : Console := cls { s with scrolls := 0 }

section Cleared

variable {s : Console} (hidden : ∀ i, 2000 ≤ i → i < 2080 → s.char i = blank)

include hidden

theorem cleared_char {j : Nat} (inside : j < 2080) : s.cleared.char j = blank := by
  obtain ⟨-, -, text, -⟩ := cls_spec { s with scrolls := 0 }
  rw [Console.char, Console.cleared, text j (by omega)]
  split_ifs with visible
  · rfl
  · exact hidden j (by omega) inside

theorem cleared_tracks : Tracks s.cleared Page.empty 0 := by
  obtain ⟨cursor, scrolls, -, -⟩ := cls_spec { s with scrolls := 0 }
  refine ⟨?_, Nat.zero_lt_succ 79, Nat.zero_le _, ?_, fun j _ high => cleared_char hidden high, Page.fresh_empty⟩
  · rw [Console.cleared, scrolls]
    rfl
  · rw [Console.cleared, cursor]
    rfl

theorem cleared_shows : Shows s.cleared Page.empty := by
  intro row low col narrow
  rw [rows_eq] at low
  rw [cols_eq] at narrow ⊢
  exact cleared_char hidden (by omega)

/-- While text is put after `cls`, the screen shows it all along exactly when no new line scrolls in a
character that was put behind the last visible cell. -/
theorem text_shown_iff (text : List TextChar) :
    (∀ before, before <+: text → Shows (before.foldl textPut s.cleared) (before.foldl pagePut Page.empty)) ↔
      ∀ before c, before ++ [c] <+: text → NothingStale (before.foldl textPut s.cleared) c :=
  text_from (cleared_tracks hidden) (cleared_shows hidden) text

end Cleared

/-! ## Two texts -/

def lineChar : TextChar := ⟨newline, by decide⟩
def letterA : TextChar := ⟨65, by decide⟩

theorem blankConsole_hidden (i : Nat) (_low : 2000 ≤ i) (_high : i < 2080) : blankConsole.char i = blank := rfl

/-- A new line, and letters that wrap to the end of the page and scroll it. -/
theorem text_shown_wrapped :
    Shows ((lineChar :: List.replicate 2000 letterA).foldl textPut blankConsole.cleared)
      ((lineChar :: List.replicate 2000 letterA).foldl pagePut Page.empty) := by
  refine (text_shown_iff blankConsole_hidden (lineChar :: List.replicate 2000 letterA)).mpr ?_ _ (List.prefix_refl _)
  intro before c front line
  cases before with
  | nil =>
      have first : blankConsole.cleared.cursor.pLastChar = cellAddress 0 :=
        (cleared_tracks blankConsole_hidden).place
      rw [List.foldl_nil, first, cellAddress_inj (by omega) (by omega)]
      intro place
      omega
  | cons b before =>
      obtain ⟨-, later⟩ := List.cons_prefix_cons.mp front
      have letter := List.eq_of_mem_replicate (later.subset (List.mem_append_right _ List.mem_cons_self))
      rw [letter] at line
      exact absurd line (by decide)

theorem blank_lines {s : Console} {page : Page UInt8} (tracks : Tracks s page 0) (shows : Shows s page)
    (column : page.column = 0) {n : Nat} (fits : n ≤ 25) :
    Tracks ((List.replicate n lineChar).foldl textPut s) ((List.replicate n lineChar).foldl pagePut page) n ∧
      Shows ((List.replicate n lineChar).foldl textPut s) ((List.replicate n lineChar).foldl pagePut page) ∧
      ((List.replicate n lineChar).foldl pagePut page).column = 0 := by
  induction n with
  | zero => exact ⟨tracks, shows, column⟩
  | succ n ih =>
      obtain ⟨before, shown, start⟩ := ih (by omega)
      have inside : n * 80 + ((List.replicate n lineChar).foldl pagePut page).column < 2000 := by omega
      rw [List.replicate_succ', List.foldl_append, List.foldl_append]
      exact ⟨newline_inside_tracks before inside, newline_inside_shows before inside shown, rfl⟩

/-- A letter behind the last cell, and two new lines: the letter is scrolled in again. -/
theorem letter_shown_twice :
    ¬Shows ((List.replicate 25 lineChar ++ [letterA, lineChar, lineChar]).foldl textPut blankConsole.cleared)
      ((List.replicate 25 lineChar ++ [letterA, lineChar, lineChar]).foldl pagePut Page.empty) := by
  obtain ⟨tracks, shows, -⟩ := blank_lines (cleared_tracks blankConsole_hidden) (cleared_shows blankConsole_hidden)
    rfl (Nat.le_refl 25)
  rw [List.foldl_append, List.foldl_append]
  generalize (List.replicate 25 lineChar).foldl textPut blankConsole.cleared = s at tracks shows ⊢
  generalize (List.replicate 25 lineChar).foldl pagePut Page.empty = page at tracks shows ⊢
  have line : letterA.val ≠ newline := by decide
  have place := printed_pLastChar (behind_place tracks) letterA.val
  -- The letter goes to cell 2000, and the scroll leaves it there.
  have letter : (putchar s letterA.val).char 2000 = 65 := by
    rw [putchar_behind (behind_place tracks) line letterA.property, scrollUp_char place (by omega) (by omega) (by omega),
      if_neg (by omega), printed_char (behind_place tracks) (by omega) _ (by omega), if_pos rfl]
    rfl
  have second := print_behind_tracks tracks line letterA.property
  have shown := print_behind_shows tracks line letterA.property shows
  have inside : 24 * 80 + (page.put cols letterA.val.toUInt8).column < 2000 := by
    simp only [Page.put, behind_column tracks, cols_eq]
    decide
  have third := newline_inside_tracks second inside
  have stale : (println (putchar s letterA.val)).char 2000 = 65 := by
    rw [println_inside second.place inside]
    exact letter
  have last := newline_behind_shows third (newline_inside_shows second inside shown)
  rw [stale] at last
  exact last.not.mpr (by decide)

end WegOS
