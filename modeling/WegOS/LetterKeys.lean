import Mathlib.Data.FinEnum
import WegOS.Keyboard

/-! The letters that the keyboard shows, and in which case. -/

namespace WegOS

def keyboardStateInit : KeyboardState := ⟨false, false⟩

/-! ## What the codes so far say -/

/-- Both codes of the left shift key, the one of the press and the one of the release. -/
def isShiftCode (code : UInt8) : Bool := code == keyLshift || code == (keyLshift ||| 0x80)

def shiftCodes (codes : List UInt8) : List UInt8 := codes.filter isShiftCode

/-- The last code of the left shift key was that of a press. -/
def shiftHeld (codes : List UInt8) : Bool := (shiftCodes codes).getLast? == some keyLshift

def capsLocked (codes : List UInt8) : Bool := codes.count keyCaps % 2 == 1

/-- The case that the user asks for. -/
def upperCaseWanted (codes : List UInt8) : Bool := capsLocked codes ^^ shiftHeld codes

def letterRow (first : Nat) (letters : String) : List (UInt8 × UInt8) :=
  letters.toList.zipIdx.map fun letter => (UInt8.ofNat (first + letter.2), UInt8.ofNat letter.1.toNat)

/-- The letter keys by their codes, with their letters in lower case. -/
def letterKeys : List (UInt8 × UInt8) :=
  letterRow 0x10 "qwertyuiop" ++ letterRow 0x1E "asdfghjkl" ++ letterRow 0x2C "zxcvbnm"

def inCase (upper : Bool) (letter : UInt8) : UInt8 := if upper then letter - 0x20 else letter

structure Echoes (t : Terminal) (key c : UInt8) : Prop where
  char : keyChar t.keyboard key = some c.toUInt32
  shown : (onKey t key).console = putchar t.console c.toUInt32

theorem echoes_iff (t : Terminal) (key c : UInt8) : Echoes t key c ↔ keyChar t.keyboard key = some c.toUInt32 := by
  constructor
  · exact Echoes.char
  · intro char
    refine ⟨char, ?_⟩
    rw [onKey_console, char, Option.elim_some]

/-! ## The state of the keyboard -/

def keyboardNext (keyboard : KeyboardState) (code : UInt8) : KeyboardState :=
  if code = keyCaps then { keyboard with capsPressed := !keyboard.capsPressed }
  else if isShiftCode code then { keyboard with leftShiftPressed := !keyboard.leftShiftPressed }
  else keyboard

theorem isUsualKey_modifier {code : UInt8} (usual : isUsualKey code = true) :
    code ≠ keyCaps ∧ ¬isShiftCode code = true := by
  constructor
  · rintro rfl
    exact absurd usual (by decide)
  · intro shift
    rw [isShiftCode, Bool.or_eq_true, beq_iff_eq, beq_iff_eq] at shift
    rcases shift with rfl | rfl
    · exact absurd usual (by decide)
    · exact absurd usual (by decide)

theorem stripped_released : ∀ code : UInt8, code &&& 0x80 ≠ 0 →
    code ≠ keyCaps ∧ (isShiftCode code = true ↔ code &&& 0x7F = keyLshift) := by
  decide +kernel

theorem stripped_pressed : ∀ code : UInt8, ¬code &&& 0x80 ≠ 0 →
    code &&& 0x7F = code ∧ (isShiftCode code = true ↔ code = keyLshift) := by
  decide +kernel

theorem onKey_keyboard (t : Terminal) (code : UInt8) : (onKey t code).keyboard = keyboardNext t.keyboard code := by
  unfold onKey keyboardNext
  dsimp only
  by_cases usual : isUsualKey code = true
  · obtain ⟨caps, shift⟩ := isUsualKey_modifier usual
    rw [if_pos usual, if_pos usual, if_neg caps, if_neg shift]
    split_ifs <;> rfl
  · rw [if_neg usual, if_neg usual]
    by_cases released : code &&& 0x80 ≠ 0
    · obtain ⟨caps, shift⟩ := stripped_released code released
      rw [if_pos released, if_neg caps]
      simp only [shift]
      split_ifs <;> rfl
    · obtain ⟨same, shift⟩ := stripped_pressed code released
      rw [if_neg released, same]
      simp only [shift]
      by_cases back : code = keyBackspace
      · rw [back]
        rfl
      · rw [if_neg back]
        split_ifs <;> rfl

/-- Both fields count codes, and forget which of the shift codes they have seen. -/
theorem codes_keyboard (t : Terminal) (start : t.keyboard = keyboardStateInit) (codes : List UInt8) :
    (codes.foldl onKey t).keyboard = ⟨capsLocked codes, (shiftCodes codes).length % 2 == 1⟩ := by
  induction codes using List.reverseRecOn with
  | nil => exact start
  | append_singleton codes code ih =>
      rw [List.foldl_append, List.foldl_cons, List.foldl_nil, onKey_keyboard, ih, keyboardNext]
      have odd : ∀ n : Nat, (!(n % 2 == 1)) = ((n + 1) % 2 == 1) := by
        intro n
        rcases Nat.mod_two_eq_zero_or_one n with even | odd <;> simp [Nat.add_mod, *]
      by_cases caps : code = keyCaps
      · subst caps
        have shift : isShiftCode keyCaps = false := by decide
        simp [capsLocked, shiftCodes, List.filter_append, shift, odd]
      · by_cases shift : isShiftCode code = true
        · simp [capsLocked, shiftCodes, List.filter_append, caps, shift, odd]
        · simp [capsLocked, shiftCodes, List.filter_append, caps, shift]

/-! ## The letters -/

def misprintedKey : UInt8 := 0x1F

/-- The table of the source agrees with the keys, but for the upper case of the `s` key. -/
theorem letterKeys_table :
    (letterKeys.all fun entry => entry.1 &&& 0x80 == 0 && isUsualKey entry.1 && entry.1 &&& 0x7F == entry.1 &&
      (scanToAscii entry.1).normalAsciiCode == entry.2 && (scanToAscii entry.1).capsAsciiCode != entry.2 &&
      entry.2 - 0x20 != entry.2 &&
      ((scanToAscii entry.1).capsAsciiCode == entry.2 - 0x20) == (entry.1 != misprintedKey)) = true := by
  decide +kernel

theorem some_toUInt32_inj {c d : UInt8} : some c.toUInt32 = some d.toUInt32 ↔ c = d := by
  rw [Option.some.injEq, ← UInt32.toNat_inj, UInt8.toNat_toUInt32, UInt8.toNat_toUInt32, UInt8.toNat_inj]

theorem keyChar_letter (keyboard : KeyboardState) {key letter : UInt8} (entry : (key, letter) ∈ letterKeys)
    (upper : Bool) : keyChar keyboard key = some (inCase upper letter).toUInt32 ↔
      shouldEnableUpperCase keyboard = upper ∧ ¬(key = misprintedKey ∧ upper = true) := by
  have table := List.all_eq_true.mp letterKeys_table (key, letter) entry
  simp only [Bool.and_eq_true, beq_iff_eq, bne_iff_ne] at table
  obtain ⟨⟨⟨⟨⟨⟨pressed, usual⟩, stripped⟩, normal⟩, other⟩, cases⟩, caps⟩ := table
  have caps : (scanToAscii key).capsAsciiCode = letter - 0x20 ↔ key ≠ misprintedKey := by
    rw [← beq_iff_eq, caps, bne_iff_ne]
  rw [keyChar, if_neg (not_not.mpr pressed), if_pos usual, stripped, some_toUInt32_inj, normal]
  cases shouldEnableUpperCase keyboard with
  | true =>
      cases upper with
      | true => simpa [inCase] using caps
      | false => simpa [inCase] using other
  | false =>
      cases upper with
      | true => simpa [inCase] using cases.symm
      | false => simp [inCase]

/-- For every stream of codes, a letter key shows its letter in the right case exactly if the
parity of the shift codes agrees with the last one of them, and no upper-case `S` is wanted. -/
theorem letter_echoed_iff (t : Terminal) (start : t.keyboard = keyboardStateInit) (codes : List UInt8)
    {key letter : UInt8} (entry : (key, letter) ∈ letterKeys) :
    Echoes (codes.foldl onKey t) key (inCase (upperCaseWanted codes) letter) ↔
      ((shiftCodes codes).length % 2 = 1 ↔ (shiftCodes codes).getLast? = some keyLshift) ∧
        ¬(key = misprintedKey ∧ upperCaseWanted codes = true) := by
  have parity : shouldEnableUpperCase (codes.foldl onKey t).keyboard = upperCaseWanted codes ↔
      ((shiftCodes codes).length % 2 == 1) = ((shiftCodes codes).getLast? == some keyLshift) := by
    rw [codes_keyboard t start, upperCaseWanted, shouldEnableUpperCase, shiftHeld]
    exact Bool.xor_right_inj
  rw [echoes_iff, keyChar_letter _ entry, parity, Bool.eq_iff_iff, beq_iff_eq, beq_iff_eq]

theorem letter_echoed_held :
    Echoes ([keyLshift, 0x1E, 0x9E].foldl onKey blankTerminal) 0x1E 0x41 :=
  (letter_echoed_iff blankTerminal rfl [keyLshift, 0x1E, 0x9E] (show (0x1E, 0x61) ∈ letterKeys by decide)).mpr
    ⟨by decide, by decide⟩

/-- A second code of the held shift key, as the keyboard repeats it, turns upper case off. -/
theorem repeated_shift_lower :
    (0x1E, 0x61) ∈ letterKeys ∧ upperCaseWanted [keyLshift, keyLshift] = true ∧
      ¬Echoes ([keyLshift, keyLshift].foldl onKey blankTerminal) 0x1E 0x41 ∧
      Echoes ([keyLshift, keyLshift].foldl onKey blankTerminal) 0x1E 0x61 := by
  refine ⟨by decide, by decide, ?_, ?_⟩
  · rw [echoes_iff]
    decide
  · rw [echoes_iff]
    decide

end WegOS
