import WegOS.CString
import WegOS.Lib.Numeral

/-! Numbers as text. -/

namespace WegOS

open CArray Numeral

/-- An array of characters, and the indices at which something has been stored. -/
structure TextBuffer where
  cells : Nat → UInt8
  written : List Nat

def TextBuffer.store (b : TextBuffer) (i : Nat) (c : UInt8) : TextBuffer :=
  ⟨Function.update b.cells i c, i :: b.written⟩

def itoaBufferSize : Nat := 32

def reverseFrom : Nat → Nat → Nat → TextBuffer → Option TextBuffer
  | 0, _, _, _ => none
  | fuel + 1, start, stop, str =>
      if start < stop then
        let temp := str.cells start
        reverseFrom fuel (start + 1) (stop - 1) ((str.store start (str.cells stop)).store stop temp)
      else some str

def reverse (str : TextBuffer) (length : Nat) : Option TextBuffer :=
  reverseFrom (length + 1) 0 (length - 1) str

def itoaChar (remainder : Int32) : UInt8 :=
  (if 9 < remainder then remainder - 10 + 97 else remainder + 48).toUInt32.toUInt8

/-- The loop over the digits, with the index behind the last one; `none` when `fuel` steps do
not lead to 0. Division and remainder of C round towards zero. -/
def itoaDigits (radix : Int32) : Nat → Int32 → Nat → TextBuffer → Option (Nat × TextBuffer)
  | 0, _, _, _ => none
  | fuel + 1, num, i, buffer =>
      if num = 0 then some (i, buffer)
      else itoaDigits radix fuel (num / radix) (i + 1) (buffer.store i (itoaChar (num % radix)))

/-- The local buffer, which is not set before, and the text. No `int32_t` has more than 32 digits. The
negation of the least one is that number again. -/
def itoa (buffer text : Nat → UInt8) (num : Int32) (radix : UInt8) : Option (TextBuffer × (Nat → UInt8)) :=
  if num = 0 then some (⟨buffer, []⟩, Function.update (Function.update text 0 zero) 1 0)
  else do
    let isNegative := num < 0
    let num := if isNegative then -num else num
    let (i, buffer) ← itoaDigits (Int32.ofNat radix.toNat) 33 num 0 ⟨buffer, []⟩
    let (i, buffer) := if isNegative then (i + 1, buffer.store i minus) else (i, buffer)
    let buffer ← reverse (buffer.store i 0) i
    pure (buffer, Function.update (memcpy text 0 buffer.cells i) i 0)

/-- The call comes to an end, stores inside its buffer, and writes the canonical numeral,
which reads back as the number. -/
def ItoaOk (num : Int32) (radix : UInt8) : Prop :=
  ∀ buffer text, ∃ buffer' text', itoa buffer text num radix = some (buffer', text') ∧
    (∀ i ∈ buffer'.written, i < itoaBufferSize) ∧
    ∃ s, cstr text' 0 (s.length + 1) = some s ∧ Canonical s ∧ parse radix.toNat s = some num.toInt

/-! ## Characters stored one behind the other -/

def TextBuffer.fill (b : TextBuffer) (i : Nat) : List UInt8 → TextBuffer
  | [] => b
  | c :: cs => (b.store i c).fill (i + 1) cs

theorem TextBuffer.fill_append (b : TextBuffer) (i : Nat) (cs ds : List UInt8) :
    b.fill i (cs ++ ds) = (b.fill i cs).fill (i + cs.length) ds := by
  induction cs generalizing b i with
  | nil => rfl
  | cons c cs ih =>
      rw [List.cons_append, fill, ih, fill, List.length_cons, Nat.add_right_comm]
      rfl

theorem TextBuffer.fill_below (b : TextBuffer) {i j : Nat} (cs : List UInt8) (below : j < i) :
    (b.fill i cs).cells j = b.cells j := by
  induction cs generalizing b i with
  | nil => rfl
  | cons c cs ih =>
      rw [fill, ih (b.store i c) (Nat.lt_succ_of_lt below)]
      exact Function.update_of_ne (Nat.ne_of_lt below) _ _

theorem TextBuffer.fill_inside (b : TextBuffer) (i : Nat) (cs : List UInt8) {k : Nat} (inside : k < cs.length) :
    (b.fill i cs).cells (i + k) = cs[k] := by
  induction cs generalizing b i k with
  | nil => cases inside
  | cons c cs ih =>
      cases k with
      | zero =>
          calc
            _ = (b.store i c).cells i := fill_below (b.store i c) cs (Nat.lt_succ_self i)
            _ = c := Function.update_self ..
      | succ k =>
          have later := ih (b.store i c) (i + 1) (Nat.lt_of_succ_lt_succ inside)
          rwa [Nat.add_right_comm] at later

theorem TextBuffer.fill_written (b : TextBuffer) (i : Nat) (cs : List UInt8) {j : Nat} :
    j ∈ (b.fill i cs).written ↔ j ∈ b.written ∨ (i ≤ j ∧ j < i + cs.length) := by
  induction cs generalizing b i with
  | nil =>
      have none : ¬(i ≤ j ∧ j < i + ([] : List UInt8).length) := fun both => Nat.not_lt.mpr both.1 both.2
      rw [or_iff_left none]
      rfl
  | cons c cs ih =>
      rw [fill, ih, List.length_cons]
      have here : j ∈ (b.store i c).written ↔ j = i ∨ j ∈ b.written := List.mem_cons
      rw [here]
      by_cases old : j ∈ b.written
      · simp [old]
      · simp only [old, or_false, false_or]
        omega

/-! ## The loops -/

theorem reverseFrom_spec {fuel start stop : Nat} (str : TextBuffer) (enough : stop < start + fuel) (one : 0 < fuel) :
    ∃ str', reverseFrom fuel start stop str = some str' ∧
      (∀ j, str'.cells j = if start ≤ j ∧ j ≤ stop then str.cells (start + stop - j) else str.cells j) ∧
      str.written ⊆ str'.written ∧ ∀ j ∈ str'.written, j ∈ str.written ∨ j ≤ stop := by
  induction fuel generalizing start stop str with
  | zero => omega
  | succ fuel ih =>
      rw [reverseFrom]
      split_ifs with apart
      · obtain ⟨str', result, cells, kept, written⟩ := ih
          ((str.store start (str.cells stop)).store stop (str.cells start)) (show stop - 1 < start + 1 + fuel by omega)
          (by omega)
        refine ⟨str', result, fun j => ?_, fun j old => ?_, fun j member => ?_⟩
        · rw [cells j]
          have swapped : ∀ k, ((str.store start (str.cells stop)).store stop (str.cells start)).cells k =
              if k = stop then str.cells start else if k = start then str.cells stop else str.cells k := by
            intro k
            simp only [TextBuffer.store, Function.update_apply]
          rw [swapped, swapped]
          by_cases first : j = start
          · rw [if_neg (by omega), if_neg (by omega), if_pos first, if_pos (by omega), first, Nat.add_sub_cancel_left]
          · by_cases last : j = stop
            · rw [if_neg (by omega), if_pos last, if_pos (by omega), last, Nat.add_sub_cancel]
            · by_cases between : start + 1 ≤ j ∧ j ≤ stop - 1
              · rw [if_pos between, if_neg (by omega), if_neg (by omega), if_pos (by omega),
                  show start + 1 + (stop - 1) - j = start + stop - j by omega]
              · rw [if_neg between, if_neg last, if_neg first, if_neg (by omega)]
        · exact kept (List.mem_cons_of_mem _ (List.mem_cons_of_mem _ old))
        · rcases written j member with new | late
          · rcases List.mem_cons.mp new with rfl | stored
            · exact Or.inr (Nat.le_refl _)
            · rcases List.mem_cons.mp stored with rfl | old
              · exact Or.inr (Nat.le_of_lt apart)
              · exact Or.inl old
          · exact Or.inr (by omega)
      · refine ⟨str, rfl, fun j => ?_, List.Subset.refl _, fun j member => Or.inl member⟩
        split_ifs with here
        · rw [show start + stop - j = j by omega]
        · rfl

theorem toInt_eq_zero_iff {num : Int32} {n : Nat} (value : num.toInt = n) : num = 0 ↔ n = 0 := by
  rw [← Int32.toInt_inj, value]
  simp

theorem itoaChar_digit {remainder : Int32} {d : Nat} (value : remainder.toInt = d) (small : d < 16) :
    itoaChar remainder = digitChar d := by
  have each : ∀ d < 16, itoaChar (Int32.ofNat d) = digitChar d := by decide
  have same : remainder = Int32.ofNat d := by
    rw [← Int32.toInt_inj, value, Int32.toInt_ofNat_of_lt (by omega)]
  rw [same, each d small]

theorem itoaDigits_fill {radix : Int32} {r fuel n : Nat} {num : Int32} (two : 2 ≤ r) (hex : r ≤ 16)
    (base : radix.toInt = r) (value : num.toInt = n) (enough : n < 2 ^ fuel) (i : Nat) (b : TextBuffer) :
    itoaDigits radix (fuel + 1) num i b =
      some (i + (Nat.digits r n).length, b.fill i ((Nat.digits r n).map digitChar)) := by
  induction fuel generalizing n num i b with
  | zero =>
      obtain rfl : n = 0 := by omega
      rw [itoaDigits, if_pos ((toInt_eq_zero_iff value).mpr rfl), Nat.digits_zero]
      rfl
  | succ fuel ih =>
      rcases Nat.eq_zero_or_pos n with rfl | positive
      · rw [itoaDigits, if_pos ((toInt_eq_zero_iff value).mpr rfl), Nat.digits_zero]
        rfl
      · have quotient : (num / radix).toInt = (n / r : Nat) := by
          have small : num ≠ Int32.minValue := by
            intro least
            rw [least, Int32.toInt_minValue] at value
            omega
          rw [Int32.toInt_div_of_ne_left _ _ small, value, base]
          rfl
        have remainder : (num % radix).toInt = (n % r : Nat) := by
          rw [Int32.toInt_mod, value, base]
          rfl
        have smaller : n / r < 2 ^ fuel := by
          rw [Nat.pow_succ] at enough
          have half : n / r ≤ n / 2 := Nat.div_le_div_left two (by decide)
          omega
        rw [itoaDigits, if_neg ((toInt_eq_zero_iff value).not.mpr (Nat.ne_of_gt positive)),
          ih quotient smaller, itoaChar_digit remainder ((Nat.mod_lt n (by omega)).trans_le hex),
          Nat.digits_def' two positive, List.map_cons, List.length_cons, TextBuffer.fill]
        rw [Nat.add_assoc, Nat.add_comm 1]

/-! ## The whole call -/

theorem reverse_spec (str : TextBuffer) {length : Nat} (positive : 0 < length) :
    ∃ str', reverse str length = some str' ∧
      (∀ j, j < length → str'.cells j = str.cells (length - 1 - j)) ∧
      str.written ⊆ str'.written ∧ ∀ j ∈ str'.written, j ∈ str.written ∨ j < length := by
  obtain ⟨str', result, cells, kept, written⟩ := reverseFrom_spec str (show length - 1 < 0 + (length + 1) by omega)
    (Nat.succ_pos length)
  refine ⟨str', result, fun j inside => ?_, kept, fun j member => ?_⟩
  · rw [cells j, if_pos (by omega), Nat.zero_add]
  · rcases written j member with old | early
    · exact Or.inl old
    · exact Or.inr (by omega)

def itoaContent (radix : Nat) (num : Int) : List UInt8 :=
  (Nat.digits radix num.natAbs).map digitChar ++ if num < 0 then [minus] else []

theorem itoaContent_reverse (radix : Nat) {num : Int} (nonzero : num ≠ 0) :
    (itoaContent radix num).reverse = Numeral.text radix num := by
  rw [itoaContent, List.reverse_append, Numeral.text, if_neg nonzero, digitText]
  split_ifs <;> rfl

theorem toInt_magnitude {num : Int32} (bounded : num ≠ Int32.minValue) :
    (if num < 0 then -num else num).toInt = (num.toInt.natAbs : Int) ∧ num.toInt.natAbs < 2 ^ 31 := by
  have low := num.le_toInt
  have high := num.toInt_lt
  have least : num.toInt ≠ -2 ^ 31 := by
    intro same
    exact bounded (Int32.toInt_inj.mp (same.trans Int32.toInt_minValue.symm))
  have sign : num < 0 ↔ num.toInt < 0 := Int32.lt_iff_toInt_lt
  constructor
  · split_ifs with negative
    · rw [sign] at negative
      rw [Int32.toInt_neg, Int.bmod_eq_of_le] <;> omega
    · rw [sign] at negative
      omega
  · omega

theorem itoaDigits_content {num : Int32} {radix : UInt8} (two : 2 ≤ radix.toNat) (hex : radix.toNat ≤ 16)
    (bounded : num ≠ Int32.minValue) (b : TextBuffer) :
    itoaDigits (Int32.ofNat radix.toNat) 33 (if num < 0 then -num else num) 0 b =
      some ((Nat.digits radix.toNat num.toInt.natAbs).length,
        b.fill 0 ((Nat.digits radix.toNat num.toInt.natAbs).map digitChar)) := by
  obtain ⟨value, small⟩ := toInt_magnitude bounded
  have base : (Int32.ofNat radix.toNat).toInt = radix.toNat := Int32.toInt_ofNat_of_lt (by omega)
  have enough : num.toInt.natAbs < 2 ^ 32 := by omega
  rw [itoaDigits_fill two hex base value enough, Nat.zero_add]

theorem itoaContent_filled (b : TextBuffer) (radix : Nat) (num : Int) :
    (if num < 0 then ((Nat.digits radix num.natAbs).length + 1,
        (b.fill 0 ((Nat.digits radix num.natAbs).map digitChar)).store (Nat.digits radix num.natAbs).length minus)
      else ((Nat.digits radix num.natAbs).length, b.fill 0 ((Nat.digits radix num.natAbs).map digitChar))) =
      ((itoaContent radix num).length, b.fill 0 (itoaContent radix num)) := by
  unfold itoaContent
  split_ifs
  · rw [TextBuffer.fill_append, Nat.zero_add, List.length_append, List.length_map]
    rfl
  · rw [List.append_nil, List.length_map]

theorem zero_not_mem_text {radix : Nat} (two : 2 ≤ radix) (hex : radix ≤ 16) (num : Int) :
    0 ∉ Numeral.text radix num := by
  have nonzero : ∀ d < 16, digitChar d ≠ 0 := by decide
  have digits : 0 ∉ digitText radix num.natAbs := by
    intro member
    obtain ⟨d, small, same⟩ := mem_digitText two hex member
    exact nonzero d small same.symm
  rw [Numeral.text]
  split_ifs
  · decide
  · simp [digits, minus]
  · simpa using digits

/-- What the call does for a number other than 0 and the least one: the buffer is used up to
the terminator behind the content, and the text is the numeral. -/
theorem itoa_spec (buffer text : Nat → UInt8) {num : Int32} {radix : UInt8} (two : 2 ≤ radix.toNat)
    (hex : radix.toNat ≤ 16) (nonzero : num ≠ 0) (bounded : num ≠ Int32.minValue) :
    ∃ buffer' text', itoa buffer text num radix = some (buffer', text') ∧
      (∀ i ∈ buffer'.written, i ≤ (itoaContent radix.toNat num.toInt).length) ∧
      (itoaContent radix.toNat num.toInt).length ∈ buffer'.written ∧
      cstr text' 0 ((Numeral.text radix.toNat num.toInt).length + 1) = some (Numeral.text radix.toNat num.toInt) := by
  have sign : num < 0 ↔ num.toInt < 0 := Int32.lt_iff_toInt_lt
  have nonzero' : num.toInt ≠ 0 := fun same => nonzero (Int32.toInt_inj.mp (same.trans (by decide)))
  have turned := itoaContent_reverse radix.toNat nonzero'
  generalize content : itoaContent radix.toNat num.toInt = chars at turned
  have length : (Numeral.text radix.toNat num.toInt).length = chars.length := by rw [← turned, List.length_reverse]
  have positive : 0 < chars.length := by
    have some := @digitText_ne_nil radix.toNat _ (Int.natAbs_pos.mpr nonzero')
    rw [← List.length_reverse, turned, Numeral.text, if_neg nonzero', List.length_append]
    have digits := List.length_pos_iff.mpr some
    omega
  obtain ⟨buffer', result, cells, kept, written⟩ := reverse_spec
    (((⟨buffer, []⟩ : TextBuffer).fill 0 chars).store chars.length 0) positive
  refine ⟨buffer', Function.update (memcpy text 0 buffer'.cells chars.length) chars.length 0, ?_, ?_, ?_, ?_⟩
  · have filled := itoaContent_filled ⟨buffer, []⟩ radix.toNat num.toInt
    rw [content] at filled
    have digits := itoaDigits_content two hex bounded ⟨buffer, []⟩
    rw [itoa, if_neg nonzero]
    by_cases negative : num < 0
    · rw [if_pos (sign.mp negative)] at filled
      obtain ⟨last, signed⟩ := Prod.mk.inj filled
      rw [if_pos negative] at digits
      simp only [if_pos negative, digits, Option.bind_eq_bind, Option.bind_some, signed, last, result]
      rfl
    · rw [if_neg (sign.not.mp negative)] at filled
      obtain ⟨last, unsigned⟩ := Prod.mk.inj filled
      rw [if_neg negative] at digits
      simp only [if_neg negative, digits, Option.bind_eq_bind, Option.bind_some, unsigned, last, result]
      rfl
  · intro i member
    rcases written i member with old | inside
    · rcases List.mem_cons.mp old with rfl | stored
      · exact Nat.le_refl _
      · rcases ((⟨buffer, []⟩ : TextBuffer).fill_written 0 chars).mp stored with none | bounds
        · cases none
        · omega
    · exact Nat.le_of_lt inside
  · exact kept List.mem_cons_self
  · apply cstr_eq (Nat.lt_succ_self _) (zero_not_mem_text two hex num.toInt)
    · intro i inside
      rw [length] at inside
      have place : chars.length - 1 - i < chars.length := by omega
      have char := (⟨buffer, []⟩ : TextBuffer).fill_inside 0 chars place
      rw [Nat.zero_add] at char ⊢
      have other : chars.length - 1 - i ≠ chars.length := by omega
      have kept : ((⟨buffer, []⟩ : TextBuffer).fill 0 chars |>.store chars.length 0).cells (chars.length - 1 - i) =
          ((⟨buffer, []⟩ : TextBuffer).fill 0 chars).cells (chars.length - 1 - i) := Function.update_of_ne other _ _
      rw [Function.update_of_ne (Nat.ne_of_lt inside), memcpy_inside (Nat.zero_le i) (by omega), Nat.sub_zero,
        cells i inside, kept, char]
      simp only [← turned, List.getElem_reverse]
    · rw [length, Nat.zero_add, Function.update_self]

/-! ## When the call is right -/

/-- In every radix but 2 there is room for the sign and the terminator. -/
theorem itoaContent_fits_iff {num : Int32} {radix : UInt8} (two : 2 ≤ radix.toNat)
    (bounded : num ≠ Int32.minValue) :
    (itoaContent radix.toNat num.toInt).length < itoaBufferSize ↔ (radix = 2 → -2 ^ 30 < num.toInt) := by
  obtain ⟨-, small⟩ := toInt_magnitude bounded
  have length : (itoaContent radix.toNat num.toInt).length =
      (Nat.digits radix.toNat num.toInt.natAbs).length + if num.toInt < 0 then 1 else 0 := by
    rw [itoaContent, List.length_append, List.length_map]
    split_ifs <;> rfl
  have fits : ∀ k, (Nat.digits radix.toNat num.toInt.natAbs).length ≤ k ↔ num.toInt.natAbs < radix.toNat ^ k :=
    fun k => Nat.digits_length_le_iff (by omega) num.toInt.natAbs
  rw [length, itoaBufferSize]
  by_cases binary : radix = 2
  · subst binary
    have all := (fits 31).mpr small
    have some : _ ↔ num.toInt.natAbs < 2 ^ 30 := fits 30
    simp only [true_implies]
    split_ifs <;> omega
  · have three : 3 ≤ radix.toNat := by
      have other : radix.toNat ≠ 2 := fun same => binary (UInt8.toNat_inj.mp same)
      omega
    have twenty : (Nat.digits radix.toNat num.toInt.natAbs).length ≤ 20 := by
      rw [fits]
      calc
        num.toInt.natAbs < 2 ^ 31 := small
        _ ≤ 3 ^ 20 := by decide
        _ ≤ radix.toNat ^ 20 := Nat.pow_le_pow_left three 20
    refine iff_of_true ?_ (fun same => absurd same binary)
    split_ifs <;> omega

/-- The remainders of the least number are not positive: its first digit comes before `0`. -/
theorem itoa_least (radix : UInt8) (two : 2 ≤ radix.toNat) (hex : radix.toNat ≤ 16) :
    ((itoa (fun _ => 0) (fun _ => 0) Int32.minValue radix).map fun result =>
      result.2 0 == minus && result.2 1 != 0 && (digitValue (result.2 1)).isNone) = some true := by
  have each : ∀ r < 17, 2 ≤ r → ((itoa (fun _ => 0) (fun _ => 0) Int32.minValue (UInt8.ofNat r)).map fun result =>
      result.2 0 == minus && result.2 1 != 0 && (digitValue (result.2 1)).isNone) = some true := by
    decide +kernel
  have result := each radix.toNat (by omega) two
  rwa [UInt8.ofNat_toNat] at result

theorem cstr_two {mem : Nat → UInt8} {cells : Nat} {s : List UInt8} (result : cstr mem 0 cells = some s)
    (first : mem 0 ≠ 0) (second : mem 1 ≠ 0) : ∃ rest, s = mem 0 :: mem 1 :: rest := by
  match cells with
  | 0 => cases result
  | 1 => simp [cstr, first] at result
  | cells + 2 =>
      simp only [cstr, if_neg first, if_neg second, Option.map_map, Option.map_eq_some_iff] at result
      obtain ⟨rest, -, rfl⟩ := result
      exact ⟨rest, rfl⟩

theorem not_itoaOk_least {radix : UInt8} (two : 2 ≤ radix.toNat) (hex : radix.toNat ≤ 16) :
    ¬ItoaOk Int32.minValue radix := by
  intro ok
  obtain ⟨buffer', text', result, -, s, string, -, read⟩ := ok (fun _ => 0) (fun _ => 0)
  have least := itoa_least radix two hex
  rw [result, Option.map_some, Option.some.injEq] at least
  simp only [Bool.and_eq_true, beq_iff_eq, bne_iff_ne, ne_eq, Option.isNone_iff_eq_none] at least
  obtain ⟨⟨sign, second⟩, strange⟩ := least
  obtain ⟨rest, rfl⟩ := cstr_two string (by rw [sign]; decide) second
  rw [sign, parse_eq_none strange] at read
  cases read

theorem itoaOk_zero {radix : UInt8} (two : 2 ≤ radix.toNat) (hex : radix.toNat ≤ 16) : ItoaOk 0 radix := by
  intro buffer text
  refine ⟨⟨buffer, []⟩, _, if_pos rfl, fun i none => (by cases none), [zero], ?_, Or.inl rfl, parse_text two hex 0⟩
  simp [cstr, zero]

/-- The call is right for every number but the least one, and but the ones from -2³⁰ down in radix 2, whose
terminator comes behind the buffer. -/
theorem itoa_ok_iff (num : Int32) (radix : UInt8) (two : 2 ≤ radix.toNat) (hex : radix.toNat ≤ 16) :
    ItoaOk num radix ↔ num ≠ Int32.minValue ∧ (radix = 2 → -2 ^ 30 < num.toInt) := by
  by_cases least : num = Int32.minValue
  · subst least
    exact iff_of_false (not_itoaOk_least two hex) fun both => both.1 rfl
  by_cases nothing : num = 0
  · subst nothing
    exact iff_of_true (itoaOk_zero two hex) ⟨least, fun _ => by decide⟩
  rw [← itoaContent_fits_iff two least]
  constructor
  · intro ok
    obtain ⟨buffer', text', result, inside, -⟩ := ok (fun _ => 0) (fun _ => 0)
    obtain ⟨buffer'', text'', result', -, terminator, -⟩ := itoa_spec (fun _ => 0) (fun _ => 0) two hex nothing least
    obtain ⟨rfl, rfl⟩ := Prod.mk.inj (Option.some.inj (result.symm.trans result'))
    exact ⟨least, inside _ terminator⟩
  · intro both buffer text
    obtain ⟨buffer', text', result, written, -, string⟩ := itoa_spec buffer text two hex nothing least
    exact ⟨buffer', text', result, fun i member => (written i member).trans_lt both.2, _, string,
      text_canonical two hex _, parse_text two hex _⟩

theorem itoa_ok_hex : ItoaOk (-255) 16 :=
  (itoa_ok_iff (-255) 16 (by decide) (by decide)).mpr ⟨by decide, by decide⟩

theorem itoa_fails : ¬ItoaOk Int32.minValue 10 ∧ ¬ItoaOk (-1073741824) 2 := by
  constructor
  · exact not_itoaOk_least (by decide) (by decide)
  · intro ok
    obtain ⟨buffer', text', result, inside, -⟩ := ok (fun _ => 0) (fun _ => 0)
    have outside : (itoa (fun _ => 0) (fun _ => 0) (-1073741824) 2).any fun result => 32 ∈ result.1.written := by
      decide +kernel
    rw [result] at outside
    exact absurd (inside 32 (by simpa using outside)) (by decide)

end WegOS
