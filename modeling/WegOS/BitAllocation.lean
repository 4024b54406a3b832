import WegOS.Bit
import WegOS.Lib.LittleEndian

/-! First-fit allocation over a bitmap in memory. -/

namespace WegOS

open LittleEndian

/-- `bits` is the memory around the pointer of the C structure, by offset from
it; only the offsets in `[0, size / 8)` are the bitmap's own. -/
structure Bitmap where
  bits : Int → UInt8
  size : Nat

/-- `setbit` on the 32-bit word whose first byte is `bits[i]`. -/
def setbitAt (bits : Int → UInt8) (i : Int) (index : Nat) (value : Bool) : Int → UInt8 :=
  putWord bits (arrayPlace i) (setbit (wordAt bits (arrayPlace i)) index value)

/-- The inner loop of `bit_alloc`: the lowest bit of the byte that equals `want`. -/
def firstBit (byte : UInt8) (want : Bool) : Option Nat :=
  (List.range 8).find? fun j => testbit byte.toUInt32 (UInt8.ofNat j) == want

/-- The outer loop of `bit_alloc`, with `left` bytes to look at from byte `i` on. -/
def bitAllocFrom (bitmap : Bitmap) (want : Bool) : Nat → Nat → Int × Bitmap
  | 0, _ => (-1, bitmap)
  | left + 1, i =>
      if (want && bitmap.bits i != 0) || (!want && bitmap.bits i != 0xFF) then
        match firstBit (bitmap.bits i) want with
        | some j => (i * 8 + j, { bitmap with bits := setbitAt bitmap.bits i j !want })
        | none => bitAllocFrom bitmap want left (i + 1)
      else bitAllocFrom bitmap want left (i + 1)

def bitAlloc (bitmap : Bitmap) (want : Bool) : Int × Bitmap :=
  bitAllocFrom bitmap want (bitmap.size / 8) 0

/-- The index is signed; `index & 7` of two's complement is the remainder. -/
def bitFree (bitmap : Bitmap) (index : Int) (want : Bool) : Bitmap :=
  { bitmap with bits := setbitAt bitmap.bits (index >>> (3 : Nat)) (index % 8).toNat want }

def bitBind (bits : Int → UInt8) (size : Nat) : Bitmap := ⟨bits, size⟩

def Bitmap.bit (bitmap : Bitmap) (n : Int) : Bool :=
  (bitmap.bits (n / 8)).toNat.testBit (n % 8).toNat

def Bitmap.Least (bitmap : Bitmap) (want : Bool) (n : Nat) : Prop :=
  n < bitmap.size ∧ bitmap.bit n = want ∧ ∀ earlier < n, bitmap.bit earlier = !want

theorem Bitmap.ext_bit {first second : Bitmap} (size : first.size = second.size)
    (bits : ∀ n, first.bit n = second.bit n) : first = second := by
  have bytes : first.bits = second.bits := by
    funext i
    apply UInt8.toNat_inj.mp
    apply Nat.eq_of_testBit_eq
    intro j
    by_cases inside : j < 8
    · have here := bits (8 * i + j)
      have quotient : (8 * i + j) / 8 = i := by omega
      have remainder : ((8 * i + j) % 8).toNat = j := by omega
      rwa [Bitmap.bit, Bitmap.bit, quotient, remainder] at here
    · have high : 2 ^ 8 ≤ 2 ^ j := Nat.pow_le_pow_right (by decide) (Nat.not_lt.mp inside)
      rw [Nat.testBit_lt_two_pow (Nat.lt_of_lt_of_le (first.bits i).toNat_lt high),
        Nat.testBit_lt_two_pow (Nat.lt_of_lt_of_le (second.bits i).toNat_lt high)]
  calc
    first = ⟨first.bits, first.size⟩ := rfl
    _ = ⟨second.bits, second.size⟩ := by rw [bytes, size]
    _ = second := rfl

theorem setbitAt_testBit (bits : Int → UInt8) (i : Int) {j : Nat} (bound : j < 8) (value : Bool)
    (n : Int) : (setbitAt bits i j value (n / 8)).toNat.testBit (n % 8).toNat =
      if n = 8 * i + j then value else (bits (n / 8)).toNat.testBit (n % 8).toNat := by
  have remainder : (n % 8).toNat < 8 := by omega
  by_cases inside : ∃ k < 4, n / 8 = arrayPlace i k
  · obtain ⟨k, small, place⟩ := inside
    have byteOf : (bits (n / 8)).toNat.testBit (n % 8).toNat =
        (wordAt bits (arrayPlace i)).toNat.testBit (8 * k + (n % 8).toNat) := by
      rw [place, ← leByte_leWord (fun k => bits (arrayPlace i k)) small, leByte_testBit]
      simp [remainder, wordAt]
    have position : (8 * k + (n % 8).toNat = j) ↔ n = 8 * i + j := by
      simp only [arrayPlace] at place
      omega
    rw [setbitAt, byteOf, place, putWord_inside _ _ (arrayPlace_places i) small, leByte_testBit,
      setbit_testBit _ (by omega)]
    simp [remainder, position]
  · have elsewhere : n ≠ 8 * i + j := by
      rintro rfl
      apply inside
      exact ⟨0, by decide, by simp only [arrayPlace]; omega⟩
    rw [setbitAt, putWord_outside _ _ _ _ fun k small equal => inside ⟨k, small, equal⟩,
      if_neg elsewhere]

@[simp] theorem bitFree_size (bitmap : Bitmap) (index : Int) (want : Bool) :
    (bitFree bitmap index want).size = bitmap.size := rfl

@[simp] theorem bitFree_bit (bitmap : Bitmap) (index : Int) (want : Bool) (n : Int) :
    (bitFree bitmap index want).bit n = if n = index then want else bitmap.bit n := by
  have whole : (8 : Int) * (index >>> (3 : Nat)) + ((index % 8).toNat : Int) = index := by
    rw [Int.shiftRight_eq_div_pow]
    omega
  have step := setbitAt_testBit bitmap.bits (index >>> (3 : Nat)) (j := (index % 8).toNat) (by omega) want n
  rwa [whole] at step

theorem byte_testbit (byte : UInt8) {j : Nat} (bound : j < 8) :
    testbit byte.toUInt32 (UInt8.ofNat j) = byte.toNat.testBit j := by
  have digit : (UInt8.ofNat j).toNat = j := by
    rw [UInt8.toNat_ofNat']
    omega
  rw [testbit_eq _ (by omega), digit, UInt8.toNat_toUInt32]

theorem firstBit_some {byte : UInt8} {want : Bool} {j : Nat} (found : firstBit byte want = some j) :
    j < 8 ∧ byte.toNat.testBit j = want ∧ ∀ i < j, byte.toNat.testBit i = !want := by
  obtain ⟨hit, i, bound, rfl, before⟩ := List.find?_eq_some_iff_getElem.mp found
  simp only [List.length_range, List.getElem_range] at bound hit before ⊢
  refine ⟨bound, ?_, ?_⟩
  · rw [← byte_testbit byte bound]
    exact eq_of_beq hit
  · intro k smaller
    have miss := before k smaller
    rw [byte_testbit byte (by omega)] at miss
    cases want <;> simpa using miss

theorem firstBit_none {byte : UInt8} {want : Bool} (missing : firstBit byte want = none) :
    ∀ j < 8, byte.toNat.testBit j = !want := by
  intro j bound
  have miss := List.find?_eq_none.mp missing j (List.mem_range.mpr bound)
  rw [byte_testbit byte bound] at miss
  cases want <;> simpa using miss

/-- A byte the outer loop skips has no bit equal to `want`. -/
theorem skipped_byte {byte : UInt8} {want : Bool}
    (skipped : ¬((want && byte != 0) || (!want && byte != 0xFF)) = true) :
    ∀ j < 8, byte.toNat.testBit j = !want := by
  intro j bound
  cases want with
  | true =>
      have zero : byte = 0 := by simpa using skipped
      simp [zero]
  | false =>
      have full : byte = 0xFF := by simpa using skipped
      subst full
      interval_cases j <;> rfl

theorem bit_of_byte (bitmap : Bitmap) (i : Nat) {j : Nat} (bound : j < 8) :
    bitmap.bit (i * 8 + j : Nat) = (bitmap.bits i).toNat.testBit j := by
  have quotient : ((i * 8 + j : Nat) : Int) / 8 = i := by omega
  have remainder : (((i * 8 + j : Nat) : Int) % 8).toNat = j := by omega
  rw [Bitmap.bit, quotient, remainder]

/-- What one pass over the remaining bytes returns, by the first hit if there is one. -/
theorem bitAllocFrom_spec (bitmap : Bitmap) (want : Bool) (left i : Nat)
    (before : ∀ n < i * 8, bitmap.bit n = !want) :
    (∃ n, n < (i + left) * 8 ∧ bitmap.bit n = want ∧ (∀ earlier < n, bitmap.bit earlier = !want) ∧
      bitAllocFrom bitmap want left i = ((n : Int), bitFree bitmap n !want)) ∨
    ((∀ n < (i + left) * 8, bitmap.bit n = !want) ∧
      bitAllocFrom bitmap want left i = (-1, bitmap)) := by
  induction left generalizing i with
  | zero => exact Or.inr ⟨by simpa using before, rfl⟩
  | succ left ih =>
      have total : i + (left + 1) = i + 1 + left := by omega
      have extend : (∀ j < 8, (bitmap.bits i).toNat.testBit j = !want) →
          ∀ n < (i + 1) * 8, bitmap.bit n = !want := by
        intro byte n bound
        by_cases early : n < i * 8
        · exact before n early
        · have shape : n = i * 8 + (n - i * 8) := by omega
          rw [shape, bit_of_byte bitmap i (by omega)]
          exact byte _ (by omega)
      rw [total]
      by_cases look : ((want && bitmap.bits i != 0) || (!want && bitmap.bits i != 0xFF)) = true
      · cases hit : firstBit (bitmap.bits i) want with
        | some j =>
            obtain ⟨bound, value, first⟩ := firstBit_some hit
            refine Or.inl ⟨i * 8 + j, by omega, ?_, ?_, ?_⟩
            · rw [bit_of_byte bitmap i bound, value]
            · intro earlier smaller
              by_cases early : earlier < i * 8
              · exact before earlier early
              · have shape : earlier = i * 8 + (earlier - i * 8) := by omega
                rw [shape, bit_of_byte bitmap i (by omega)]
                exact first _ (by omega)
            · have row : ((i * 8 + j : Nat) : Int) >>> (3 : Nat) = i := by
                rw [Int.shiftRight_eq_div_pow]
                omega
              have column : (((i * 8 + j : Nat) : Int) % 8).toNat = j := by omega
              simp only [bitAllocFrom, look, hit, if_true, bitFree, row, column]
              simp
        | none =>
            have next : bitAllocFrom bitmap want (left + 1) i =
                bitAllocFrom bitmap want left (i + 1) := by
              rw [bitAllocFrom, if_pos look, hit]
            rw [next]
            exact ih (i + 1) (extend (firstBit_none hit))
      · have next : bitAllocFrom bitmap want (left + 1) i =
            bitAllocFrom bitmap want left (i + 1) := by
          rw [bitAllocFrom, if_neg look]
        rw [next]
        exact ih (i + 1) (extend (skipped_byte look))

theorem Bitmap.Least.unique {bitmap : Bitmap} {want : Bool} {m n : Nat}
    (first : bitmap.Least want m) (second : bitmap.Least want n) : m = n := by
  rcases Nat.lt_trichotomy m n with smaller | same | larger
  · have clash := second.2.2 m smaller
    rw [first.2.1] at clash
    cases want <;> simp at clash
  · exact same
  · have clash := first.2.2 n larger
    rw [second.2.1] at clash
    cases want <;> simp at clash

/-- `bit_alloc` takes the least index whose bit equals `want` and flips it. -/
theorem bitAlloc_least {bitmap : Bitmap} {want : Bool} {n : Nat} (whole : bitmap.size % 8 = 0)
    (least : bitmap.Least want n) : bitAlloc bitmap want = ((n : Int), bitFree bitmap n !want) := by
  rcases bitAllocFrom_spec bitmap want (bitmap.size / 8) 0 (by simp) with
    ⟨m, bound, value, first, result⟩ | ⟨missing, _⟩
  · have same : m = n := Bitmap.Least.unique ⟨by omega, value, first⟩ least
    rw [← same]
    exact result
  · have clash := missing n (by have := least.1; omega)
    rw [least.2.1] at clash
    cases want <;> simp at clash

theorem bitAlloc_full {bitmap : Bitmap} {want : Bool}
    (full : ∀ n < bitmap.size, bitmap.bit (n : Nat) = !want) : bitAlloc bitmap want = (-1, bitmap) := by
  rcases bitAllocFrom_spec bitmap want (bitmap.size / 8) 0 (by simp) with
    ⟨m, bound, valueM, _, _⟩ | ⟨_, result⟩
  · have clash := full m (by omega)
    rw [valueM] at clash
    cases want <;> simp at clash
  · exact result

theorem Bitmap.least_or_full (bitmap : Bitmap) (want : Bool) :
    (∃ n, bitmap.Least want n) ∨ ∀ n < bitmap.size, bitmap.bit (n : Nat) = !want := by
  by_cases some : ∃ n, n < bitmap.size ∧ bitmap.bit (n : Nat) = want
  · classical
    refine Or.inl ⟨Nat.find some, (Nat.find_spec some).1, (Nat.find_spec some).2, ?_⟩
    intro earlier smaller
    have miss := Nat.find_min some smaller
    have bound : earlier < bitmap.size := smaller.trans (Nat.find_spec some).1
    cases want <;> simpa [bound] using miss
  · refine Or.inr fun n bound => ?_
    have miss : bitmap.bit (n : Nat) ≠ want := fun value => some ⟨n, bound, value⟩
    cases want <;> simpa using miss

theorem foldl_bitFree (bitmap : Bitmap) (k : Nat) :
    let after := (List.range k).foldl (fun bitmap (i : Nat) => bitFree bitmap i true) bitmap
    after.size = bitmap.size ∧ ∀ n : Nat, after.bit n = if n < k then true else bitmap.bit n := by
  induction k with
  | zero => simp
  | succ k ih =>
      simp only [List.range_succ, List.foldl_append, List.foldl_cons, List.foldl_nil] at ih ⊢
      refine ⟨ih.1, fun n => ?_⟩
      rw [bitFree_bit, ih.2 n]
      simp only [Nat.cast_inj]
      split_ifs <;> first | rfl | omega

end WegOS
