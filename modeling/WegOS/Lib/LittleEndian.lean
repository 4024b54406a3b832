import Mathlib.Tactic

/-! Little-endian 32-bit words in byte-addressed storage.

The storage is any function from places to bytes; a word is read through the
four places that hold it, so that the same lemmas serve arrays indexed by
naturals and memories indexed by machine addresses. -/

namespace LittleEndian

def leWord (b : Nat → UInt8) : UInt32 :=
  UInt32.ofNat ((b 0).toNat + 256 * (b 1).toNat + 65536 * (b 2).toNat + 16777216 * (b 3).toNat)

def leByte (word : UInt32) (k : Nat) : UInt8 := UInt8.ofNat (word.toNat / 256 ^ k)

theorem leWord_toNat (b : Nat → UInt8) : (leWord b).toNat =
    (b 0).toNat + 256 * (b 1).toNat + 65536 * (b 2).toNat + 16777216 * (b 3).toNat := by
  have h0 := (b 0).toNat_lt
  have h1 := (b 1).toNat_lt
  have h2 := (b 2).toNat_lt
  have h3 := (b 3).toNat_lt
  rw [leWord, UInt32.toNat_ofNat']
  omega

theorem leByte_toNat (word : UInt32) (k : Nat) :
    (leByte word k).toNat = word.toNat / 256 ^ k % 256 := by
  simp [leByte]

theorem leWord_congr {b c : Nat → UInt8} (agree : ∀ k < 4, b k = c k) : leWord b = leWord c := by
  simp only [leWord, agree 0 (by decide), agree 1 (by decide), agree 2 (by decide),
    agree 3 (by decide)]

@[simp] theorem leWord_leByte (word : UInt32) : leWord (leByte word) = word := by
  apply UInt32.toNat_inj.mp
  have bound := word.toNat_lt
  rw [leWord_toNat]
  simp only [leByte_toNat]
  omega

theorem leByte_leWord (b : Nat → UInt8) {k : Nat} (bound : k < 4) : leByte (leWord b) k = b k := by
  apply UInt8.toNat_inj.mp
  have h0 := (b 0).toNat_lt
  have h1 := (b 1).toNat_lt
  have h2 := (b 2).toNat_lt
  have h3 := (b 3).toNat_lt
  rw [leByte_toNat, leWord_toNat]
  interval_cases k <;> omega

theorem leByte_testBit (word : UInt32) (k bit : Nat) : (leByte word k).toNat.testBit bit =
    (decide (bit < 8) && word.toNat.testBit (8 * k + bit)) := by
  rw [leByte_toNat, show (256 : Nat) = 2 ^ 8 from rfl, ← Nat.pow_mul, Nat.testBit_mod_two_pow,
    Nat.testBit_div_two_pow, Nat.add_comm bit]

section Storage

variable {α : Type} [DecidableEq α]

/-- The word held by the places `place 0` to `place 3`. -/
def wordAt (m : α → UInt8) (place : Nat → α) : UInt32 := leWord fun k => m (place k)

def putWord (m : α → UInt8) (place : Nat → α) (word : UInt32) : α → UInt8 :=
  Function.update (Function.update (Function.update (Function.update m
    (place 0) (leByte word 0)) (place 1) (leByte word 1)) (place 2) (leByte word 2))
    (place 3) (leByte word 3)

def Places (place : Nat → α) : Prop := ∀ i < 4, ∀ j < 4, place i = place j → i = j

theorem putWord_outside (m : α → UInt8) (place : Nat → α) (word : UInt32) (i : α)
    (outside : ∀ k < 4, i ≠ place k) : putWord m place word i = m i := by
  simp [putWord, Function.update_of_ne (outside 0 (by decide)),
    Function.update_of_ne (outside 1 (by decide)), Function.update_of_ne (outside 2 (by decide)),
    Function.update_of_ne (outside 3 (by decide))]

theorem putWord_inside (m : α → UInt8) {place : Nat → α} (word : UInt32) (places : Places place)
    {k : Nat} (bound : k < 4) : putWord m place word (place k) = leByte word k := by
  have ne : ∀ i < 4, ∀ j < 4, i ≠ j → place i ≠ place j :=
    fun i hi j hj different equal => different (places i hi j hj equal)
  interval_cases k
  · simp [putWord, Function.update_of_ne (ne 0 (by decide) 1 (by decide) (by decide)),
      Function.update_of_ne (ne 0 (by decide) 2 (by decide) (by decide)),
      Function.update_of_ne (ne 0 (by decide) 3 (by decide) (by decide))]
  · simp [putWord, Function.update_of_ne (ne 1 (by decide) 2 (by decide) (by decide)),
      Function.update_of_ne (ne 1 (by decide) 3 (by decide) (by decide))]
  · simp [putWord, Function.update_of_ne (ne 2 (by decide) 3 (by decide) (by decide))]
  · simp [putWord]

omit [DecidableEq α] in
theorem wordAt_congr {m m' : α → UInt8} {place : Nat → α}
    (agree : ∀ k < 4, m (place k) = m' (place k)) : wordAt m place = wordAt m' place :=
  leWord_congr agree

theorem wordAt_putWord (m : α → UInt8) {place : Nat → α} (word : UInt32) (places : Places place) :
    wordAt (putWord m place word) place = word := by
  calc
    _ = leWord (leByte word) := leWord_congr fun _ bound => putWord_inside m word places bound
    _ = word := leWord_leByte word

theorem wordAt_putWord_apart (m : α → UInt8) (place other : Nat → α) (word : UInt32)
    (apart : ∀ i < 4, ∀ j < 4, other i ≠ place j) :
    wordAt (putWord m place word) other = wordAt m other :=
  wordAt_congr fun i hi => putWord_outside m place word (other i) (apart i hi)

theorem putWord_wordAt (m : α → UInt8) {place : Nat → α} (places : Places place) :
    putWord m place (wordAt m place) = m := by
  funext i
  by_cases inside : ∃ k < 4, i = place k
  · obtain ⟨k, bound, rfl⟩ := inside
    rw [putWord_inside m _ places bound, wordAt, leByte_leWord _ bound]
  · exact putWord_outside m place _ i fun k bound equal => inside ⟨k, bound, equal⟩

end Storage

/-- The places of a word in an array indexed by naturals, or by the offsets
(negative ones included) from a pointer. -/
def arrayPlace {α : Type} [AddMonoidWithOne α] (start : α) (k : Nat) : α := start + k

theorem arrayPlace_places {α : Type} [AddMonoidWithOne α] [IsLeftCancelAdd α] [CharZero α]
    (start : α) : Places (arrayPlace start) := by
  intro i _ j _ equal
  exact Nat.cast_injective (add_left_cancel equal)

def addressPlace (start : UInt32) (k : Nat) : UInt32 := start + UInt32.ofNat k

theorem addressPlace_places (start : UInt32) : Places (addressPlace start) := by
  intro i hi j hj equal
  have same := congrArg UInt32.toNat equal
  simp only [addressPlace, UInt32.toNat_add, UInt32.toNat_ofNat'] at same
  omega

theorem addressPlace_toNat {start : UInt32} (aligned : start.toNat % 4 = 0) {k : Nat} (bound : k < 4) :
    (addressPlace start k).toNat = start.toNat + k := by
  have small := start.toNat_lt
  simp only [addressPlace, UInt32.toNat_add, UInt32.toNat_ofNat']
  omega

theorem addressPlace_apart {a b : UInt32} (alignedA : a.toNat % 4 = 0) (alignedB : b.toNat % 4 = 0)
    (different : a ≠ b) : ∀ i < 4, ∀ j < 4, addressPlace a i ≠ addressPlace b j := by
  intro i hi j hj equal
  have same := congrArg UInt32.toNat equal
  rw [addressPlace_toNat alignedA hi, addressPlace_toNat alignedB hj] at same
  exact different (UInt32.toNat_inj.mp (by omega))

end LittleEndian
