import Mathlib.Data.Nat.Digits.Lemmas
import Mathlib.Tactic

/-! Numerals: the texts of integers in a radix up to 16. -/

namespace Numeral

def zero : UInt8 := 48

def minus : UInt8 := 45

def digitChar (d : Nat) : UInt8 := UInt8.ofNat (if d < 10 then 48 + d else 87 + d)

def digitValue (c : UInt8) : Option Nat :=
  if 48 ≤ c.toNat ∧ c.toNat ≤ 57 then some (c.toNat - 48)
  else if 97 ≤ c.toNat ∧ c.toNat ≤ 102 then some (c.toNat - 87)
  else none

def pushDigit (radix value : Nat) (c : UInt8) : Option Nat := do
  let d ← digitValue c
  if d < radix then some (value * radix + d) else none

def parseDigits (radix : Nat) (s : List UInt8) : Option Nat :=
  if s = [] then none else s.foldlM (pushDigit radix) 0

def signed (s : List UInt8) : Prop := s.head? = some minus

instance (s : List UInt8) : Decidable (signed s) := inferInstanceAs (Decidable (_ = _))

def parse (radix : Nat) (s : List UInt8) : Option Int :=
  if signed s then (parseDigits radix s.tail).map fun n : Nat => -(n : Int)
  else (parseDigits radix s).map fun n : Nat => (n : Int)

/-- Behind the sign there is no leading zero, and zero has no sign. -/
def Canonical (s : List UInt8) : Prop := s = [zero] ∨ (if signed s then s.tail else s).head? ≠ some zero

def digitText (radix n : Nat) : List UInt8 := ((Nat.digits radix n).map digitChar).reverse

def text (radix : Nat) (num : Int) : List UInt8 :=
  if num = 0 then [zero] else (if num < 0 then [minus] else []) ++ digitText radix num.natAbs

theorem digitValue_digitChar {d : Nat} (small : d < 16) : digitValue (digitChar d) = some d := by
  revert small
  revert d
  decide

theorem digitChar_ne_minus {d : Nat} (small : d < 16) : digitChar d ≠ minus := by
  revert small
  revert d
  decide

theorem digitChar_zero_iff {d : Nat} (small : d < 16) : digitChar d = zero ↔ d = 0 := by
  revert small
  revert d
  decide

section Radix

variable {radix : Nat}

theorem digitText_succ (two : 2 ≤ radix) {n : Nat} (positive : 0 < n) :
    digitText radix n = digitText radix (n / radix) ++ [digitChar (n % radix)] := by
  rw [digitText, Nat.digits_def' two positive, List.map_cons, List.reverse_cons]
  rfl

theorem digitText_ne_nil {n : Nat} (positive : 0 < n) : digitText radix n ≠ [] := by
  simp only [digitText, ne_eq, List.reverse_eq_nil_iff, List.map_eq_nil_iff]
  exact Nat.digits_ne_nil_iff_ne_zero.mpr (Nat.ne_of_gt positive)

theorem mem_digitText (two : 2 ≤ radix) (hex : radix ≤ 16) {n : Nat} {c : UInt8} (member : c ∈ digitText radix n) :
    ∃ d < 16, c = digitChar d := by
  obtain ⟨d, inside, rfl⟩ := List.mem_map.mp (List.mem_reverse.mp member)
  exact ⟨d, (Nat.digits_lt_base two inside).trans_le hex, rfl⟩

theorem pushDigit_digitChar (hex : radix ≤ 16) (value : Nat) {d : Nat} (small : d < radix) :
    pushDigit radix value (digitChar d) = some (value * radix + d) := by
  rw [pushDigit, digitValue_digitChar (small.trans_le hex)]
  exact if_pos small

theorem foldlM_digitText (two : 2 ≤ radix) (hex : radix ≤ 16) (n : Nat) :
    (digitText radix n).foldlM (pushDigit radix) 0 = some n := by
  induction n using Nat.strong_induction_on with
  | _ n ih =>
      rcases Nat.eq_zero_or_pos n with rfl | positive
      · simp [digitText]
      · rw [digitText_succ two positive, List.foldlM_append, ih _ (Nat.div_lt_self positive two)]
        have last := pushDigit_digitChar hex (n / radix) (Nat.mod_lt n (show 0 < radix by omega))
        rw [Nat.div_add_mod'] at last
        simpa using last

theorem parseDigits_digitText (two : 2 ≤ radix) (hex : radix ≤ 16) {n : Nat} (positive : 0 < n) :
    parseDigits radix (digitText radix n) = some n := by
  rw [parseDigits, if_neg (digitText_ne_nil positive), foldlM_digitText two hex]

theorem digitText_head (two : 2 ≤ radix) (hex : radix ≤ 16) {n : Nat} (positive : 0 < n) :
    (digitText radix n).head? ≠ some zero ∧ ¬signed (digitText radix n) := by
  constructor
  · rw [digitText, List.head?_reverse, List.getLast?_map]
    have some : Nat.digits radix n ≠ [] := Nat.digits_ne_nil_iff_ne_zero.mpr (Nat.ne_of_gt positive)
    rw [List.getLast?_eq_some_getLast some, Option.map_some, ne_eq, Option.some.injEq, digitChar_zero_iff]
    · exact Nat.getLast_digit_ne_zero radix (Nat.ne_of_gt positive)
    · exact (Nat.digits_lt_base two (List.getLast_mem some)).trans_le hex
  · intro sign
    obtain ⟨d, small, same⟩ := mem_digitText two hex (List.mem_of_head? sign)
    exact digitChar_ne_minus small same.symm

theorem signed_minus (s : List UInt8) : signed (minus :: s) := rfl

theorem parse_text (two : 2 ≤ radix) (hex : radix ≤ 16) (num : Int) : parse radix (text radix num) = some num := by
  rcases Int.lt_trichotomy num 0 with negative | rfl | positive
  · have read := parseDigits_digitText two hex (Int.natAbs_pos.mpr (Int.ne_of_lt negative))
    rw [text, if_neg (Int.ne_of_lt negative), if_pos negative, List.singleton_append, parse,
      if_pos (signed_minus _), List.tail_cons, read, Option.map_some, Option.some.injEq]
    omega
  · have read : parseDigits radix [zero] = some 0 := by
      have digit := pushDigit_digitChar hex 0 (show 0 < radix by omega)
      rw [Nat.zero_mul] at digit
      rw [parseDigits, if_neg (List.cons_ne_nil _ _), List.foldlM_cons, show zero = digitChar 0 by decide, digit]
      rfl
    rw [text, if_pos rfl, parse, if_neg (by decide), read]
    rfl
  · have magnitude := Int.natAbs_pos.mpr (Int.ne_of_gt positive)
    rw [text, if_neg (Int.ne_of_gt positive), if_neg (Int.not_lt.mpr positive.le), List.nil_append, parse,
      if_neg (digitText_head two hex magnitude).2, parseDigits_digitText two hex magnitude, Option.map_some,
      Option.some.injEq]
    omega

theorem text_canonical (two : 2 ≤ radix) (hex : radix ≤ 16) (num : Int) : Canonical (text radix num) := by
  by_cases none : num = 0
  · left
    rw [text, if_pos none]
  · have head := digitText_head two hex (Int.natAbs_pos.mpr none)
    right
    rw [text, if_neg none]
    by_cases negative : num < 0
    · rw [if_pos negative, List.singleton_append, if_pos (signed_minus _)]
      exact head.1
    · rw [if_neg negative, List.nil_append, if_neg head.2]
      exact head.1

theorem parse_eq_none {radix : Nat} {c : UInt8} {s : List UInt8} (strange : digitValue c = none) :
    parse radix (minus :: c :: s) = none := by
  rw [parse, if_pos (signed_minus _), List.tail_cons, parseDigits, if_neg (List.cons_ne_nil _ _), List.foldlM_cons, pushDigit,
    strange]
  rfl

end Radix

end Numeral
