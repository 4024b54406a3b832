import Mathlib.Data.UInt
import WegOS.Lib.CArray

/-! Strings: `strcmp`, `strcpy` and the name of the parent directory.

A string is the list of its characters, without the terminator. -/

namespace WegOS

open CArray

def slash : UInt8 := 47

/-- The string in memory at `start`; `none` when no terminator stands in the next cells. -/
def cstr (mem : Nat → UInt8) (start : Nat) : Nat → Option (List UInt8)
  | 0 => none
  | cells + 1 =>
      if mem start = 0 then some [] else (cstr mem (start + 1) cells).map (mem start :: ·)

def strcmp (str1 str2 : List UInt8) : Nat :=
  if str1.length ≠ str2.length then 1
  else if (List.range str1.length).all fun i => str1[i]? == str2[i]? then 0 else 1

def strcpy (dest : Nat → UInt8) (src : List UInt8) : Nat → UInt8 :=
  memcpy dest 0 (fun i => src.getD i 0) (src.length + 1)

def lastSlash (path : List UInt8) : Nat → Option Nat
  | 0 => none
  | i + 1 => if path[i]? = some slash then some i else lastSlash path i

/-- The `/` at the end of the path is passed over. -/
def getParentDirName (path : List UInt8) : List UInt8 :=
  if path.length = 0 then []
  else
    match lastSlash path (path.length - 1) with
    | none => []
    | some pos => path.take (pos + 1)

theorem strcmp_eq_zero {s t : List UInt8} : strcmp s t = 0 ↔ s = t := by
  unfold strcmp
  constructor
  · intro zero
    split_ifs at zero with length same
    rw [List.all_eq_true] at same
    apply List.ext_getElem? fun i => ?_
    by_cases inside : i < s.length
    · simpa using same i (List.mem_range.mpr inside)
    · rw [List.getElem?_eq_none (by omega), List.getElem?_eq_none (by omega)]
  · rintro rfl
    simp

theorem cstr_eq {mem : Nat → UInt8} {start cells : Nat} {s : List UInt8} (room : s.length < cells)
    (clean : 0 ∉ s) (chars : ∀ i (inside : i < s.length), mem (start + i) = s[i])
    (ends : mem (start + s.length) = 0) : cstr mem start cells = some s := by
  induction s generalizing start cells with
  | nil =>
      obtain ⟨cells, rfl⟩ := Nat.exists_eq_succ_of_ne_zero (show cells ≠ 0 by omega)
      rw [cstr, if_pos (by simpa using ends)]
  | cons c s ih =>
      obtain ⟨cells, rfl⟩ := Nat.exists_eq_succ_of_ne_zero (show cells ≠ 0 by omega)
      simp only [List.length_cons] at room chars ends
      simp only [List.mem_cons, not_or] at clean
      have first : mem start = c := by simpa using chars 0 (by omega)
      have rest : cstr mem (start + 1) cells = some s := by
        apply ih (by omega) clean.2
        · intro i inside
          have char := chars (i + 1) (by omega)
          rw [Nat.add_assoc, Nat.add_comm 1]
          simpa using char
        · rw [Nat.add_assoc, Nat.add_comm 1]
          exact ends
      rw [cstr, first, if_neg (fun zero => clean.1 zero.symm), rest]
      rfl

theorem cstr_length {mem : Nat → UInt8} {start cells : Nat} {s : List UInt8}
    (result : cstr mem start cells = some s) : s.length < cells := by
  induction cells generalizing start s with
  | zero => cases result
  | succ cells ih =>
      rw [cstr] at result
      split_ifs at result with zero
      · rw [← Option.some.inj result]
        exact Nat.zero_lt_succ cells
      · obtain ⟨rest, found, rfl⟩ := Option.map_eq_some_iff.mp result
        exact Nat.succ_lt_succ (ih found)

theorem cstr_congr {mem mem' : Nat → UInt8} {start start' cells cells' : Nat} {s : List UInt8}
    (result : cstr mem start cells = some s)
    (same : ∀ i < cells, mem' (start' + i) = mem (start + i)) (room : cells ≤ cells') :
    cstr mem' start' cells' = some s := by
  induction cells generalizing start start' cells' s with
  | zero => simp [cstr] at result
  | succ cells ih =>
      obtain ⟨cells', rfl⟩ := Nat.exists_eq_succ_of_ne_zero (show cells' ≠ 0 by omega)
      have here : mem' start' = mem start := same 0 (by omega)
      rw [cstr] at result ⊢
      rw [here]
      split_ifs at result ⊢ with stop
      · exact result
      · obtain ⟨rest, found, whole⟩ := Option.map_eq_some_iff.mp result
        have later : cstr mem' (start' + 1) cells' = some rest := by
          apply ih found _ (by omega)
          intro i small
          have shifted := same (i + 1) (by omega)
          rw [Nat.add_assoc, Nat.add_comm 1, shifted, Nat.add_assoc, Nat.add_comm 1]
        rw [later, Option.map_some, whole]

/-! ## Paths -/

def joinPath (components : List (List UInt8)) : List UInt8 := components.flatMap (· ++ [slash])

@[simp] theorem joinPath_nil : joinPath [] = [] := rfl

@[simp] theorem joinPath_cons (c : List UInt8) (rest : List (List UInt8)) :
    joinPath (c :: rest) = c ++ slash :: joinPath rest := by
  simp [joinPath]

theorem joinPath_append (first second : List (List UInt8)) :
    joinPath (first ++ second) = joinPath first ++ joinPath second := by
  simp [joinPath]

theorem joinPath_concat (components : List (List UInt8)) (c : List UInt8) :
    joinPath (components ++ [c]) = joinPath components ++ c ++ [slash] := by
  simp [joinPath]

theorem joinPath_eq_nil {components : List (List UInt8)} : joinPath components = [] ↔ components = [] := by
  cases components with
  | nil => simp
  | cons c rest => simp

theorem lastSlash_skip {path : List UInt8} {m k : Nat}
    (none : ∀ i, m ≤ i → i < m + k → path[i]? ≠ some slash) :
    lastSlash path (m + k) = lastSlash path m := by
  induction k with
  | zero => rfl
  | succ k ih =>
      rw [← Nat.add_assoc, lastSlash, if_neg (none (m + k) (by omega) (by omega))]
      exact ih fun i low high => none i low (by omega)

/-- The parent of `c1/.../cn/` is the path without the last component. -/
theorem getParentDirName_join (components : List (List UInt8)) {c : List UInt8} (clean : slash ∉ c) :
    getParentDirName (joinPath (components ++ [c])) = joinPath components := by
  rw [joinPath_concat]
  have length : (joinPath components ++ c ++ [slash]).length - 1 =
      (joinPath components).length + c.length := by simp
  have skipped : lastSlash (joinPath components ++ c ++ [slash])
      ((joinPath components).length + c.length) =
        lastSlash (joinPath components ++ c ++ [slash]) (joinPath components).length := by
    apply lastSlash_skip
    intro i low high found
    rw [List.append_assoc, List.getElem?_append_right low,
      List.getElem?_append_left (by omega)] at found
    exact clean (List.mem_of_getElem? found)
  rw [getParentDirName, if_neg (by simp), length, skipped]
  rcases List.eq_nil_or_concat components with rfl | ⟨init, last, rfl⟩
  · simp [lastSlash]
  · have size : (joinPath (init.concat last)).length = (joinPath init ++ last).length + 1 := by
      rw [List.concat_eq_append, joinPath_concat, List.length_append, List.length_singleton]
    have found : (joinPath (init.concat last) ++ c ++ [slash])[(joinPath init ++ last).length]? =
        some slash := by
      rw [List.concat_eq_append, joinPath_concat, List.append_assoc, List.append_assoc,
        List.getElem?_append_right (Nat.le_refl _)]
      simp
    rw [size, lastSlash, if_pos found]
    simp only
    rw [← size, List.append_assoc, List.take_left']
    rfl

end WegOS
