import WegOS.Lib.CircularQueue

/-! Queues of process identifiers. -/

namespace WegOS

open CircularQueue

def maxGdtTerms : Nat := 8192

def notFound : Nat := 65535

/-- `tail` is the place of the next element. Indices and pids are `uint16_t`. -/
structure PidQueue where
  head : Nat
  tail : Nat
  pids : Nat → Nat

def incPidQueueIndex (i : Nat) : Nat := (i + 1) % maxGdtTerms

/-- The difference is an `int`, and `%` of C rounds towards zero. -/
def pidQueueLength (q : PidQueue) : Nat :=
  (((q.tail : Int) - q.head).tmod maxGdtTerms % 65536).toNat

def pidQueueInit : PidQueue := ⟨0, 0, fun _ => notFound⟩

def pidEnqueue (q : PidQueue) (pid : Nat) : PidQueue :=
  { q with pids := Function.update q.pids q.tail pid, tail := incPidQueueIndex q.tail }

def pidDequeue (q : PidQueue) : Nat × PidQueue :=
  if pidQueueLength q = 0 then (notFound, q)
  else (q.pids q.head, { q with head := incPidQueueIndex q.head })

/-- The loop of `pid_queue_find`; `none` when `fuel` steps do not reach `tail`. -/
def pidQueueFindFrom (q : PidQueue) (pid : Nat) : Nat → Nat → Option Nat
  | 0, _ => none
  | fuel + 1, i =>
      if i = q.tail then some notFound
      else if q.pids i = pid then some pid
      else pidQueueFindFrom q pid fuel (incPidQueueIndex i)

def pidQueueFind (q : PidQueue) (pid : Nat) : Option Nat :=
  pidQueueFindFrom q pid (maxGdtTerms + 1) q.head

/-- The loop of `pid_queue_delete`; `none` when `fuel` steps do not reach `tail`. -/
def pidQueueShift (tail : Nat) : Nat → (Nat → Nat) → Nat → Option (Nat → Nat)
  | 0, _, _ => none
  | fuel + 1, pids, j =>
      if j = tail then some pids
      else pidQueueShift tail fuel (Function.update pids j (pids (incPidQueueIndex j)))
        (incPidQueueIndex j)

/-- `none` where the C writes outside the array or loops for ever: every index
below `maxGdtTerms` is met in as many steps, so that a loop still running then
never ends. -/
def pidQueueDelete (q : PidQueue) (i : Nat) : Option PidQueue := do
  if maxGdtTerms ≤ i then none
  let pids ← pidQueueShift q.tail (maxGdtTerms + 1) q.pids i
  pure { q with pids := pids, tail := (q.tail + 65535) % 65536 }

namespace PidQueue

def elems (q : PidQueue) : List Nat := contents maxGdtTerms q.pids q.head q.tail

def Holds (q : PidQueue) (items : List Nat) : Prop :=
  CircularQueue.Holds maxGdtTerms q.pids q.head q.tail items

/-- A queue that is never dequeued starts at index 0. -/
def HoldsFlat (q : PidQueue) (items : List Nat) : Prop := q.head = 0 ∧ q.Holds items

theorem Holds.elems_eq {q : PidQueue} {items : List Nat} (holds : q.Holds items) : q.elems = items :=
  CircularQueue.Holds.contents_eq holds

theorem HoldsFlat.tail_eq {q : PidQueue} {items : List Nat} (flat : q.HoldsFlat items) :
    q.tail = items.length := by
  have room := flat.2.room
  rw [CircularQueue.Holds.tail_eq flat.2, flat.1, slot, if_pos (by omega), Nat.zero_add]

theorem HoldsFlat.slot_eq {q : PidQueue} {items : List Nat} (flat : q.HoldsFlat items) {k : Nat}
    (bound : k < maxGdtTerms) : slot maxGdtTerms q.head k = k := by
  rw [flat.1, slot, if_pos (by omega), Nat.zero_add]

end PidQueue

theorem pidQueueInit_holds : pidQueueInit.Holds [] := holds_nil (by decide)

theorem pidQueueLength_eq_zero {q : PidQueue} {items : List Nat} (holds : q.Holds items) :
    pidQueueLength q = 0 ↔ items = [] := by
  rw [← CircularQueue.Holds.empty_iff holds]
  have first := holds.head_lt
  have last := CircularQueue.Holds.tail_lt holds
  simp only [pidQueueLength, maxGdtTerms] at first last ⊢
  by_cases after : q.head ≤ q.tail
  · rw [Int.tmod_eq_emod_of_nonneg (by omega)]
    omega
  · rw [show (q.tail : Int) - q.head = -((q.head : Int) - q.tail) by omega, Int.neg_tmod,
      Int.tmod_eq_emod_of_nonneg (by omega)]
    omega

theorem pidEnqueue_holds {q : PidQueue} {items : List Nat} (holds : q.Holds items) (pid : Nat)
    (space : items.length + 1 < maxGdtTerms) : (pidEnqueue q pid).Holds (items ++ [pid]) :=
  CircularQueue.Holds.push holds pid space

theorem pidEnqueue_holdsFlat {q : PidQueue} {items : List Nat} (flat : q.HoldsFlat items) (pid : Nat)
    (space : items.length + 1 < maxGdtTerms) : (pidEnqueue q pid).HoldsFlat (items ++ [pid]) :=
  ⟨flat.1, pidEnqueue_holds flat.2 pid space⟩

theorem pidDequeue_empty {q : PidQueue} (holds : q.Holds []) : pidDequeue q = (notFound, q) := by
  rw [pidDequeue, if_pos ((pidQueueLength_eq_zero holds).mpr rfl)]

theorem pidDequeue_cons {q : PidQueue} {pid : Nat} {items : List Nat} (holds : q.Holds (pid :: items)) :
    ∃ q', pidDequeue q = (pid, q') ∧ q'.Holds items := by
  obtain ⟨front, rest⟩ := CircularQueue.Holds.pop holds
  refine ⟨{ q with head := incPidQueueIndex q.head }, ?_, rest⟩
  rw [pidDequeue, if_neg (by rw [pidQueueLength_eq_zero holds]; simp), front]

/-- The loop of `pid_queue_delete` is as many steps of the shift as lead to `tail`. -/
theorem pidQueueShift_eq {tail steps fuel : Nat} {pids : Nat → Nat} {j : Nat} (start : j < maxGdtTerms)
    (short : steps < maxGdtTerms) (enough : steps < fuel) (last : tail = slot maxGdtTerms j steps) :
    pidQueueShift tail fuel pids j = some (shiftDown maxGdtTerms steps pids j) := by
  induction steps generalizing fuel pids j with
  | zero =>
      obtain ⟨fuel, rfl⟩ := Nat.exists_eq_succ_of_ne_zero (show fuel ≠ 0 by omega)
      rw [slot_zero start] at last
      rw [pidQueueShift, if_pos last.symm, shiftDown]
  | succ steps ih =>
      obtain ⟨fuel, rfl⟩ := Nat.exists_eq_succ_of_ne_zero (show fuel ≠ 0 by omega)
      have next := next_eq_slot start (by omega)
      have notYet : j ≠ tail := by
        intro same
        have zero := slot_injective (by omega) short ((slot_zero start).trans (same.trans last))
        omega
      rw [pidQueueShift, if_neg notYet, shiftDown]
      apply ih
      · exact Nat.mod_lt _ (by decide)
      · omega
      · omega
      · rw [incPidQueueIndex, next, slot_slot start (by omega), Nat.add_comm]
        exact last

theorem pidQueueDelete_of_shift {q : PidQueue} {i steps : Nat} (start : i < maxGdtTerms)
    (short : steps < maxGdtTerms) (last : q.tail = slot maxGdtTerms i steps) (positive : 0 < q.tail) :
    pidQueueDelete q i =
      some { q with pids := shiftDown maxGdtTerms steps q.pids i, tail := q.tail - 1 } := by
  have bound : q.tail < maxGdtTerms := by
    rw [last]
    exact slot_lt start short
  have less : (q.tail + 65535) % 65536 = q.tail - 1 := by
    simp only [maxGdtTerms] at bound
    omega
  have fuel : steps < maxGdtTerms + 1 := by omega
  simp [pidQueueDelete, pidQueueShift_eq start short fuel last, less, start]

/-- With the index of an occupied cell, and `tail` not at the start of the
array, `pid_queue_delete` takes out that element. -/
theorem pidQueueDelete_holds {q : PidQueue} {items : List Nat} (holds : q.Holds items) {p : Nat}
    (position : p < items.length) (positive : 0 < q.tail) :
    ∃ q', pidQueueDelete q (slot maxGdtTerms q.head p) = some q' ∧ q'.head = q.head ∧
      q'.tail = q.tail - 1 ∧ q'.Holds (items.eraseIdx p) := by
  have first := holds.head_lt
  have room := holds.room
  have last : q.tail = slot maxGdtTerms (slot maxGdtTerms q.head p) (items.length - p) := by
    rw [slot_slot first (by omega), Nat.add_sub_cancel' (by omega)]
    exact CircularQueue.Holds.tail_eq holds
  refine ⟨_, pidQueueDelete_of_shift (slot_lt first (by omega)) (by omega) last positive, rfl, rfl, ?_⟩
  exact CircularQueue.Holds.erase holds position positive

theorem pidQueueDelete_holdsFlat {q : PidQueue} {items : List Nat} (flat : q.HoldsFlat items) {p : Nat}
    (position : p < items.length) :
    ∃ q', pidQueueDelete q p = some q' ∧ q'.HoldsFlat (items.eraseIdx p) := by
  have room := flat.2.room
  have positive : 0 < q.tail := by
    rw [flat.tail_eq]
    omega
  obtain ⟨q', result, head, _, holds⟩ := pidQueueDelete_holds flat.2 position positive
  rw [flat.slot_eq (by omega)] at result
  exact ⟨q', result, head.trans flat.1, holds⟩

/-- The element that `pid_queue_delete` really takes out of a queue from index 0
to `tail`, for any index. Beyond `tail` the loop runs around the end of the array. -/
def deletedIndex (tail i : Nat) : Nat := if i < tail then i else if i = tail then tail - 1 else 0

theorem pidQueueDelete_anywhere {q : PidQueue} {items : List Nat} (flat : q.HoldsFlat items) {i : Nat}
    (waiting : items ≠ []) (bound : i < maxGdtTerms) :
    ∃ q', pidQueueDelete q i = some q' ∧ q'.HoldsFlat (items.eraseIdx (deletedIndex items.length i)) := by
  have room := flat.2.room
  have nonzero := List.length_pos_iff.mpr waiting
  have positive : 0 < q.tail := by
    rw [flat.tail_eq]
    exact nonzero
  rcases Nat.lt_trichotomy i items.length with before | last | after
  · rw [deletedIndex, if_pos before]
    exact pidQueueDelete_holdsFlat flat before
  · have stay : q.tail = slot maxGdtTerms i 0 := by rw [slot_zero bound, flat.tail_eq, last]
    refine ⟨_, pidQueueDelete_of_shift bound (by decide) stay positive, flat.1, ?_⟩
    rw [deletedIndex, if_neg (by omega), if_pos last]
    exact CircularQueue.Holds.drop_last flat.2 waiting positive
  · have around : q.tail = slot maxGdtTerms i (maxGdtTerms - i + items.length) := by
      rw [flat.tail_eq, slot]
      split_ifs <;> omega
    refine ⟨_, pidQueueDelete_of_shift bound (by omega) around positive, flat.1, ?_⟩
    rw [deletedIndex, if_neg (by omega), if_neg (by omega)]
    have erased := CircularQueue.Holds.erase_from_gap flat.2 waiting after bound positive
    rw [flat.slot_eq bound] at erased
    exact erased

theorem pidQueueFindFrom_mem {q : PidQueue} {items : List Nat} (holds : q.Holds items) {pid : Nat}
    {k fuel : Nat} (member : pid ∈ items.drop k) (enough : items.length < k + fuel) :
    pidQueueFindFrom q pid fuel (slot maxGdtTerms q.head k) = some pid := by
  have first := holds.head_lt
  have room := holds.room
  have inside : k < items.length := by
    by_contra outside
    rw [List.drop_eq_nil_of_le (by omega)] at member
    simp at member
  induction fuel generalizing k with
  | zero => omega
  | succ fuel ih =>
      have notYet : slot maxGdtTerms q.head k ≠ q.tail := by
        intro same
        have equal := slot_injective (by omega) room
          (same.trans (CircularQueue.Holds.tail_eq holds))
        omega
      rw [pidQueueFindFrom, if_neg notYet, CircularQueue.Holds.cell holds k inside]
      by_cases here : items[k] = pid
      · rw [if_pos here]
      · rw [List.drop_eq_getElem_cons inside] at member
        have later := (List.mem_cons.mp member).resolve_left fun same => here same.symm
        have more : k + 1 < items.length := by
          by_contra outside
          rw [List.drop_eq_nil_of_le (by omega)] at later
          simp at later
        rw [if_neg here, incPidQueueIndex, next_eq_slot (slot_lt first (by omega)) (by decide),
          slot_slot first (by omega)]
        exact ih later (by omega) more

/-- A pid in the queue is its own "index". -/
theorem pidQueueFind_mem {q : PidQueue} {items : List Nat} (holds : q.Holds items) {pid : Nat}
    (member : pid ∈ items) : pidQueueFind q pid = some pid := by
  have room := holds.room
  have start : pidQueueFindFrom q pid (maxGdtTerms + 1) (slot maxGdtTerms q.head 0) = some pid :=
    pidQueueFindFrom_mem holds member (by omega)
  rwa [slot_zero holds.head_lt] at start

theorem pidQueueFindFrom_not_mem {q : PidQueue} {items : List Nat} (holds : q.Holds items) {pid : Nat}
    (outside : pid ∉ items) {k fuel : Nat} (inside : k ≤ items.length) (enough : items.length < k + fuel) :
    pidQueueFindFrom q pid fuel (slot maxGdtTerms q.head k) = some notFound := by
  have first := holds.head_lt
  have room := holds.room
  induction fuel generalizing k with
  | zero => omega
  | succ fuel ih =>
      rcases Nat.lt_or_eq_of_le inside with before | last
      · have notYet : slot maxGdtTerms q.head k ≠ q.tail := by
          intro same
          have equal := slot_injective (by omega) room
            (same.trans (CircularQueue.Holds.tail_eq holds))
          omega
        have other : items[k] ≠ pid := fun same => outside (same ▸ List.getElem_mem before)
        rw [pidQueueFindFrom, if_neg notYet, CircularQueue.Holds.cell holds k before, if_neg other,
          incPidQueueIndex, next_eq_slot (slot_lt first (by omega)) (by decide),
          slot_slot first (by omega)]
        exact ih before (by omega)
      · rw [pidQueueFindFrom, if_pos]
        rw [last]
        exact (CircularQueue.Holds.tail_eq holds).symm

theorem pidQueueFind_not_mem {q : PidQueue} {items : List Nat} (holds : q.Holds items) {pid : Nat}
    (outside : pid ∉ items) : pidQueueFind q pid = some notFound := by
  have room := holds.room
  have start : pidQueueFindFrom q pid (maxGdtTerms + 1) (slot maxGdtTerms q.head 0) = some notFound :=
    pidQueueFindFrom_not_mem holds outside (Nat.zero_le _) (by omega)
  rwa [slot_zero holds.head_lt] at start

theorem eraseIdx_eq_erase_iff {items : List Nat} (nodup : items.Nodup) {pid n : Nat}
    (member : pid ∈ items) : items.eraseIdx n = items.erase pid ↔ items[n]? = some pid := by
  constructor
  · intro same
    obtain ⟨m, inside, here⟩ := List.mem_iff_getElem.mp member
    have gone : pid ∉ items.eraseIdx n := by
      rw [same]
      exact nodup.not_mem_erase
    have equal : m = n := by
      by_contra other
      exact gone (List.mem_eraseIdx_iff_getElem.mpr ⟨m, inside, other, here⟩)
    rw [← equal, List.getElem?_eq_getElem inside, here]
  · intro here
    obtain ⟨inside, rfl⟩ := List.getElem?_eq_some_iff.mp here
    exact (nodup.erase_getElem n inside).symm

end WegOS
