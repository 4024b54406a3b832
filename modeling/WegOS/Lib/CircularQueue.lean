import Mathlib.Tactic

/-! Circular queues in an array of `cap` cells.

The items of a queue stand in the cells from `head` on, around the end of the
array, up to the cell before `tail`; one cell always stays free, so that equal
indices mean the empty queue. -/

namespace CircularQueue

def slot (cap head k : Nat) : Nat := if head + k < cap then head + k else head + k - cap

theorem slot_eq_mod {cap head k : Nat} (first : head < cap) (second : k < cap) :
    (head + k) % cap = slot cap head k := by
  unfold slot
  split_ifs with inside
  · exact Nat.mod_eq_of_lt inside
  · rw [Nat.mod_eq_sub_mod (by omega), Nat.mod_eq_of_lt (by omega)]

theorem next_eq_slot {cap head : Nat} (first : head < cap) (room : 1 < cap) :
    (head + 1) % cap = slot cap head 1 := slot_eq_mod first room

theorem slot_lt {cap head k : Nat} (first : head < cap) (second : k < cap) : slot cap head k < cap := by
  unfold slot
  split_ifs <;> omega

theorem slot_zero {cap head : Nat} (first : head < cap) : slot cap head 0 = head := by
  simp [slot, first]

theorem slot_slot {cap head j k : Nat} (first : head < cap) (sum : j + k < cap) :
    slot cap (slot cap head j) k = slot cap head (j + k) := by
  unfold slot
  split_ifs <;> omega

theorem slot_injective {cap head j k : Nat} (jBound : j < cap) (kBound : k < cap)
    (same : slot cap head j = slot cap head k) : j = k := by
  unfold slot at same
  split_ifs at same <;> omega

section Queue

variable {α : Type} {cap head tail : Nat} {cells : Nat → α} {items : List α}

structure Holds (cap : Nat) (cells : Nat → α) (head tail : Nat) (items : List α) : Prop where
  head_lt : head < cap
  room : items.length < cap
  tail_eq : tail = slot cap head items.length
  cell : ∀ k (inside : k < items.length), cells (slot cap head k) = items[k]

def contents (cap : Nat) (cells : Nat → α) (head tail : Nat) : List α :=
  (List.range ((tail + cap - head) % cap)).map fun k => cells (slot cap head k)

theorem Holds.tail_lt (holds : Holds cap cells head tail items) : tail < cap := by
  rw [holds.tail_eq]
  exact slot_lt holds.head_lt holds.room

theorem Holds.length_eq (holds : Holds cap cells head tail items) :
    (tail + cap - head) % cap = items.length := by
  have first := holds.head_lt
  have room := holds.room
  have last := holds.tail_eq
  unfold slot at last
  split_ifs at last with inside
  · have shape : tail + cap - head = items.length + cap := by omega
    rw [shape, Nat.add_mod_right, Nat.mod_eq_of_lt room]
  · have shape : tail + cap - head = items.length := by omega
    rw [shape, Nat.mod_eq_of_lt room]

theorem Holds.contents_eq (holds : Holds cap cells head tail items) :
    contents cap cells head tail = items := by
  apply List.ext_getElem
  · simp [contents, holds.length_eq]
  · intro k _ inside
    simp only [contents, List.getElem_map, List.getElem_range]
    exact holds.cell k inside

/-- Indices inside the array always describe a queue. -/
theorem holds_contents (first : head < cap) (last : tail < cap) :
    Holds cap cells head tail (contents cap cells head tail) := by
  have length : (contents cap cells head tail).length = (tail + cap - head) % cap := by
    simp [contents]
  refine ⟨first, ?_, ?_, ?_⟩
  · rw [length]
    exact Nat.mod_lt _ (by omega)
  · rw [length]
    by_cases after : head ≤ tail
    · have shape : (tail + cap - head) % cap = tail - head := by
        rw [show tail + cap - head = tail - head + cap by omega, Nat.add_mod_right,
          Nat.mod_eq_of_lt (by omega)]
      rw [shape]
      unfold slot
      split_ifs <;> omega
    · rw [Nat.mod_eq_of_lt (by omega)]
      unfold slot
      split_ifs <;> omega
  · intro k inside
    simp [contents]

theorem holds_nil (first : head < cap) : Holds cap cells head head ([] : List α) :=
  ⟨first, Nat.zero_lt_of_lt first, (slot_zero first).symm, fun _ inside => absurd inside (by simp)⟩

theorem Holds.empty_iff (holds : Holds cap cells head tail items) : tail = head ↔ items = [] := by
  constructor
  · intro same
    have zero := slot_injective holds.room (Nat.zero_lt_of_lt holds.head_lt)
      (holds.tail_eq.symm.trans (same.trans (slot_zero holds.head_lt).symm))
    exact List.eq_nil_of_length_eq_zero zero
  · rintro rfl
    exact holds.tail_eq.trans (slot_zero holds.head_lt)

theorem Holds.push (holds : Holds cap cells head tail items) (item : α)
    (space : items.length + 1 < cap) :
    Holds cap (Function.update cells tail item) head ((tail + 1) % cap) (items ++ [item]) := by
  have first := holds.head_lt
  refine ⟨first, by simpa using space, ?_, ?_⟩
  · rw [next_eq_slot holds.tail_lt (by omega), holds.tail_eq, slot_slot first space,
      List.length_append, List.length_singleton]
  · intro k inside
    rw [List.length_append, List.length_singleton] at inside
    by_cases old : k < items.length
    · have other : slot cap head k ≠ tail := by
        intro same
        have equal := slot_injective (by omega) holds.room (same.trans holds.tail_eq)
        omega
      rw [Function.update_of_ne other, List.getElem_append_left old]
      exact holds.cell k old
    · have last : k = items.length := by omega
      subst last
      rw [← holds.tail_eq, Function.update_self, List.getElem_append_right (Nat.le_refl _)]
      simp

theorem Holds.pop {item : α} (holds : Holds cap cells head tail (item :: items)) :
    cells head = item ∧ Holds cap cells ((head + 1) % cap) tail items := by
  have first := holds.head_lt
  have room := holds.room
  rw [List.length_cons] at room
  have next := next_eq_slot first (by omega)
  constructor
  · have front := holds.cell 0 (by simp)
    rwa [slot_zero first] at front
  · refine ⟨by rw [next]; exact slot_lt first (by omega), by omega, ?_, ?_⟩
    · rw [next, slot_slot first (by omega), holds.tail_eq, List.length_cons, Nat.add_comm]
    · intro k inside
      have later := holds.cell (k + 1) (by simpa using inside)
      rw [next, slot_slot first (by omega), Nat.add_comm]
      simpa using later

end Queue

/-! ## Moving cells one place towards the front -/

section Shift

variable {α : Type}

def shiftDown (cap : Nat) : Nat → (Nat → α) → Nat → (Nat → α)
  | 0, cells, _ => cells
  | steps + 1, cells, j =>
      shiftDown cap steps (Function.update cells j (cells ((j + 1) % cap))) ((j + 1) % cap)

theorem shiftDown_outside {cap steps : Nat} {cells : Nat → α} {j : Nat} (first : j < cap)
    (short : steps < cap) {i : Nat} (outside : ∀ k < steps, i ≠ slot cap j k) :
    shiftDown cap steps cells j i = cells i := by
  induction steps generalizing cells j with
  | zero => rfl
  | succ steps ih =>
      have next := next_eq_slot first (by omega)
      rw [shiftDown, ih (by rw [next]; exact slot_lt first (by omega)) (by omega)]
      · have here := outside 0 (by omega)
        rw [slot_zero first] at here
        exact Function.update_of_ne here _ _
      · intro k small
        rw [next, slot_slot first (by omega), Nat.add_comm]
        exact outside (k + 1) (by omega)

theorem shiftDown_inside {cap steps : Nat} {cells : Nat → α} {j : Nat} (first : j < cap)
    (short : steps < cap) {k : Nat} (inside : k < steps) :
    shiftDown cap steps cells j (slot cap j k) = cells (slot cap j (k + 1)) := by
  induction steps generalizing cells j k with
  | zero => omega
  | succ steps ih =>
      have next := next_eq_slot first (by omega)
      have nextLt : (j + 1) % cap < cap := by
        rw [next]
        exact slot_lt first (by omega)
      rw [shiftDown]
      cases k with
      | zero =>
          rw [shiftDown_outside nextLt (by omega)]
          · rw [slot_zero first, Function.update_self, next]
          · intro i small same
            rw [next, slot_slot first (by omega)] at same
            have equal := slot_injective (by omega) (by omega) same
            omega
      | succ k =>
          have shifted : slot cap j (k + 1) = slot cap ((j + 1) % cap) k := by
            rw [next, slot_slot first (by omega), Nat.add_comm]
          have other : slot cap ((j + 1) % cap) (k + 1) ≠ j := by
            rw [next, slot_slot first (by omega)]
            intro same
            have equal := slot_injective (by omega) (by omega)
              (same.trans (slot_zero first).symm)
            omega
          rw [shifted, ih nextLt (by omega) (by omega), Function.update_of_ne other, next,
            slot_slot first (by omega), Nat.add_comm 1]

variable {cap head tail : Nat} {cells : Nat → α} {items : List α}

theorem holds_eraseIdx (holds : Holds cap cells head tail items) {cells' : Nat → α} {p last : Nat}
    (position : p < items.length) (lastEq : last = slot cap head (items.length - 1))
    (before : ∀ k < p, cells' (slot cap head k) = cells (slot cap head k))
    (after : ∀ k, p ≤ k → k + 1 < items.length →
      cells' (slot cap head k) = cells (slot cap head (k + 1))) :
    Holds cap cells' head last (items.eraseIdx p) := by
  have length := List.length_eraseIdx_of_lt position
  refine ⟨holds.head_lt, ?_, ?_, ?_⟩
  · rw [length]
    have room := holds.room
    omega
  · rw [length]
    exact lastEq
  · intro k inside
    rw [length] at inside
    rw [List.getElem_eraseIdx]
    by_cases early : k < p
    · rw [dif_pos early, before k early]
      exact holds.cell k (by omega)
    · rw [dif_neg early, after k (by omega) (by omega)]
      exact holds.cell (k + 1) (by omega)

theorem Holds.last_slot (holds : Holds cap cells head tail items) (positive : 0 < tail)
    (some : items ≠ []) : tail - 1 = slot cap head (items.length - 1) := by
  have first := holds.head_lt
  have room := holds.room
  have nonzero := List.length_pos_iff.mpr some
  rw [holds.tail_eq] at positive ⊢
  unfold slot at positive ⊢
  split_ifs at positive ⊢ <;> omega

/-- Shifting from the cell of item `p` up to `tail` takes that item out. -/
theorem Holds.erase (holds : Holds cap cells head tail items) {p : Nat} (position : p < items.length)
    (positive : 0 < tail) :
    Holds cap (shiftDown cap (items.length - p) cells (slot cap head p)) head (tail - 1)
      (items.eraseIdx p) := by
  have first := holds.head_lt
  have room := holds.room
  have startLt : slot cap head p < cap := slot_lt first (by omega)
  apply holds_eraseIdx holds position
    (holds.last_slot positive (List.length_pos_iff.mp (by omega)))
  · intro k early
    apply shiftDown_outside startLt (by omega)
    intro i small same
    rw [slot_slot first (by omega)] at same
    have equal := slot_injective (by omega) (by omega) same
    omega
  · intro k late more
    obtain ⟨i, rfl⟩ := Nat.exists_eq_add_of_le late
    rw [← slot_slot first (by omega), shiftDown_inside startLt (by omega) (by omega),
      slot_slot first (by omega), Nat.add_assoc]

/-- Started in a free cell behind the queue, the shift runs around the array
and through the whole queue, and so takes out the front item. -/
theorem Holds.erase_from_gap (holds : Holds cap cells head tail items) {q : Nat} (some : items ≠ [])
    (gap : items.length < q) (bound : q < cap) (positive : 0 < tail) :
    Holds cap (shiftDown cap (cap - q + items.length) cells (slot cap head q)) head (tail - 1)
      (items.eraseIdx 0) := by
  have first := holds.head_lt
  have nonzero := List.length_pos_iff.mpr some
  have startLt : slot cap head q < cap := slot_lt first bound
  have around : ∀ k < items.length, slot cap head k = slot cap (slot cap head q) (cap - q + k) := by
    intro k small
    unfold slot
    split_ifs <;> omega
  apply holds_eraseIdx holds nonzero (holds.last_slot positive some)
  · intro k early
    omega
  · intro k _ more
    rw [around k (by omega), shiftDown_inside startLt (by omega) (by omega), around (k + 1) more,
      Nat.add_assoc]

theorem Holds.drop_last (holds : Holds cap cells head tail items) (some : items ≠ [])
    (positive : 0 < tail) : Holds cap cells head (tail - 1) (items.eraseIdx (items.length - 1)) := by
  have nonzero := List.length_pos_iff.mpr some
  apply holds_eraseIdx holds (by omega) (holds.last_slot positive some)
  · intro k _
    rfl
  · intro k late more
    omega

end Shift

/-! ## What a queue is for -/

section History

variable {α : Type}

inductive Call (α : Type)
  | enqueue (item : α)
  | dequeue

/-- The items that wait, and what each `dequeue` has got: nothing if none waited. -/
structure History (α : Type) where
  waiting : List α
  served : List (Option α)

def History.next (h : History α) : Call α → History α
  | .enqueue item => { h with waiting := h.waiting ++ [item] }
  | .dequeue => ⟨h.waiting.tail, h.served ++ [h.waiting.head?]⟩

def history (calls : List (Call α)) : History α := calls.foldl History.next ⟨[], []⟩

def Call.item? : Call α → Option α
  | .enqueue item => some item
  | .dequeue => none

def enqueued (calls : List (Call α)) : List α := calls.filterMap Call.item?

def History.dequeued (h : History α) : List α := h.served.filterMap id

theorem history_append (calls : List (Call α)) (call : Call α) :
    history (calls ++ [call]) = (history calls).next call := by
  rw [history, List.foldl_append]
  rfl

/-- Every item that came has left, once and in its turn, or waits. -/
theorem dequeued_append_waiting (calls : List (Call α)) :
    (history calls).dequeued ++ (history calls).waiting = enqueued calls := by
  induction calls using List.reverseRecOn with
  | nil => rfl
  | append_singleton calls call ih =>
      have split : enqueued (calls ++ [call]) = enqueued calls ++ enqueued [call] := List.filterMap_append
      rw [history_append, split, ← ih]
      cases call with
      | enqueue item => exact (List.append_assoc _ _ _).symm
      | dequeue =>
          cases waiting : (history calls).waiting with
          | nil => simp [History.next, History.dequeued, enqueued, Call.item?, waiting]
          | cons item rest => simp [History.next, History.dequeued, enqueued, Call.item?, waiting]

theorem foldl_waiting_length_le (h : History α) (calls : List (Call α)) :
    (calls.foldl History.next h).waiting.length ≤ h.waiting.length + calls.length := by
  induction calls generalizing h with
  | nil => exact Nat.le_refl _
  | cons call rest ih =>
      have later := ih (h.next call)
      have one : (h.next call).waiting.length ≤ h.waiting.length + 1 := by
        cases call with
        | enqueue item => simp [History.next]
        | dequeue => simp [History.next]; omega
      rw [List.foldl_cons, List.length_cons]
      omega

end History

end CircularQueue
