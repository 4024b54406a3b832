import WegOS.QueueRuns

/-! Elements taken out of a queue, by the index of their cell or by their pid. -/

namespace WegOS

open CircularQueue Transition

/-- The indices that the functions leave; the elements are read from the cells between them. -/
structure PidQueue.InArray (q : PidQueue) : Prop where
  head : q.head < maxGdtTerms
  tail : q.tail < maxGdtTerms

theorem PidQueue.InArray.holds {q : PidQueue} (inside : q.InArray) : q.Holds q.elems :=
  holds_contents inside.head inside.tail

theorem PidQueue.Holds.inArray {q : PidQueue} {items : List Nat} (holds : q.Holds items) : q.InArray :=
  ⟨holds.head_lt, CircularQueue.Holds.tail_lt holds⟩

/-! ## By the index -/

inductive QueueOp
  | enqueue (pid : Nat)
  | dequeue
  | delete (i : Nat)

def queueOp (q : PidQueue) : QueueOp → Option PidQueue
  | .enqueue pid => some (pidEnqueue q pid)
  | .dequeue => some (pidDequeue q).2
  | .delete i => pidQueueDelete q i

def PidQueue.Occupied (q : PidQueue) (i : Nat) : Prop := ∃ p < q.elems.length, i = slot maxGdtTerms q.head p

/-- There is room for an element that comes, and an element at the index of one that goes. -/
def QueueOpAllowed (q : PidQueue) : QueueOp → Prop
  | .enqueue _ => q.elems.length + 1 ≤ maxGdtTerms - 1
  | .dequeue => True
  | .delete i => q.Occupied i

def TailMayFall (q : PidQueue) : QueueOp → Prop
  | .delete _ => q.tail ≠ 0
  | _ => True

def QueueOpStep (guard : PidQueue → QueueOp → Prop) : PidQueue → QueueOp → PidQueue → Prop :=
  Guarded (fun q op q' => queueOp q op = some q') guard

/-- `pid_queue_delete` comes to an end, takes out the element at place `p` of the queue and
no other, and leaves both indices inside the array. -/
def RemovesAt (q : PidQueue) (p : Nat) : Prop :=
  ∃ q', pidQueueDelete q (slot maxGdtTerms q.head p) = some q' ∧ q'.elems = q.elems.eraseIdx p ∧ q'.InArray

/-- Below index 0 comes the greatest `uint16_t`. -/
theorem pidQueueDelete_tail {q q' : PidQueue} {i : Nat} (result : pidQueueDelete q i = some q') :
    q'.tail = (q.tail + 65535) % 65536 := by
  simp only [pidQueueDelete, Option.bind_eq_bind] at result
  split_ifs at result
  · simp at result
  · obtain ⟨pids, -, same⟩ := Option.bind_eq_some_iff.mp result
    rw [← Option.some.inj same]

theorem removesAt_iff {q : PidQueue} (inside : q.InArray) {p : Nat} (position : p < q.elems.length) :
    RemovesAt q p ↔ q.tail ≠ 0 := by
  constructor
  · rintro ⟨q', result, -, inArray⟩ start
    have bound := inArray.tail
    rw [pidQueueDelete_tail result, start] at bound
    exact absurd bound (by decide)
  · intro positive
    obtain ⟨q', result, -, -, holds⟩ := pidQueueDelete_holds inside.holds position (Nat.pos_of_ne_zero positive)
    exact ⟨q', result, holds.elems_eq, holds.inArray⟩

theorem QueueOpStep.inArray {q q' : PidQueue} {op : QueueOp} (inside : q.InArray)
    (step : QueueOpStep (fun q op => QueueOpAllowed q op ∧ TailMayFall q op) q op q') : q'.InArray := by
  obtain ⟨⟨allowed, falls⟩, result⟩ := step
  cases op with
  | enqueue pid =>
      obtain rfl := Option.some.inj result
      exact ⟨inside.head, Nat.mod_lt _ (by decide)⟩
  | dequeue =>
      obtain rfl := Option.some.inj result
      rw [pidDequeue]
      split_ifs
      · exact inside
      · exact ⟨Nat.mod_lt _ (by decide), inside.tail⟩
  | delete i =>
      obtain ⟨p, position, rfl⟩ := allowed
      obtain ⟨q'', deleted, -, inArray⟩ := (removesAt_iff inside position).mpr falls
      obtain rfl := Option.some.inj (deleted.symm.trans result)
      exact inArray

theorem pidQueueInit_inArray : pidQueueInit.InArray := pidQueueInit_holds.inArray

/-- In every run whose deletions all come while `tail` is not at the start of the array,
the next deletion is right exactly if it comes at such a time as well. -/
theorem pidQueueDelete_removes_iff {ops : List QueueOp} {q : PidQueue}
    (run : Run (QueueOpStep fun q op => QueueOpAllowed q op ∧ TailMayFall q op) pidQueueInit ops q) {p : Nat}
    (position : p < q.elems.length) : RemovesAt q p ↔ q.tail ≠ 0 := by
  have inside := run.invariant pidQueueInit_inArray fun _ _ _ inside step => QueueOpStep.inArray inside step
  exact removesAt_iff inside position

def callOp : Call Nat → QueueOp
  | .enqueue pid => .enqueue pid
  | .dequeue => .dequeue

theorem queueRun_run {calls : List (Call Nat)} (room : Outstanding calls) (guard : PidQueue → QueueOp → Prop)
    (enqueues : ∀ q pid, q.elems.length + 1 ≤ maxGdtTerms - 1 → guard q (.enqueue pid))
    (dequeues : ∀ q, guard q .dequeue) :
    Run (QueueOpStep guard) pidQueueInit (calls.map callOp) (queueRun calls).queue := by
  induction calls using List.reverseRecOn with
  | nil => exact Run.refl pidQueueInit
  | append_singleton calls call ih =>
      rw [List.map_append, queueRun_append]
      apply Run.tail (ih room.front)
      cases call with
      | enqueue pid =>
          have space := room _ (List.prefix_refl _)
          rw [history_append] at space
          simp only [History.next, List.length_append, List.length_singleton] at space
          refine ⟨enqueues _ pid ?_, rfl⟩
          rw [(queueRun_follows room.front).holds.elems_eq]
          exact space
      | dequeue => exact ⟨dequeues _, rfl⟩

theorem pidQueueDelete_removes_middle : RemovesAt (queueRun [.enqueue 5, .enqueue 6, .enqueue 7]).queue 1 := by
  have run := @queueRun_run [.enqueue 5, .enqueue 6, .enqueue 7] (outstanding_of_length (by decide))
    (fun q op => QueueOpAllowed q op ∧ TailMayFall q op) (fun _ _ space => ⟨space, trivial⟩)
    (fun _ => ⟨trivial, trivial⟩)
  exact (pidQueueDelete_removes_iff run (by decide)).mpr (by decide)

/-- When the queue is full and `tail` at the start of the array, no element can be taken out. -/
theorem pidQueueDelete_leaves_array :
    ∃ ops q, Run (QueueOpStep QueueOpAllowed) pidQueueInit ops q ∧ ∃ p < q.elems.length, ¬RemovesAt q p := by
  have room := oneAndThen_outstanding (Nat.le_refl (maxGdtTerms - 1)) 5
  have holds := (queueRun_follows room).holds
  have some : 0 < (queueRun (oneAndThen (maxGdtTerms - 1) 5)).queue.elems.length := by
    rw [holds.elems_eq, oneAndThen_history, List.length_replicate]
    decide
  refine ⟨_, _, queueRun_run room QueueOpAllowed (fun _ _ space => space) (fun _ => trivial), 0, some, ?_⟩
  rw [removesAt_iff holds.inArray some]
  exact not_not.mpr (oneAndThen_full 5).1

/-! ## By the pid -/

/-- `pid_queue_find` returns the index of the cell of `pid`, with which `pid_queue_delete`
takes out `pid` and nothing else, or finds nothing if there is no such cell. -/
structure FindsIndex (q : PidQueue) (pid : Nat) : Prop where
  found : pid ∈ q.elems → ∃ i, pidQueueFind q pid = some i ∧ q.head ≤ i ∧ i < q.tail ∧ q.pids i = pid ∧
    ∃ q', pidQueueDelete q i = some q' ∧ q'.elems = q.elems.erase pid
  missing : pid ∉ q.elems → pidQueueFind q pid = some notFound

/-- As the pid itself is returned, this is right exactly if `pid` stands in cell `pid`. -/
theorem pidQueueFind_index_iff {q : PidQueue} (order : q.head ≤ q.tail) (bound : q.tail < maxGdtTerms)
    (nodup : q.elems.Nodup) (pid : Nat) :
    FindsIndex q pid ↔ (pid ∈ q.elems → q.head ≤ pid ∧ pid < q.tail ∧ q.pids pid = pid) := by
  have inside : q.InArray := ⟨order.trans_lt bound, bound⟩
  have holds := inside.holds
  constructor
  · intro finds member
    obtain ⟨i, result, low, high, here, -⟩ := finds.found member
    obtain rfl := Option.some.inj ((pidQueueFind_mem holds member).symm.trans result)
    exact ⟨low, high, here⟩
  · intro own
    refine ⟨fun member => ?_, pidQueueFind_not_mem holds⟩
    obtain ⟨low, high, here⟩ := own member
    have place : slot maxGdtTerms q.head (pid - q.head) = pid := by
      rw [slot, if_pos (by omega)]
      omega
    have length : q.elems.length = q.tail - q.head := by
      rw [← CircularQueue.Holds.length_eq holds]
      simp only [maxGdtTerms] at bound ⊢
      omega
    have position : pid - q.head < q.elems.length := by omega
    obtain ⟨q', deleted, erased, -⟩ := (removesAt_iff inside position).mpr (by omega)
    rw [place] at deleted
    refine ⟨pid, pidQueueFind_mem holds member, low, high, here, q', deleted, ?_⟩
    rw [erased, eraseIdx_eq_erase_iff nodup member, List.getElem?_eq_some_iff]
    refine ⟨position, ?_⟩
    rw [← CircularQueue.Holds.cell holds _ position, place, here]

theorem pidQueueFind_index_four : FindsIndex ⟨4, 6, fun i => i⟩ 5 :=
  (pidQueueFind_index_iff (q := ⟨4, 6, fun i => i⟩) (by decide) (by decide) (by decide) 5).mpr
    (fun _ => ⟨by decide, by decide, rfl⟩)

theorem pidQueueFind_not_index : ∃ q pid, q.head ≤ q.tail ∧ q.tail < maxGdtTerms ∧ q.elems.Nodup ∧
    ¬FindsIndex q pid := by
  refine ⟨⟨0, 1, fun _ => 5⟩, 5, by decide, by decide, by decide, fun finds => ?_⟩
  have result : pidQueueFind ⟨0, 1, fun _ => 5⟩ 5 = some 5 := by decide
  obtain ⟨i, found, -, high, -⟩ := finds.found (by decide)
  obtain rfl := Option.some.inj (result.symm.trans found)
  exact absurd high (by decide)

end WegOS
