import WegOS.DataStruct
import WegOS.Lib.Transition

/-! Runs of the queues' functions from an empty queue on. -/

namespace WegOS

open CircularQueue Transition

/-- A queue, and what `pid_dequeue` has returned so far. -/
structure QueueRun where
  queue : PidQueue
  answers : List Nat

def QueueRun.next (r : QueueRun) : Call Nat → QueueRun
  | .enqueue pid => { r with queue := pidEnqueue r.queue pid }
  | .dequeue => ⟨(pidDequeue r.queue).2, r.answers ++ [(pidDequeue r.queue).1]⟩

def queueRun (calls : List (Call Nat)) : QueueRun := calls.foldl QueueRun.next ⟨pidQueueInit, []⟩

def Outstanding (calls : List (Call Nat)) : Prop :=
  ∀ before, before <+: calls → (history before).waiting.length ≤ maxGdtTerms - 1

theorem queueRun_append (calls : List (Call Nat)) (call : Call Nat) :
    queueRun (calls ++ [call]) = (queueRun calls).next call := by
  rw [queueRun, List.foldl_append]
  rfl

theorem Outstanding.front {calls : List (Call Nat)} {call : Call Nat} (room : Outstanding (calls ++ [call])) :
    Outstanding calls := fun before front => room before (front.trans (List.prefix_append calls [call]))

theorem outstanding_of_length {calls : List (Call Nat)} (short : calls.length ≤ maxGdtTerms - 1) :
    Outstanding calls := by
  intro before front
  have waiting := foldl_waiting_length_le ⟨[], []⟩ before
  have length := front.length_le
  simp only [history, List.length_nil] at waiting ⊢
  omega

/-- What the queue and its answers have in common with the history of the calls. The
indices count the elements that came and left. -/
structure QueueRun.Follows (r : QueueRun) (came : Nat) (h : History Nat) : Prop where
  holds : r.queue.Holds h.waiting
  answers : r.answers = h.served.map (·.getD notFound)
  head : r.queue.head = h.dequeued.length % maxGdtTerms
  tail : r.queue.tail = came % maxGdtTerms

theorem QueueRun.Follows.enqueue {r : QueueRun} {came : Nat} {h : History Nat} (follows : r.Follows came h)
    (pid : Nat) (space : h.waiting.length + 1 < maxGdtTerms) :
    (r.next (.enqueue pid)).Follows (came + 1) (h.next (.enqueue pid)) where
  holds := pidEnqueue_holds follows.holds pid space
  answers := follows.answers
  head := follows.head
  tail := by
    have moved : (r.next (.enqueue pid)).queue.tail = (r.queue.tail + 1) % maxGdtTerms := rfl
    rw [moved, follows.tail, Nat.mod_add_mod]

theorem QueueRun.Follows.dequeue {r : QueueRun} {came : Nat} {h : History Nat} (follows : r.Follows came h) :
    (r.next .dequeue).Follows came (h.next .dequeue) := by
  have holds := follows.holds
  have answers := follows.answers
  have head := follows.head
  cases waiting : h.waiting with
  | nil =>
      rw [waiting] at holds
      have nothing := pidDequeue_empty holds
      constructor
      · simpa [QueueRun.next, History.next, waiting, nothing] using holds
      · simp [QueueRun.next, History.next, waiting, nothing, answers]
      · simpa [QueueRun.next, History.next, History.dequeued, waiting, nothing] using head
      · simpa [QueueRun.next, nothing] using follows.tail
  | cons pid rest =>
      rw [waiting] at holds
      have some : pidQueueLength r.queue ≠ 0 := (pidQueueLength_eq_zero holds).not.mpr (List.cons_ne_nil pid rest)
      obtain ⟨first, later⟩ := CircularQueue.Holds.pop holds
      have result : pidDequeue r.queue = (pid, { r.queue with head := incPidQueueIndex r.queue.head }) := by
        rw [pidDequeue, if_neg some, first]
      constructor
      · rw [QueueRun.next, History.next, result, waiting]
        exact later
      · simp [QueueRun.next, History.next, waiting, result, answers]
      · have moved : (r.next .dequeue).queue.head = (r.queue.head + 1) % maxGdtTerms := by
          simp [QueueRun.next, result, incPidQueueIndex]
        rw [moved, head, Nat.mod_add_mod]
        simp [History.next, History.dequeued, waiting]
      · simpa [QueueRun.next, result] using follows.tail

/-- The circular array follows the list, however often its indices wrap around. -/
theorem queueRun_follows {calls : List (Call Nat)} (room : Outstanding calls) :
    (queueRun calls).Follows (enqueued calls).length (history calls) := by
  induction calls using List.reverseRecOn with
  | nil => exact ⟨pidQueueInit_holds, rfl, rfl, rfl⟩
  | append_singleton calls call ih =>
      have before := ih room.front
      rw [queueRun_append, history_append]
      cases call with
      | enqueue pid =>
          have length : (enqueued (calls ++ [.enqueue pid])).length = (enqueued calls).length + 1 := by
            simp [enqueued, Call.item?]
          have space := room _ (List.prefix_refl _)
          rw [history_append] at space
          simp only [History.next, List.length_append, List.length_singleton] at space
          rw [length]
          apply before.enqueue pid
          simp only [maxGdtTerms] at space ⊢
          omega
      | dequeue =>
          have same : enqueued (calls ++ [.dequeue]) = enqueued calls := by simp [enqueued, Call.item?]
          rw [same]
          exact before.dequeue

/-! ## Dequeues -/

theorem pidDequeue_notFound_iff {q : PidQueue} {items : List Nat} (holds : q.Holds items) :
    (pidDequeue q).1 = notFound ↔ items = [] ∨ items.head? = some notFound := by
  cases items with
  | nil =>
      rw [pidDequeue_empty holds]
      simp
  | cons pid rest =>
      obtain ⟨q', result, -⟩ := pidDequeue_cons holds
      rw [result]
      simp

theorem dequeued_eq_enqueued_iff (calls : List (Call Nat)) :
    (history calls).dequeued = enqueued calls ↔ (history calls).waiting = [] := by
  rw [← dequeued_append_waiting calls]
  exact List.self_eq_append_right

/-- The dequeues return what was enqueued, in order and each element once; one returns
`NOT_FOUND` exactly if every element has been dequeued, or if the next element is `NOT_FOUND`. -/
theorem queue_dequeues_in_order (calls : List (Call Nat)) (room : Outstanding calls) :
    (queueRun calls).answers = (history calls).served.map (·.getD notFound) ∧
      (history calls).dequeued ++ (history calls).waiting = enqueued calls ∧
      ((pidDequeue (queueRun calls).queue).1 = notFound ↔
        (history calls).dequeued = enqueued calls ∨ (history calls).waiting.head? = some notFound) := by
  have follows := queueRun_follows room
  refine ⟨follows.answers, dequeued_append_waiting calls, ?_⟩
  rw [dequeued_eq_enqueued_iff]
  exact pidDequeue_notFound_iff follows.holds

theorem queue_dequeues_two :
    (queueRun [.enqueue 5, .dequeue, .dequeue, .enqueue 7]).answers = [5, notFound] ∧
      (pidDequeue (queueRun [.enqueue 5, .dequeue, .dequeue, .enqueue 7]).queue).1 ≠ notFound := by
  have order := queue_dequeues_in_order [.enqueue 5, .dequeue, .dequeue, .enqueue 7]
    (outstanding_of_length (by decide))
  exact ⟨order.1.trans rfl, order.2.2.not.mpr (by decide)⟩

/-- `NOT_FOUND` can be enqueued as well, and is then returned while elements wait. -/
theorem notFound_while_waiting :
    ∃ calls, Outstanding calls ∧ (pidDequeue (queueRun calls).queue).1 = notFound ∧
      (history calls).dequeued ≠ enqueued calls :=
  ⟨[.enqueue notFound, .enqueue 5], outstanding_of_length (by decide), by decide, by decide⟩

/-! ## The length -/

theorem pidQueueLength_eq_iff {q : PidQueue} {items : List Nat} (holds : q.Holds items) :
    pidQueueLength q = items.length ↔ q.head ≤ q.tail := by
  have first := holds.head_lt
  have last := CircularQueue.Holds.tail_lt holds
  have length := CircularQueue.Holds.length_eq holds
  simp only [pidQueueLength, maxGdtTerms] at first last length ⊢
  by_cases after : q.head ≤ q.tail
  · rw [Int.tmod_eq_emod_of_nonneg (by omega)]
    omega
  · rw [show (q.tail : Int) - q.head = -((q.head : Int) - q.tail) by omega, Int.neg_tmod,
      Int.tmod_eq_emod_of_nonneg (by omega)]
    omega

/-- `tail` is below `head` when it has gone around the array once more. -/
theorem QueueRun.Follows.head_le_tail_iff {r : QueueRun} {came : Nat} {h : History Nat}
    (follows : r.Follows came h) (conserved : h.dequeued.length + h.waiting.length = came) :
    r.queue.head ≤ r.queue.tail ↔ h.dequeued.length / maxGdtTerms = came / maxGdtTerms := by
  have room := follows.holds.room
  rw [follows.head, follows.tail]
  simp only [maxGdtTerms] at room ⊢
  omega

/-- `pid_queue_length` counts the elements exactly while `tail` and `head` have wrapped
around equally often. -/
theorem pidQueueLength_outstanding (calls : List (Call Nat)) (room : Outstanding calls) :
    pidQueueLength (queueRun calls).queue = (history calls).waiting.length ↔
      (history calls).dequeued.length / maxGdtTerms = (enqueued calls).length / maxGdtTerms := by
  have follows := queueRun_follows room
  have conserved := congrArg List.length (dequeued_append_waiting calls)
  rw [List.length_append] at conserved
  exact (pidQueueLength_eq_iff follows.holds).trans (follows.head_le_tail_iff conserved)

theorem pidQueueLength_three : pidQueueLength (queueRun [.enqueue 5, .enqueue 6, .dequeue, .enqueue 7]).queue = 2 :=
  (pidQueueLength_outstanding [.enqueue 5, .enqueue 6, .dequeue, .enqueue 7]
    (outstanding_of_length (by decide))).mpr (by decide)

theorem Outstanding.append {calls more : List (Call Nat)} (room : Outstanding calls)
    (space : (history calls).waiting.length + more.length ≤ maxGdtTerms - 1) : Outstanding (calls ++ more) := by
  intro before front
  rcases List.prefix_or_prefix_of_prefix front (List.prefix_append calls more) with early | ⟨later, rfl⟩
  · exact room before early
  · have length := ((List.prefix_append_right_inj calls).mp front).length_le
    have waiting := foldl_waiting_length_le (history calls) later
    rw [history, List.foldl_append]
    exact waiting.trans (by omega)

theorem history_enqueues (calls : List (Call Nat)) (count pid : Nat) :
    history (calls ++ List.replicate count (.enqueue pid)) =
      ⟨(history calls).waiting ++ List.replicate count pid, (history calls).served⟩ := by
  induction count with
  | zero => simp
  | succ count ih =>
      rw [List.replicate_succ', List.replicate_succ', ← List.append_assoc, history_append, ih, ← List.append_assoc]
      rfl

def oneAndThen (count pid : Nat) : List (Call Nat) :=
  [.enqueue pid, .dequeue] ++ List.replicate count (.enqueue pid)

theorem oneAndThen_outstanding {count : Nat} (room : count ≤ maxGdtTerms - 1) (pid : Nat) :
    Outstanding (oneAndThen count pid) := by
  have short : [Call.enqueue pid, .dequeue].length ≤ maxGdtTerms - 1 := show 2 ≤ 8191 by decide
  apply Outstanding.append (outstanding_of_length short)
  rw [List.length_replicate]
  exact (Nat.zero_add count).le.trans room

theorem oneAndThen_history (count pid : Nat) :
    history (oneAndThen count pid) = ⟨List.replicate count pid, [some pid]⟩ :=
  history_enqueues [.enqueue pid, .dequeue] count pid

theorem oneAndThen_enqueued (count pid : Nat) : (enqueued (oneAndThen count pid)).length = 1 + count := by
  rw [← dequeued_append_waiting, oneAndThen_history, List.length_append, List.length_replicate]
  rfl

theorem oneAndThen_full (pid : Nat) : (queueRun (oneAndThen (maxGdtTerms - 1) pid)).queue.tail = 0 ∧
    (queueRun (oneAndThen (maxGdtTerms - 1) pid)).queue.head = 1 := by
  have follows := queueRun_follows (oneAndThen_outstanding (Nat.le_refl _) pid)
  constructor
  · rw [follows.tail, oneAndThen_enqueued]
    decide
  · rw [follows.head, oneAndThen_history]
    exact Nat.mod_eq_of_lt (show 1 < maxGdtTerms by decide)

/-- A full queue whose `tail` is at the start of the array has another length for the C. -/
theorem pidQueueLength_wrong :
    ∃ calls, Outstanding calls ∧ pidQueueLength (queueRun calls).queue ≠ (history calls).waiting.length := by
  have room := oneAndThen_outstanding (Nat.le_refl (maxGdtTerms - 1)) 5
  obtain ⟨tail, head⟩ := oneAndThen_full 5
  refine ⟨_, room, ?_⟩
  rw [ne_eq, pidQueueLength_eq_iff (queueRun_follows room).holds, tail, head]
  decide

end WegOS
