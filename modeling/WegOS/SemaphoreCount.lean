import WegOS.WaitingTasks

/-! The counter of a semaphore, and the tasks it has made to wait, over every run. -/

namespace WegOS

open Transition

/-! ## The calls made so far -/

structure Observed (ι : Type) where
  system : SyncSystem ι
  waits : ι → List Nat
  signals : ι → Nat

section Observed

variable {ι : Type} [DecidableEq ι] {image : KernelImage}

def Observed.note (s : Observed ι) (event : SyncEvent ι) (system : SyncSystem ι) : Observed ι :=
  match event with
  | .task _ => { s with system := system }
  | .wait i =>
      { s with
        system := system
        waits := Function.update s.waits i (s.waits i ++ [s.system.system.kernel.taskManager.pidRunning]) }
  | .signal i => { s with system := system, signals := Function.update s.signals i (s.signals i + 1) }

def observedStep (image : KernelImage) (s : Observed ι) (event : SyncEvent ι) : Option (Observed ι) :=
  (syncStep image s.system event).map (s.note event)

def ObservedStep (image : KernelImage) (s : Observed ι) (event : SyncEvent ι) (t : Observed ι) : Prop :=
  observedStep image s event = some t

/-- No `signal` brings a counter above the largest `int16_t`. -/
def NoOverflow (counts : ι → Nat) (s : Observed ι) : SyncEvent ι → Prop
  | .signal i => counts i + s.signals i + 1 ≤ 32767 + (s.waits i).length
  | .task _ => True
  | .wait _ => True

omit [DecidableEq ι] in
instance (counts : ι → Nat) (s : Observed ι) (event : SyncEvent ι) : Decidable (NoOverflow counts s event) :=
  match event with
  | .signal i => inferInstanceAs (Decidable (counts i + s.signals i + 1 ≤ 32767 + (s.waits i).length))
  | .task _ => isTrue trivial
  | .wait _ => isTrue trivial

def observedStart (image : KernelImage) (k k' : Kernel) (counts : ι → Nat) : Observed ι :=
  ⟨syncStart image k k' fun i => Int16.ofNat (counts i), fun _ => [], fun _ => 0⟩

/-- What a semaphore that started with `count` has to be after its calls: all but the first
`count` + signals waits still wait, in their order. -/
structure CountExact (count : Nat) (s : Observed ι) (i : ι) : Prop where
  counter : (s.system.semaphores i).count.toInt = count + s.signals i - (s.waits i).length
  waiting : s.system.waiters i = (s.waits i).drop (count + s.signals i)

variable {s t : Observed ι} {i : ι} {count : Nat}

omit [DecidableEq ι] in
theorem CountExact.length (exactly : CountExact count s i) :
    ((s.system.waiters i).length : Int) = max 0 (-(s.system.semaphores i).count.toInt) := by
  rw [exactly.waiting, exactly.counter, List.length_drop]
  omega

omit [DecidableEq ι] in
theorem CountExact.returned (exactly : CountExact count s i) :
    (s.waits i).length - (s.system.waiters i).length ≤ count + s.signals i := by
  rw [exactly.waiting, List.length_drop]
  omega

theorem toInt_sub_one {count : Int16} (low : -32768 < count.toInt) : (count - 1).toInt = count.toInt - 1 := by
  have high := count.toInt_lt
  rw [Int16.toInt_sub, show (1 : Int16).toInt = 1 by decide]
  exact Int.bmod_eq_of_le (by omega) (by omega)

theorem toInt_add_one {count : Int16} (high : count.toInt < 32767) : (count + 1).toInt = count.toInt + 1 := by
  have low := count.le_toInt
  rw [Int16.toInt_add, show (1 : Int16).toInt = 1 by decide]
  exact Int.bmod_eq_of_le (by omega) (by omega)

theorem lt_zero_iff {count : Int16} : count < 0 ↔ count.toInt < 0 := by
  rw [Int16.lt_iff_toInt_lt, show (0 : Int16).toInt = 0 by decide]

/-! ## Every call keeps the counts -/

omit [DecidableEq ι] in
theorem CountExact.congr (exactly : CountExact count s i)
    (semaphore : t.system.semaphores i = s.system.semaphores i) (waits : t.waits i = s.waits i)
    (signals : t.signals i = s.signals i) : CountExact count t i := by
  have waiters : t.system.waiters i = s.system.waiters i := by
    rw [SyncSystem.waiters, semaphore]
    rfl
  exact ⟨by rw [semaphore, waits, signals]; exact exactly.counter,
    by rw [waiters, waits, signals]; exact exactly.waiting⟩

theorem CountExact.wait {q : PidQueue} {system : SyncSystem ι} (exactly : CountExact count s i)
    (ok : WaitingIn s.system q) (taken : SyncStep image s.system (.wait i) system) :
    CountExact count (s.note (.wait i) system) i := by
  obtain ⟨busy, -, counter, passed | blocked⟩ := ok.wait taken
  all_goals
    have space : (s.system.waiters i).length + 1 < maxGdtTerms := ok.waiting.waiters_space busy i
    have length := exactly.length
    simp only [maxGdtTerms] at space
    have less : ((s.system.semaphores i).count - 1).toInt = (s.system.semaphores i).count.toInt - 1 :=
      toInt_sub_one (by omega)
    have value := exactly.counter
    have waits : (s.note (.wait i) system).waits i =
        s.waits i ++ [s.system.system.kernel.taskManager.pidRunning] := Function.update_self ..
    have total : ((s.note (.wait i) system).waits i).length = (s.waits i).length + 1 := by
      rw [waits, List.length_append, List.length_singleton]
  · obtain ⟨free, queue, -, -⟩ := passed
    rw [lt_zero_iff, less] at free
    refine ⟨?_, ?_⟩
    · rw [total]
      change (system.semaphores i).count.toInt = count + s.signals i - _
      rw [counter, less, value]
      push_cast
      omega
    · have before : s.system.waiters i = [] := by
        rw [exactly.waiting]
        exact List.drop_eq_nil_of_le (by omega)
      have same : system.waiters i = s.system.waiters i := by
        rw [SyncSystem.waiters, queue]
        rfl
      calc
        _ = s.system.waiters i := same
        _ = [] := before
        _ = _ := (List.drop_eq_nil_of_le (by
          change _ ≤ count + s.signals i
          omega)).symm
  · obtain ⟨taken, waiters, -, -⟩ := blocked
    rw [lt_zero_iff, less] at taken
    refine ⟨?_, ?_⟩
    · rw [total]
      change (system.semaphores i).count.toInt = count + s.signals i - _
      rw [counter, less, value]
      push_cast
      omega
    · calc
        _ = s.system.waiters i ++ [s.system.system.kernel.taskManager.pidRunning] := waiters
        _ = (s.waits i).drop (count + s.signals i) ++ [s.system.system.kernel.taskManager.pidRunning] := by
          rw [exactly.waiting]
        _ = (s.waits i ++ [s.system.system.kernel.taskManager.pidRunning]).drop (count + s.signals i) :=
          (List.drop_append_of_le_length (by omega)).symm
        _ = _ := by
          rw [waits]
          rfl

theorem CountExact.signal {q : PidQueue} {system : SyncSystem ι} (exactly : CountExact count s i)
    (ok : WaitingIn s.system q) (room : count + s.signals i + 1 ≤ 32767 + (s.waits i).length)
    (taken : SyncStep image s.system (.signal i) system) :
    CountExact count (s.note (.signal i) system) i := by
  obtain ⟨-, counter, called⟩ := ok.signal taken
  have value := exactly.counter
  have more : ((s.system.semaphores i).count + 1).toInt = (s.system.semaphores i).count.toInt + 1 :=
    toInt_add_one (by omega)
  have signals : (s.note (.signal i) system).signals i = s.signals i + 1 := Function.update_self ..
  refine ⟨?_, ?_⟩
  · rw [signals]
    change (system.semaphores i).count.toInt = _ - ((s.waits i).length : Int)
    rw [counter, more, value]
    push_cast
    omega
  · rw [signals]
    change system.waiters i = (s.waits i).drop _
    have waiting := exactly.waiting
    rcases called with ⟨nobody, queue, -, -⟩ | ⟨pid, rest, q', own, front, left, -, -⟩
    · have same : system.waiters i = s.system.waiters i := by
        rw [SyncSystem.waiters, queue]
        rfl
      rw [nobody] at waiting
      have short := List.drop_eq_nil_iff.mp waiting.symm
      rw [same, nobody, List.drop_eq_nil_of_le (by omega)]
    · calc
        _ = rest := left
        _ = (s.system.waiters i).drop 1 := by rw [front]; rfl
        _ = ((s.waits i).drop (count + s.signals i)).drop 1 := by rw [waiting]
        _ = (s.waits i).drop (count + (s.signals i + 1)) := by rw [List.drop_drop, Nat.add_assoc]

theorem Observed.step_exact {counts : ι → Nat} {event : SyncEvent ι}
    (start : (∃ q, WaitingIn s.system q) ∧ ∀ i, CountExact (counts i) s i)
    (taken : Guarded (ObservedStep image) (NoOverflow counts) s event t) :
    (∃ q, WaitingIn t.system q) ∧ ∀ i, CountExact (counts i) t i := by
  obtain ⟨⟨q, ok⟩, exactly⟩ := start
  obtain ⟨room, result⟩ := taken
  obtain ⟨system, taken, rfl⟩ := Option.map_eq_some_iff.mp result
  obtain ⟨q', after⟩ := ok.step taken
  cases event with
  | task event =>
      have same := (ok.task taken).2
      exact ⟨⟨q', after⟩, fun i => (exactly i).congr (congrFun same i) rfl rfl⟩
  | wait i =>
      refine ⟨⟨q', after⟩, fun j => ?_⟩
      by_cases own : j = i
      · subst own
        exact (exactly j).wait ok taken
      · have same := congrFun (ok.wait taken).2.1 j
        rw [Function.update_of_ne own] at same
        exact (exactly j).congr same (Function.update_of_ne own ..) rfl
  | signal i =>
      refine ⟨⟨q', after⟩, fun j => ?_⟩
      by_cases own : j = i
      · subst own
        exact (exactly j).signal ok room taken
      · have same := congrFun (ok.signal taken).1 j
        rw [Function.update_of_ne own] at same
        exact (exactly j).congr same rfl (Function.update_of_ne own ..)

structure SemaphoreExact (image : KernelImage) (count : Nat) (s : Observed ι) (i : ι) : Prop where
  counter : (s.system.semaphores i).count.toInt = count + s.signals i - (s.waits i).length
  waiting : s.system.waiters i = (s.waits i).drop (count + s.signals i)
  length : ((s.system.waiters i).length : Int) = max 0 (-(s.system.semaphores i).count.toInt)
  returned : (s.waits i).length - (s.system.waiters i).length ≤ count + s.signals i
  wakes : (s.system.semaphores i).count < 0 → ∃ pid rest, s.system.waiters i = pid :: rest ∧
    (Wakes image s.system i pid rest ↔ pid ∈ s.system.blocked)

/-- In every run the counters and the waiting tasks are those that the calls give. A further
`signal` wakes the longest waiting task exactly if `pid_queue_blocked` has that task. -/
theorem semaphore_exact {idle : IdleImage} {k k' : Kernel} {counts : ι → Nat} {events : List (SyncEvent ι)}
    (unused : k.taskManager.pidQueueSleeping.head = 0 ∧ k.taskManager.pidQueueSleeping.tail = 0)
    (started : schedInit image idle k = some k') (range : ∀ i, counts i ≤ 32767)
    (run : Run (Guarded (ObservedStep image) (NoOverflow counts)) (observedStart image k k' counts) events t) :
    ∀ i, SemaphoreExact image (counts i) t i := by
  have start : (∃ q, WaitingIn (observedStart image k k' counts).system q) ∧
      ∀ i, CountExact (counts i) (observedStart image k k' counts) i := by
    refine ⟨⟨_, (syncStart_waiting _ unused started).waitingIn⟩, fun i => ⟨?_, ?_⟩⟩
    · change (Int16.ofNat (counts i)).toInt = (counts i : Int) + (0 : Nat) - (0 : Nat)
      rw [Int16.toInt_ofNat_of_lt (Nat.lt_succ_of_le (range i))]
      omega
    · exact pidQueueInit_holds.elems_eq.trans List.drop_nil.symm
  obtain ⟨⟨q, ok⟩, exactly⟩ := run.invariant start fun _ _ _ before taken => Observed.step_exact before taken
  intro i
  refine ⟨(exactly i).counter, (exactly i).waiting, (exactly i).length, (exactly i).returned, fun below => ?_⟩
  have length := (exactly i).length
  rw [lt_zero_iff] at below
  cases front : t.system.waiters i with
  | nil =>
      rw [front, List.length_nil] at length
      omega
  | cons pid rest => exact ⟨pid, rest, rfl, ok.wakes_iff front⟩

end Observed

/-! ## Seven tasks wait -/

/-- Tasks 7 to 14 are created. When 7 gets the processor, each of 7 to 13 waits in its turn, and
14 signals three times. -/
def sampleCrowd : List (SyncEvent Unit) :=
  List.replicate 8 (.task (.create 1 0x400000 0x500000 9)) ++ List.replicate 300 (.task .tick) ++
    List.replicate 7 (.wait ()) ++ List.replicate 3 (.signal ())

def sampleCrowdStart : Observed Unit := observedStart sampleImage sampleKernel sampleStart.kernel fun _ => 0

theorem semaphore_exact_crowd :
    ∃ t, Run (Guarded (ObservedStep sampleImage) (NoOverflow fun _ => 0)) sampleCrowdStart sampleCrowd t ∧
      t.system.waiters () = [10, 11, 12, 13] ∧ SemaphoreExact sampleImage 0 t () := by
  have ends : (sampleCrowd.foldlM (fun (s : Observed Unit) event =>
      if NoOverflow (fun _ => 0) s event then observedStep sampleImage s event else none) sampleCrowdStart).map
      (fun t => t.system.waiters ()) = some [10, 11, 12, 13] := by
    decide +kernel
  obtain ⟨t, result, waiters⟩ := Option.map_eq_some_iff.mp ends
  have run := Run.guarded_of_foldlM result
  exact ⟨t, run, waiters, semaphore_exact ⟨rfl, rfl⟩ sampleStart_started (fun _ => by decide) run ()⟩

set_option maxRecDepth 20000 in
/-- Tasks 7 to 25 wait. The first signal takes task 14 out of `pid_queue_blocked` in place of 7; the eighth, for 14,
does not come to an end. -/
theorem signal_misses_waiter :
    ¬∀ events t, Run (Guarded (ObservedStep sampleImage) (NoOverflow fun _ => 0)) sampleCrowdStart events t →
      ∀ pid rest, t.system.waiters () = pid :: rest → Wakes sampleImage t.system () pid rest := by
  intro holds
  have ends : ((List.replicate 20 (SyncEvent.task (.create 1 0x400000 0x500000 9)) ++
      List.replicate 300 (SyncEvent.task .tick) ++ List.replicate 19 (SyncEvent.wait ()) ++
      List.replicate 7 (SyncEvent.signal ())).foldlM (fun (s : Observed Unit) event =>
        if NoOverflow (fun _ => 0) s event then observedStep sampleImage s event else none) sampleCrowdStart).map
        (fun (t : Observed Unit) => (t.system.waiters (), (syncStep sampleImage t.system (.signal ())).isNone)) =
      some (14 :: List.range' 15 11, true) := by
    decide +kernel
  obtain ⟨t, result, values⟩ := Option.map_eq_some_iff.mp ends
  obtain ⟨front, stuck⟩ := by simpa only [Prod.mk.injEq] using values
  obtain ⟨u, taken, -⟩ := holds _ t (Run.guarded_of_foldlM result) 14 _ front
  rw [Option.isNone_iff_eq_none] at stuck
  rw [SyncStep, stuck] at taken
  exact absurd taken (by simp)

end WegOS
