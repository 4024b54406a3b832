import WegOS.SemaphoreRuns

/-! The tasks that wait, whatever `signal` has left in the system's queue of blocked tasks.

`signal` may clear the wrong cell of `pid_queue_blocked`. No function but `signal` reads that
queue, so that the kernel runs as one whose queue holds just the waiting tasks, as long as
each `signal` finds in its own queue the task it wakes. -/

namespace WegOS

open Transition

def TaskManager.withBlocked (tm : TaskManager) (q : PidQueue) : TaskManager := { tm with pidQueueBlocked := q }

def Kernel.withBlocked (k : Kernel) (q : PidQueue) : Kernel := { k with taskManager := k.taskManager.withBlocked q }

def System.withBlocked (s : System) (q : PidQueue) : System := { s with kernel := s.kernel.withBlocked q }

/-! ## What other functions make of that queue -/

section WithBlocked

variable (tm : TaskManager) (q : PidQueue)

theorem setTaskState_withBlocked (pid : Nat) {state : TaskState} (other : state ≠ .blocked) :
    setTaskState (tm.withBlocked q) pid state = (setTaskState tm pid state).withBlocked q := by
  cases state with
  | blocked => exact absurd rfl other
  | ready => rfl
  | running => rfl
  | sleeping => rfl
  | justInitialized => rfl
  | dying => rfl

theorem putOutgoing_withBlocked (reason : SchedulerReason) :
    putOutgoing (tm.withBlocked q) reason = (putOutgoing tm reason).withBlocked
      (if reason = .taskBlocked ∧ tm.pidRunning ≠ notFound then pidEnqueue q tm.pidRunning else q) := by
  have running : (tm.withBlocked q).pidRunning = tm.pidRunning := rfl
  simp only [putOutgoing, running]
  by_cases idle : tm.pidRunning = notFound
  · simp [idle]
  · cases reason with
    | taskBlocked =>
        simp only [ne_eq, idle, not_false_eq_true, and_self, if_true]
        rfl
    | timePieceOver => simp [idle, setTaskState_withBlocked]
    | taskYield => simp [idle]
    | taskSleep => simp [idle, setTaskState_withBlocked]
    | taskExit => simp [idle]

theorem switchTo_withBlocked (pid : Nat) {reason : SchedulerReason} (other : reason ≠ .taskBlocked) :
    switchTo (tm.withBlocked q) pid reason = (switchTo tm pid reason).map (·.withBlocked q) := by
  by_cases missing : pid = notFound
  · simp [switchTo, missing]
  by_cases stays : tm.pidRunning = pid
  · have running : (tm.withBlocked q).pidRunning = pid := stays
    simp [switchTo, missing, stays, running]
  · rw [switchTo_eq missing stays, switchTo_eq missing (show (tm.withBlocked q).pidRunning ≠ pid from stays),
      putOutgoing_withBlocked, if_neg (fun both => other both.1), Option.map_some,
      setTaskState_withBlocked _ _ _ (by decide)]

theorem schedule_withBlocked {reason : SchedulerReason} (other : reason ≠ .taskBlocked) :
    schedule (tm.withBlocked q) reason = (schedule tm reason).map (·.withBlocked q) := by
  have ready : (tm.withBlocked q).pidQueueReady = tm.pidQueueReady := rfl
  rw [schedule, schedule, ready]
  cases dequeued : pidDequeue tm.pidQueueReady with
  | mk best rest =>
      simp only
      split_ifs
      · rfl
      · exact switchTo_withBlocked { tm with schduleCounter := timePiece, pidQueueReady := rest } q best other

theorem schedule_blocked_withBlocked (busy : tm.pidRunning ≠ notFound)
    (other : tm.pidRunning ≠ (pidDequeue tm.pidQueueReady).1) :
    schedule (tm.withBlocked q) .taskBlocked =
      (schedule tm .taskBlocked).map (·.withBlocked (pidEnqueue q tm.pidRunning)) := by
  have ready : (tm.withBlocked q).pidQueueReady = tm.pidQueueReady := rfl
  rw [schedule, schedule, ready]
  cases dequeued : pidDequeue tm.pidQueueReady with
  | mk best rest =>
      rw [dequeued] at other
      simp only
      split_ifs with missing
      · rfl
      · let taken : TaskManager := { tm with schduleCounter := timePiece, pidQueueReady := rest }
        have put := putOutgoing_withBlocked taken q .taskBlocked
        rw [if_pos ⟨rfl, busy⟩] at put
        calc
          _ = some (setTaskState (putOutgoing (taken.withBlocked q) .taskBlocked) best .running) :=
            switchTo_eq missing other
          _ = some ((setTaskState (putOutgoing taken .taskBlocked) best .running).withBlocked
                (pidEnqueue q tm.pidRunning)) := by
            rw [put, setTaskState_withBlocked _ _ _ (by decide)]
          _ = (switchTo taken best .taskBlocked).map (·.withBlocked (pidEnqueue q tm.pidRunning)) := by
            rw [switchTo_eq missing (show taken.pidRunning ≠ best from other), Option.map_some]

theorem schedule_blocked_queue {tm tm' : TaskManager} (busy : tm.pidRunning ≠ notFound)
    (other : tm.pidRunning ≠ (pidDequeue tm.pidQueueReady).1) (scheduled : schedule tm .taskBlocked = some tm') :
    tm'.pidQueueBlocked = pidEnqueue tm.pidQueueBlocked tm.pidRunning := by
  have own := schedule_blocked_withBlocked tm tm.pidQueueBlocked busy other
  change schedule tm .taskBlocked = _ at own
  rw [scheduled, Option.map_some, Option.some.injEq] at own
  have queues := congrArg TaskManager.pidQueueBlocked own
  exact queues

theorem checkWakeupFrom_withBlocked (fuel i : Nat) :
    checkWakeupFrom fuel (tm.withBlocked q) i = (checkWakeupFrom fuel tm i).map (·.withBlocked q) := by
  induction fuel generalizing tm i with
  | zero => rfl
  | succ fuel ih =>
      rw [checkWakeupFrom_succ tm fuel i rfl]
      calc
        _ = if i = tm.pidQueueSleeping.tail then some (tm.withBlocked q)
            else if ((decreaseWakeup tm (tm.pidQueueSleeping.pids i)).tasks
              (tm.pidQueueSleeping.pids i)).wakeupCounter ≤ 0 then
              (pidQueueDelete tm.pidQueueSleeping i).bind fun sleeping =>
                checkWakeupFrom fuel ((setTaskState { decreaseWakeup tm (tm.pidQueueSleeping.pids i) with
                  pidQueueSleeping := sleeping } (tm.pidQueueSleeping.pids i) .ready).withBlocked q)
                  (incPidQueueIndex ((i + 65535) % 65536))
            else checkWakeupFrom fuel ((decreaseWakeup tm (tm.pidQueueSleeping.pids i)).withBlocked q)
              (incPidQueueIndex i) := checkWakeupFrom_succ (tm.withBlocked q) fuel i rfl
        _ = _ := by
          split_ifs
          · rfl
          · cases pidQueueDelete tm.pidQueueSleeping i with
            | none => rfl
            | some sleeping => exact ih _ _
          · exact ih _ _

theorem checkWakeup_withBlocked : checkWakeup (tm.withBlocked q) = (checkWakeup tm).map (·.withBlocked q) :=
  checkWakeupFrom_withBlocked tm q _ _

theorem checkTaskAffairs_withBlocked :
    checkTaskAffairs (tm.withBlocked q) = (checkTaskAffairs tm).map (·.withBlocked q) := by
  rw [checkTaskAffairs, checkTaskAffairs, checkWakeup_withBlocked]
  cases checkWakeup tm with
  | none => rfl
  | some mid =>
      simp only [Option.map_some, Option.bind_eq_bind, Option.bind_some, checkSchedule]
      change (if mid.schduleCounter - 1 ≤ 0 then _ else _) = _
      split_ifs
      · exact schedule_withBlocked { mid with schduleCounter := mid.schduleCounter - 1 } q (by decide)
      · rfl

theorem sysSleep_withBlocked (counter : UInt32) :
    sysSleep (tm.withBlocked q) counter = (sysSleep tm counter).map (·.withBlocked q) := by
  have other : SchedulerReason.taskSleep ≠ .taskBlocked := by decide
  rw [sysSleep, sysSleep]
  change (if maxGdtTerms ≤ tm.pidRunning then _ else _) = _
  split_ifs
  · rfl
  · let task : Task := { tm.tasks tm.pidRunning with wakeupCounter := counter }
    exact schedule_withBlocked { tm with tasks := Function.update tm.tasks tm.pidRunning task } q other

variable (image : KernelImage) (k : Kernel)

theorem sysExit_withBlocked (code : UInt32) :
    sysExit (k.withBlocked q) code = (sysExit k code).map (·.withBlocked q) := by
  have scheduled : schedule (k.withBlocked q).taskManager .taskExit =
      (schedule k.taskManager .taskExit).map (·.withBlocked q) :=
    schedule_withBlocked k.taskManager q (by decide)
  simp only [sysExit, scheduled]
  change (if maxGdtTerms ≤ k.taskManager.pidRunning then _ else _) = _
  split_ifs
  · rfl
  · cases schedule k.taskManager .taskExit <;> rfl

theorem createTask_withBlocked (flag eip esp ddl : UInt32) :
    createTask image (k.withBlocked q) flag eip esp ddl =
      (createTask image k flag eip esp ddl).map fun result => (result.1, result.2.withBlocked q) := by
  simp only [createTask, taskInit]
  change (if maxGdtTerms ≤ getPidEmpty k.gdt then none else _ : Option Kernel).bind _ = _
  split_ifs <;> rfl

theorem step_withBlocked (s : System) (event : Event) :
    step image (s.withBlocked q) event = (step image s event).map (·.withBlocked q) := by
  cases event with
  | create flag eip esp ddl =>
      have created := createTask_withBlocked q image s.kernel flag eip esp ddl
      simp only [step, System.withBlocked, created]
      cases createTask image s.kernel flag eip esp ddl <;> rfl
  | tick =>
      have ticked := checkTaskAffairs_withBlocked s.kernel.taskManager q
      simp only [step, System.withBlocked, Kernel.withBlocked, ticked]
      cases checkTaskAffairs s.kernel.taskManager <;> rfl
  | sleep counter =>
      have slept := sysSleep_withBlocked s.kernel.taskManager q counter
      simp only [step, System.withBlocked, Kernel.withBlocked, slept]
      cases sysSleep s.kernel.taskManager counter <;> rfl
  | exit code =>
      have exited := sysExit_withBlocked q s.kernel code
      simp only [step, System.withBlocked, exited]
      cases sysExit s.kernel code <;> rfl

end WithBlocked

/-! ## The invariant -/

/-- `signal` comes to an end for a waiting task only if the system's queue has that task. -/
theorem signal_found {tm tm' : TaskManager} {s s' : Semaphore} {pid : Nat} {rest items : List Nat}
    (waiting : s.blockedPids.Holds (pid :: rest)) (holds : tm.pidQueueBlocked.HoldsFlat items)
    (bound : pid < maxGdtTerms) (result : signal tm s = some (tm', s')) : pid ∈ items := by
  by_contra outside
  obtain ⟨q, dequeued, -⟩ := pidDequeue_cons waiting
  have real : pid ≠ notFound := by
    simp only [maxGdtTerms, notFound] at bound ⊢
    omega
  have missing := pidQueueFind_not_mem holds.2 outside
  have failed : pidQueueDelete tm.pidQueueBlocked notFound = none := by
    simp [pidQueueDelete, maxGdtTerms, notFound]
  simp [signal, dequeued, real, missing, failed] at result

theorem signal_of_mem {tm : TaskManager} {s : Semaphore} {pid : Nat} {rest items : List Nat}
    (waiting : s.blockedPids.Holds (pid :: rest)) (holds : tm.pidQueueBlocked.HoldsFlat items)
    (member : pid ∈ items) (bound : pid < maxGdtTerms) : ∃ result, signal tm s = some result := by
  obtain ⟨q, dequeued, -⟩ := pidDequeue_cons waiting
  obtain ⟨q', deleted, -⟩ := pidQueueDelete_anywhere holds (List.ne_nil_of_mem member) bound
  have real : pid ≠ notFound := by
    simp only [maxGdtTerms, notFound] at bound ⊢
    omega
  simp only [signal, dequeued, if_neg real, pidQueueFind_mem holds.2 member, deleted,
    Option.bind_eq_bind, Option.bind_some]
  exact ⟨_, rfl⟩

variable {ι : Type} {image : KernelImage}

def SyncSystem.withBlocked (s : SyncSystem ι) (q : PidQueue) : SyncSystem ι :=
  { s with system := s.system.withBlocked q }

/-- The queue `q` has the waiting tasks; with it in place of the system's queue, which has as
many, the scheduler is consistent. -/
structure WaitingIn (s : SyncSystem ι) (q : PidQueue) : Prop where
  waiting : Waiting (s.withBlocked q)
  system : ∃ items, s.system.kernel.taskManager.pidQueueBlocked.HoldsFlat items ∧ items.length = q.elems.length

section Steps

variable {s t : SyncSystem ι} {q : PidQueue} {i : ι}

theorem Placed.next_found {tm : TaskManager} {live ready blocked sleeping : List Nat}
    (placed : Placed tm live ready blocked sleeping) (some : ready ≠ []) :
    (pidDequeue tm.pidQueueReady).1 ≠ notFound := by
  cases ready with
  | nil => exact absurd rfl some
  | cons best rest =>
      obtain ⟨q, dequeued, -⟩ := pidDequeue_cons placed.queued.readyHolds
      have bound := (placed.bounds best (placed.mem_live.mpr (Or.inr (Or.inl List.mem_cons_self)))).2
      rw [dequeued]
      simp only [maxGdtTerms, notFound] at bound ⊢
      omega

theorem Placed.next_other {tm : TaskManager} {live ready blocked sleeping : List Nat}
    (placed : Placed tm live ready blocked sleeping) (busy : tm.pidRunning ≠ notFound) :
    tm.pidRunning ≠ (pidDequeue tm.pidQueueReady).1 := by
  have holds := placed.queued.readyHolds
  cases ready with
  | nil =>
      rw [pidDequeue_empty holds]
      exact busy
  | cons best rest =>
      obtain ⟨q, dequeued, -⟩ := pidDequeue_cons holds
      rw [dequeued]
      rintro rfl
      exact (placed.apart.1 (mem_onCpu.mpr ⟨busy, rfl⟩)).1 List.mem_cons_self

theorem wait_withBlocked (tm : TaskManager) (semaphore : Semaphore) (q : PidQueue)
    (busy : tm.pidRunning ≠ notFound) (other : tm.pidRunning ≠ (pidDequeue tm.pidQueueReady).1) :
    wait (tm.withBlocked q) semaphore = (wait tm semaphore).map fun result =>
      (result.1.withBlocked (if semaphore.count - 1 < 0 then pidEnqueue q tm.pidRunning else q), result.2) := by
  simp only [wait]
  split_ifs
  · rw [schedule_blocked_withBlocked tm q busy other]
    cases schedule tm .taskBlocked <;> rfl
  · rfl

theorem wait_passes {tm tm' : TaskManager} {semaphore semaphore' : Semaphore}
    (free : ¬semaphore.count - 1 < 0) (result : wait tm semaphore = some (tm', semaphore')) :
    tm' = tm ∧ semaphore' = { semaphore with count := semaphore.count - 1 } := by
  simp only [wait, if_neg free, Option.some.injEq, Prod.mk.injEq] at result
  exact ⟨result.1.symm, result.2.symm⟩

theorem wait_blocks {tm tm' : TaskManager} {semaphore semaphore' : Semaphore}
    (taken : semaphore.count - 1 < 0) (result : wait tm semaphore = some (tm', semaphore')) :
    semaphore' = ⟨semaphore.count - 1, pidEnqueue semaphore.blockedPids tm.pidRunning⟩ ∧
      schedule tm .taskBlocked = some tm' := by
  simp only [wait, if_pos taken, Option.bind_eq_bind] at result
  obtain ⟨mid, scheduled, same⟩ := Option.bind_eq_some_iff.mp result
  obtain ⟨rfl, rfl⟩ := Prod.mk.inj (Option.some.inj same)
  exact ⟨rfl, scheduled⟩

theorem signal_count {tm tm' : TaskManager} {semaphore semaphore' : Semaphore}
    (result : signal tm semaphore = some (tm', semaphore')) : semaphore'.count = semaphore.count + 1 := by
  simp only [signal] at result
  split_ifs at result with woken
  · obtain ⟨rfl, rfl⟩ := Prod.mk.inj (Option.some.inj result)
    rfl
  · obtain ⟨index, -, found⟩ := Option.bind_eq_some_iff.mp result
    obtain ⟨blocked, -, deleted⟩ := Option.bind_eq_some_iff.mp found
    split_ifs at deleted
    · simp at deleted
    · obtain ⟨rfl, rfl⟩ := Prod.mk.inj (Option.some.inj deleted)
      rfl

variable [DecidableEq ι]

theorem SyncStep.task_withBlocked {event : Event} (taken : SyncStep image s (.task event) t) (q : PidQueue) :
    Step image (s.system.withBlocked q) event (t.system.withBlocked q) := by
  obtain ⟨system, stepped, same⟩ := Option.bind_eq_some_iff.mp taken
  obtain rfl := Option.some.inj same
  rw [Step, step_withBlocked, stepped]
  rfl

theorem WaitingIn.task (ok : WaitingIn s q) {event : Event} (taken : SyncStep image s (.task event) t) :
    WaitingIn t q ∧ t.semaphores = s.semaphores := by
  have replayed := taken.task_withBlocked q
  obtain ⟨system, stepped, same⟩ := Option.bind_eq_some_iff.mp taken
  obtain rfl := Option.some.inj same
  have ghost : SyncStep image (s.withBlocked q) (.task event)
      (SyncSystem.withBlocked { s with system := system } q) := Option.bind_eq_some_iff.mpr ⟨_, replayed, rfl⟩
  have kept : system.kernel.taskManager.pidQueueBlocked = s.system.kernel.taskManager.pidQueueBlocked := by
    have own := step_withBlocked s.system.kernel.taskManager.pidQueueBlocked image s.system event
    change step image s.system event = _ at own
    rw [stepped, Option.map_some, Option.some.injEq] at own
    have queues := congrArg (fun system : System => system.kernel.taskManager.pidQueueBlocked) own
    exact queues
  have guarded : Guarded (SyncStep image) ClearsWaiter (s.withBlocked q) (.task event) _ := ⟨trivial, ghost⟩
  refine ⟨⟨ok.waiting.step guarded, ?_⟩, rfl⟩
  rw [kept]
  exact ok.system

theorem waiters_update_self {system : System} {semaphore : Semaphore} {items : List Nat}
    (holds : semaphore.blockedPids.Holds items) :
    SyncSystem.waiters ⟨system, Function.update s.semaphores i semaphore⟩ i = items := by
  have own : Function.update s.semaphores i semaphore i = semaphore := Function.update_self ..
  calc
    _ = (Function.update s.semaphores i semaphore i).blockedPids.elems := rfl
    _ = items := by rw [own, holds.elems_eq]

theorem SyncStep.of_wait {tm : TaskManager} {semaphore : Semaphore}
    (busy : s.system.kernel.taskManager.pidRunning ≠ notFound)
    (waited : wait s.system.kernel.taskManager (s.semaphores i) = some (tm, semaphore)) :
    SyncStep image s (.wait i) ⟨{ s.system with kernel := { s.system.kernel with taskManager := tm } },
      Function.update s.semaphores i semaphore⟩ := by
  simp only [SyncStep, syncStep, if_neg busy, waited]
  rfl

theorem SyncStep.wait_frame (taken : SyncStep image s (.wait i) t) : t.system =
    { s.system with kernel := { s.system.kernel with taskManager := t.system.kernel.taskManager } } := by
  simp only [SyncStep, syncStep, Option.bind_eq_bind] at taken
  split_ifs at taken
  · simp at taken
  obtain ⟨result, -, same⟩ := Option.bind_eq_some_iff.mp taken
  obtain rfl := Option.some.inj same
  rfl

theorem SyncStep.signal_frame (taken : SyncStep image s (.signal i) t) : t.system =
    { s.system with kernel := { s.system.kernel with taskManager := t.system.kernel.taskManager } } := by
  obtain ⟨result, -, same⟩ := Option.bind_eq_some_iff.mp taken
  obtain rfl := Option.some.inj same
  rfl

/-- What `wait` does: the running task goes on, or it is the last of the waiting tasks. -/
theorem WaitingIn.wait (ok : WaitingIn s q) (result : SyncStep image s (.wait i) t) :
    s.system.kernel.taskManager.pidRunning ≠ notFound ∧
    t.semaphores = Function.update s.semaphores i (t.semaphores i) ∧
      (t.semaphores i).count = (s.semaphores i).count - 1 ∧
      (¬(s.semaphores i).count - 1 < 0 ∧ (t.semaphores i).blockedPids = (s.semaphores i).blockedPids ∧
          t.system = s.system ∧ WaitingIn t q ∨
        (s.semaphores i).count - 1 < 0 ∧
          t.waiters i = s.waiters i ++ [s.system.kernel.taskManager.pidRunning] ∧
          schedule s.system.kernel.taskManager .taskBlocked = some t.system.kernel.taskManager ∧
          WaitingIn t (pidEnqueue q s.system.kernel.taskManager.pidRunning)) := by
  simp only [SyncStep, syncStep, Option.bind_eq_bind] at result
  split_ifs at result with idle
  · simp at result
  obtain ⟨⟨tm, semaphore⟩, waited, same⟩ := Option.bind_eq_some_iff.mp result
  obtain rfl := Option.some.inj same
  have placed := ok.waiting.consistent.placed
  have other := placed.next_other idle
  have ghost := wait_withBlocked s.system.kernel.taskManager (s.semaphores i) q idle other
  rw [waited, Option.map_some] at ghost
  simp only [Function.update_self]
  refine ⟨idle, trivial, ?_⟩
  by_cases taken : (s.semaphores i).count - 1 < 0
  · obtain ⟨rfl, scheduled⟩ := wait_blocks taken waited
    rw [if_pos taken] at ghost
    refine ⟨rfl, Or.inr ⟨taken, ?_, scheduled, ?_, ?_⟩⟩
    · have enqueued := pidEnqueue_holds (ok.waiting.queue i) s.system.kernel.taskManager.pidRunning
        (ok.waiting.waiters_space idle i)
      exact waiters_update_self enqueued
    · have replayed : SyncStep image (s.withBlocked q) (.wait i) _ := SyncStep.of_wait idle ghost
      exact ok.waiting.wait replayed
    · obtain ⟨items, flat, length⟩ := ok.system
      have ghostFlat := placed.queued.blockedHolds
      have space := placed.length_lt
      have cpu : (onCpu (s.withBlocked q).system.kernel.taskManager).length = 1 :=
        congrArg List.length (if_neg idle : onCpu s.system.kernel.taskManager = _)
      have room : q.elems.length + 1 < maxGdtTerms := by
        change _ + _ + q.elems.length + _ < _ at space
        omega
      have enqueued := pidEnqueue_holdsFlat ghostFlat s.system.kernel.taskManager.pidRunning room
      refine ⟨items ++ [s.system.kernel.taskManager.pidRunning], ?_, ?_⟩
      · have own := schedule_blocked_queue idle other scheduled
        change tm.pidQueueBlocked.HoldsFlat _
        rw [own]
        exact pidEnqueue_holdsFlat flat _ (by omega)
      · rw [List.length_append, length]
        exact (List.length_append.symm.trans (congrArg List.length enqueued.2.elems_eq.symm))
  · obtain ⟨rfl, rfl⟩ := wait_passes taken waited
    rw [if_neg taken] at ghost
    have replayed : SyncStep image (s.withBlocked q) (.wait i) _ := SyncStep.of_wait idle ghost
    exact ⟨rfl, Or.inl ⟨taken, rfl, rfl, ok.waiting.wait replayed, ok.system⟩⟩

/-- What `signal` does: nobody is waiting, or the longest waiting task is made ready. -/
theorem WaitingIn.signal (ok : WaitingIn s q) (result : SyncStep image s (.signal i) t) :
    t.semaphores = Function.update s.semaphores i (t.semaphores i) ∧
      (t.semaphores i).count = (s.semaphores i).count + 1 ∧
      (s.waiters i = [] ∧ (t.semaphores i).blockedPids = (s.semaphores i).blockedPids ∧
          t.system = s.system ∧ WaitingIn t q ∨
        ∃ pid rest q' own, s.waiters i = pid :: rest ∧ t.waiters i = rest ∧ WaitingIn t q' ∧
          t.system.kernel.taskManager =
            setTaskState (s.system.kernel.taskManager.withBlocked own) pid .ready) := by
  obtain ⟨⟨tm, semaphore⟩, signalled, same⟩ := Option.bind_eq_some_iff.mp result
  obtain rfl := Option.some.inj same
  have holds := ok.waiting.queue i
  have count := signal_count signalled
  simp only [Function.update_self]
  refine ⟨trivial, count, ?_⟩
  cases front : s.waiters i with
  | nil =>
      change (s.semaphores i).blockedPids.Holds (s.waiters i) at holds
      rw [front] at holds
      obtain ⟨queue, rfl⟩ := signal_nobody holds signalled
      refine Or.inl ⟨rfl, queue, rfl, ?_, ok.system⟩
      apply ok.waiting.update (s.waiters i) ok.waiting.consistent
      · rw [queue]
        exact ok.waiting.queue i
      · have kept : Function.update (s.withBlocked q).waiters i (s.waiters i) = (s.withBlocked q).waiters :=
          Function.update_eq_self i _
        rw [kept]
        exact ok.waiting.matched
  | cons pid rest =>
      change (s.semaphores i).blockedPids.Holds (s.waiters i) at holds
      rw [front] at holds
      have placed := ok.waiting.consistent.placed
      have member : pid ∈ q.elems := (ok.waiting.matched.member pid).mpr ⟨i, front ▸ List.mem_cons_self⟩
      have live := placed.mem_live.mpr (Or.inr (Or.inr (Or.inl member)))
      have nodup : q.elems.Nodup := placed.nodup_lists.2.1
      have bound := (placed.bounds pid live).2
      obtain ⟨items, flat, length⟩ := ok.system
      have found := signal_found holds flat bound signalled
      obtain ⟨restHolds, own, ownFlat, wakes⟩ := signal_wakes holds flat found bound signalled
      obtain ⟨n, inside, here⟩ := List.mem_iff_getElem.mp member
      obtain ⟨q', -, ghostFlat⟩ := pidQueueDelete_holdsFlat placed.queued.blockedHolds inside
      have erased : q.elems.eraseIdx n = q.elems.erase pid :=
        (eraseIdx_eq_erase_iff nodup member).mpr (List.getElem?_eq_some_iff.mpr ⟨inside, here⟩)
      change q'.HoldsFlat (q.elems.eraseIdx n) at ghostFlat
      refine Or.inr ⟨pid, rest, q', own, rfl, ?_, ⟨?_, ?_⟩, wakes⟩
      · exact waiters_update_self restHolds
      · rw [erased] at ghostFlat
        have ghostWakes : tm.withBlocked q' =
            setTaskState { (s.withBlocked q).system.kernel.taskManager with pidQueueBlocked := q' } pid .ready := by
          rw [wakes, ← setTaskState_withBlocked _ _ _ (by decide)]
          rfl
        have waiters : (s.withBlocked q).waiters i = pid :: rest := front
        have woken := ok.waiting.woken waiters restHolds ghostFlat ghostWakes
        exact woken
      · refine ⟨items.eraseIdx (deletedIndex items.length pid), ?_, ?_⟩
        · change tm.pidQueueBlocked.HoldsFlat _
          rw [wakes]
          exact ownFlat
        · rw [ghostFlat.2.elems_eq, List.length_eraseIdx_of_lt inside, List.length_eraseIdx_of_lt]
          · exact congrArg (· - 1) length
          · have nonempty := List.length_pos_of_mem found
            unfold deletedIndex
            split_ifs <;> omega

/-- `signal` comes to an end, takes the first of the waiting tasks out, and makes it ready and
no other task. -/
def Wakes (image : KernelImage) (s : SyncSystem ι) (i : ι) (pid : Nat) (rest : List Nat) : Prop :=
  ∃ t, SyncStep image s (.signal i) t ∧ t.waiters i = rest ∧
    t.system.kernel.taskManager.pidQueueReady.elems =
      s.system.kernel.taskManager.pidQueueReady.elems ++ [pid] ∧
    t.system.kernel.taskManager.pidRunning = s.system.kernel.taskManager.pidRunning ∧
    t.system.kernel.taskManager.pidQueueSleeping = s.system.kernel.taskManager.pidQueueSleeping

theorem WaitingIn.wakes_iff (ok : WaitingIn s q) {pid : Nat} {rest : List Nat}
    (front : s.waiters i = pid :: rest) : Wakes image s i pid rest ↔ pid ∈ s.blocked := by
  have placed := ok.waiting.consistent.placed
  have member : pid ∈ q.elems := (ok.waiting.matched.member pid).mpr ⟨i, front ▸ List.mem_cons_self⟩
  have bound := (placed.bounds pid (placed.mem_live.mpr (Or.inr (Or.inr (Or.inl member))))).2
  have holds : (s.semaphores i).blockedPids.Holds (pid :: rest) := front ▸ ok.waiting.queue i
  obtain ⟨items, flat, -⟩ := ok.system
  have listed : s.blocked = items := flat.2.elems_eq
  rw [listed]
  constructor
  · rintro ⟨t, taken, -⟩
    obtain ⟨⟨tm, semaphore⟩, signalled, -⟩ := Option.bind_eq_some_iff.mp taken
    exact signal_found holds flat bound signalled
  · intro found
    obtain ⟨⟨tm, semaphore⟩, signalled⟩ := signal_of_mem holds flat found bound
    have taken : SyncStep image s (.signal i)
        ⟨{ s.system with kernel := { s.system.kernel with taskManager := tm } },
          Function.update s.semaphores i semaphore⟩ := by
      simp only [SyncStep, syncStep, signalled]
      rfl
    refine ⟨_, taken, ?_⟩
    rcases (ok.signal taken).2.2 with ⟨nobody, -⟩ | ⟨first, others, _, own, here, left, -, woken⟩
    · rw [nobody] at front
      exact absurd front (by simp)
    · obtain ⟨rfl, rfl⟩ := List.cons.inj (here.symm.trans front)
      refine ⟨left, ?_, ?_, ?_⟩
      · have space : s.system.kernel.taskManager.pidQueueReady.elems.length + 1 < maxGdtTerms := by
          have total := placed.length_lt
          have some := List.length_pos_of_mem member
          change _ + s.system.kernel.taskManager.pidQueueReady.elems.length + q.elems.length + _ < _ at total
          omega
        have enqueued := pidEnqueue_holds placed.queued.readyHolds first space
        rw [woken]
        exact enqueued.elems_eq
      · rw [woken]
        rfl
      · rw [woken]
        rfl

theorem WaitingIn.step (ok : WaitingIn s q) {event : SyncEvent ι} (taken : SyncStep image s event t) :
    ∃ q', WaitingIn t q' := by
  cases event with
  | task event => exact ⟨q, (ok.task taken).1⟩
  | wait i =>
      rcases (ok.wait taken).2.2.2 with ⟨-, -, -, passed⟩ | ⟨-, -, -, blocked⟩
      · exact ⟨q, passed⟩
      · exact ⟨_, blocked⟩
  | signal i =>
      rcases (ok.signal taken).2.2 with ⟨-, -, -, nobody⟩ | ⟨_, _, q', _, -, -, woken, -⟩
      · exact ⟨q, nobody⟩
      · exact ⟨q', woken⟩

omit [DecidableEq ι] in
theorem Waiting.waitingIn (ok : Waiting s) : WaitingIn s s.system.kernel.taskManager.pidQueueBlocked :=
  ⟨ok, _, ok.consistent.placed.queued.blockedHolds, rfl⟩

theorem run_waitingIn {idle : IdleImage} {k k' : Kernel} {counts : ι → Int16} {events : List (SyncEvent ι)}
    (unused : k.taskManager.pidQueueSleeping.head = 0 ∧ k.taskManager.pidQueueSleeping.tail = 0)
    (started : schedInit image idle k = some k')
    (run : Run (SyncStep image) (syncStart image k k' counts) events t) : ∃ q, WaitingIn t q := by
  have start : ∃ q, WaitingIn (syncStart image k k' counts) q :=
    ⟨_, (syncStart_waiting counts unused started).waitingIn⟩
  apply run.invariant start
  rintro s event t ⟨q, ok⟩ taken
  exact ok.step taken

end Steps

end WegOS
