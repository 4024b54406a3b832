import WegOS.WaitingTasks

/-! How long a task sleeps, in timer ticks. -/

namespace WegOS

open Transition

def tickCount {ι : Type} (events : List (SyncEvent ι)) : Nat :=
  events.countP fun event => match event with
    | .task .tick => true
    | .task (.create _ _ _ _) => false
    | .task (.sleep _) => false
    | .task (.exit _) => false
    | .wait _ => false
    | .signal _ => false

/-- In every run from `s` the task sleeps until tick number `ticks`, and is then put
in the ready queue. -/
def SleepsFor {ι : Type} [DecidableEq ι] (image : KernelImage) (s : SyncSystem ι) (pid ticks : Nat) : Prop :=
  ∀ events t, Run (SyncStep image) s events t →
    (tickCount events < ticks → pid ∈ t.system.kernel.taskManager.pidQueueSleeping.elems) ∧
      (tickCount events + 1 = ticks → ∃ tm, checkWakeup t.system.kernel.taskManager = some tm ∧
        pid ∈ tm.pidQueueReady.elems ∧ pid ∉ tm.pidQueueSleeping.elems)

structure Asleep (s : System) (pid : Nat) (counter : UInt32) : Prop where
  member : pid ∈ s.kernel.taskManager.pidQueueSleeping.elems
  left : (s.kernel.taskManager.tasks pid).wakeupCounter = counter

section Asleep

variable {image : KernelImage} {s t : System} {pid : Nat} {counter : UInt32}

theorem Placed.schedule_asleep {tm tm' : TaskManager} {live ready blocked sleeping : List Nat}
    {reason : SchedulerReason} (placed : Placed tm live ready blocked sleeping)
    (result : schedule tm reason = some tm') :
    tm'.pidQueueSleeping.elems = sleeping ++ outgoing tm reason .taskSleep ∧
      ∀ p, (tm'.tasks p).wakeupCounter = (tm.tasks p).wakeupCounter := by
  obtain ⟨best, rest, rfl⟩ := placed.schedule_ready result
  obtain ⟨after, same, -, -, -, frame, queued⟩ := schedule_cons reason placed.switchable
  obtain rfl : tm' = after := Option.some.inj (result.symm.trans same)
  exact ⟨queued.sleepingHolds.2.elems_eq, fun p => (frame p).2⟩

theorem Consistent.sysSleep_asleep {tm' : TaskManager} (ok : Consistent s)
    (result : sysSleep s.kernel.taskManager counter = some tm') :
    tm'.pidQueueSleeping.elems =
        s.kernel.taskManager.pidQueueSleeping.elems ++ [s.kernel.taskManager.pidRunning] ∧
      ∀ p, (tm'.tasks p).wakeupCounter = if p = s.kernel.taskManager.pidRunning then counter
        else (s.kernel.taskManager.tasks p).wakeupCounter := by
  rw [sysSleep] at result
  split_ifs at result with outside
  obtain ⟨sleeping, counters⟩ :=
    (ok.placed.set_counter s.kernel.taskManager.pidRunning counter).schedule_asleep result
  refine ⟨?_, fun p => ?_⟩
  · have real : s.kernel.taskManager.pidRunning ≠ notFound := by
      simp only [maxGdtTerms, notFound] at outside ⊢
      omega
    simpa [outgoing, onCpu, real] using sleeping
  · rw [counters p]
    by_cases same : p = s.kernel.taskManager.pidRunning
    · simp [same]
    · simp [same]

theorem Consistent.asleep (ok : Consistent s) (step : Step image s (.sleep counter) t) :
    Asleep t s.kernel.taskManager.pidRunning counter := by
  obtain ⟨tm, result, same⟩ := Option.bind_eq_some_iff.mp step
  obtain rfl := Option.some.inj same
  obtain ⟨sleeping, counters⟩ := ok.sysSleep_asleep result
  refine ⟨?_, by rw [counters, if_pos rfl]⟩
  rw [sleeping]
  exact List.mem_append_right _ List.mem_cons_self

theorem Asleep.not_running (ok : Consistent s) (asleep : Asleep s pid counter) :
    pid ≠ s.kernel.taskManager.pidRunning := by
  intro same
  have live : pid ∈ s.live := ok.placed.mem_live.mpr (Or.inr (Or.inr (Or.inr asleep.member)))
  have bound := (ok.placed.bounds pid live).2
  have busy : s.kernel.taskManager.pidRunning ≠ notFound := by
    simp only [maxGdtTerms, notFound] at bound ⊢
    omega
  exact (ok.placed.apart.1 (mem_onCpu.mpr ⟨busy, same⟩)).2.2 asleep.member

theorem Asleep.checkWakeup (ok : Consistent s) (asleep : Asleep s pid counter) :
    ∃ tm live ready blocked sleeping, checkWakeup s.kernel.taskManager = some tm ∧
      Placed tm live ready blocked sleeping ∧
      (counter = 1 → pid ∈ ready ∧ pid ∉ sleeping) ∧
      (counter ≠ 1 → pid ∉ ready ∧ pid ∈ sleeping ∧ (tm.tasks pid).wakeupCounter = counter - 1) := by
  obtain ⟨tm, result, woken, placed⟩ := ok.placed.after_checkWakeup
  refine ⟨tm, _, _, _, _, result, placed, ?_, ?_⟩
  · intro last
    have wake : wakes s.kernel.taskManager pid = true := by simp [wakes, asleep.left, last]
    have ready := List.mem_append_right s.kernel.taskManager.pidQueueReady.elems
      (List.mem_filter.mpr ⟨asleep.member, wake⟩)
    exact ⟨ready, (placed.apart.2.1 ready).2⟩
  · intro more
    have wake : wakes s.kernel.taskManager pid = false := by
      simp only [wakes, asleep.left, beq_eq_false_iff_ne, ne_eq]
      intro zero
      exact more (by rw [← UInt32.sub_add_cancel counter 1, zero]; rfl)
    have sleeping : pid ∈ s.kernel.taskManager.pidQueueSleeping.elems.filter
        fun p => !wakes s.kernel.taskManager p := List.mem_filter.mpr ⟨asleep.member, by simp [wake]⟩
    refine ⟨(placed.apart.2.2.1 sleeping).1, sleeping, ?_⟩
    rw [woken.wakeupCounter, if_pos asleep.member, asleep.left]

theorem Asleep.other {event : Event} (ok : Consistent s) (asleep : Asleep s pid counter)
    (step : Step image s event t) (quiet : event ≠ .tick) : Asleep t pid counter := by
  have live : pid ∈ s.live := ok.placed.mem_live.mpr (Or.inr (Or.inr (Or.inr asleep.member)))
  cases event with
  | create flag eip esp ddl =>
      obtain ⟨⟨new, k⟩, result, same⟩ := Option.bind_eq_some_iff.mp step
      obtain rfl := Option.some.inj same
      obtain ⟨first, -, -, -, task, -, taskManager⟩ := createTask_eq result
      have other : pid ≠ new := by
        rintro rfl
        have empty := first.2.2.1
        rw [ok.described pid live] at empty
        cases empty
      refine ⟨?_, ?_⟩
      · rw [taskManager]
        exact asleep.member
      · rw [taskManager, setTaskState_wakeupCounter]
        exact (congrArg Task.wakeupCounter (Function.update_of_ne other _ _)).trans asleep.left
  | tick => exact absurd rfl quiet
  | sleep more =>
      obtain ⟨tm, result, same⟩ := Option.bind_eq_some_iff.mp step
      obtain rfl := Option.some.inj same
      obtain ⟨sleeping, counters⟩ := ok.sysSleep_asleep result
      have other := asleep.not_running ok
      refine ⟨?_, ?_⟩
      · rw [sleeping]
        exact List.mem_append_left _ asleep.member
      · rw [counters, if_neg other]
        exact asleep.left
  | exit code =>
      obtain ⟨k, result, same⟩ := Option.bind_eq_some_iff.mp step
      obtain rfl := Option.some.inj same
      simp only [sysExit, Option.bind_eq_bind] at result
      split_ifs at result
      · simp at result
      obtain ⟨tm, scheduled, same⟩ := Option.bind_eq_some_iff.mp result
      obtain rfl := Option.some.inj same
      obtain ⟨sleeping, counters⟩ := ok.placed.schedule_asleep scheduled
      refine ⟨?_, (counters pid).trans asleep.left⟩
      rw [sleeping]
      exact List.mem_append_left _ asleep.member

theorem Asleep.tick (ok : Consistent s) (asleep : Asleep s pid counter) (step : Step image s .tick t)
    (more : counter ≠ 1) : Asleep t pid (counter - 1) := by
  obtain ⟨tm, result, same⟩ := Option.bind_eq_some_iff.mp step
  obtain rfl := Option.some.inj same
  obtain ⟨mid, live, ready, blocked, sleeping, woke, placed, -, kept⟩ := asleep.checkWakeup ok
  obtain ⟨-, member, left⟩ := kept more
  rw [checkTaskAffairs, woke, Option.bind_eq_bind, Option.bind_some, checkSchedule] at result
  simp only at result
  split_ifs at result
  · have counted : Placed { mid with schduleCounter := mid.schduleCounter - 1 } live ready blocked sleeping :=
      ⟨placed.queued.congr rfl rfl rfl fun _ => rfl, placed.places, placed.nodup, placed.running, placed.bounds⟩
    obtain ⟨sleepingEq, counters⟩ := counted.schedule_asleep result
    refine ⟨?_, (counters pid).trans left⟩
    rw [sleepingEq]
    exact List.mem_append_left _ member
  · obtain rfl := Option.some.inj result
    exact ⟨placed.elems_eq.2.2 ▸ member, left⟩

end Asleep

/-! ## Runs with `wait` and `signal` -/

section Runs

variable {ι : Type} [DecidableEq ι] {image : KernelImage} {s t : SyncSystem ι} {pid : Nat} {counter : UInt32}
  {q : PidQueue}

omit [DecidableEq ι] in
theorem Asleep.withBlocked (asleep : Asleep s.system pid counter) (q : PidQueue) :
    Asleep (s.system.withBlocked q) pid counter := ⟨asleep.member, asleep.left⟩

theorem Asleep.wait {i : ι} (ok : WaitingIn s q) (asleep : Asleep s.system pid counter)
    (taken : SyncStep image s (.wait i) t) : Asleep t.system pid counter := by
  obtain ⟨busy, -, -, passes | blocks⟩ := ok.wait taken
  · obtain ⟨-, -, same, -⟩ := passes
    rw [same]
    exact asleep
  · obtain ⟨-, -, scheduled, -⟩ := blocks
    have placed := ok.waiting.consistent.placed
    have replayed := schedule_blocked_withBlocked s.system.kernel.taskManager q busy (placed.next_other busy)
    rw [scheduled, Option.map_some] at replayed
    obtain ⟨sleeping, counters⟩ := placed.schedule_asleep replayed
    refine ⟨?_, (counters pid).trans asleep.left⟩
    change t.system.kernel.taskManager.pidQueueSleeping.elems = _ at sleeping
    rw [sleeping]
    exact List.mem_append_left _ asleep.member

theorem Asleep.signal {i : ι} (ok : WaitingIn s q) (asleep : Asleep s.system pid counter)
    (taken : SyncStep image s (.signal i) t) : Asleep t.system pid counter := by
  rcases (ok.signal taken).2.2 with ⟨-, -, same, -⟩ | ⟨first, rest, q', own, -, -, -, woken⟩
  · rw [same]
    exact asleep
  · refine ⟨?_, ?_⟩
    · rw [woken]
      exact asleep.member
    · rw [woken, setTaskState_wakeupCounter]
      exact asleep.left

theorem Asleep.run {events : List (SyncEvent ι)} (ok : WaitingIn s q) (asleep : Asleep s.system pid counter)
    (run : Run (SyncStep image) s events t)
    (few : tickCount events < if counter = 0 then 2 ^ 32 else counter.toNat) :
    (∃ q, WaitingIn t q) ∧ Asleep t.system pid (counter - UInt32.ofNat (tickCount events)) := by
  induction run with
  | refl => exact ⟨⟨q, ok⟩, by simpa [tickCount] using asleep⟩
  | @tail s' t' events event before last ih =>
      rw [tickCount, List.countP_append, ← tickCount, ← tickCount] at few ⊢
      obtain ⟨⟨q', waiting⟩, earlier⟩ := ih (by omega)
      refine ⟨waiting.step last, ?_⟩
      have consistent : Consistent (s'.system.withBlocked q') := waiting.waiting.consistent
      cases event with
      | wait i => exact earlier.wait waiting last
      | signal i => exact earlier.signal waiting last
      | task event =>
          have replayed := last.task_withBlocked q'
          by_cases ticks : event = .tick
          · subst ticks
            have one : tickCount [SyncEvent.task (ι := ι) .tick] = 1 := rfl
            rw [one] at few ⊢
            have more : counter - UInt32.ofNat (tickCount events) ≠ 1 := by
              intro last
              have bound := counter.toNat_lt
              have value := congrArg UInt32.toNat last
              rw [UInt32.toNat_sub, UInt32.toNat_ofNat', UInt32.toNat_one] at value
              split_ifs at few with zero
              · rw [zero, UInt32.toNat_zero] at value
                omega
              · omega
            have next : counter - UInt32.ofNat (tickCount events + 1) =
                counter - UInt32.ofNat (tickCount events) - 1 := by
              apply UInt32.toNat_inj.mp
              simp only [UInt32.toNat_sub, UInt32.toNat_ofNat', UInt32.toNat_one]
              omega
            rw [next]
            obtain ⟨member, left⟩ := (earlier.withBlocked q').tick consistent replayed more
            exact ⟨member, left⟩
          · have quiet : tickCount [SyncEvent.task (ι := ι) event] = 0 := by
              cases event with
              | tick => exact absurd rfl ticks
              | create flag eip esp ddl => rfl
              | sleep counter => rfl
              | exit code => rfl
            rw [quiet, Nat.add_zero]
            obtain ⟨member, left⟩ := (earlier.withBlocked q').other consistent replayed ticks
            exact ⟨member, left⟩

omit [DecidableEq ι] in
theorem WaitingIn.checkWakeup (ok : WaitingIn s q) (asleep : Asleep s.system pid counter) :
    ∃ tm, checkWakeup s.system.kernel.taskManager = some tm ∧
      (counter = 1 → pid ∈ tm.pidQueueReady.elems ∧ pid ∉ tm.pidQueueSleeping.elems) ∧
      (counter ≠ 1 → pid ∈ tm.pidQueueSleeping.elems) := by
  obtain ⟨ghost, live, ready, blocked, sleeping, result, placed, woken, kept⟩ :=
    (asleep.withBlocked q).checkWakeup ok.waiting.consistent
  obtain ⟨tm, real, rfl⟩ := Option.map_eq_some_iff.mp
    ((checkWakeup_withBlocked s.system.kernel.taskManager q).symm.trans result)
  obtain ⟨readyEq, -, sleepingEq⟩ := placed.elems_eq
  change tm.pidQueueReady.elems = ready at readyEq
  change tm.pidQueueSleeping.elems = sleeping at sleepingEq
  refine ⟨tm, real, ?_⟩
  rw [readyEq, sleepingEq]
  exact ⟨woken, fun more => (kept more).2.1⟩

/-- A sleeping task is woken by tick number `counter`; 0 stands for `2 ^ 32`. -/
theorem Asleep.sleepsFor (ok : WaitingIn s q) (asleep : Asleep s.system pid counter) (nonzero : counter ≠ 0) :
    SleepsFor image s pid counter.toNat := by
  intro events t run
  constructor
  · intro few
    exact (asleep.run ok run (by rw [if_neg nonzero]; exact few)).2.member
  · intro last
    obtain ⟨⟨q', waiting⟩, now⟩ := asleep.run ok run (by rw [if_neg nonzero]; omega)
    obtain ⟨tm, result, woken, -⟩ := waiting.checkWakeup now
    have spent : counter - UInt32.ofNat (tickCount events) = 1 := by
      apply UInt32.toNat_inj.mp
      have bound := counter.toNat_lt
      rw [UInt32.toNat_sub, UInt32.toNat_ofNat', UInt32.toNat_one]
      omega
    exact ⟨tm, result, woken spent⟩

/-- A counter of 0 wraps around with the first tick. -/
theorem Asleep.zero_goes_on (ok : WaitingIn s q) (asleep : Asleep s.system pid 0) : ¬SleepsFor image s pid 1 := by
  intro sleepsFor
  obtain ⟨tm, result, -, gone⟩ := (sleepsFor [] s (Run.refl s)).2 rfl
  obtain ⟨tm', result', -, kept⟩ := ok.checkWakeup asleep
  obtain rfl : tm = tm' := Option.some.inj (result.symm.trans result')
  exact gone (kept (by decide))

theorem WaitingIn.asleep (ok : WaitingIn s q) (sleeps : SyncStep image s (.task (.sleep counter)) t) :
    WaitingIn t q ∧ Asleep t.system s.system.kernel.taskManager.pidRunning counter := by
  obtain ⟨member, left⟩ := ok.waiting.consistent.asleep (sleeps.task_withBlocked q)
  exact ⟨(ok.task sleeps).1, member, left⟩

/-- A task that calls `sys_sleep` sleeps as long as it asked for, and at least until the next
tick, exactly if it did not ask for 0 ticks. -/
theorem sleeps_for_iff {idle : IdleImage} {k k' : Kernel} {counts : ι → Int16} {events : List (SyncEvent ι)}
    (unused : k.taskManager.pidQueueSleeping.head = 0 ∧ k.taskManager.pidQueueSleeping.tail = 0)
    (started : schedInit image idle k = some k')
    (run : Run (SyncStep image) (syncStart image k k' counts) events s)
    (sleeps : SyncStep image s (.task (.sleep counter)) t) :
    SleepsFor image t s.system.kernel.taskManager.pidRunning (max counter.toNat 1) ↔ counter ≠ 0 := by
  obtain ⟨q, before⟩ := run_waitingIn unused started run
  obtain ⟨after, asleep⟩ := before.asleep sleeps
  constructor
  · rintro sleepsFor rfl
    exact asleep.zero_goes_on after sleepsFor
  · intro nonzero
    have positive : 1 ≤ counter.toNat := by
      by_contra none
      exact nonzero (UInt32.toNat_inj.mp (show counter.toNat = 0 by omega))
    rw [max_eq_left positive]
    exact asleep.sleepsFor after nonzero

end Runs

def sampleSlices : List (SyncEvent Bool) :=
  .task (.create 1 0x400000 0x500000 9) :: List.replicate 300 (.task .tick) ++
    [.wait true, .signal true] ++ List.replicate 200 (.task .tick)

theorem sampleSlices_run : ∃ s, Run (SyncStep sampleImage) sampleSyncStart sampleSlices s ∧
    s.system.kernel.taskManager.pidRunning = 7 ∧ (∃ t, SyncStep sampleImage s (.task (.sleep 3)) t) ∧
      ∃ t, SyncStep sampleImage s (.task (.sleep 0)) t := by
  have ends : (sampleSlices.foldlM (syncStep sampleImage) sampleSyncStart).map (fun s =>
      (s.system.kernel.taskManager.pidRunning, (syncStep sampleImage s (.task (.sleep 3))).isSome,
        (syncStep sampleImage s (.task (.sleep 0))).isSome)) = some (7, true, true) := by decide +kernel
  obtain ⟨s, result, values⟩ := Option.map_eq_some_iff.mp ends
  obtain ⟨running, three, zero⟩ := by simpa only [Prod.mk.injEq] using values
  exact ⟨s, Run.of_foldlM result, running, Option.isSome_iff_exists.mp three,
    Option.isSome_iff_exists.mp zero⟩

theorem sleeps_for_three :
    ∃ s t, Run (SyncStep sampleImage) sampleSyncStart sampleSlices s ∧ SyncStep sampleImage s (.task (.sleep 3)) t ∧
      SleepsFor sampleImage t 7 3 := by
  obtain ⟨s, run, running, ⟨t, sleeps⟩, -⟩ := sampleSlices_run
  refine ⟨s, t, run, sleeps, ?_⟩
  rw [← running]
  exact (sleeps_for_iff ⟨rfl, rfl⟩ sampleStart_started run sleeps).mpr (by decide)

/-- With 0 ticks, the next tick does not wake task 7: its counter wraps around. -/
theorem sleep_zero_goes_on :
    ¬∀ s t, Run (SyncStep sampleImage) sampleSyncStart sampleSlices s → SyncStep sampleImage s (.task (.sleep 0)) t →
      SleepsFor sampleImage t s.system.kernel.taskManager.pidRunning 1 := by
  intro holds
  obtain ⟨s, run, -, -, t, sleeps⟩ := sampleSlices_run
  obtain ⟨q, ok⟩ := run_waitingIn ⟨rfl, rfl⟩ sampleStart_started run
  obtain ⟨after, asleep⟩ := ok.asleep sleeps
  exact asleep.zero_goes_on after (holds s t run sleeps)

/-! ## All that sleep -/

/-- One tick for all that sleep: each counter loses one, and those with nothing left go to the end of
the ready queue, in the order in which they slept. -/
structure TickTaken (tm tm' : TaskManager) : Prop where
  counters : ∀ pid, (tm'.tasks pid).wakeupCounter =
    if pid ∈ tm.pidQueueSleeping.elems then (tm.tasks pid).wakeupCounter - 1 else (tm.tasks pid).wakeupCounter
  ready : tm'.pidQueueReady.elems = tm.pidQueueReady.elems ++
    tm.pidQueueSleeping.elems.filter fun pid => (tm'.tasks pid).wakeupCounter == 0
  sleeping : tm'.pidQueueSleeping.elems =
    tm.pidQueueSleeping.elems.filter fun pid => (tm'.tasks pid).wakeupCounter != 0
  once : tm.pidQueueSleeping.elems.Nodup
  states : ∀ pid, (tm'.tasks pid).state =
    if pid ∈ tm.pidQueueSleeping.elems ∧ (tm'.tasks pid).wakeupCounter = 0 then .ready else (tm.tasks pid).state
  blocked : tm'.pidQueueBlocked.elems = tm.pidQueueBlocked.elems
  running : tm'.pidRunning = tm.pidRunning

theorem Consistent.checkWakeup {s : System} (ok : Consistent s) :
    ∃ tm, checkWakeup s.kernel.taskManager = some tm ∧ TickTaken s.kernel.taskManager tm := by
  obtain ⟨tm, result, woken, placed⟩ := ok.placed.after_checkWakeup
  obtain ⟨ready, blocked, sleeping⟩ := placed.elems_eq
  have spent : ∀ pid ∈ s.kernel.taskManager.pidQueueSleeping.elems,
      wakes s.kernel.taskManager pid = ((tm.tasks pid).wakeupCounter == 0) := by
    intro pid member
    rw [woken.wakeupCounter, if_pos member, wakes]
  have kept : ∀ pid ∈ s.kernel.taskManager.pidQueueSleeping.elems,
      (!wakes s.kernel.taskManager pid) = ((tm.tasks pid).wakeupCounter != 0) :=
    fun pid member => congrArg (!·) (spent pid member)
  refine ⟨tm, result, woken.wakeupCounter, ?_, ?_, ok.placed.nodup_lists.2.2, fun pid => ?_, blocked,
    woken.pidRunning⟩
  · rw [ready, List.filter_congr spent]
  · rw [sleeping, List.filter_congr kept]
  · by_cases member : pid ∈ s.kernel.taskManager.pidQueueSleeping.elems
    · by_cases zero : (tm.tasks pid).wakeupCounter = 0
      · rw [if_pos ⟨member, zero⟩]
        apply placed.queued.readyState
        rw [List.mem_append, List.mem_filter, spent pid member, zero]
        exact Or.inr ⟨member, rfl⟩
      · rw [if_neg fun both => zero both.right, ok.placed.queued.sleepingState pid member]
        apply placed.queued.sleepingState
        rw [List.mem_filter, kept pid member]
        exact ⟨member, bne_iff_ne.mpr zero⟩
    · rw [if_neg fun both => member both.left]
      exact woken.runningState pid member

/-- In every state that is reached from `sched_init`, `check_wakeup` ends and takes one tick from
every task that sleeps. -/
theorem check_wakeup_takes_tick {image : KernelImage} {idle : IdleImage} {k k' : Kernel} {events : List Event}
    {s : System} (unused : k.taskManager.pidQueueSleeping.head = 0 ∧ k.taskManager.pidQueueSleeping.tail = 0)
    (started : schedInit image idle k = some k')
    (run : Run (Step image) ⟨k', idlePids image k.gdt, []⟩ events s) :
    ∃ tm, checkWakeup s.kernel.taskManager = some tm ∧ TickTaken s.kernel.taskManager tm := by
  have ok : Consistent s :=
    run.invariant (schedInit_consistent unused started).1 fun _ _ _ holds step => (holds.step step).1
  exact ok.checkWakeup

def sampleSleepers : List Event :=
  List.replicate 3 (.create 1 0x400000 0x500000 9) ++ List.replicate 300 .tick ++ [.sleep 2, .sleep 1, .sleep 1]

/-- The next tick wakes tasks 8 and 9, and not 7. -/
theorem check_wakeup_takes_tick_three :
    ∃ s tm, Run (Step sampleImage) sampleStart sampleSleepers s ∧
      s.kernel.taskManager.pidQueueSleeping.elems = [7, 8, 9] ∧
      (s.kernel.taskManager.tasks 7).wakeupCounter = 2 ∧ (s.kernel.taskManager.tasks 8).wakeupCounter = 1 ∧
      checkWakeup s.kernel.taskManager = some tm ∧ TickTaken s.kernel.taskManager tm := by
  have ends : (sampleSleepers.foldlM (step sampleImage) sampleStart).map (fun s =>
      (s.kernel.taskManager.pidQueueSleeping.elems, (s.kernel.taskManager.tasks 7).wakeupCounter,
        (s.kernel.taskManager.tasks 8).wakeupCounter)) = some ([7, 8, 9], 2, 1) := by decide +kernel
  obtain ⟨s, result, values⟩ := Option.map_eq_some_iff.mp ends
  simp only [Prod.mk.injEq] at values
  have run := Run.of_foldlM result
  obtain ⟨tm, woken, taken⟩ := check_wakeup_takes_tick ⟨rfl, rfl⟩ sampleStart_started run
  exact ⟨s, tm, run, values.1, values.2.1, values.2.2, woken, taken⟩

end WegOS
