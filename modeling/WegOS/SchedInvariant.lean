import WegOS.SchedSpec
import WegOS.Lib.Transition

/-! Every live task is in exactly one place, in every run from `sched_init`. -/

namespace WegOS

open Transition

/-! ## The tasks and their places -/

/-- `live` are the pids created and not exited. Each of them is on the processor
or in one of the queues, and nowhere twice. -/
structure Placed (tm : TaskManager) (live ready blocked sleeping : List Nat) : Prop where
  queued : Queued tm ready blocked sleeping
  places : (onCpu tm ++ ready ++ blocked ++ sleeping).Perm live
  nodup : live.Nodup
  running : tm.pidRunning ≠ notFound → (tm.tasks tm.pidRunning).state = .running
  bounds : ∀ pid ∈ live, 0 < pid ∧ pid < maxGdtTerms

section Placed

variable {tm tm' : TaskManager} {live ready blocked sleeping : List Nat} {reason : SchedulerReason}

theorem Placed.count_eq (placed : Placed tm live ready blocked sleeping) (pid : Nat) :
    (onCpu tm).count pid + ready.count pid + blocked.count pid + sleeping.count pid =
      live.count pid := by
  rw [← placed.places.count_eq, List.count_append, List.count_append, List.count_append]

theorem live_length {live : List Nat} (nodup : live.Nodup)
    (bounds : ∀ pid ∈ live, 0 < pid ∧ pid < maxGdtTerms) : live.length < maxGdtTerms := by
  have inside : live ⊆ List.range' 1 (maxGdtTerms - 1) := by
    intro pid member
    obtain ⟨low, high⟩ := bounds pid member
    rw [List.mem_range'_1]
    omega
  have length := (nodup.subperm inside).length_le
  rw [List.length_range'] at length
  simp only [maxGdtTerms] at length ⊢
  omega

theorem Placed.length_eq (placed : Placed tm live ready blocked sleeping) :
    (onCpu tm).length + ready.length + blocked.length + sleeping.length = live.length := by
  rw [← placed.places.length_eq, List.length_append, List.length_append, List.length_append]

theorem Placed.length_lt (placed : Placed tm live ready blocked sleeping) :
    (onCpu tm).length + ready.length + blocked.length + sleeping.length < maxGdtTerms := by
  rw [placed.length_eq]
  exact live_length placed.nodup placed.bounds

theorem Placed.mem_live (placed : Placed tm live ready blocked sleeping) {pid : Nat} :
    pid ∈ live ↔ pid ∈ onCpu tm ∨ pid ∈ ready ∨ pid ∈ blocked ∨ pid ∈ sleeping := by
  rw [← placed.places.mem_iff]
  simp

theorem Placed.count_le_one (placed : Placed tm live ready blocked sleeping) (pid : Nat) :
    (onCpu tm).count pid + ready.count pid + blocked.count pid + sleeping.count pid ≤ 1 := by
  rw [placed.count_eq]
  exact List.nodup_iff_count_le_one.mp placed.nodup pid

theorem Placed.apart (placed : Placed tm live ready blocked sleeping) {pid : Nat} :
    (pid ∈ onCpu tm → Outside pid ready blocked sleeping) ∧
      (pid ∈ ready → pid ∉ blocked ∧ pid ∉ sleeping) ∧
      (pid ∈ sleeping → pid ∉ ready ∧ pid ∉ blocked) ∧
      (pid ∈ blocked → pid ∉ ready ∧ pid ∉ sleeping) := by
  have one := placed.count_le_one pid
  simp only [Outside, ← List.count_pos_iff] at one ⊢
  omega

theorem Placed.count_filter (placed : Placed tm live ready blocked sleeping) (pid : Nat) :
    (live.filter (· ∉ onCpu tm)).count pid =
      ready.count pid + blocked.count pid + sleeping.count pid := by
  have total := placed.count_eq pid
  have one := placed.count_le_one pid
  by_cases on : pid ∈ onCpu tm
  · have positive := List.count_pos_iff.mpr on
    rw [List.count_eq_zero_of_not_mem (by simp [on])]
    omega
  · have zero := List.count_eq_zero_of_not_mem on
    rw [List.count_filter (by simpa using on)]
    omega

theorem mem_onCpu {pid : Nat} : pid ∈ onCpu tm ↔ tm.pidRunning ≠ notFound ∧ pid = tm.pidRunning := by
  unfold onCpu
  split_ifs with idle
  · simp [idle]
  · simp [idle]

theorem Placed.nodup_lists (placed : Placed tm live ready blocked sleeping) :
    ready.Nodup ∧ blocked.Nodup ∧ sleeping.Nodup := by
  simp only [List.nodup_iff_count_le_one]
  refine ⟨fun pid => ?_, fun pid => ?_, fun pid => ?_⟩
  all_goals
    have one := placed.count_le_one pid
    omega

theorem Placed.switchable {best : Nat} {rest : List Nat}
    (placed : Placed tm live (best :: rest) blocked sleeping) :
    Switchable tm (best :: rest) blocked sleeping := by
  have total := placed.length_lt
  rw [List.length_cons] at total
  exact
    { queued := placed.queued
      runningOutside := fun busy => placed.apart.1 (mem_onCpu.mpr ⟨busy, rfl⟩)
      disjoint := fun pid => placed.apart.2.1
      nodup := placed.nodup_lists.1
      bounded := fun pid member => (placed.bounds pid (placed.mem_live.mpr (Or.inr (Or.inl member)))).2
      blockedSpace := by omega
      sleepingSpace := by omega }

theorem Placed.schedule_ready (placed : Placed tm live ready blocked sleeping)
    (result : schedule tm reason = some tm') : ∃ best rest, ready = best :: rest := by
  cases ready with
  | nil =>
      rw [schedule_empty placed.queued] at result
      simp at result
  | cons best rest => exact ⟨best, rest, rfl⟩

/-- After `schedule` the next task is on the processor. The outgoing one is live still,
unless the reason gives it no queue. -/
theorem Placed.after_schedule {best : Nat} {rest : List Nat}
    (placed : Placed tm live (best :: rest) blocked sleeping)
    (result : schedule tm reason = some tm') :
    tm'.pidRunning = best ∧
      (∀ p, (tm'.tasks p).tss = (tm.tasks p).tss) ∧
      Placed tm'
        (if reason = .taskExit ∨ reason = .taskYield then live.filter (· ∉ onCpu tm) else live)
        (rest ++ outgoing tm reason .timePieceOver) (blocked ++ outgoing tm reason .taskBlocked)
        (sleeping ++ outgoing tm reason .taskSleep) := by
  obtain ⟨after, same, pidRunning, state, _, frame, queued⟩ :=
    schedule_cons reason placed.switchable
  obtain rfl : tm' = after := Option.some.inj (result.symm.trans same)
  have bestBound := (placed.bounds best (placed.mem_live.mpr (Or.inr (Or.inl List.mem_cons_self)))).2
  have real : best ≠ notFound := by
    simp only [maxGdtTerms, notFound] at bestBound ⊢
    omega
  have cpu : onCpu tm' = [best] := by rw [onCpu, pidRunning, if_neg real]
  have subset : ∀ pid ∈ (if reason = .taskExit ∨ reason = .taskYield then
      live.filter (· ∉ onCpu tm) else live), pid ∈ live := by
    intro pid member
    split_ifs at member
    · exact List.mem_of_mem_filter member
    · exact member
  refine ⟨pidRunning, fun p => (frame p).1, queued, ?_, ?_, fun _ => pidRunning ▸ state,
    fun pid member => placed.bounds pid (subset pid member)⟩
  · rw [cpu, List.perm_iff_count]
    intro pid
    have total := placed.count_eq pid
    rw [List.count_cons] at total
    have one := placed.count_le_one pid
    rw [List.count_cons] at one
    simp only [List.count_append, List.count_cons, List.count_nil]
    cases reason with
    | timePieceOver =>
        simp only [outgoing, reduceCtorEq, if_true, if_false, List.count_nil, or_self]
        omega
    | taskSleep =>
        simp only [outgoing, reduceCtorEq, if_true, if_false, List.count_nil, or_self]
        omega
    | taskBlocked =>
        simp only [outgoing, reduceCtorEq, if_true, if_false, List.count_nil, or_self]
        omega
    | taskYield =>
        simp only [outgoing, reduceCtorEq, if_true, if_false, List.count_nil, or_true,
          placed.count_filter, List.count_cons]
        omega
    | taskExit =>
        simp only [outgoing, reduceCtorEq, if_true, if_false, List.count_nil, true_or,
          placed.count_filter, List.count_cons]
        omega
  · split_ifs
    · exact placed.nodup.filter _
    · exact placed.nodup

theorem Placed.after_checkWakeup (placed : Placed tm live ready blocked sleeping) :
    ∃ tm', checkWakeup tm = some tm' ∧ Woken tm tm' ready blocked [] sleeping ∧
      Placed tm' live (ready ++ sleeping.filter (wakes tm)) blocked
        (sleeping.filter fun pid => !wakes tm pid) := by
  have total := placed.length_lt
  obtain ⟨tm', result, woken⟩ := checkWakeup_woken placed.queued
    (fun pid member => placed.apart.2.2.1 member) placed.nodup_lists.2.2 (by omega)
  have cpu : onCpu tm' = onCpu tm := by rw [onCpu, onCpu, woken.pidRunning]
  refine ⟨tm', result, woken, by simpa using woken.queued, ?_, placed.nodup, ?_, placed.bounds⟩
  · rw [cpu, List.perm_iff_count]
    intro pid
    rw [← placed.count_eq pid]
    have split := (List.filter_append_perm (wakes tm) sleeping).count_eq pid
    simp only [List.count_append] at split ⊢
    omega
  · intro busy
    rw [woken.pidRunning] at busy ⊢
    have outside := (placed.apart.1 (mem_onCpu.mpr ⟨busy, rfl⟩)).2.2
    rw [woken.runningState _ outside]
    exact placed.running busy

theorem Placed.after_checkTaskAffairs (placed : Placed tm live ready blocked sleeping)
    (result : checkTaskAffairs tm = some tm') :
    ∃ ready' sleeping', Placed tm' live ready' blocked sleeping' ∧ ∀ pid ∈ sleeping', pid ∈ sleeping := by
  obtain ⟨mid, woke, _, midPlaced⟩ := placed.after_checkWakeup
  rw [checkTaskAffairs, woke, Option.bind_eq_bind, Option.bind_some, checkSchedule] at result
  have countedDown : Placed { mid with schduleCounter := mid.schduleCounter - 1 } live
      (ready ++ sleeping.filter (wakes tm)) blocked (sleeping.filter fun pid => !wakes tm pid) :=
    ⟨midPlaced.queued.congr rfl rfl rfl fun _ => rfl, midPlaced.places, midPlaced.nodup,
      midPlaced.running, midPlaced.bounds⟩
  simp only at result
  split_ifs at result
  · obtain ⟨best, rest, shape⟩ := countedDown.schedule_ready result
    rw [shape] at countedDown
    have after := (countedDown.after_schedule result).2.2
    simp only [reduceCtorEq, or_self, if_false] at after
    exact ⟨_, _, by simpa [outgoing] using after, fun _ => List.mem_of_mem_filter⟩
  · rw [← Option.some.inj result]
    exact ⟨_, _, countedDown, fun _ => List.mem_of_mem_filter⟩

theorem Placed.set_counter (placed : Placed tm live ready blocked sleeping) (pid : Nat) (counter : UInt32) :
    Placed { tm with tasks := Function.update tm.tasks pid { tm.tasks pid with wakeupCounter := counter } }
      live ready blocked sleeping := by
  have states : ∀ p, (Function.update tm.tasks pid { tm.tasks pid with wakeupCounter := counter } p).state =
      (tm.tasks p).state := by
    intro p
    by_cases same : p = pid
    · rw [same, Function.update_self]
    · rw [Function.update_of_ne same]
  exact ⟨placed.queued.congr rfl rfl rfl states, placed.places, placed.nodup,
    fun busy => (states _).trans (placed.running busy), placed.bounds⟩

theorem Placed.after_sysSleep {counter : UInt32} (placed : Placed tm live ready blocked sleeping)
    (result : sysSleep tm counter = some tm') :
    ∃ ready' sleeping', Placed tm' live ready' blocked sleeping' ∧
      ∀ pid ∈ sleeping', pid ∈ sleeping ∨ pid = tm.pidRunning := by
  rw [sysSleep] at result
  split_ifs at result with outside
  have before := placed.set_counter tm.pidRunning counter
  obtain ⟨best, rest, shape⟩ := before.schedule_ready result
  rw [shape] at before
  have after := (before.after_schedule result).2.2
  simp only [reduceCtorEq, or_self, if_false] at after
  refine ⟨_, _, by simpa [outgoing] using after, ?_⟩
  intro pid member
  rcases List.mem_append.mp member with old | new
  · exact Or.inl old
  · exact Or.inr (mem_onCpu.mp new).2

theorem Placed.after_exit (placed : Placed tm live ready blocked sleeping)
    (result : schedule tm .taskExit = some tm') :
    ∃ ready', Placed tm' (live.filter (· ∉ onCpu tm)) ready' blocked sleeping := by
  obtain ⟨best, rest, shape⟩ := placed.schedule_ready result
  rw [shape] at placed
  have after := (placed.after_schedule result).2.2
  simp only [true_or, if_true] at after
  exact ⟨_, by simpa [outgoing] using after⟩

theorem Placed.after_create {pid : Nat} (placed : Placed tm live ready blocked sleeping) (task : Task)
    (fresh : pid ∉ live) (low : 0 < pid) (high : pid < maxGdtTerms) :
    Placed (setTaskState { tm with tasks := Function.update tm.tasks pid task } pid .ready)
      (pid :: live) (ready ++ [pid]) blocked sleeping := by
  have outside : Outside pid ready blocked sleeping := by
    simp only [placed.mem_live, not_or] at fresh
    exact fresh.2
  have notRunning : tm.pidRunning ≠ notFound → tm.pidRunning ≠ pid := by
    intro busy same
    exact fresh (placed.mem_live.mpr (Or.inl (mem_onCpu.mpr ⟨busy, same.symm⟩)))
  have nodup : (pid :: live).Nodup := List.nodup_cons.mpr ⟨fresh, placed.nodup⟩
  have bounds : ∀ p ∈ pid :: live, 0 < p ∧ p < maxGdtTerms := by
    intro p member
    rcases List.mem_cons.mp member with rfl | old
    · exact ⟨low, high⟩
    · exact placed.bounds p old
  have total := live_length nodup bounds
  rw [List.length_cons, ← placed.length_eq] at total
  have others : ∀ p, p ≠ pid → (Function.update tm.tasks pid task p).state = (tm.tasks p).state := by
    intro p other
    rw [Function.update_of_ne other]
  have initialised : Queued { tm with tasks := Function.update tm.tasks pid task }
      ready blocked sleeping :=
    { readyHolds := placed.queued.readyHolds
      blockedHolds := placed.queued.blockedHolds
      sleepingHolds := placed.queued.sleepingHolds
      readyState := fun p member =>
        (others p fun same => outside.1 (same ▸ member)).trans (placed.queued.readyState p member)
      blockedState := fun p member =>
        (others p fun same => outside.2.1 (same ▸ member)).trans (placed.queued.blockedState p member)
      sleepingState := fun p member =>
        (others p fun same => outside.2.2 (same ▸ member)).trans (placed.queued.sleepingState p member) }
  refine ⟨initialised.toReady outside (by omega), ?_, nodup, ?_, bounds⟩
  · have cpu : onCpu (setTaskState { tm with tasks := Function.update tm.tasks pid task } pid .ready) =
        onCpu tm := rfl
    rw [cpu, List.perm_iff_count]
    intro p
    have old := placed.count_eq p
    simp only [List.count_append, List.count_cons, List.count_nil]
    omega
  · intro busy
    rw [setTaskState_state]
    exact (if_neg (notRunning busy)).trans ((others _ (notRunning busy)).trans (placed.running busy))

theorem Placed.after_wake {pid : Nat} {q : PidQueue} (placed : Placed tm live ready blocked sleeping)
    (member : pid ∈ blocked) (holds : q.HoldsFlat (blocked.erase pid)) :
    Placed (setTaskState { tm with pidQueueBlocked := q } pid .ready) live (ready ++ [pid])
      (blocked.erase pid) sleeping := by
  obtain ⟨outReady, outSleeping⟩ := placed.apart.2.2.2 member
  have nodup := placed.nodup_lists.2.1
  have positive := List.count_pos_iff.mpr member
  have total := placed.length_lt
  have nonzero := List.length_pos_of_mem member
  have removed : Queued { tm with pidQueueBlocked := q } ready (blocked.erase pid) sleeping :=
    { readyHolds := placed.queued.readyHolds
      blockedHolds := holds
      sleepingHolds := placed.queued.sleepingHolds
      readyState := placed.queued.readyState
      blockedState := fun p there => placed.queued.blockedState p (List.mem_of_mem_erase there)
      sleepingState := placed.queued.sleepingState }
  have notRunning : tm.pidRunning ≠ notFound → tm.pidRunning ≠ pid := by
    intro busy same
    exact (placed.apart.1 (mem_onCpu.mpr ⟨busy, same.symm⟩)).2.1 member
  refine ⟨removed.toReady ⟨outReady, nodup.not_mem_erase, outSleeping⟩ (by omega), ?_, placed.nodup,
    ?_, placed.bounds⟩
  · have cpu : onCpu (setTaskState { tm with pidQueueBlocked := q } pid .ready) = onCpu tm := rfl
    rw [cpu, List.perm_iff_count]
    intro p
    rw [← placed.count_eq p]
    by_cases same : p = pid
    · simp only [List.count_append, List.count_cons, List.count_nil, List.count_erase, same,
        beq_self_eq_true, if_true]
      omega
    · have other : (pid == p) = false := by simpa using Ne.symm same
      simp only [List.count_append, List.count_cons, List.count_nil, List.count_erase, other,
        Bool.false_eq_true, if_false]
      omega
  · intro busy
    rw [setTaskState_state]
    exact (if_neg (notRunning busy)).trans (placed.running busy)

end Placed

/-! ## Creating a task -/

theorem createTask_eq {image : KernelImage} {k k' : Kernel} {flag eip esp ddl : UInt32} {pid : Nat}
    (result : createTask image k flag eip esp ddl = some (pid, k')) :
    FirstEmpty k.gdt pid ∧ pid = getPidEmpty k.gdt ∧
      k'.gdt = Function.update k.gdt pid (makeGdtDescForTss (image.tssAddress pid) dplKernel) ∧
      k'.memory = copyPts (pMalloc k.memory).2 image.kernelPd (pMalloc k.memory).1 ∧
      ∃ task, task.tss.cr3 = (pMalloc k.memory).1 ∧
        k'.taskManager = setTaskState
          { k.taskManager with tasks := Function.update k.taskManager.tasks pid task } pid .ready := by
  simp only [createTask, taskInit, Option.bind_eq_bind] at result
  by_cases outside : maxGdtTerms ≤ getPidEmpty k.gdt
  · simp [outside] at result
  · simp only [if_neg outside, Option.bind_some, Option.pure_def, Option.some.injEq,
      Prod.mk.injEq] at result
    obtain ⟨rfl, rfl⟩ := result
    exact ⟨getPidEmpty_first (by omega), rfl, rfl, rfl, _, rfl, rfl⟩

theorem createTask_some (image : KernelImage) {k : Kernel} (flag eip esp ddl : UInt32)
    (free : getPidEmpty k.gdt < maxGdtTerms) :
    ∃ k', createTask image k flag eip esp ddl = some (getPidEmpty k.gdt, k') := by
  simp only [createTask, taskInit, if_neg (Nat.not_le.mpr free)]
  exact ⟨_, rfl⟩

/-! ## Runs -/

inductive Event
  | create (flag eip esp ddl : UInt32)
  | tick
  | sleep (counter : UInt32)
  | exit (code : UInt32)

structure System where
  kernel : Kernel
  live : List Nat
  exited : List Nat

/-- The running task calls `sys_sleep` and `sys_exit`; `create_task` may come at any
time, whether or not a frame is left. -/
def step (image : KernelImage) (s : System) : Event → Option System
  | .create flag eip esp ddl => do
      let (pid, k) ← createTask image s.kernel flag eip esp ddl
      pure ⟨k, pid :: s.live, s.exited.filter (· ≠ pid)⟩
  | .tick => do
      let tm ← checkTaskAffairs s.kernel.taskManager
      pure { s with kernel := { s.kernel with taskManager := tm } }
  | .sleep counter => do
      let tm ← sysSleep s.kernel.taskManager counter
      pure { s with kernel := { s.kernel with taskManager := tm } }
  | .exit code => do
      let k ← sysExit s.kernel code
      pure ⟨k, s.live.filter (· ∉ onCpu s.kernel.taskManager), onCpu s.kernel.taskManager ++ s.exited⟩

def Step (image : KernelImage) (s : System) (event : Event) (t : System) : Prop :=
  step image s event = some t

structure Consistent (s : System) : Prop where
  placed : Placed s.kernel.taskManager s.live s.kernel.taskManager.pidQueueReady.elems
    s.kernel.taskManager.pidQueueBlocked.elems s.kernel.taskManager.pidQueueSleeping.elems
  described : ∀ pid ∈ s.live, emptyDesc (s.kernel.gdt pid) = false
  gone : ∀ pid ∈ s.exited, pid ∉ s.live

theorem Placed.elems_eq {tm : TaskManager} {live ready blocked sleeping : List Nat}
    (placed : Placed tm live ready blocked sleeping) :
    tm.pidQueueReady.elems = ready ∧ tm.pidQueueBlocked.elems = blocked ∧
      tm.pidQueueSleeping.elems = sleeping :=
  ⟨placed.queued.readyHolds.elems_eq, placed.queued.blockedHolds.2.elems_eq,
    placed.queued.sleepingHolds.2.elems_eq⟩

theorem Placed.elems {tm : TaskManager} {live ready blocked sleeping : List Nat}
    (placed : Placed tm live ready blocked sleeping) :
    Placed tm live tm.pidQueueReady.elems tm.pidQueueBlocked.elems tm.pidQueueSleeping.elems := by
  obtain ⟨readyEq, blockedEq, sleepingEq⟩ := placed.elems_eq
  rw [readyEq, blockedEq, sleepingEq]
  exact placed

theorem Consistent.create {image : KernelImage} {s : System} {flag eip esp ddl : UInt32} {pid : Nat}
    {k : Kernel} (ok : Consistent s)
    (result : createTask image s.kernel flag eip esp ddl = some (pid, k)) :
    Consistent ⟨k, pid :: s.live, s.exited.filter (· ≠ pid)⟩ := by
  obtain ⟨⟨low, high, empty, _⟩, _, gdt, _, task, _, taskManager⟩ := createTask_eq result
  have fresh : pid ∉ s.live := by
    intro member
    rw [ok.described pid member] at empty
    exact absurd empty (by decide)
  refine ⟨?_, ?_, ?_⟩
  · have placed := ok.placed.after_create task fresh low high
    rw [← taskManager] at placed
    exact placed.elems
  · intro p member
    rw [gdt]
    by_cases same : p = pid
    · rw [same, Function.update_self]
      exact makeGdtDescForTss_nonempty _ _
    · rw [Function.update_of_ne same]
      exact ok.described p (List.mem_of_ne_of_mem same member)
  · intro p member inside
    rw [List.mem_filter] at member
    have other : p ≠ pid := by simpa using member.2
    exact ok.gone p member.1 (List.mem_of_ne_of_mem other inside)

theorem Consistent.exit {s : System} {code : UInt32} {k : Kernel} (ok : Consistent s)
    (result : sysExit s.kernel code = some k) :
    Consistent ⟨k, s.live.filter (· ∉ onCpu s.kernel.taskManager),
      onCpu s.kernel.taskManager ++ s.exited⟩ ∧
      k.taskManager.pidQueueBlocked.elems = s.kernel.taskManager.pidQueueBlocked.elems := by
  simp only [sysExit, Option.bind_eq_bind] at result
  split_ifs at result with outside
  · simp at result
  cases scheduled : schedule s.kernel.taskManager .taskExit with
  | none => simp [scheduled] at result
  | some tm =>
      simp only [scheduled, Option.bind_some, Option.pure_def, Option.some.injEq] at result
      subst result
      obtain ⟨ready', placed⟩ := ok.placed.after_exit scheduled
      have cpu : s.kernel.taskManager.pidRunning ∈ onCpu s.kernel.taskManager := by
        refine mem_onCpu.mpr ⟨?_, rfl⟩
        simp only [maxGdtTerms, notFound] at outside ⊢
        omega
      refine ⟨⟨placed.elems, ?_, ?_⟩, placed.elems_eq.2.1⟩
      · intro p member
        obtain ⟨old, notRunning⟩ := List.mem_filter.mp member
        have other : p ≠ s.kernel.taskManager.pidRunning := by
          intro same
          exact absurd (same ▸ cpu) (by simpa using notRunning)
        have same : Function.update s.kernel.gdt s.kernel.taskManager.pidRunning ⟨0, 0⟩ p =
            s.kernel.gdt p := Function.update_of_ne other _ _
        exact (congrArg emptyDesc same).trans (ok.described p old)
      · intro p member inside
        obtain ⟨old, notRunning⟩ := List.mem_filter.mp inside
        rcases List.mem_append.mp member with on | before
        · exact absurd on (by simpa using notRunning)
        · exact ok.gone p before old

/-- One step of the system; no event of these touches a blocked task. -/
theorem Consistent.step {image : KernelImage} {s t : System} {event : Event} (ok : Consistent s)
    (step : Step image s event t) :
    Consistent t ∧ t.kernel.taskManager.pidQueueBlocked.elems =
      s.kernel.taskManager.pidQueueBlocked.elems := by
  cases event with
  | create flag eip esp ddl =>
      obtain ⟨⟨pid, k⟩, result, same⟩ := Option.bind_eq_some_iff.mp step
      obtain rfl := Option.some.inj same
      obtain ⟨_, _, _, _, task, _, taskManager⟩ := createTask_eq result
      refine ⟨ok.create result, ?_⟩
      simp only [taskManager]
      rfl
  | tick =>
      obtain ⟨tm, result, same⟩ := Option.bind_eq_some_iff.mp step
      obtain rfl := Option.some.inj same
      obtain ⟨ready', sleeping', placed, -⟩ := ok.placed.after_checkTaskAffairs result
      exact ⟨⟨placed.elems, ok.described, ok.gone⟩, placed.elems_eq.2.1⟩
  | sleep counter =>
      obtain ⟨tm, result, same⟩ := Option.bind_eq_some_iff.mp step
      obtain rfl := Option.some.inj same
      obtain ⟨ready', sleeping', placed, -⟩ := ok.placed.after_sysSleep result
      exact ⟨⟨placed.elems, ok.described, ok.gone⟩, placed.elems_eq.2.1⟩
  | exit code =>
      obtain ⟨k, result, same⟩ := Option.bind_eq_some_iff.mp step
      obtain rfl := Option.some.inj same
      exact ok.exit result

/-! ## From `sched_init` on -/

def idlePids (image : KernelImage) (gdt : Nat → GdtDesc) : List Nat :=
  let first := getPidEmpty gdt
  let desc := makeGdtDescForTss (image.tssAddress first) dplKernel
  [getPidEmpty (Function.update gdt first desc), first]

/-- `task_manager_init` starts without tasks, whatever memory is like. -/
theorem taskManagerInit_consistent {k : Kernel}
    (unused : k.taskManager.pidQueueSleeping.head = 0 ∧ k.taskManager.pidQueueSleeping.tail = 0)
    (memory : Memory) :
    Consistent ⟨{ k with taskManager := taskManagerInit k.taskManager, memory := memory }, [], []⟩ := by
  have sleepingNil : k.taskManager.pidQueueSleeping.HoldsFlat [] := by
    refine ⟨unused.1, ?_⟩
    have empty : CircularQueue.Holds maxGdtTerms k.taskManager.pidQueueSleeping.pids 0 0 [] :=
      CircularQueue.holds_nil (by decide)
    simpa only [PidQueue.Holds, unused.1, unused.2] using empty
  have placed : Placed (taskManagerInit k.taskManager) [] [] [] [] :=
    { queued :=
        { readyHolds := pidQueueInit_holds
          blockedHolds := ⟨rfl, pidQueueInit_holds⟩
          sleepingHolds := sleepingNil
          readyState := by simp
          blockedState := by simp
          sleepingState := by simp }
      places := by simp [onCpu, taskManagerInit]
      nodup := List.nodup_nil
      running := fun busy => absurd rfl busy
      bounds := by simp }
  exact ⟨placed.elems, by simp, by simp⟩

theorem schedInit_creates {image : KernelImage} {idle : IdleImage} {k k' : Kernel}
    (started : schedInit image idle k = some k') :
    ∃ first second between,
      createTask image { k with taskManager := taskManagerInit k.taskManager } taskFlagKernel idle.idle
        (idle.idleStack0 + 4096) 0xFF = some (first, between) ∧
      createTask image between taskFlagKernel idle.idle (idle.idleStack1 + 4096) 0xFF = some (second, k') ∧
      idlePids image k.gdt = [second, first] := by
  simp only [schedInit, Option.bind_eq_bind] at started
  obtain ⟨⟨first, between⟩, one, started⟩ := Option.bind_eq_some_iff.mp started
  obtain ⟨⟨second, k2⟩, two, same⟩ := Option.bind_eq_some_iff.mp started
  obtain rfl : k2 = k' := by simpa using same
  obtain ⟨_, firstEq, gdt, _⟩ := createTask_eq one
  obtain ⟨_, secondEq, _⟩ := createTask_eq two
  refine ⟨first, second, between, one, two, ?_⟩
  rw [secondEq, gdt, firstEq]
  rfl

theorem schedInit_consistent {image : KernelImage} {idle : IdleImage} {k k' : Kernel}
    (unused : k.taskManager.pidQueueSleeping.head = 0 ∧ k.taskManager.pidQueueSleeping.tail = 0)
    (started : schedInit image idle k = some k') :
    Consistent ⟨k', idlePids image k.gdt, []⟩ ∧ k'.taskManager.pidQueueBlocked.elems = [] := by
  have begin := taskManagerInit_consistent unused k.memory
  obtain ⟨first, second, between, one, two, pids⟩ := schedInit_creates started
  obtain ⟨_, _, _, _, _, _, taskManager1⟩ := createTask_eq one
  obtain ⟨_, _, _, _, _, _, taskManager2⟩ := createTask_eq two
  have blocked : k'.taskManager.pidQueueBlocked = pidQueueInit := by
    rw [taskManager2, taskManager1]
    rfl
  rw [pids, blocked]
  exact ⟨(begin.create one).create two, pidQueueInit_holds.elems_eq⟩

inductive Place
  | processor | ready | blocked | sleeping

def Place.pids (tm : TaskManager) : Place → List Nat
  | .processor => onCpu tm
  | .ready => tm.pidQueueReady.elems
  | .blocked => tm.pidQueueBlocked.elems
  | .sleeping => tm.pidQueueSleeping.elems

def Place.state : Place → TaskState
  | .processor => .running
  | .ready => .ready
  | .blocked => .blocked
  | .sleeping => .sleeping

/-- `pid` occurs once in one place, has the state of that place, and occurs in no other. -/
def InOnePlace (tm : TaskManager) (pid : Nat) : Prop :=
  ∃ place : Place, (place.pids tm).count pid = 1 ∧ (tm.tasks pid).state = place.state ∧
    ∀ other : Place, other ≠ place → pid ∉ other.pids tm

theorem Placed.inOnePlace {tm : TaskManager} {live : List Nat}
    (placed : Placed tm live tm.pidQueueReady.elems tm.pidQueueBlocked.elems
      tm.pidQueueSleeping.elems) {pid : Nat} (member : pid ∈ live) : InOnePlace tm pid := by
  have one : live.count pid = 1 := List.count_eq_one_of_mem placed.nodup member
  rw [← placed.count_eq] at one
  have only : ∀ place : Place, pid ∈ place.pids tm →
      (place.pids tm).count pid = 1 ∧ ∀ other, other ≠ place → pid ∉ other.pids tm := by
    intro place inside
    refine ⟨?_, fun other different there => ?_⟩
    · have positive := List.count_pos_iff.mpr inside
      cases place <;> simp only [Place.pids] at positive ⊢ <;> omega
    · have positive := List.count_pos_iff.mpr inside
      have also := List.count_pos_iff.mpr there
      cases place <;> cases other <;> simp only [Place.pids] at positive also <;>
        first | exact different rfl | omega
  rcases placed.mem_live.mp member with running | ready | blocked | sleeping
  · obtain ⟨busy, same⟩ := mem_onCpu.mp running
    obtain ⟨count, others⟩ := only .processor running
    exact ⟨.processor, count, same ▸ placed.running busy, others⟩
  · obtain ⟨count, others⟩ := only .ready ready
    exact ⟨.ready, count, placed.queued.readyState pid ready, others⟩
  · obtain ⟨count, others⟩ := only .blocked blocked
    exact ⟨.blocked, count, placed.queued.blockedState pid blocked, others⟩
  · obtain ⟨count, others⟩ := only .sleeping sleeping
    exact ⟨.sleeping, count, placed.queued.sleepingState pid sleeping, others⟩

theorem Placed.nowhere {tm : TaskManager} {live : List Nat}
    (placed : Placed tm live tm.pidQueueReady.elems tm.pidQueueBlocked.elems
      tm.pidQueueSleeping.elems) {pid : Nat} (dead : pid ∉ live) (place : Place) :
    pid ∉ place.pids tm := by
  simp only [placed.mem_live, not_or] at dead
  obtain ⟨onProcessor, inReady, inBlocked, inSleeping⟩ := dead
  cases place with
  | processor => exact onProcessor
  | ready => exact inReady
  | blocked => exact inBlocked
  | sleeping => exact inSleeping

/-- In every run from `sched_init` every live task is in exactly one place, with the
state of that place, and exited tasks are in none. -/
theorem live_task_in_one_place {image : KernelImage} {idle : IdleImage} {k k' : Kernel} {t : System}
    {events : List Event}
    (unused : k.taskManager.pidQueueSleeping.head = 0 ∧ k.taskManager.pidQueueSleeping.tail = 0)
    (started : schedInit image idle k = some k')
    (run : Run (Step image) ⟨k', idlePids image k.gdt, []⟩ events t) :
    (∀ pid ∈ t.live, InOnePlace t.kernel.taskManager pid) ∧
      ∀ pid ∈ t.exited, ∀ place : Place, pid ∉ place.pids t.kernel.taskManager := by
  have ok : Consistent t :=
    run.invariant (schedInit_consistent unused started).1 fun _ _ _ holds step => (holds.step step).1
  exact ⟨fun pid member => ok.placed.inOnePlace member,
    fun pid member place => ok.placed.nowhere (ok.gone pid member) place⟩

def sampleImage : KernelImage where
  kernelPd := 0x100000
  tasks := 0x200000
  kernelPd_aligned := by decide
  kernelPd_inside := by decide

def sampleIdle : IdleImage := ⟨0x100400, 0x140000, 0x141000⟩

def sampleKernel : Kernel where
  gdt i := if 1 ≤ i ∧ i < 5 then ⟨0xFFFF, 0xCF9A00⟩ else ⟨0, 0⟩
  taskManager :=
    { tasks := fun _ => ⟨.justInitialized, ⟨0, 0, 0, 0, 0, 0, 0⟩, 0, 0⟩
      schduleCounter := 0
      pidRunning := 0
      pidQueueReady := ⟨0, 0, fun _ => 0⟩
      pidQueueBlocked := ⟨0, 0, fun _ => 0⟩
      pidQueueSleeping := ⟨0, 0, fun _ => 0⟩ }
  memory := { bytes := fun _ => 0, memoryAllocBitmap := ⟨fun _ => 0, 2 ^ 20⟩ }

theorem sampleKernel_starts : (schedInit sampleImage sampleIdle sampleKernel).isSome = true := by
  decide +kernel

def sampleStart : System :=
  ⟨(schedInit sampleImage sampleIdle sampleKernel).get sampleKernel_starts,
    idlePids sampleImage sampleKernel.gdt, []⟩

theorem sampleStart_started :
    schedInit sampleImage sampleIdle sampleKernel = some sampleStart.kernel :=
  (Option.some_get sampleKernel_starts).symm

def sampleEvents : List Event := .create 1 0x400000 0x500000 9 :: List.replicate 100 .tick

theorem live_task_in_one_place_third :
    ∃ t, Run (Step sampleImage) sampleStart sampleEvents t ∧ t.live = [7, 6, 5] ∧
      ∀ pid ∈ t.live, InOnePlace t.kernel.taskManager pid := by
  have succeeds : (sampleEvents.foldlM (step sampleImage) sampleStart).map System.live =
      some [7, 6, 5] := by decide +kernel
  obtain ⟨t, result, live⟩ := Option.map_eq_some_iff.mp succeeds
  have run := Run.of_foldlM result
  exact ⟨t, run, live, (live_task_in_one_place ⟨rfl, rfl⟩ sampleStart_started run).1⟩

end WegOS
