import WegOS.WaitingTasks

/-! One of the two idle tasks is ready whenever `schedule` is entered. -/

namespace WegOS

open Transition

/-! ## Where `schedule` is entered -/

section Entry

variable {ι : Type} {image : KernelImage} {s t : SyncSystem ι} {event : SyncEvent ι}

/-- The state in which an event calls `schedule`, and the reason it gives. -/
def scheduleEntry (s : SyncSystem ι) : SyncEvent ι → Option (TaskManager × SchedulerReason)
  | .task (.create ..) => none
  | .task .tick => do
      let tm ← checkWakeup s.system.kernel.taskManager
      let tm := { tm with schduleCounter := tm.schduleCounter - 1 }
      if tm.schduleCounter ≤ 0 then some (tm, .timePieceOver) else none
  | .task (.sleep counter) =>
      let tm := s.system.kernel.taskManager
      let task := { tm.tasks tm.pidRunning with wakeupCounter := counter }
      if maxGdtTerms ≤ tm.pidRunning then none
      else some ({ tm with tasks := Function.update tm.tasks tm.pidRunning task }, .taskSleep)
  | .task (.exit _) =>
      let tm := s.system.kernel.taskManager
      if maxGdtTerms ≤ tm.pidRunning then none else some (tm, .taskExit)
  | .wait i =>
      let tm := s.system.kernel.taskManager
      if tm.pidRunning ≠ notFound ∧ (s.semaphores i).count - 1 < 0 then some (tm, .taskBlocked) else none
  | .signal _ => none

theorem scheduleEntry_step [DecidableEq ι] {tm : TaskManager} {reason : SchedulerReason}
    (entry : scheduleEntry s event = some (tm, reason)) (taken : SyncStep image s event t) :
    schedule tm reason = some t.system.kernel.taskManager := by
  cases event with
  | task event =>
      obtain ⟨system, stepped, same⟩ := Option.bind_eq_some_iff.mp taken
      obtain rfl := Option.some.inj same
      cases event with
      | create flag eip esp ddl => simp [scheduleEntry] at entry
      | tick =>
          obtain ⟨after, ticked, same⟩ := Option.bind_eq_some_iff.mp stepped
          obtain rfl := Option.some.inj same
          obtain ⟨mid, woke, entered⟩ := Option.bind_eq_some_iff.mp entry
          rw [checkTaskAffairs, woke] at ticked
          simp only [Option.bind_eq_bind, Option.bind_some, checkSchedule] at ticked
          simp only at entered
          split_ifs at entered with ended
          obtain ⟨rfl, rfl⟩ := Prod.mk.inj (Option.some.inj entered)
          rwa [if_pos ended] at ticked
      | sleep counter =>
          obtain ⟨after, slept, same⟩ := Option.bind_eq_some_iff.mp stepped
          obtain rfl := Option.some.inj same
          simp only [scheduleEntry] at entry
          rw [sysSleep] at slept
          split_ifs at entry slept with outside
          obtain ⟨rfl, rfl⟩ := Prod.mk.inj (Option.some.inj entry)
          exact slept
      | exit code =>
          obtain ⟨k, exited, same⟩ := Option.bind_eq_some_iff.mp stepped
          obtain rfl := Option.some.inj same
          simp only [scheduleEntry] at entry
          simp only [sysExit] at exited
          split_ifs at entry exited with outside
          obtain ⟨rfl, rfl⟩ := Prod.mk.inj (Option.some.inj entry)
          obtain ⟨after, scheduled, same⟩ := Option.bind_eq_some_iff.mp exited
          obtain rfl := Option.some.inj same
          exact scheduled
  | wait i =>
      simp only [scheduleEntry] at entry
      split_ifs at entry with blocks
      obtain ⟨rfl, rfl⟩ := Prod.mk.inj (Option.some.inj entry)
      simp only [SyncStep, syncStep, if_neg blocks.1] at taken
      obtain ⟨⟨after, semaphore⟩, waited, same⟩ := Option.bind_eq_some_iff.mp taken
      obtain rfl := Option.some.inj same
      exact (wait_blocks blocks.2 waited).2
  | signal i => simp [scheduleEntry] at entry

/-- `schedule` is entered with every task in one place, and no more tasks asleep than before. -/
theorem Placed.entry {live ready blocked sleeping : List Nat} {tm : TaskManager} {reason : SchedulerReason}
    (placed : Placed s.system.kernel.taskManager live ready blocked sleeping)
    (entry : scheduleEntry s event = some (tm, reason)) :
    ∃ ready' sleeping', Placed tm live ready' blocked sleeping' ∧ ∀ pid ∈ sleeping', pid ∈ sleeping := by
  cases event with
  | task event =>
      cases event with
      | create flag eip esp ddl => simp [scheduleEntry] at entry
      | tick =>
          obtain ⟨mid, woke, _, midPlaced⟩ := placed.after_checkWakeup
          simp only [scheduleEntry, woke, Option.bind_eq_bind, Option.bind_some] at entry
          split_ifs at entry
          obtain ⟨rfl, rfl⟩ := Prod.mk.inj (Option.some.inj entry)
          exact ⟨_, _, ⟨midPlaced.queued.congr rfl rfl rfl fun _ => rfl, midPlaced.places,
            midPlaced.nodup, midPlaced.running, midPlaced.bounds⟩, fun _ => List.mem_of_mem_filter⟩
      | sleep counter =>
          simp only [scheduleEntry] at entry
          split_ifs at entry
          obtain ⟨rfl, rfl⟩ := Prod.mk.inj (Option.some.inj entry)
          exact ⟨_, _, placed.set_counter _ counter, fun _ here => here⟩
      | exit code =>
          simp only [scheduleEntry] at entry
          split_ifs at entry
          obtain ⟨rfl, rfl⟩ := Prod.mk.inj (Option.some.inj entry)
          exact ⟨_, _, placed, fun _ here => here⟩
  | wait i =>
      simp only [scheduleEntry] at entry
      split_ifs at entry
      obtain ⟨rfl, rfl⟩ := Prod.mk.inj (Option.some.inj entry)
      exact ⟨_, _, placed, fun _ here => here⟩
  | signal i => simp [scheduleEntry] at entry

theorem scheduleEntry_withBlocked (s : SyncSystem ι) (event : SyncEvent ι) (q : PidQueue) :
    scheduleEntry (s.withBlocked q) event =
      (scheduleEntry s event).map fun entry => (entry.1.withBlocked q, entry.2) := by
  cases event with
  | task event =>
      cases event with
      | create flag eip esp ddl => rfl
      | tick =>
          have woken : checkWakeup (s.withBlocked q).system.kernel.taskManager =
              (checkWakeup s.system.kernel.taskManager).map (·.withBlocked q) :=
            checkWakeupFrom_withBlocked _ q _ _
          simp only [scheduleEntry, woken]
          cases checkWakeup s.system.kernel.taskManager with
          | none => rfl
          | some mid =>
              simp only [Option.map_some, Option.bind_eq_bind, Option.bind_some]
              change (if mid.schduleCounter - 1 ≤ 0 then _ else _) = _
              split_ifs <;> rfl
      | sleep counter =>
          simp only [scheduleEntry]
          change (if maxGdtTerms ≤ s.system.kernel.taskManager.pidRunning then _ else _) = _
          split_ifs <;> rfl
      | exit code =>
          simp only [scheduleEntry]
          change (if maxGdtTerms ≤ s.system.kernel.taskManager.pidRunning then _ else _) = _
          split_ifs <;> rfl
  | wait i =>
      simp only [scheduleEntry]
      change (if s.system.kernel.taskManager.pidRunning ≠ notFound ∧ (s.semaphores i).count - 1 < 0
        then _ else _) = _
      split_ifs <;> rfl
  | signal i => rfl

end Entry

/-! ## The idle tasks -/

section Idle

variable {ι : Type} {image : KernelImage} {s t : SyncSystem ι} {q : PidQueue} {idle : List Nat}

def IdleStays (idle : List Nat) (s : SyncSystem ι) : SyncEvent ι → Prop
  | .task (.create ..) => True
  | .task .tick => True
  | .task (.sleep _) => s.system.kernel.taskManager.pidRunning ∉ idle
  | .task (.exit _) => s.system.kernel.taskManager.pidRunning ∉ idle
  | .wait _ => s.system.kernel.taskManager.pidRunning ∉ idle
  | .signal _ => s.system.kernel.taskManager.pidRunning ∉ idle

instance (idle : List Nat) (s : SyncSystem ι) (event : SyncEvent ι) : Decidable (IdleStays idle s event) :=
  match event with
  | .task (.create ..) => isTrue trivial
  | .task .tick => isTrue trivial
  | .task (.sleep _) => inferInstanceAs (Decidable (_ ∉ idle))
  | .task (.exit _) => inferInstanceAs (Decidable (_ ∉ idle))
  | .wait _ => inferInstanceAs (Decidable (_ ∉ idle))
  | .signal _ => inferInstanceAs (Decidable (_ ∉ idle))

structure IdleAwake (idle : List Nat) (s : System) : Prop where
  live : ∀ pid ∈ idle, pid ∈ s.live
  awake : ∀ pid ∈ idle, pid ∉ s.kernel.taskManager.pidQueueSleeping.elems

theorem IdleAwake.task {s t : System} {event : Event} (awake : IdleAwake idle s) (ok : Consistent s)
    (stays : ∀ counter, event = .sleep counter → s.kernel.taskManager.pidRunning ∉ idle)
    (lives : ∀ code, event = .exit code → s.kernel.taskManager.pidRunning ∉ idle)
    (taken : Step image s event t) : IdleAwake idle t := by
  have placed := ok.placed
  cases event with
  | create flag eip esp ddl =>
      obtain ⟨⟨pid, k⟩, created, same⟩ := Option.bind_eq_some_iff.mp taken
      obtain rfl := Option.some.inj same
      obtain ⟨_, _, _, _, task, _, taskManager⟩ := createTask_eq created
      have sleepers : k.taskManager.pidQueueSleeping = s.kernel.taskManager.pidQueueSleeping := by
        rw [taskManager]
        rfl
      refine ⟨fun p here => List.mem_cons_of_mem _ (awake.live p here), fun p here => ?_⟩
      simp only [sleepers]
      exact awake.awake p here
  | tick =>
      obtain ⟨tm, ticked, same⟩ := Option.bind_eq_some_iff.mp taken
      obtain rfl := Option.some.inj same
      obtain ⟨ready', sleeping', after, fewer⟩ := placed.after_checkTaskAffairs ticked
      refine ⟨awake.live, fun p here asleep => ?_⟩
      rw [after.elems_eq.2.2] at asleep
      exact awake.awake p here (fewer p asleep)
  | sleep counter =>
      obtain ⟨tm, slept, same⟩ := Option.bind_eq_some_iff.mp taken
      obtain rfl := Option.some.inj same
      obtain ⟨ready', sleeping', after, fewer⟩ := placed.after_sysSleep slept
      refine ⟨awake.live, fun p here asleep => ?_⟩
      rw [after.elems_eq.2.2] at asleep
      rcases fewer p asleep with old | running
      · exact awake.awake p here old
      · exact stays counter rfl (running ▸ here)
  | exit code =>
      obtain ⟨k, exited, same⟩ := Option.bind_eq_some_iff.mp taken
      obtain rfl := Option.some.inj same
      simp only [sysExit] at exited
      split_ifs at exited
      · simp at exited
      obtain ⟨tm, scheduled, same⟩ := Option.bind_eq_some_iff.mp exited
      obtain rfl := Option.some.inj same
      obtain ⟨ready', after⟩ := placed.after_exit scheduled
      refine ⟨fun p here => ?_, fun p here => ?_⟩
      · refine List.mem_filter.mpr ⟨awake.live p here, decide_eq_true fun on => ?_⟩
        exact lives code rfl ((mem_onCpu.mp on).2 ▸ here)
      · simp only [after.elems_eq.2.2]
        exact awake.awake p here

def Reserved (s : System) (pid : Nat) : Prop := emptyDesc (s.kernel.gdt pid) = false ∧ pid ∉ s.live

theorem Reserved.task {s t : System} {event : Event} {pid : Nat} (reserved : Reserved s pid)
    (ok : Consistent s) (taken : Step image s event t) : Reserved t pid := by
  obtain ⟨used, dead⟩ := reserved
  cases event with
  | create flag eip esp ddl =>
      obtain ⟨⟨new, k⟩, created, same⟩ := Option.bind_eq_some_iff.mp taken
      obtain rfl := Option.some.inj same
      obtain ⟨⟨_, _, empty, _⟩, _, gdt, _⟩ := createTask_eq created
      have other : pid ≠ new := by
        rintro rfl
        rw [used] at empty
        exact absurd empty (by decide)
      refine ⟨?_, fun here => (List.mem_cons.mp here).elim other dead⟩
      simp only [gdt, Function.update_of_ne other]
      exact used
  | tick =>
      obtain ⟨tm, -, same⟩ := Option.bind_eq_some_iff.mp taken
      obtain rfl := Option.some.inj same
      exact ⟨used, dead⟩
  | sleep counter =>
      obtain ⟨tm, -, same⟩ := Option.bind_eq_some_iff.mp taken
      obtain rfl := Option.some.inj same
      exact ⟨used, dead⟩
  | exit code =>
      obtain ⟨k, exited, same⟩ := Option.bind_eq_some_iff.mp taken
      obtain rfl := Option.some.inj same
      simp only [sysExit] at exited
      split_ifs at exited with outside
      · simp at exited
      obtain ⟨tm, -, same⟩ := Option.bind_eq_some_iff.mp exited
      obtain rfl := Option.some.inj same
      have busy : s.kernel.taskManager.pidRunning ≠ notFound := by
        simp only [maxGdtTerms, notFound] at outside ⊢
        omega
      have other : pid ≠ s.kernel.taskManager.pidRunning := by
        rintro rfl
        exact dead (ok.placed.mem_live.mpr (Or.inl (mem_onCpu.mpr ⟨busy, rfl⟩)))
      refine ⟨?_, fun here => dead (List.mem_of_mem_filter here)⟩
      simp only [Function.update_of_ne other]
      exact used

structure IdleKept (idle : List Nat) (s : SyncSystem ι) (q : PidQueue) : Prop where
  waiting : WaitingIn s q
  awake : IdleAwake idle s.system
  patient : ∀ pid ∈ idle, ∀ i, pid ∉ s.waiters i

variable [DecidableEq ι]

theorem waiters_of_update {i : ι} (same : t.semaphores = Function.update s.semaphores i (t.semaphores i))
    {j : ι} (other : j ≠ i) : t.waiters j = s.waiters j := by
  have value := congrFun same j
  rw [Function.update_of_ne other] at value
  rw [SyncSystem.waiters, value]
  rfl

theorem IdleKept.counted {i : ι} (kept : IdleKept idle s q)
    (semaphores : t.semaphores = Function.update s.semaphores i (t.semaphores i))
    (queue : (t.semaphores i).blockedPids = (s.semaphores i).blockedPids) (system : t.system = s.system)
    (waiting : WaitingIn t q) : IdleKept idle t q := by
  refine ⟨waiting, system ▸ kept.awake, fun pid here j => ?_⟩
  by_cases own : j = i
  · subst own
    rw [SyncSystem.waiters, queue]
    exact kept.patient pid here j
  · rw [waiters_of_update semaphores own]
    exact kept.patient pid here j

theorem IdleKept.wait {i : ι} (kept : IdleKept idle s q)
    (stays : s.system.kernel.taskManager.pidRunning ∉ idle) (taken : SyncStep image s (.wait i) t) :
    ∃ q', IdleKept idle t q' := by
  obtain ⟨busy, semaphores, -, ⟨-, queue, system, waiting⟩ | ⟨-, waiters, scheduled, waiting⟩⟩ :=
    kept.waiting.wait taken
  · exact ⟨q, kept.counted semaphores queue system waiting⟩
  · have placed := kept.waiting.waiting.consistent.placed
    have ghost := schedule_blocked_withBlocked s.system.kernel.taskManager q busy (placed.next_other busy)
    rw [scheduled, Option.map_some] at ghost
    obtain ⟨best, rest, shape⟩ := placed.schedule_ready ghost
    rw [shape] at placed
    have after := (placed.after_schedule ghost).2.2
    simp only [outgoing, reduceCtorEq, if_false, List.append_nil] at after
    have frame := SyncStep.wait_frame taken
    refine ⟨_, waiting, ⟨fun pid here => ?_, fun pid here => ?_⟩, fun pid here j => ?_⟩
    · rw [frame]
      exact kept.awake.live pid here
    · have sleepers := after.elems_eq.2.2
      change t.system.kernel.taskManager.pidQueueSleeping.elems = _ at sleepers
      rw [sleepers]
      exact kept.awake.awake pid here
    · by_cases own : j = i
      · subst own
        rw [waiters, List.mem_append, List.mem_singleton]
        rintro (old | new)
        · exact kept.patient pid here j old
        · exact stays (new ▸ here)
      · rw [waiters_of_update semaphores own]
        exact kept.patient pid here j

theorem IdleKept.signal {i : ι} (kept : IdleKept idle s q) (taken : SyncStep image s (.signal i) t) :
    ∃ q', IdleKept idle t q' := by
  obtain ⟨semaphores, -, ⟨-, queue, system, waiting⟩ | ⟨pid, rest, q', own, front, left, waiting, woken⟩⟩ :=
    kept.waiting.signal taken
  · exact ⟨q, kept.counted semaphores queue system waiting⟩
  · have frame := SyncStep.signal_frame taken
    refine ⟨q', waiting, ⟨fun p here => ?_, fun p here => ?_⟩, fun p here j => ?_⟩
    · rw [frame]
      exact kept.awake.live p here
    · rw [woken]
      exact kept.awake.awake p here
    · by_cases own : j = i
      · subst own
        rw [left]
        exact fun member => kept.patient p here j (front ▸ List.mem_cons_of_mem _ member)
      · rw [waiters_of_update semaphores own]
        exact kept.patient p here j

theorem IdleKept.step {event : SyncEvent ι} (kept : IdleKept idle s q)
    (taken : Guarded (SyncStep image) (IdleStays idle) s event t) : ∃ q', IdleKept idle t q' := by
  obtain ⟨stays, taken⟩ := taken
  cases event with
  | task event =>
      obtain ⟨waiting, semaphores⟩ := kept.waiting.task taken
      obtain ⟨system, stepped, same⟩ := Option.bind_eq_some_iff.mp taken
      obtain rfl := Option.some.inj same
      have ghost := step_withBlocked q image s.system event
      rw [stepped, Option.map_some] at ghost
      have before : IdleAwake idle (s.system.withBlocked q) := ⟨kept.awake.live, kept.awake.awake⟩
      have after := before.task kept.waiting.waiting.consistent
        (by rintro counter rfl; exact stays) (by rintro code rfl; exact stays) ghost
      exact ⟨q, waiting, ⟨after.live, after.awake⟩, kept.patient⟩
  | wait i => exact kept.wait stays taken
  | signal i => exact kept.signal taken

theorem Reserved.step {event : SyncEvent ι} {pid : Nat} (reserved : Reserved s.system pid)
    (waiting : WaitingIn s q) (taken : SyncStep image s event t) : Reserved t.system pid := by
  cases event with
  | task event =>
      obtain ⟨system, stepped, same⟩ := Option.bind_eq_some_iff.mp taken
      obtain rfl := Option.some.inj same
      have ghost := step_withBlocked q image s.system event
      rw [stepped, Option.map_some] at ghost
      have before : Reserved (s.system.withBlocked q) pid := reserved
      have after : Reserved (system.withBlocked q) pid := before.task waiting.waiting.consistent ghost
      exact after
  | wait i =>
      rw [SyncStep.wait_frame taken]
      exact reserved
  | signal i =>
      rw [SyncStep.signal_frame taken]
      exact reserved

/-! ## What `schedule` finds -/

/-- An idle task other than the running one is ready; the task that comes next is some task, and
not the running one. -/
structure SwitchReady (idle : List Nat) (tm : TaskManager) : Prop where
  idleReady : ∃ pid ∈ idle, pid ∈ tm.pidQueueReady.elems ∧ pid ≠ tm.pidRunning
  found : (pidDequeue tm.pidQueueReady).1 ≠ notFound
  other : (pidDequeue tm.pidQueueReady).1 ≠ tm.pidRunning

structure ReadyOnce (s : SyncSystem ι) : Prop where
  somewhere : ∀ pid ∈ s.system.live, pid ∈ onCpu s.system.kernel.taskManager ∨
    pid ∈ s.system.kernel.taskManager.pidQueueReady.elems ∨ (∃ i, pid ∈ s.waiters i) ∨
      pid ∈ s.system.kernel.taskManager.pidQueueSleeping.elems
  once : s.system.kernel.taskManager.pidQueueReady.elems.Nodup

omit [DecidableEq ι] in
theorem WaitingIn.readyOnce (waiting : WaitingIn s q) : ReadyOnce s := by
  have placed := waiting.waiting.consistent.placed
  refine ⟨fun pid live => ?_, placed.nodup_lists.1⟩
  rcases placed.mem_live.mp live with running | ready | blocked | asleep
  · exact Or.inl running
  · exact Or.inr (Or.inl ready)
  · exact Or.inr (Or.inr (Or.inl ((waiting.waiting.matched.member pid).mp blocked)))
  · exact Or.inr (Or.inr (Or.inr asleep))

theorem exists_not_running {idle : List Nat} (two : idle.Nodup) (length : idle.length = 2) (running : Nat) :
    ∃ pid ∈ idle, pid ≠ running := by
  match idle, length with
  | [first, second], _ =>
      by_cases same : first = running
      · refine ⟨second, by simp, ?_⟩
        rintro rfl
        simp [same] at two
      · exact ⟨first, by simp, same⟩

omit [DecidableEq ι] in
theorem IdleKept.switchReady {event : SyncEvent ι} {tm : TaskManager} {reason : SchedulerReason}
    (kept : IdleKept idle s q) (two : idle.Nodup) (length : idle.length = 2)
    (entry : scheduleEntry s event = some (tm, reason)) : SwitchReady idle tm := by
  have ghost := scheduleEntry_withBlocked s event q
  rw [entry, Option.map_some] at ghost
  obtain ⟨ready, sleeping, placed, fewer⟩ := kept.waiting.waiting.consistent.placed.entry ghost
  have elems : tm.pidQueueReady.elems = ready := placed.elems_eq.1
  obtain ⟨pid, here, notRunning⟩ := exists_not_running two length tm.pidRunning
  have isReady : pid ∈ ready := by
    rcases placed.mem_live.mp (kept.awake.live pid here) with running | ready | blocked | asleep
    · exact absurd (mem_onCpu.mp running).2 notRunning
    · exact ready
    · obtain ⟨i, waits⟩ := (kept.waiting.waiting.matched.member pid).mp blocked
      exact absurd waits (kept.patient pid here i)
    · exact absurd (fewer pid asleep) (kept.awake.awake pid here)
  have found : (pidDequeue tm.pidQueueReady).1 ≠ notFound := placed.next_found (List.ne_nil_of_mem isReady)
  refine ⟨⟨pid, here, elems ▸ isReady, notRunning⟩, found, ?_⟩
  by_cases busy : tm.pidRunning = notFound
  · rw [busy]
    exact found
  · exact (placed.next_other busy).symm

omit [DecidableEq ι] in
/-- The kernel's code segment takes one descriptor, so that the ready queue is never full. -/
theorem Placed.ready_room {tm : TaskManager} {live ready blocked sleeping : List Nat}
    (placed : Placed tm live ready blocked sleeping) (dead : 1 ∉ live) : ready.length + 1 < maxGdtTerms := by
  have total := placed.length_eq
  have length := live_length (List.nodup_cons.mpr ⟨dead, placed.nodup⟩) (by
    intro pid member
    rcases List.mem_cons.mp member with rfl | live
    · decide
    · exact placed.bounds pid live)
  rw [List.length_cons] at length
  omega

omit [DecidableEq ι] in
theorem schedInit_run {idleImage : IdleImage} {k k' : Kernel} (started : schedInit image idleImage k = some k') :
    ∃ one two, Run (Step image) ⟨{ k with taskManager := taskManagerInit k.taskManager }, [], []⟩ [one, two]
      ⟨k', idlePids image k.gdt, []⟩ ∧
      k'.taskManager.pidQueueSleeping = k.taskManager.pidQueueSleeping := by
  obtain ⟨first, second, between, one, two, pids⟩ := schedInit_creates started
  obtain ⟨_, _, _, _, _, _, taskManager1⟩ := createTask_eq one
  obtain ⟨_, _, _, _, _, _, taskManager2⟩ := createTask_eq two
  refine ⟨.create taskFlagKernel idleImage.idle (idleImage.idleStack0 + 4096) 0xFF,
    .create taskFlagKernel idleImage.idle (idleImage.idleStack1 + 4096) 0xFF, ?_, ?_⟩
  · rw [pids]
    refine Run.tail (Run.single (t := ⟨between, [first], []⟩) ?_) ?_
    · simp only [Step, step, one]
      rfl
    · simp only [Step, step, two]
      rfl
  · rw [taskManager2, taskManager1]
    rfl

omit [DecidableEq ι] in
theorem syncStart_idleKept {idleImage : IdleImage} {k k' : Kernel} (counts : ι → Int16)
    (unused : k.taskManager.pidQueueSleeping.head = 0 ∧ k.taskManager.pidQueueSleeping.tail = 0)
    (started : schedInit image idleImage k = some k') :
    IdleKept (idlePids image k.gdt) (syncStart image k k' counts) k'.taskManager.pidQueueBlocked := by
  have nobody : ∀ i, (syncStart image k k' counts).waiters i = [] := fun i => pidQueueInit_holds.elems_eq
  obtain ⟨_, _, _, sleepers⟩ := schedInit_run started
  have asleep : k'.taskManager.pidQueueSleeping.elems = [] := by
    have empty : k.taskManager.pidQueueSleeping.Holds [] := by
      rw [PidQueue.Holds, unused.1, unused.2]
      exact CircularQueue.holds_nil (by decide)
    rw [sleepers, empty.elems_eq]
  refine ⟨(syncStart_waiting counts unused started).waitingIn, ⟨fun pid here => here, fun pid _ => ?_⟩,
    fun pid _ i => ?_⟩
  · rw [show (syncStart image k k' counts).system.kernel = k' from rfl, asleep]
    exact List.not_mem_nil
  · rw [nobody]
    exact List.not_mem_nil

omit [DecidableEq ι] in
theorem schedInit_reserved {idleImage : IdleImage} {k k' : Kernel} {pid : Nat}
    (unused : k.taskManager.pidQueueSleeping.head = 0 ∧ k.taskManager.pidQueueSleeping.tail = 0)
    (started : schedInit image idleImage k = some k') (used : emptyDesc (k.gdt pid) = false) :
    Reserved ⟨k', idlePids image k.gdt, []⟩ pid := by
  obtain ⟨_, _, run, -⟩ := schedInit_run started
  have start : Consistent ⟨{ k with taskManager := taskManagerInit k.taskManager }, [], []⟩ ∧
      Reserved ⟨{ k with taskManager := taskManagerInit k.taskManager }, [], []⟩ pid :=
    ⟨taskManagerInit_consistent unused k.memory, used, List.not_mem_nil⟩
  have keeps : ∀ s event t, Consistent s ∧ Reserved s pid → Step image s event t →
      Consistent t ∧ Reserved t pid := by
    rintro s event t ⟨ok, reserved⟩ taken
    exact ⟨(ok.step taken).1, reserved.task ok taken⟩
  exact (run.invariant start keeps).2

/-- In every run in which the idle tasks do not sleep, exit or wait, whenever `schedule` is entered
one of them is ready to run next. The ready queue loses no task and, with the kernel's code segment in
the GDT, always has room for one more. -/
theorem idle_ready_at_schedule {idleImage : IdleImage} {k k' : Kernel} {counts : ι → Int16}
    {events : List (SyncEvent ι)}
    (unused : k.taskManager.pidQueueSleeping.head = 0 ∧ k.taskManager.pidQueueSleeping.tail = 0)
    (started : schedInit image idleImage k = some k')
    (run : Run (Guarded (SyncStep image) (IdleStays (idlePids image k.gdt)))
      (syncStart image k k' counts) events t) :
    ReadyOnce t ∧
      (emptyDesc (k.gdt 1) = false →
        t.system.kernel.taskManager.pidQueueReady.elems.length + 1 < maxGdtTerms) ∧
      ∀ event tm reason, scheduleEntry t event = some (tm, reason) →
        SwitchReady (idlePids image k.gdt) tm ∧
          (emptyDesc (k.gdt 1) = false → tm.pidQueueReady.elems.length + 1 < maxGdtTerms) := by
  have start := syncStart_waiting counts unused started
  have startPlaced := start.consistent.placed
  have two : (idlePids image k.gdt).Nodup := startPlaced.nodup
  have length : (idlePids image k.gdt).length = 2 := rfl
  obtain ⟨⟨q, kept⟩, reserved⟩ : (∃ q, IdleKept (idlePids image k.gdt) t q) ∧
      (emptyDesc (k.gdt 1) = false → Reserved t.system 1) := by
    have begin : (∃ q, IdleKept (idlePids image k.gdt) (syncStart image k k' counts) q) ∧
        (emptyDesc (k.gdt 1) = false → Reserved (syncStart image k k' counts).system 1) :=
      ⟨⟨_, syncStart_idleKept counts unused started⟩, schedInit_reserved unused started⟩
    have keeps : ∀ (s : SyncSystem ι) event u,
        (∃ q, IdleKept (idlePids image k.gdt) s q) ∧ (emptyDesc (k.gdt 1) = false → Reserved s.system 1) →
          Guarded (SyncStep image) (IdleStays (idlePids image k.gdt)) s event u →
            (∃ q, IdleKept (idlePids image k.gdt) u q) ∧
              (emptyDesc (k.gdt 1) = false → Reserved u.system 1) := by
      rintro s event u ⟨⟨q, kept⟩, reserved⟩ taken
      exact ⟨kept.step taken, fun segment => (reserved segment).step kept.waiting taken.2⟩
    exact run.invariant begin keeps
  have placed := kept.waiting.waiting.consistent.placed
  refine ⟨kept.waiting.readyOnce, fun segment => placed.ready_room (reserved segment).2, ?_⟩
  intro event tm reason entry
  refine ⟨kept.switchReady two length entry, fun segment => ?_⟩
  have ghost := scheduleEntry_withBlocked t event q
  rw [entry, Option.map_some] at ghost
  obtain ⟨ready, sleeping, entered, -⟩ := placed.entry ghost
  have elems : tm.pidQueueReady.elems = ready := entered.elems_eq.1
  rw [elems]
  exact entered.ready_room (reserved segment).2

end Idle

/-- Task 7 gets the processor with the third time slice and waits for a semaphore. -/
def sampleBusyEvents : List (SyncEvent Bool) :=
  .task (.create 1 0x400000 0x500000 9) :: (List.replicate 300 (.task .tick) ++ [.wait false])

theorem idle_ready_at_schedule_waiting :
    ∃ t, Run (Guarded (SyncStep sampleImage) (IdleStays [6, 5])) sampleSyncStart sampleBusyEvents t ∧
      ReadyOnce t := by
  have ends : (sampleBusyEvents.foldlM (fun s event =>
      if IdleStays [6, 5] s event then syncStep sampleImage s event else none) sampleSyncStart).isSome =
        true := by decide +kernel
  obtain ⟨t, result⟩ := Option.isSome_iff_exists.mp ends
  have run := Run.guarded_of_foldlM result
  exact ⟨t, run, (idle_ready_at_schedule ⟨rfl, rfl⟩ sampleStart_started run).1⟩

end WegOS
