import WegOS.IdleTasks
import WegOS.Lib.FirstCome

/-! In which order, and how soon, ready tasks get the processor. -/

namespace WegOS

open Transition FirstCome

section Order

variable {ι : Type} {image : KernelImage} {s t : SyncSystem ι} {event : SyncEvent ι} {q : PidQueue}

def SyncSystem.ready (s : SyncSystem ι) : List Nat := s.system.kernel.taskManager.pidQueueReady.elems

/-- The tasks that an event makes ready: a new one, those that wake up and then the one whose slice
ends, the one that `signal` picks. -/
def madeReady (s : SyncSystem ι) : SyncEvent ι → List Nat
  | .task (.create ..) => [getPidEmpty s.system.kernel.gdt]
  | .task .tick =>
      let tm := s.system.kernel.taskManager
      tm.pidQueueSleeping.elems.filter (wakes tm) ++ if tm.schduleCounter - 1 ≤ 0 then onCpu tm else []
  | .task (.sleep _) => []
  | .task (.exit _) => []
  | .wait _ => []
  | .signal i => (s.waiters i).take 1

def dispatched (s : SyncSystem ι) (event : SyncEvent ι) (t : SyncSystem ι) : List Nat :=
  if (scheduleEntry s event).isSome then onCpu t.system.kernel.taskManager else []

def readyServer : Server (SyncSystem ι) (SyncEvent ι) Nat where
  waiting := SyncSystem.ready
  arrivals s event _ := madeReady s event
  served := dispatched

theorem Placed.schedule_order {tm tm' : TaskManager} {live ready blocked sleeping : List Nat}
    {reason : SchedulerReason} (placed : Placed (tm.withBlocked q) live ready blocked sleeping)
    (busy : reason = .taskBlocked → tm.pidRunning ≠ notFound) (result : schedule tm reason = some tm') :
    ready ++ outgoing tm reason .timePieceOver = onCpu tm' ++ tm'.pidQueueReady.elems ∧
      (onCpu tm').length = 1 ∧ tm'.schduleCounter = timePiece := by
  obtain ⟨q', ghost⟩ : ∃ q', schedule (tm.withBlocked q) reason = some (tm'.withBlocked q') := by
    by_cases blocks : reason = .taskBlocked
    · subst blocks
      have other : tm.pidRunning ≠ (pidDequeue tm.pidQueueReady).1 := placed.next_other (busy rfl)
      refine ⟨pidEnqueue q tm.pidRunning, ?_⟩
      rw [schedule_blocked_withBlocked tm q (busy rfl) other, result, Option.map_some]
    · refine ⟨q, ?_⟩
      rw [schedule_withBlocked tm q blocks, result, Option.map_some]
  obtain ⟨best, rest, rfl⟩ := placed.schedule_ready ghost
  obtain ⟨running, -, after⟩ := placed.after_schedule ghost
  obtain ⟨_, same, -, -, counter, -⟩ := schedule_cons reason placed.switchable
  obtain rfl := Option.some.inj (ghost.symm.trans same)
  have bound := (placed.bounds best (placed.mem_live.mpr (Or.inr (Or.inl List.mem_cons_self)))).2
  have cpu : onCpu tm' = [best] := by
    have found : tm'.pidRunning ≠ notFound := by
      change tm'.pidRunning = best at running
      rw [running]
      simp only [maxGdtTerms, notFound] at bound ⊢
      omega
    rw [onCpu, if_neg found]
    exact congrArg (fun pid => [pid]) running
  have left : tm'.pidQueueReady.elems = rest ++ outgoing tm reason .timePieceOver := after.elems_eq.1
  refine ⟨?_, by rw [cpu]; rfl, counter⟩
  rw [cpu, left]
  rfl

theorem Placed.create_ready {k k' : Kernel} {live ready blocked sleeping : List Nat} {flag eip esp ddl : UInt32}
    {pid : Nat} (placed : Placed (k.taskManager.withBlocked q) live ready blocked sleeping)
    (described : ∀ pid ∈ live, emptyDesc (k.gdt pid) = false)
    (created : createTask image k flag eip esp ddl = some (pid, k')) :
    k'.taskManager.pidQueueReady.elems = ready ++ [pid] ∧
      k'.taskManager.schduleCounter = k.taskManager.schduleCounter := by
  obtain ⟨⟨low, high, empty, -⟩, -, -, -, task, -, taskManager⟩ := createTask_eq created
  have fresh : pid ∉ live := by
    intro member
    have used := described pid member
    exact Bool.noConfusion (used.symm.trans empty)
  have after := (placed.after_create task fresh low high).elems_eq.1
  rw [taskManager]
  exact ⟨after, rfl⟩

theorem Consistent.create_ready {s : System} {k : Kernel} {flag eip esp ddl : UInt32} {pid : Nat}
    (ok : Consistent s) (created : createTask image s.kernel flag eip esp ddl = some (pid, k)) :
    k.taskManager.pidQueueReady.elems = s.kernel.taskManager.pidQueueReady.elems ++ [pid] ∧
      k.taskManager.schduleCounter = s.kernel.taskManager.schduleCounter := by
  have placed : Placed (s.kernel.taskManager.withBlocked s.kernel.taskManager.pidQueueBlocked) s.live
    s.kernel.taskManager.pidQueueReady.elems s.kernel.taskManager.pidQueueBlocked.elems
    s.kernel.taskManager.pidQueueSleeping.elems := ok.placed
  exact placed.create_ready ok.described created

theorem WaitingIn.woken {mid : TaskManager} (ok : WaitingIn s q)
    (woke : checkWakeup s.system.kernel.taskManager = some mid) :
    mid.pidRunning = s.system.kernel.taskManager.pidRunning ∧
      mid.schduleCounter = s.system.kernel.taskManager.schduleCounter ∧
      mid.pidQueueReady.elems = s.ready ++
        s.system.kernel.taskManager.pidQueueSleeping.elems.filter (wakes s.system.kernel.taskManager) := by
  obtain ⟨ghost, ghostWoke, woken, midPlaced⟩ := ok.waiting.consistent.placed.after_checkWakeup
  have same : checkWakeup (s.withBlocked q).system.kernel.taskManager = some (mid.withBlocked q) := by
    have own := checkWakeupFrom_withBlocked s.system.kernel.taskManager q (maxGdtTerms + 1)
      s.system.kernel.taskManager.pidQueueSleeping.head
    exact own.trans (congrArg (Option.map (·.withBlocked q)) woke)
  obtain rfl := Option.some.inj (ghostWoke.symm.trans same)
  have queue := midPlaced.elems_eq.1
  exact ⟨woken.pidRunning, woken.schduleCounter, queue⟩

theorem WaitingIn.entry_ready {tm : TaskManager} {reason : SchedulerReason} (ok : WaitingIn s q)
    (entry : scheduleEntry s event = some (tm, reason)) :
    s.ready ++ madeReady s event = tm.pidQueueReady.elems ++ outgoing tm reason .timePieceOver ∧
      (reason = .taskBlocked → tm.pidRunning ≠ notFound) := by
  cases event with
  | task event =>
      cases event with
      | create flag eip esp ddl => simp [scheduleEntry] at entry
      | tick =>
          obtain ⟨mid, woke, entered⟩ := Option.bind_eq_some_iff.mp entry
          obtain ⟨running, counter, queue⟩ := ok.woken woke
          have cpu : onCpu mid = onCpu s.system.kernel.taskManager := by rw [onCpu, onCpu, running]
          simp only [counter] at entered
          split_ifs at entered with ended
          obtain ⟨rfl, rfl⟩ := Prod.mk.inj (Option.some.inj entered)
          refine ⟨?_, fun wrong => SchedulerReason.noConfusion wrong⟩
          simp only [madeReady, if_pos ended, outgoing, if_true]
          rw [queue, List.append_assoc, ← cpu]
          rfl
      | sleep counter =>
          simp only [scheduleEntry] at entry
          split_ifs at entry
          obtain ⟨rfl, rfl⟩ := Prod.mk.inj (Option.some.inj entry)
          exact ⟨rfl, fun wrong => SchedulerReason.noConfusion wrong⟩
      | exit code =>
          simp only [scheduleEntry] at entry
          split_ifs at entry
          obtain ⟨rfl, rfl⟩ := Prod.mk.inj (Option.some.inj entry)
          exact ⟨rfl, fun wrong => SchedulerReason.noConfusion wrong⟩
  | wait i =>
      simp only [scheduleEntry] at entry
      split_ifs at entry with blocks
      obtain ⟨rfl, rfl⟩ := Prod.mk.inj (Option.some.inj entry)
      exact ⟨rfl, fun _ => blocks.1⟩
  | signal i => simp [scheduleEntry] at entry

def ticks : SyncEvent ι → Nat
  | .task .tick => 1
  | .task (.create ..) => 0
  | .task (.sleep _) => 0
  | .task (.exit _) => 0
  | .wait _ => 0
  | .signal _ => 0

def SyncSystem.slice (s : SyncSystem ι) : Nat := s.system.kernel.taskManager.schduleCounter.toNat

variable [DecidableEq ι]

/-- A step that does not enter `schedule` adds to the ready queue, and takes its tick from the slice. -/
theorem WaitingIn.stays_ready (ok : WaitingIn s q) (entry : scheduleEntry s event = none)
    (taken : SyncStep image s event t) :
    s.ready ++ madeReady s event = t.ready ∧ (0 < s.slice → 0 < t.slice ∧ ticks event + t.slice = s.slice) := by
  have placed := ok.waiting.consistent.placed
  cases event with
  | task event =>
      obtain ⟨system, stepped, same⟩ := Option.bind_eq_some_iff.mp taken
      obtain rfl := Option.some.inj same
      cases event with
      | create flag eip esp ddl =>
          obtain ⟨⟨pid, k⟩, created, same⟩ := Option.bind_eq_some_iff.mp stepped
          obtain rfl := Option.some.inj same
          obtain ⟨-, first, -⟩ := createTask_eq created
          obtain ⟨queue, slice⟩ := placed.create_ready ok.waiting.consistent.described created
          refine ⟨?_, fun positive => ?_⟩
          · rw [madeReady, ← first]
            exact queue.symm
          · simp only [SyncSystem.slice, slice, ticks] at positive ⊢
            omega
      | tick =>
          obtain ⟨tm, ticked, same⟩ := Option.bind_eq_some_iff.mp stepped
          obtain rfl := Option.some.inj same
          obtain ⟨mid, woke, scheduled⟩ := Option.bind_eq_some_iff.mp ticked
          obtain ⟨-, counter, queue⟩ := ok.woken woke
          simp only [scheduleEntry, woke, Option.bind_eq_bind, Option.bind_some, counter] at entry
          simp only [checkSchedule, counter] at scheduled
          split_ifs at entry scheduled with ended
          obtain rfl := Option.some.inj scheduled
          refine ⟨?_, fun positive => ?_⟩
          · simp only [madeReady, if_neg ended, List.append_nil]
            exact queue.symm
          · have slice := UInt32.le_iff_toNat_le.not.mp ended
            have one : 1 ≤ s.system.kernel.taskManager.schduleCounter := by
              rw [UInt32.le_iff_toNat_le]
              exact positive
            simp only [SyncSystem.slice, ticks, UInt32.toNat_sub_of_le _ _ one] at positive slice ⊢
            simp at slice ⊢
            omega
      | sleep counter =>
          obtain ⟨tm, slept, same⟩ := Option.bind_eq_some_iff.mp stepped
          simp only [scheduleEntry] at entry
          rw [sysSleep] at slept
          split_ifs at entry slept
      | exit code =>
          obtain ⟨k, exited, same⟩ := Option.bind_eq_some_iff.mp stepped
          simp only [scheduleEntry] at entry
          simp only [sysExit] at exited
          split_ifs at entry exited
          simp at exited
  | wait i =>
      obtain ⟨busy, -, -, passes | ⟨blocks, -⟩⟩ := ok.wait taken
      · obtain ⟨-, -, same, -⟩ := passes
        simp only [SyncSystem.ready, SyncSystem.slice, same, madeReady, List.append_nil, ticks]
        exact ⟨trivial, fun positive => ⟨positive, Nat.zero_add _⟩⟩
      · simp [scheduleEntry, busy, blocks] at entry
  | signal i =>
      rcases (ok.signal taken).2.2 with ⟨nobody, -, same, -⟩ | ⟨pid, rest, _, own, front, -, -, woken⟩
      · simp only [SyncSystem.ready, SyncSystem.slice, same, madeReady, nobody, List.take_nil, List.append_nil, ticks]
        exact ⟨trivial, fun positive => ⟨positive, Nat.zero_add _⟩⟩
      · have member : pid ∈ q.elems := (ok.waiting.matched.member pid).mpr ⟨i, front ▸ List.mem_cons_self⟩
        have space : s.ready.length + 1 < maxGdtTerms := by
          have total := placed.length_lt
          have some := List.length_pos_of_mem member
          change _ + s.ready.length + q.elems.length + _ < _ at total
          omega
        have enqueued := pidEnqueue_holds placed.queued.readyHolds pid space
        simp only [SyncSystem.slice, woken, ticks]
        refine ⟨?_, fun positive => ⟨positive, Nat.zero_add _⟩⟩
        rw [madeReady, front, SyncSystem.ready, SyncSystem.ready, woken]
        exact enqueued.elems_eq.symm

/-- A step that enters `schedule` takes the first of the ready tasks, for a whole slice. -/
theorem WaitingIn.enters {entered : TaskManager × SchedulerReason} (ok : WaitingIn s q)
    (entry : scheduleEntry s event = some entered) (taken : SyncStep image s event t) :
    s.ready ++ madeReady s event = onCpu t.system.kernel.taskManager ++ t.ready ∧
      (onCpu t.system.kernel.taskManager).length = 1 ∧ t.slice = 100 := by
  obtain ⟨tm, reason⟩ := entered
  have ghost := scheduleEntry_withBlocked s event q
  rw [entry, Option.map_some] at ghost
  obtain ⟨ready, sleeping, placed, -⟩ := ok.waiting.consistent.placed.entry ghost
  obtain ⟨queue, busy⟩ := ok.entry_ready entry
  obtain ⟨order, one, counter⟩ := placed.schedule_order busy (scheduleEntry_step entry taken)
  have elems : tm.pidQueueReady.elems = ready := placed.elems_eq.1
  refine ⟨?_, one, by rw [SyncSystem.slice, counter]; rfl⟩
  rw [queue, elems, order]
  rfl

/-- One step takes the first of the ready tasks at most, and adds those it makes ready at the end. -/
theorem WaitingIn.step_order (ok : WaitingIn s q) (taken : SyncStep image s event t) :
    readyServer.InOrder s event t ∧ (0 < s.slice → s.slice ≤ 100 → (0 < t.slice ∧ t.slice ≤ 100) ∧
      ticks event + t.slice ≤ s.slice + 100 * (dispatched s event t).length) := by
  cases entry : scheduleEntry s event with
  | none =>
      obtain ⟨queue, slice⟩ := ok.stays_ready entry taken
      have nobody : dispatched s event t = [] := by simp [dispatched, entry]
      refine ⟨?_, fun positive bounded => ?_⟩
      · change s.ready ++ madeReady s event = dispatched s event t ++ t.ready
        rw [nobody, queue]
        rfl
      · obtain ⟨left, count⟩ := slice positive
        omega
  | some entered =>
      obtain ⟨order, one, slice⟩ := ok.enters entry taken
      have next : dispatched s event t = onCpu t.system.kernel.taskManager := by simp [dispatched, entry]
      refine ⟨?_, fun positive bounded => ?_⟩
      · change s.ready ++ madeReady s event = dispatched s event t ++ t.ready
        rw [next, order]
      · have tick : ticks event ≤ 1 := by
          cases event with
          | task event => cases event <;> simp [ticks]
          | wait i => simp [ticks]
          | signal i => simp [ticks]
        rw [next, one]
        omega

/-! ## In every run -/

omit [DecidableEq ι] in
theorem syncStart_ready {idle : IdleImage} {k k' : Kernel} (counts : ι → Int16)
    (unused : k.taskManager.pidQueueSleeping.head = 0 ∧ k.taskManager.pidQueueSleeping.tail = 0)
    (started : schedInit image idle k = some k') :
    (syncStart image k k' counts).ready = (idlePids image k.gdt).reverse ∧
      (syncStart image k k' counts).slice = 100 := by
  obtain ⟨first, second, between, one, two, pids⟩ := schedInit_creates started
  have begin := taskManagerInit_consistent unused k.memory
  have middle := begin.create one
  obtain ⟨queue1, slice1⟩ := begin.create_ready one
  obtain ⟨queue2, slice2⟩ := middle.create_ready two
  refine ⟨?_, ?_⟩
  · calc
      _ = between.taskManager.pidQueueReady.elems ++ [second] := queue2
      _ = [] ++ [first] ++ [second] := by
        rw [queue1]
        exact congrArg (· ++ [first] ++ [second]) pidQueueInit_holds.elems_eq
      _ = (idlePids image k.gdt).reverse := by rw [pids]; rfl
  · rw [SyncSystem.slice, show (syncStart image k k' counts).system.kernel = k' from rfl, slice2, slice1]
    rfl

structure Sliced (s : SyncSystem ι) : Prop where
  waiting : ∃ q, WaitingIn s q
  positive : 0 < s.slice
  bounded : s.slice ≤ 100

theorem Sliced.step (ok : Sliced s) (taken : SyncStep image s event t) : Sliced t := by
  obtain ⟨q, waiting⟩ := ok.waiting
  obtain ⟨positive, bounded⟩ := ((waiting.step_order taken).2 ok.positive ok.bounded).1
  exact ⟨waiting.step taken, positive, bounded⟩

theorem Sliced.inOrder (ok : Sliced s) (taken : SyncStep image s event t) : readyServer.InOrder s event t := by
  obtain ⟨q, waiting⟩ := ok.waiting
  exact (waiting.step_order taken).1

theorem Sliced.ticks_le (ok : Sliced s) (taken : SyncStep image s event t) :
    ticks event + t.slice ≤ s.slice + 100 * (dispatched s event t).length := by
  obtain ⟨q, waiting⟩ := ok.waiting
  exact ((waiting.step_order taken).2 ok.positive ok.bounded).2

variable {idle : IdleImage} {k k' : Kernel} {counts : ι → Int16} {events : List (SyncEvent ι)}

theorem run_sliced (unused : k.taskManager.pidQueueSleeping.head = 0 ∧ k.taskManager.pidQueueSleeping.tail = 0)
    (started : schedInit image idle k = some k')
    (run : Run (SyncStep image) (syncStart image k k' counts) events t) : Sliced t := by
  obtain ⟨-, slice⟩ := syncStart_ready counts unused started
  have start : Sliced (syncStart image k k' counts) :=
    ⟨⟨_, (syncStart_waiting counts unused started).waitingIn⟩, by omega, by omega⟩
  exact run.invariant start fun _ _ _ ok taken => ok.step taken

/-- In every run from `sched_init` the tasks get the processor in the order in which they became
ready, with none left out. -/
theorem ready_in_order
    (unused : k.taskManager.pidQueueSleeping.head = 0 ∧ k.taskManager.pidQueueSleeping.tail = 0)
    (started : schedInit image idle k = some k')
    (run : Run (SyncStep image) (syncStart image k k' counts) events t) :
    ∃ r, Run (readyServer.Recorded (SyncStep image)) (Record.start (syncStart image k k' counts)) events r ∧
      r.state = t ∧ (idlePids image k.gdt).reverse ++ r.arrived = r.served ++ t.ready := by
  obtain ⟨r, recorded, rfl⟩ := readyServer.run_recorded run
  refine ⟨r, recorded, rfl, ?_⟩
  rw [← (syncStart_ready counts unused started).1]
  exact readyServer.run_inOrder (fun _ _ _ ok taken => Sliced.step ok taken)
    (fun _ _ _ ok taken => Sliced.inOrder ok taken) (run_sliced unused started (Run.refl _)) recorded

/-- A ready task with `n` before it is the next but `n` to get the processor, and gets it within
`n + 1` time slices, whatever the tasks do meanwhile. -/
theorem ready_runs_in_time {n pid : Nat} {later : List (SyncEvent ι)}
    (unused : k.taskManager.pidQueueSleeping.head = 0 ∧ k.taskManager.pidQueueSleeping.tail = 0)
    (started : schedInit image idle k = some k')
    (run : Run (SyncStep image) (syncStart image k k' counts) events s) (place : s.ready[n]? = some pid)
    (more : Run (SyncStep image) s later t) (enough : 100 * (n + 1) ≤ (later.map ticks).sum) :
    (∃ r, Run (readyServer.Recorded (SyncStep image)) (Record.start s) later r ∧ r.served[n]? = some pid) ∧
      ∃ before u, before <+: later ∧ Run (SyncStep image) s before u ∧
        u.system.kernel.taskManager.pidRunning = pid := by
  have start := run_sliced unused started run
  obtain ⟨r, recorded, rfl⟩ := readyServer.run_recorded more
  have served := readyServer.served_in_time (fun _ _ _ ok taken => Sliced.step ok taken)
    (fun _ _ _ ok taken => Sliced.inOrder ok taken) (fun _ _ _ ok taken => Sliced.ticks_le ok taken)
    (fun _ ok => Sliced.positive ok) (fun _ ok => Sliced.bounded ok) start place recorded enough
  refine ⟨⟨r, recorded, served⟩, ?_⟩
  obtain ⟨before, event, u, v, front, up, one, member⟩ :=
    readyServer.step_of_served recorded (List.mem_of_getElem? served)
  refine ⟨before ++ [event], v, front, up.tail one, ?_⟩
  change pid ∈ dispatched u event v at member
  unfold dispatched at member
  split_ifs at member
  · exact (mem_onCpu.mp member).2.symm
  · exact absurd member List.not_mem_nil

/-! ## Time slices shared out -/

def SyncSystem.turn (s : SyncSystem ι) : List Nat := s.system.kernel.taskManager.pidRunning :: s.ready

/-- Nobody sleeps, and there are two tasks at least to take turns. -/
structure Turning (s : SyncSystem ι) : Prop where
  sliced : Sliced s
  busy : s.system.kernel.taskManager.pidRunning ≠ notFound
  nobody : s.system.kernel.taskManager.pidQueueSleeping.elems = []
  others : s.ready ≠ []

theorem SyncStep.of_tick {tm : TaskManager} (ticked : checkTaskAffairs s.system.kernel.taskManager = some tm) :
    SyncStep image s (.task .tick)
      { s with system := { s.system with kernel := { s.system.kernel with taskManager := tm } } } := by
  simp only [SyncStep, syncStep, step, ticked]
  rfl

omit [DecidableEq ι] in
theorem WaitingIn.tick_nobody {tm : TaskManager} (ok : WaitingIn s q)
    (nobody : s.system.kernel.taskManager.pidQueueSleeping.elems = [])
    (ticked : checkTaskAffairs s.system.kernel.taskManager = some tm) : tm.pidQueueSleeping.elems = [] := by
  have ghost := checkTaskAffairs_withBlocked s.system.kernel.taskManager q
  rw [ticked, Option.map_some] at ghost
  obtain ⟨ready, sleeping, placed, old⟩ := ok.waiting.consistent.placed.after_checkTaskAffairs ghost
  have elems : tm.pidQueueSleeping.elems = sleeping := placed.elems_eq.2.2
  rw [elems, List.eq_nil_iff_forall_not_mem]
  intro pid member
  have asleep : pid ∈ s.system.kernel.taskManager.pidQueueSleeping.elems := old pid member
  rw [nobody] at asleep
  exact List.not_mem_nil asleep

omit [DecidableEq ι] in
theorem Turning.tick_some (ok : Turning s) : ∃ tm, checkTaskAffairs s.system.kernel.taskManager = some tm ∧
    (¬s.system.kernel.taskManager.schduleCounter - 1 ≤ 0 →
      tm.pidRunning = s.system.kernel.taskManager.pidRunning) := by
  obtain ⟨q, waiting⟩ := ok.sliced.waiting
  obtain ⟨ghost, ghostWoke, -, ghostPlaced⟩ := waiting.waiting.consistent.placed.after_checkWakeup
  have own : checkWakeup (s.withBlocked q).system.kernel.taskManager =
      (checkWakeup s.system.kernel.taskManager).map (·.withBlocked q) := checkWakeupFrom_withBlocked _ q _ _
  rw [ghostWoke] at own
  obtain ⟨mid, woke, rfl⟩ := Option.map_eq_some_iff.mp own.symm
  obtain ⟨running, counter, queue⟩ := waiting.woken woke
  simp only [checkTaskAffairs, woke, Option.bind_eq_bind, Option.bind_some, checkSchedule, counter]
  split_ifs with ended
  · let entered : TaskManager := { mid with schduleCounter := s.system.kernel.taskManager.schduleCounter - 1 }
    have some : ∃ best rest, s.ready ++ (s.withBlocked q).system.kernel.taskManager.pidQueueSleeping.elems.filter
        (wakes (s.withBlocked q).system.kernel.taskManager) = best :: rest :=
      List.exists_cons_of_ne_nil (List.append_ne_nil_of_left_ne_nil ok.others _)
    obtain ⟨best, rest, shape⟩ := some
    change Placed _ _ (s.ready ++ _) _ _ at ghostPlaced
    rw [shape] at ghostPlaced
    have placed : Placed (entered.withBlocked q) _ (best :: rest) _ _ :=
      ⟨ghostPlaced.queued.congr rfl rfl rfl fun _ => rfl, ghostPlaced.places, ghostPlaced.nodup,
        ghostPlaced.running, ghostPlaced.bounds⟩
    obtain ⟨after, scheduled, -⟩ := schedule_cons .timePieceOver placed.switchable
    rw [schedule_withBlocked entered q (by decide)] at scheduled
    obtain ⟨tm, result, -⟩ := Option.map_eq_some_iff.mp scheduled
    exact ⟨tm, result, fun wrong => absurd ended wrong⟩
  · exact ⟨_, rfl, fun _ => running⟩

/-- The end of a slice passes the turn on; any other tick only shortens the slice. -/
theorem Turning.tick (ok : Turning s) : ∃ t, SyncStep image s (.task .tick) t ∧ Turning t ∧
    t.turn = s.turn.rotate (if s.slice = 1 then 1 else 0) ∧ t.slice = if s.slice = 1 then 100 else s.slice - 1 := by
  obtain ⟨q, waiting⟩ := ok.sliced.waiting
  obtain ⟨tm, ticked, stays⟩ := ok.tick_some
  have taken : SyncStep image s (.task .tick) _ := SyncStep.of_tick ticked
  obtain ⟨mid, woke, -⟩ := Option.bind_eq_some_iff.mp ticked
  obtain ⟨-, counter, -⟩ := waiting.woken woke
  have nobody := waiting.tick_nobody ok.nobody ticked
  have sliced := ok.sliced.step taken
  have cpu : onCpu s.system.kernel.taskManager = [s.system.kernel.taskManager.pidRunning] := if_neg ok.busy
  have last : s.system.kernel.taskManager.schduleCounter - 1 ≤ 0 ↔ s.slice = 1 := by
    have positive := ok.sliced.positive
    simp only [SyncSystem.slice] at positive ⊢
    rw [UInt32.le_zero_iff, sub_eq_zero, ← UInt32.toNat_inj]
    rfl
  refine ⟨_, taken, ?_⟩
  by_cases ended : s.slice = 1
  · have entry : scheduleEntry s (.task .tick) =
        some ({ mid with schduleCounter := mid.schduleCounter - 1 }, .timePieceOver) := by
      simp only [scheduleEntry, woke, Option.bind_eq_bind, Option.bind_some, counter, if_pos (last.mpr ended)]
    obtain ⟨order, one, slice⟩ := waiting.enters entry taken
    have busy : tm.pidRunning ≠ notFound := by
      intro idle
      have empty : onCpu tm = [] := if_pos idle
      exact absurd (one.symm.trans (congrArg List.length empty)) (by decide)
    have next : onCpu tm = [tm.pidRunning] := if_neg busy
    simp only [madeReady, ok.nobody, List.filter_nil, List.nil_append, if_pos (last.mpr ended), cpu] at order
    have turned : s.ready ++ [s.system.kernel.taskManager.pidRunning] =
        tm.pidRunning :: tm.pidQueueReady.elems := order.trans (congrArg (· ++ tm.pidQueueReady.elems) next)
    refine ⟨⟨sliced, busy, nobody, ?_⟩, ?_, ?_⟩
    · intro empty
      have length := congrArg List.length turned
      have one : 0 < s.ready.length := List.length_pos_of_ne_nil ok.others
      have none : tm.pidQueueReady.elems.length = 0 := congrArg List.length empty
      simp only [List.length_append, List.length_cons, List.length_nil, none] at length
      omega
    · rw [if_pos ended, SyncSystem.turn, SyncSystem.turn, List.rotate_cons_succ, List.rotate_zero, turned]
      rfl
    · rw [if_pos ended, slice]
  · have running := stays (last.not.mpr ended)
    have entry : scheduleEntry s (.task .tick) = none := by
      simp only [scheduleEntry, woke, Option.bind_eq_bind, Option.bind_some, counter,
        if_neg (last.not.mpr ended)]
    obtain ⟨order, slices⟩ := waiting.stays_ready entry taken
    obtain ⟨-, slice⟩ := slices ok.sliced.positive
    simp only [madeReady, ok.nobody, List.filter_nil, if_neg (last.not.mpr ended), List.append_nil] at order
    refine ⟨⟨sliced, ?_, nobody, ?_⟩, ?_, ?_⟩
    · rw [show SyncSystem.system _ = _ from rfl]
      exact running ▸ ok.busy
    · rw [← order]
      exact ok.others
    · rw [if_neg ended, List.rotate_zero, SyncSystem.turn, SyncSystem.turn, ← order]
      exact congrArg (· :: s.ready) running
    · rw [if_neg ended]
      rw [show ticks (.task .tick : SyncEvent ι) = 1 from rfl] at slice
      omega

def runningAfter (image : KernelImage) (s : SyncSystem ι) (n : Nat) : Option Nat :=
  ((List.replicate n (.task .tick)).foldlM (syncStep image) s).map (·.system.kernel.taskManager.pidRunning)

theorem Turning.run (ok : Turning s) (n : Nat) :
    ∃ t, (List.replicate n (.task .tick)).foldlM (syncStep image) s = some t ∧ Turning t ∧
      t.turn = s.turn.rotate ((100 - s.slice + n) / 100) ∧ t.slice = 100 - (100 - s.slice + n) % 100 := by
  induction n with
  | zero =>
      have positive := ok.sliced.positive
      have bounded := ok.sliced.bounded
      refine ⟨s, rfl, ok, ?_, by omega⟩
      rw [show (100 - s.slice + 0) / 100 = 0 by omega, List.rotate_zero]
  | succ n ih =>
      obtain ⟨mid, front, midOk, turned, slice⟩ := ih
      obtain ⟨t, taken, after, passed, left⟩ := midOk.tick
      refine ⟨t, ?_, after, ?_, ?_⟩
      · rw [List.replicate_succ', List.foldlM_append, front]
        simp only [Option.bind_eq_bind, Option.bind_some, List.foldlM_cons, List.foldlM_nil]
        rw [show syncStep image mid (.task .tick) = some t from taken]
        rfl
      · rw [passed, turned, List.rotate_rotate]
        congr 1
        split_ifs <;> omega
      · rw [left]
        split_ifs <;> omega

/-- While nobody sleeps and only the timer ticks, each of the tasks has the processor for 100
ticks of every cycle, wherever in a slice the cycle begins. -/
theorem ticks_shared_fairly {pid : Nat}
    (unused : k.taskManager.pidQueueSleeping.head = 0 ∧ k.taskManager.pidQueueSleeping.tail = 0)
    (started : schedInit image idle k = some k')
    (run : Run (SyncStep image) (syncStart image k k' counts) events s)
    (busy : s.system.kernel.taskManager.pidRunning ≠ notFound)
    (nobody : s.system.kernel.taskManager.pidQueueSleeping.elems = []) (others : s.ready ≠ [])
    (member : pid ∈ s.turn) :
    Nat.count (fun n => runningAfter image s n = some pid) (100 * s.turn.length) = 100 := by
  have ok : Turning s := ⟨run_sliced unused started run, busy, nobody, others⟩
  obtain ⟨q, waiting⟩ := ok.sliced.waiting
  have placed := waiting.waiting.consistent.placed
  have nodup : s.turn.Nodup :=
    List.nodup_cons.mpr ⟨(placed.apart.1 (mem_onCpu.mpr ⟨busy, rfl⟩)).1, placed.nodup_lists.1⟩
  obtain ⟨turn, inside, here⟩ := List.mem_iff_getElem.mp member
  have whose : ∀ n, runningAfter image s n = some pid ↔ (100 - s.slice + n) / 100 % s.turn.length = turn := by
    intro n
    obtain ⟨t, result, -, turned, -⟩ := @Turning.run ι image s _ ok n
    have head : t.turn.head? = some t.system.kernel.taskManager.pidRunning := rfl
    have index : (100 - s.slice + n) / 100 % s.turn.length < s.turn.length := Nat.mod_lt _ (by omega)
    rw [turned, ← List.rotate_mod, List.head?_rotate index, List.getElem?_eq_getElem index] at head
    rw [runningAfter, result, Option.map_some, ← head, ← here, Option.some.injEq]
    exact nodup.getElem_inj_iff
  simp only [whose]
  exact count_turn 100 _ inside (by decide)

end Order

theorem ready_in_order_waits : ∃ t r, Run (SyncStep sampleImage) sampleSyncStart sampleOrderedEvents t ∧
    Run (readyServer.Recorded (SyncStep sampleImage)) (Record.start sampleSyncStart) sampleOrderedEvents r ∧
      [5, 6] ++ r.arrived = r.served ++ t.ready := by
  have ends : (sampleOrderedEvents.foldlM (syncStep sampleImage) sampleSyncStart).isSome = true := by
    decide +kernel
  obtain ⟨t, result⟩ := Option.isSome_iff_exists.mp ends
  have run := Run.of_foldlM result
  obtain ⟨r, recorded, -, order⟩ := ready_in_order ⟨rfl, rfl⟩ sampleStart_started run
  exact ⟨t, r, run, recorded, order⟩

def sampleTicks (n : Nat) : List (SyncEvent Bool) := List.replicate n (.task .tick)

theorem ready_runs_in_time_second : ∃ before u, before <+: sampleTicks 200 ∧
    Run (SyncStep sampleImage) sampleSyncStart before u ∧ u.system.kernel.taskManager.pidRunning = 6 := by
  have ends : ((sampleTicks 200).foldlM (syncStep sampleImage) sampleSyncStart).isSome = true := by
    decide +kernel
  obtain ⟨t, result⟩ := Option.isSome_iff_exists.mp ends
  have second : sampleSyncStart.ready[1]? = some 6 := by decide +kernel
  have enough : 100 * (1 + 1) ≤ ((sampleTicks 200).map ticks).sum := by
    rw [sampleTicks, List.map_replicate, List.sum_replicate]
    decide
  exact (ready_runs_in_time ⟨rfl, rfl⟩ sampleStart_started (Run.refl _) second (Run.of_foldlM result) enough).2

theorem ticks_shared_fairly_two : ∃ s : SyncSystem Bool, s.turn = [5, 6] ∧
    Nat.count (fun n => runningAfter sampleImage s n = some 6) (100 * s.turn.length) = 100 := by
  have ends : ((sampleTicks 100).foldlM (syncStep sampleImage) sampleSyncStart).map (fun t =>
      (t.turn, t.system.kernel.taskManager.pidQueueSleeping.elems)) = some ([5, 6], []) := by
    decide +kernel
  obtain ⟨s, result, values⟩ := Option.map_eq_some_iff.mp ends
  obtain ⟨turn, nobody⟩ := Prod.mk.inj values
  obtain ⟨running, ready⟩ := List.cons.inj turn
  refine ⟨s, turn, ticks_shared_fairly ⟨rfl, rfl⟩ sampleStart_started (Run.of_foldlM result) ?_ nobody ?_ ?_⟩
  · rw [running]
    decide
  · rw [ready]
    exact List.cons_ne_nil 6 []
  · rw [turn]
    decide

end WegOS
