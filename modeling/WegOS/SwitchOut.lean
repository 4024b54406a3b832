import WegOS.WaitingTasks

/-! Where `schedule` leaves the task that it takes off the processor. -/

namespace WegOS

open Transition

structure Dispatchable (tm : TaskManager) (best : Nat) (rest blocked sleeping : List Nat) : Prop where
  ready : tm.pidQueueReady.Holds (best :: rest)
  blockedHolds : tm.pidQueueBlocked.HoldsFlat blocked
  sleepingHolds : tm.pidQueueSleeping.HoldsFlat sleeping
  blockedSpace : blocked.length + 1 < maxGdtTerms
  sleepingSpace : sleeping.length + 1 < maxGdtTerms
  real : best ≠ notFound
  busy : tm.pidRunning ≠ notFound
  notReady : tm.pidRunning ∉ best :: rest
  notSleeping : tm.pidRunning ∉ sleeping
  state : (tm.tasks tm.pidRunning).state = .running

/-- The head of the ready queue runs, the outgoing task stands once in the queue of its state and
in no other one, and the rest of every queue is in order. -/
structure SwitchedOut (tm tm' : TaskManager) : Prop where
  next : tm.pidQueueReady.elems.head? = some tm'.pidRunning
  queued : ∃ place : Place, place ≠ .processor ∧ (place.pids tm').count tm.pidRunning = 1 ∧
    (tm'.tasks tm.pidRunning).state = place.state ∧ ∀ other, other ≠ place → tm.pidRunning ∉ other.pids tm'
  ready : tm'.pidQueueReady.elems.filter (· ≠ tm.pidRunning) =
    tm.pidQueueReady.elems.tail.filter (· ≠ tm.pidRunning)
  blocked : tm'.pidQueueBlocked.elems.filter (· ≠ tm.pidRunning) =
    tm.pidQueueBlocked.elems.filter (· ≠ tm.pidRunning)
  sleeping : tm'.pidQueueSleeping.elems.filter (· ≠ tm.pidRunning) =
    tm.pidQueueSleeping.elems.filter (· ≠ tm.pidRunning)

/-- Where `switch_to` puts the outgoing task; it has no branch for two of the reasons. -/
def outgoingPlace : SchedulerReason → Option Place
  | .timePieceOver => some .ready
  | .taskSleep => some .sleeping
  | .taskBlocked => some .blocked
  | .taskYield => none
  | .taskExit => none

theorem Place.state_injective {place other : Place} (same : place.state = other.state) : place = other := by
  cases place <;> cases other <;> first | rfl | cases same

section Dispatch

variable {tm : TaskManager} {best : Nat} {rest blocked sleeping : List Nat}

def staying (best : Nat) (rest blocked sleeping : List Nat) : Place → List Nat
  | .processor => [best]
  | .ready => rest
  | .blocked => blocked
  | .sleeping => sleeping

theorem Dispatchable.other (ok : Dispatchable tm best rest blocked sleeping) : tm.pidRunning ≠ best :=
  fun same => ok.notReady (same ▸ List.mem_cons_self)

theorem Dispatchable.onCpu_eq (ok : Dispatchable tm best rest blocked sleeping) : onCpu tm = [tm.pidRunning] :=
  if_neg ok.busy

theorem Dispatchable.outgoing_eq (ok : Dispatchable tm best rest blocked sleeping) (reason target : SchedulerReason) :
    outgoing tm reason target = if reason = target then [tm.pidRunning] else [] := by
  rw [outgoing, ok.onCpu_eq]

theorem Dispatchable.not_staying_iff (ok : Dispatchable tm best rest blocked sleeping) :
    (∀ place, tm.pidRunning ∉ staying best rest blocked sleeping place) ↔ tm.pidRunning ∉ blocked := by
  constructor
  · intro nowhere
    exact nowhere .blocked
  · intro gone place
    cases place with
    | processor => exact fun member => ok.other (List.mem_singleton.mp member)
    | ready => exact fun member => ok.notReady (List.mem_cons_of_mem _ member)
    | blocked => exact gone
    | sleeping => exact ok.notSleeping

theorem Dispatchable.after (ok : Dispatchable tm best rest blocked sleeping) (reason : SchedulerReason) :
    ∃ tm', schedule tm reason = some tm' ∧ tm'.pidRunning = best ∧
      tm'.pidQueueReady.elems = rest ++ outgoing tm reason .timePieceOver ∧
      tm'.pidQueueBlocked.elems = blocked ++ outgoing tm reason .taskBlocked ∧
      tm'.pidQueueSleeping.elems = sleeping ++ outgoing tm reason .taskSleep ∧
      (tm'.tasks tm.pidRunning).state = (outgoingPlace reason).elim .running Place.state := by
  obtain ⟨queue, dequeued, restHolds⟩ := pidDequeue_cons ok.ready
  have readySpace : rest.length + 1 < maxGdtTerms := by
    have room := ok.ready.room
    rwa [List.length_cons] at room
  let taken : TaskManager := { tm with schduleCounter := timePiece, pidQueueReady := queue }
  have scheduled : schedule tm reason = some (setTaskState (putOutgoing taken reason) best .running) := by
    rw [schedule, dequeued]
    simp only [if_neg ok.real]
    exact switchTo_eq ok.real ok.other
  have state : ((setTaskState (putOutgoing taken reason) best .running).tasks tm.pidRunning).state =
      ((putOutgoing taken reason).tasks tm.pidRunning).state := by
    rw [setTaskState_state, if_neg ok.other]
  have put : ∀ state, ((setTaskState taken tm.pidRunning state).tasks tm.pidRunning).state = state := by
    intro state
    rw [setTaskState_state, if_pos rfl]
  refine ⟨_, scheduled, rfl, ?_⟩
  rw [state]
  simp only [ok.outgoing_eq]
  have readyKept := restHolds.elems_eq
  have blockedKept := ok.blockedHolds.2.elems_eq
  have sleepingKept := ok.sleepingHolds.2.elems_eq
  have busy : taken.pidRunning ≠ notFound := ok.busy
  cases reason with
  | timePieceOver =>
      have ready := pidEnqueue_holds restHolds tm.pidRunning readySpace
      simp only [putOutgoing, if_neg busy, reduceCtorEq, if_true, if_false, List.append_nil]
      exact ⟨ready.elems_eq, blockedKept, sleepingKept, put .ready⟩
  | taskSleep =>
      have sleeps := pidEnqueue_holds ok.sleepingHolds.2 tm.pidRunning ok.sleepingSpace
      simp only [putOutgoing, if_neg busy, reduceCtorEq, if_true, if_false, List.append_nil]
      exact ⟨readyKept, blockedKept, sleeps.elems_eq, put .sleeping⟩
  | taskBlocked =>
      have blocks := pidEnqueue_holds ok.blockedHolds.2 tm.pidRunning ok.blockedSpace
      simp only [putOutgoing, if_neg busy, reduceCtorEq, if_true, if_false, List.append_nil]
      exact ⟨readyKept, blocks.elems_eq, sleepingKept, put .blocked⟩
  | taskYield =>
      simp only [putOutgoing, if_neg busy, reduceCtorEq, if_false, List.append_nil]
      exact ⟨readyKept, blockedKept, sleepingKept, ok.state⟩
  | taskExit =>
      simp only [putOutgoing, if_neg busy, reduceCtorEq, if_false, List.append_nil]
      exact ⟨readyKept, blockedKept, sleepingKept, ok.state⟩

theorem Dispatchable.pids (ok : Dispatchable tm best rest blocked sleeping) (reason : SchedulerReason) :
    ∃ tm', schedule tm reason = some tm' ∧
      (tm'.tasks tm.pidRunning).state = (outgoingPlace reason).elim .running Place.state ∧
      (∀ place, outgoingPlace reason = some place →
        place.pids tm' = staying best rest blocked sleeping place ++ [tm.pidRunning]) ∧
      ∀ place, outgoingPlace reason ≠ some place → place.pids tm' = staying best rest blocked sleeping place := by
  obtain ⟨tm', scheduled, running, ready, blocks, sleeps, state⟩ := ok.after reason
  simp only [ok.outgoing_eq] at ready blocks sleeps
  have cpu : onCpu tm' = [best] := by rw [onCpu, running, if_neg ok.real]
  refine ⟨tm', scheduled, state, fun place put => ?_, fun place left => ?_⟩
  · cases reason with
    | timePieceOver =>
        obtain rfl : Place.ready = place := Option.some.inj put
        exact ready
    | taskSleep =>
        obtain rfl : Place.sleeping = place := Option.some.inj put
        exact sleeps
    | taskBlocked =>
        obtain rfl : Place.blocked = place := Option.some.inj put
        exact blocks
    | taskYield => cases put
    | taskExit => cases put
  · cases place with
    | processor => exact cpu
    | ready =>
        have without : reason ≠ .timePieceOver := fun same => left (by rw [same, outgoingPlace])
        rwa [if_neg without, List.append_nil] at ready
    | blocked =>
        have without : reason ≠ .taskBlocked := fun same => left (by rw [same, outgoingPlace])
        rwa [if_neg without, List.append_nil] at blocks
    | sleeping =>
        have without : reason ≠ .taskSleep := fun same => left (by rw [same, outgoingPlace])
        rwa [if_neg without, List.append_nil] at sleeps

/-- The outgoing task is placed right exactly if its reason has a branch in `switch_to`, and no
cell of `pid_queue_blocked` is left from an earlier wait of it. -/
theorem Dispatchable.switchedOut_iff (ok : Dispatchable tm best rest blocked sleeping) {reason : SchedulerReason}
    (alive : reason ≠ .taskExit) : (∃ tm', schedule tm reason = some tm' ∧ SwitchedOut tm tm') ↔
      reason ≠ .taskYield ∧ tm.pidRunning ∉ blocked := by
  obtain ⟨tm', scheduled, state, enters, stays⟩ := ok.pids reason
  have branch : reason ≠ .taskYield ↔ ∃ place, outgoingPlace reason = some place := by
    cases reason <;> simp [outgoingPlace] at alive ⊢
  rw [← ok.not_staying_iff, branch]
  constructor
  · rintro ⟨tm'', scheduled', switched⟩
    obtain rfl : tm' = tm'' := Option.some.inj (scheduled.symm.trans scheduled')
    obtain ⟨place, queue, once, matched, others⟩ := switched.queued
    rw [state] at matched
    -- Without a branch the outgoing task still has the state of a running one.
    have put : outgoingPlace reason = some place := by
      cases chosen : outgoingPlace reason with
      | none =>
          rw [chosen] at matched
          exact absurd (@Place.state_injective .processor place matched).symm queue
      | some target =>
          rw [chosen] at matched
          rw [Place.state_injective matched]
    refine ⟨⟨place, put⟩, fun other member => ?_⟩
    by_cases same : other = place
    · have twice := List.count_pos_iff.mpr (same ▸ member)
      rw [enters place put, List.count_append, List.count_singleton_self] at once
      omega
    · have elsewhere : outgoingPlace reason ≠ some other := fun also =>
        same (Option.some.inj (also.symm.trans put))
      exact others other same (stays other elsewhere ▸ member)
  · rintro ⟨⟨place, put⟩, nowhere⟩
    have away : place ≠ .processor := by
      rintro rfl
      cases reason <;> cases put
    have one : (place.pids tm').count tm.pidRunning = 1 := by
      rw [enters place put, List.count_append, List.count_eq_zero_of_not_mem (nowhere place),
        List.count_singleton_self]
    have others : ∀ other, other ≠ place → other.pids tm' = staying best rest blocked sleeping other := by
      intro other different
      exact stays other fun also => different (Option.some.inj (also.symm.trans put))
    have kept : ∀ other : Place, (other.pids tm').filter (· ≠ tm.pidRunning) =
        (staying best rest blocked sleeping other).filter (· ≠ tm.pidRunning) := by
      intro other
      by_cases same : other = place
      · rw [same, enters place put, List.filter_append]
        simp
      · rw [others other same]
    have running : onCpu tm' = [best] := others .processor (Ne.symm away)
    have member : best ∈ onCpu tm' := by
      rw [running]
      exact List.mem_singleton_self best
    have next : tm'.pidRunning = best := (mem_onCpu.mp member).2.symm
    refine ⟨tm', scheduled, ?_, ⟨place, away, one, ?_, fun other different => ?_⟩, ?_, ?_, ?_⟩
    · rw [ok.ready.elems_eq, next, List.head?_cons]
    · rw [state, put]
      rfl
    · rw [others other different]
      exact nowhere other
    · rw [ok.ready.elems_eq]
      exact kept .ready
    · rw [ok.blockedHolds.2.elems_eq]
      exact kept .blocked
    · rw [ok.sleepingHolds.2.elems_eq]
      exact kept .sleeping

end Dispatch

/-! ## In every run -/

section Runs

variable {ι : Type} {image : KernelImage} {s t : SyncSystem ι}

theorem WaitingIn.dispatchable {q : PidQueue} (ok : WaitingIn s q)
    (busy : s.system.kernel.taskManager.pidRunning ≠ notFound)
    (nonempty : s.system.kernel.taskManager.pidQueueReady.elems ≠ []) :
    ∃ best rest, Dispatchable s.system.kernel.taskManager best rest s.blocked
      s.system.kernel.taskManager.pidQueueSleeping.elems := by
  have placed := ok.waiting.consistent.placed
  have total := placed.length_lt
  have cpu : (onCpu s.system.kernel.taskManager).length = 1 := congrArg List.length (if_neg busy)
  change (onCpu s.system.kernel.taskManager).length + _ + _ + _ < _ at total
  have apart := placed.apart.1 (mem_onCpu.mpr ⟨busy, rfl⟩)
  obtain ⟨items, flat, length⟩ := ok.system
  obtain ⟨best, rest, shape⟩ := List.exists_cons_of_ne_nil nonempty
  have ready : s.system.kernel.taskManager.pidQueueReady.Holds s.system.kernel.taskManager.pidQueueReady.elems :=
    placed.queued.readyHolds
  have bound := (placed.bounds best (placed.mem_live.mpr (Or.inr (Or.inl (shape ▸ List.mem_cons_self))))).2
  have listed : s.blocked = items := flat.2.elems_eq
  refine ⟨best, rest, ?_⟩
  rw [listed]
  exact
    { ready := shape ▸ ready
      blockedHolds := flat
      sleepingHolds := placed.queued.sleepingHolds
      blockedSpace := by
        change _ + _ + q.elems.length + _ < _ at total
        omega
      sleepingSpace := by
        change _ + _ + _ + s.system.kernel.taskManager.pidQueueSleeping.elems.length < _ at total
        omega
      real := by
        simp only [maxGdtTerms, notFound] at bound ⊢
        omega
      busy := busy
      notReady := shape ▸ apart.1
      notSleeping := apart.2.2
      state := placed.running busy }

theorem WaitingIn.switchedOut_iff {q : PidQueue} (ok : WaitingIn s q)
    (busy : s.system.kernel.taskManager.pidRunning ≠ notFound)
    (nonempty : s.system.kernel.taskManager.pidQueueReady.elems ≠ []) {reason : SchedulerReason}
    (alive : reason ≠ .taskExit) :
    (∃ tm', schedule s.system.kernel.taskManager reason = some tm' ∧
        SwitchedOut s.system.kernel.taskManager tm') ↔
      reason ≠ .taskYield ∧ s.system.kernel.taskManager.pidRunning ∉ s.blocked := by
  obtain ⟨best, rest, dispatchable⟩ := ok.dispatchable busy nonempty
  exact dispatchable.switchedOut_iff alive

/-- While each `signal` clears the cell of the task it wakes, no running task is in `pid_queue_blocked`. -/
theorem Waiting.running_not_blocked (ok : Waiting s) (busy : s.system.kernel.taskManager.pidRunning ≠ notFound) :
    s.system.kernel.taskManager.pidRunning ∉ s.blocked :=
  (ok.consistent.placed.apart.1 (mem_onCpu.mpr ⟨busy, rfl⟩)).2.1

variable [DecidableEq ι]

/-- In every state reached, `schedule` places the outgoing task, and the next one, exactly if the
reason is not `REASON_TASK_YIELD` and `signal` has not left the running task in `pid_queue_blocked`. -/
theorem schedule_switches_out_iff {idle : IdleImage} {k k' : Kernel} {counts : ι → Int16}
    {events : List (SyncEvent ι)}
    (unused : k.taskManager.pidQueueSleeping.head = 0 ∧ k.taskManager.pidQueueSleeping.tail = 0)
    (started : schedInit image idle k = some k')
    (run : Run (SyncStep image) (syncStart image k k' counts) events t)
    (busy : t.system.kernel.taskManager.pidRunning ≠ notFound)
    (nonempty : t.system.kernel.taskManager.pidQueueReady.elems ≠ []) {reason : SchedulerReason}
    (alive : reason ≠ .taskExit) :
    (∃ tm', schedule t.system.kernel.taskManager reason = some tm' ∧
        SwitchedOut t.system.kernel.taskManager tm') ↔
      reason ≠ .taskYield ∧ t.system.kernel.taskManager.pidRunning ∉ t.blocked := by
  obtain ⟨q, ok⟩ := run_waitingIn unused started run
  exact ok.switchedOut_iff busy nonempty alive

/-- Where each `signal` clears the cell of the task it wakes, only the reason matters. -/
theorem switches_out_unless_yield {idle : IdleImage} {k k' : Kernel} {counts : ι → Int16}
    {events : List (SyncEvent ι)}
    (unused : k.taskManager.pidQueueSleeping.head = 0 ∧ k.taskManager.pidQueueSleeping.tail = 0)
    (started : schedInit image idle k = some k')
    (run : Run (Guarded (SyncStep image) ClearsWaiter) (syncStart image k k' counts) events t)
    (busy : t.system.kernel.taskManager.pidRunning ≠ notFound)
    (nonempty : t.system.kernel.taskManager.pidQueueReady.elems ≠ []) {reason : SchedulerReason}
    (alive : reason ≠ .taskExit) :
    (∃ tm', schedule t.system.kernel.taskManager reason = some tm' ∧
        SwitchedOut t.system.kernel.taskManager tm') ↔ reason ≠ .taskYield := by
  have ok : Waiting t :=
    run.invariant (syncStart_waiting counts unused started) fun _ _ _ holds step => holds.step step
  rw [ok.waitingIn.switchedOut_iff busy nonempty alive]
  exact and_iff_left (ok.running_not_blocked busy)

end Runs

def sampleSlice : List (SyncEvent Bool) := List.replicate 100 (.task .tick)

theorem sampleSlice_run : ∃ t, Run (SyncStep sampleImage) sampleSyncStart sampleSlice t ∧
    t.system.kernel.taskManager.pidRunning = 5 ∧ t.system.kernel.taskManager.pidQueueReady.elems = [6] ∧
      t.blocked = [] := by
  have ends : (sampleSlice.foldlM (syncStep sampleImage) sampleSyncStart).map (fun t =>
      (t.system.kernel.taskManager.pidRunning, t.system.kernel.taskManager.pidQueueReady.elems, t.blocked)) =
        some (5, [6], []) := by
    decide +kernel
  obtain ⟨t, result, values⟩ := Option.map_eq_some_iff.mp ends
  simp only [Prod.mk.injEq] at values
  exact ⟨t, Run.of_foldlM result, values⟩

theorem schedule_switches_out_sleep : ∃ t tm', Run (SyncStep sampleImage) sampleSyncStart sampleSlice t ∧
    schedule t.system.kernel.taskManager .taskSleep = some tm' ∧ SwitchedOut t.system.kernel.taskManager tm' := by
  obtain ⟨t, run, running, ready, blocked⟩ := sampleSlice_run
  have placed := (schedule_switches_out_iff ⟨rfl, rfl⟩ sampleStart_started run (by rw [running]; decide)
    (by rw [ready]; decide) (show SchedulerReason.taskSleep ≠ .taskExit by decide)).mpr
      ⟨by decide, by rw [blocked]; exact List.not_mem_nil⟩
  obtain ⟨tm', scheduled, switched⟩ := placed
  exact ⟨t, tm', run, scheduled, switched⟩

theorem yield_loses_task : ∃ t, Run (SyncStep sampleImage) sampleSyncStart sampleSlice t ∧
    t.system.kernel.taskManager.pidRunning ≠ notFound ∧ t.system.kernel.taskManager.pidQueueReady.elems ≠ [] ∧
      ¬∃ tm', schedule t.system.kernel.taskManager .taskYield = some tm' ∧
        SwitchedOut t.system.kernel.taskManager tm' := by
  obtain ⟨t, run, running, ready, -⟩ := sampleSlice_run
  have busy : t.system.kernel.taskManager.pidRunning ≠ notFound := by
    rw [running]
    decide
  have waiting : t.system.kernel.taskManager.pidQueueReady.elems ≠ [] := by
    rw [ready]
    exact List.cons_ne_nil 6 []
  obtain ⟨q, ok⟩ := run_waitingIn ⟨rfl, rfl⟩ sampleStart_started run
  refine ⟨t, run, busy, waiting, ?_⟩
  rw [ok.switchedOut_iff busy waiting (by decide)]
  exact fun both => both.1 rfl

end WegOS
