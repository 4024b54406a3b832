import WegOS.Sched

/-! What the scheduler's functions do to the three queues, as lists. -/

namespace WegOS

/-- The three queues hold these lists, and every listed task has the state of its queue. -/
structure Queued (tm : TaskManager) (ready blocked sleeping : List Nat) : Prop where
  readyHolds : tm.pidQueueReady.Holds ready
  blockedHolds : tm.pidQueueBlocked.HoldsFlat blocked
  sleepingHolds : tm.pidQueueSleeping.HoldsFlat sleeping
  readyState : ∀ pid ∈ ready, (tm.tasks pid).state = .ready
  blockedState : ∀ pid ∈ blocked, (tm.tasks pid).state = .blocked
  sleepingState : ∀ pid ∈ sleeping, (tm.tasks pid).state = .sleeping

def onCpu (tm : TaskManager) : List Nat := if tm.pidRunning = notFound then [] else [tm.pidRunning]

def Outside (pid : Nat) (ready blocked sleeping : List Nat) : Prop :=
  pid ∉ ready ∧ pid ∉ blocked ∧ pid ∉ sleeping

section SetTaskState

variable {tm : TaskManager} {ready blocked sleeping : List Nat} {pid : Nat}

@[simp] theorem setTaskState_state (tm : TaskManager) (pid : Nat) (state : TaskState) (other : Nat) :
    ((setTaskState tm pid state).tasks other).state =
      if other = pid then state else (tm.tasks other).state := by
  have core : (Function.update tm.tasks pid { tm.tasks pid with state := state } other).state =
      if other = pid then state else (tm.tasks other).state := by
    by_cases same : other = pid
    · rw [same, Function.update_self, if_pos rfl]
    · rw [Function.update_of_ne same, if_neg same]
  cases state <;> exact core

@[simp] theorem setTaskState_wakeupCounter (tm : TaskManager) (pid : Nat) (state : TaskState)
    (other : Nat) :
    ((setTaskState tm pid state).tasks other).wakeupCounter = (tm.tasks other).wakeupCounter := by
  have core : (Function.update tm.tasks pid { tm.tasks pid with state := state } other).wakeupCounter =
      (tm.tasks other).wakeupCounter := by
    by_cases same : other = pid
    · rw [same, Function.update_self]
    · rw [Function.update_of_ne same]
  cases state <;> exact core

@[simp] theorem setTaskState_tss (tm : TaskManager) (pid : Nat) (state : TaskState) (other : Nat) :
    ((setTaskState tm pid state).tasks other).tss = (tm.tasks other).tss := by
  have core : (Function.update tm.tasks pid { tm.tasks pid with state := state } other).tss =
      (tm.tasks other).tss := by
    by_cases same : other = pid
    · rw [same, Function.update_self]
    · rw [Function.update_of_ne same]
  cases state <;> exact core

theorem kept_state {items : List Nat} {state queue : TaskState} (outside : pid ∉ items)
    (states : ∀ p ∈ items, (tm.tasks p).state = queue) :
    ∀ p ∈ items, ((setTaskState tm pid state).tasks p).state = queue := by
  intro p member
  have other : p ≠ pid := fun same => outside (same ▸ member)
  rw [setTaskState_state, if_neg other]
  exact states p member

theorem added_state {items : List Nat} {state : TaskState} (outside : pid ∉ items)
    (states : ∀ p ∈ items, (tm.tasks p).state = state) :
    ∀ p ∈ items ++ [pid], ((setTaskState tm pid state).tasks p).state = state := by
  intro p member
  rcases List.mem_append.mp member with old | new
  · exact kept_state outside states p old
  · rw [List.mem_singleton.mp new, setTaskState_state, if_pos rfl]

theorem Queued.toReady (queued : Queued tm ready blocked sleeping)
    (outside : Outside pid ready blocked sleeping) (space : ready.length + 1 < maxGdtTerms) :
    Queued (setTaskState tm pid .ready) (ready ++ [pid]) blocked sleeping where
  readyHolds := pidEnqueue_holds queued.readyHolds pid space
  blockedHolds := queued.blockedHolds
  sleepingHolds := queued.sleepingHolds
  readyState := added_state outside.1 queued.readyState
  blockedState := kept_state outside.2.1 queued.blockedState
  sleepingState := kept_state outside.2.2 queued.sleepingState

theorem Queued.toBlocked (queued : Queued tm ready blocked sleeping)
    (outside : Outside pid ready blocked sleeping) (space : blocked.length + 1 < maxGdtTerms) :
    Queued (setTaskState tm pid .blocked) ready (blocked ++ [pid]) sleeping where
  readyHolds := queued.readyHolds
  blockedHolds := pidEnqueue_holdsFlat queued.blockedHolds pid space
  sleepingHolds := queued.sleepingHolds
  readyState := kept_state outside.1 queued.readyState
  blockedState := added_state outside.2.1 queued.blockedState
  sleepingState := kept_state outside.2.2 queued.sleepingState

theorem Queued.toSleeping (queued : Queued tm ready blocked sleeping)
    (outside : Outside pid ready blocked sleeping) (space : sleeping.length + 1 < maxGdtTerms) :
    Queued (setTaskState tm pid .sleeping) ready blocked (sleeping ++ [pid]) where
  readyHolds := queued.readyHolds
  blockedHolds := queued.blockedHolds
  sleepingHolds := pidEnqueue_holdsFlat queued.sleepingHolds pid space
  readyState := kept_state outside.1 queued.readyState
  blockedState := kept_state outside.2.1 queued.blockedState
  sleepingState := added_state outside.2.2 queued.sleepingState

theorem Queued.toRunning (queued : Queued tm ready blocked sleeping)
    (outside : Outside pid ready blocked sleeping) :
    Queued (setTaskState tm pid .running) ready blocked sleeping where
  readyHolds := queued.readyHolds
  blockedHolds := queued.blockedHolds
  sleepingHolds := queued.sleepingHolds
  readyState := kept_state outside.1 queued.readyState
  blockedState := kept_state outside.2.1 queued.blockedState
  sleepingState := kept_state outside.2.2 queued.sleepingState

end SetTaskState

theorem Queued.congr {tm tm' : TaskManager} {ready blocked sleeping : List Nat}
    (queued : Queued tm ready blocked sleeping) (readyEq : tm'.pidQueueReady = tm.pidQueueReady)
    (blockedEq : tm'.pidQueueBlocked = tm.pidQueueBlocked)
    (sleepingEq : tm'.pidQueueSleeping = tm.pidQueueSleeping)
    (states : ∀ p, (tm'.tasks p).state = (tm.tasks p).state) :
    Queued tm' ready blocked sleeping where
  readyHolds := readyEq ▸ queued.readyHolds
  blockedHolds := blockedEq ▸ queued.blockedHolds
  sleepingHolds := sleepingEq ▸ queued.sleepingHolds
  readyState p member := (states p).trans (queued.readyState p member)
  blockedState p member := (states p).trans (queued.blockedState p member)
  sleepingState p member := (states p).trans (queued.sleepingState p member)

/-! ## The switch -/

def outgoing (tm : TaskManager) (reason target : SchedulerReason) : List Nat :=
  if reason = target then onCpu tm else []

def putOutgoing (tm : TaskManager) (reason : SchedulerReason) : TaskManager :=
  if tm.pidRunning = notFound then tm
  else
    match reason with
    | .timePieceOver => setTaskState tm tm.pidRunning .ready
    | .taskSleep => setTaskState tm tm.pidRunning .sleeping
    | .taskBlocked => setTaskState tm tm.pidRunning .blocked
    | .taskYield => tm
    | .taskExit => tm

section Schedule

variable {tm : TaskManager} {ready blocked sleeping : List Nat} {reason : SchedulerReason}

/-- Room for one more entry in each queue, and a running task that is in none of them. -/
structure Switchable (tm : TaskManager) (ready blocked sleeping : List Nat) : Prop where
  queued : Queued tm ready blocked sleeping
  runningOutside : tm.pidRunning ≠ notFound → Outside tm.pidRunning ready blocked sleeping
  disjoint : ∀ pid ∈ ready, pid ∉ blocked ∧ pid ∉ sleeping
  nodup : ready.Nodup
  bounded : ∀ pid ∈ ready, pid < maxGdtTerms
  blockedSpace : blocked.length + 1 < maxGdtTerms
  sleepingSpace : sleeping.length + 1 < maxGdtTerms

/-- An empty ready queue stops the kernel in an error loop. -/
theorem schedule_empty (queued : Queued tm [] blocked sleeping) : schedule tm reason = none := by
  simp [schedule, pidDequeue_empty queued.readyHolds]

theorem switchTo_eq {pid : Nat} (real : pid ≠ notFound) (other : tm.pidRunning ≠ pid) :
    switchTo tm pid reason = some (setTaskState (putOutgoing tm reason) pid .running) := by
  have cases : switchTo tm pid reason =
      if pid = notFound then none
      else if tm.pidRunning = pid then some tm
      else some (setTaskState (putOutgoing tm reason) pid .running) := rfl
  rw [cases, if_neg real, if_neg other]

theorem putOutgoing_frame (tm : TaskManager) (reason : SchedulerReason) :
    (putOutgoing tm reason).schduleCounter = tm.schduleCounter ∧
      ∀ p, ((putOutgoing tm reason).tasks p).tss = (tm.tasks p).tss ∧
        ((putOutgoing tm reason).tasks p).wakeupCounter = (tm.tasks p).wakeupCounter := by
  unfold putOutgoing
  split
  · exact ⟨rfl, fun _ => ⟨rfl, rfl⟩⟩
  · cases reason <;>
      exact ⟨rfl, fun p => ⟨by first | rfl | exact setTaskState_tss _ _ _ _,
        by first | rfl | exact setTaskState_wakeupCounter _ _ _ _⟩⟩

theorem putOutgoing_queued (reason : SchedulerReason) (queued : Queued tm ready blocked sleeping)
    (outside : tm.pidRunning ≠ notFound → Outside tm.pidRunning ready blocked sleeping)
    (readySpace : ready.length + 1 < maxGdtTerms) (blockedSpace : blocked.length + 1 < maxGdtTerms)
    (sleepingSpace : sleeping.length + 1 < maxGdtTerms) :
    Queued (putOutgoing tm reason) (ready ++ outgoing tm reason .timePieceOver)
      (blocked ++ outgoing tm reason .taskBlocked) (sleeping ++ outgoing tm reason .taskSleep) := by
  by_cases idle : tm.pidRunning = notFound
  · simpa [putOutgoing, outgoing, onCpu, idle] using queued
  · have apart := outside idle
    cases reason with
    | timePieceOver =>
        simpa [putOutgoing, outgoing, onCpu, idle] using queued.toReady apart readySpace
    | taskSleep =>
        simpa [putOutgoing, outgoing, onCpu, idle] using queued.toSleeping apart sleepingSpace
    | taskBlocked =>
        simpa [putOutgoing, outgoing, onCpu, idle] using queued.toBlocked apart blockedSpace
    | taskYield => simpa [putOutgoing, outgoing, idle] using queued
    | taskExit => simpa [putOutgoing, outgoing, idle] using queued

theorem not_mem_append_outgoing {target : SchedulerReason} {best : Nat} {items : List Nat}
    (fresh : best ∉ items) (other : tm.pidRunning ≠ best) :
    best ∉ items ++ outgoing tm reason target := by
  intro member
  rcases List.mem_append.mp member with old | new
  · exact fresh old
  · unfold outgoing onCpu at new
    split_ifs at new
    · simp at new
    · exact other (List.mem_singleton.mp new).symm
    · simp at new

/-- `schedule` takes the head of the ready queue to the processor and puts the
outgoing task where the reason says, at the tail. -/
theorem schedule_cons (reason : SchedulerReason) {best : Nat} (ok : Switchable tm (best :: ready) blocked sleeping) :
    ∃ tm', schedule tm reason = some tm' ∧ tm'.pidRunning = best ∧
      (tm'.tasks best).state = .running ∧ tm'.schduleCounter = timePiece ∧
      (∀ p, (tm'.tasks p).tss = (tm.tasks p).tss ∧
        (tm'.tasks p).wakeupCounter = (tm.tasks p).wakeupCounter) ∧
      Queued tm' (ready ++ outgoing tm reason .timePieceOver)
        (blocked ++ outgoing tm reason .taskBlocked) (sleeping ++ outgoing tm reason .taskSleep) := by
  obtain ⟨rest, dequeued, restHolds⟩ := pidDequeue_cons ok.queued.readyHolds
  have bestBound := ok.bounded best List.mem_cons_self
  have real : best ≠ notFound := by
    simp only [maxGdtTerms, notFound] at bestBound ⊢
    omega
  have bestOutside : Outside best ready blocked sleeping :=
    ⟨(List.nodup_cons.mp ok.nodup).1, ok.disjoint best List.mem_cons_self⟩
  have other : tm.pidRunning ≠ best := by
    by_cases idle : tm.pidRunning = notFound
    · rw [idle]
      exact real.symm
    · intro same
      exact (ok.runningOutside idle).1 (same ▸ List.mem_cons_self)
  have readySpace : ready.length + 1 < maxGdtTerms := by
    have room := ok.queued.readyHolds.room
    simpa using room
  -- The state between the dequeue and the switch.
  let taken : TaskManager := { tm with schduleCounter := timePiece, pidQueueReady := rest }
  have takenQueued : Queued taken ready blocked sleeping :=
    { readyHolds := restHolds
      blockedHolds := ok.queued.blockedHolds
      sleepingHolds := ok.queued.sleepingHolds
      readyState := fun p member => ok.queued.readyState p (List.mem_cons_of_mem _ member)
      blockedState := ok.queued.blockedState
      sleepingState := ok.queued.sleepingState }
  have runOutside : taken.pidRunning ≠ notFound → Outside taken.pidRunning ready blocked sleeping := by
    intro busy
    obtain ⟨inReady, elsewhere⟩ := ok.runningOutside busy
    exact ⟨fun member => inReady (List.mem_cons_of_mem _ member), elsewhere⟩
  have put := putOutgoing_queued reason takenQueued runOutside readySpace
    ok.blockedSpace ok.sleepingSpace
  obtain ⟨counter, kept⟩ := putOutgoing_frame taken reason
  refine ⟨setTaskState (putOutgoing taken reason) best .running, ?_, rfl, by simp, counter, ?_, ?_⟩
  · rw [schedule, dequeued]
    simp only [if_neg real]
    exact switchTo_eq real other
  · intro p
    rw [setTaskState_tss, setTaskState_wakeupCounter]
    exact kept p
  · exact put.toRunning ⟨not_mem_append_outgoing bestOutside.1 other,
      not_mem_append_outgoing bestOutside.2.1 other, not_mem_append_outgoing bestOutside.2.2 other⟩

end Schedule

/-! ## Waking up -/

def wakes (tm : TaskManager) (pid : Nat) : Bool := (tm.tasks pid).wakeupCounter - 1 == 0

section Wakeup

variable {tm : TaskManager} {ready blocked kept rest : List Nat}

@[simp] theorem decreaseWakeup_state (tm : TaskManager) (pid p : Nat) :
    ((decreaseWakeup tm pid).tasks p).state = (tm.tasks p).state := by
  by_cases same : p = pid
  · simp [decreaseWakeup, same]
  · simp [decreaseWakeup, Function.update_of_ne same]

@[simp] theorem decreaseWakeup_tss (tm : TaskManager) (pid p : Nat) :
    ((decreaseWakeup tm pid).tasks p).tss = (tm.tasks p).tss := by
  by_cases same : p = pid
  · simp [decreaseWakeup, same]
  · simp [decreaseWakeup, Function.update_of_ne same]

@[simp] theorem decreaseWakeup_wakeupCounter (tm : TaskManager) (pid p : Nat) :
    ((decreaseWakeup tm pid).tasks p).wakeupCounter =
      if p = pid then (tm.tasks p).wakeupCounter - 1 else (tm.tasks p).wakeupCounter := by
  by_cases same : p = pid
  · simp [decreaseWakeup, same]
  · simp [decreaseWakeup, same]

theorem decreaseWakeup_queued {sleeping : List Nat} (queued : Queued tm ready blocked sleeping)
    (pid : Nat) : Queued (decreaseWakeup tm pid) ready blocked sleeping :=
  queued.congr rfl rfl rfl (decreaseWakeup_state tm pid)

/-- The `uint16_t` index that has stepped back comes forward to the same place. -/
theorem incPidQueueIndex_back {i : Nat} (bound : i < maxGdtTerms) :
    incPidQueueIndex ((i + 65535) % 65536) = i := by
  simp only [incPidQueueIndex, maxGdtTerms] at bound ⊢
  omega

theorem incPidQueueIndex_next {i : Nat} (bound : i + 1 < maxGdtTerms) :
    incPidQueueIndex i = i + 1 := Nat.mod_eq_of_lt bound

/-- What `check_wakeup` has done when it has met the pids of `rest`: each has lost
one from its counter, and those with nothing left are ready, in the same order. -/
structure Woken (tm tm' : TaskManager) (ready blocked kept rest : List Nat) : Prop where
  queued : Queued tm' (ready ++ rest.filter (wakes tm)) blocked
    (kept ++ rest.filter fun pid => !wakes tm pid)
  pidRunning : tm'.pidRunning = tm.pidRunning
  schduleCounter : tm'.schduleCounter = tm.schduleCounter
  tss : ∀ p, (tm'.tasks p).tss = (tm.tasks p).tss
  wakeupCounter : ∀ p, (tm'.tasks p).wakeupCounter =
    if p ∈ rest then (tm.tasks p).wakeupCounter - 1 else (tm.tasks p).wakeupCounter
  runningState : ∀ p, p ∉ rest → (tm'.tasks p).state = (tm.tasks p).state

/-- The state after the head of the rest has been dealt with, and its step's frame. -/
theorem Woken.cons {tm mid tm' : TaskManager} {ready' kept' : List Nat} {pid : Nat}
    (fresh : pid ∉ rest) (woken : Woken mid tm' ready' blocked kept' rest)
    (readyEq : ready' = ready ++ [pid].filter (wakes tm))
    (keptEq : kept' = kept ++ [pid].filter fun pid => !wakes tm pid)
    (pidRunning : mid.pidRunning = tm.pidRunning)
    (schduleCounter : mid.schduleCounter = tm.schduleCounter)
    (tss : ∀ p, (mid.tasks p).tss = (tm.tasks p).tss)
    (wakeupCounter : ∀ p, (mid.tasks p).wakeupCounter =
      if p = pid then (tm.tasks p).wakeupCounter - 1 else (tm.tasks p).wakeupCounter)
    (state : ∀ p, p ≠ pid → (mid.tasks p).state = (tm.tasks p).state) :
    Woken tm tm' ready blocked kept (pid :: rest) := by
  have same : ∀ p ∈ rest, wakes mid p = wakes tm p := by
    intro p member
    have other : p ≠ pid := fun equal => fresh (equal ▸ member)
    simp only [wakes, wakeupCounter p, if_neg other]
  have lists := woken.queued
  rw [List.filter_congr same, List.filter_congr fun p member => congrArg (!·) (same p member),
    readyEq, keptEq, List.append_assoc, List.append_assoc, ← List.filter_append,
    ← List.filter_append] at lists
  refine ⟨lists, woken.pidRunning.trans pidRunning, woken.schduleCounter.trans schduleCounter,
    fun p => (woken.tss p).trans (tss p), ?_, ?_⟩
  · intro p
    rw [woken.wakeupCounter, wakeupCounter]
    by_cases equal : p = pid
    · rw [equal, if_neg fresh, if_pos rfl, if_pos List.mem_cons_self]
    · simp [equal]
  · intro p outside
    simp only [List.mem_cons, not_or] at outside
    exact (woken.runningState p outside.2).trans (state p outside.1)

theorem checkWakeupFrom_succ (tm : TaskManager) (fuel i : Nat) {pid : Nat}
    (here : tm.pidQueueSleeping.pids i = pid) :
    checkWakeupFrom (fuel + 1) tm i =
      if i = tm.pidQueueSleeping.tail then some tm
      else if ((decreaseWakeup tm pid).tasks pid).wakeupCounter ≤ 0 then
        (pidQueueDelete tm.pidQueueSleeping i).bind fun sleeping =>
          checkWakeupFrom fuel (setTaskState { decreaseWakeup tm pid with pidQueueSleeping := sleeping } pid .ready)
            (incPidQueueIndex ((i + 65535) % 65536))
      else checkWakeupFrom fuel (decreaseWakeup tm pid) (incPidQueueIndex i) := by
  rw [checkWakeupFrom, here]
  cases deleted : pidQueueDelete tm.pidQueueSleeping i <;> simp [decreaseWakeup, deleted]

theorem Queued.dropSleeping {sleeping : PidQueue} {pid : Nat} (queued : Queued tm ready blocked (kept ++ pid :: rest))
    (holds : sleeping.HoldsFlat (kept ++ rest)) :
    Queued { tm with pidQueueSleeping := sleeping } ready blocked (kept ++ rest) where
  readyHolds := queued.readyHolds
  blockedHolds := queued.blockedHolds
  sleepingHolds := holds
  readyState := queued.readyState
  blockedState := queued.blockedState
  sleepingState := by
    intro p member
    apply queued.sleepingState p
    rcases List.mem_append.mp member with before | behind
    · exact List.mem_append_left _ before
    · exact List.mem_append_right _ (List.mem_cons_of_mem _ behind)

theorem checkWakeupFrom_woken {fuel : Nat} (queued : Queued tm ready blocked (kept ++ rest))
    (apart : ∀ pid ∈ rest, pid ∉ ready ∧ pid ∉ blocked) (nodup : (kept ++ rest).Nodup)
    (space : ready.length + rest.length < maxGdtTerms) (enough : rest.length < fuel) :
    ∃ tm', checkWakeupFrom fuel tm kept.length = some tm' ∧ Woken tm tm' ready blocked kept rest := by
  induction rest generalizing tm ready kept fuel with
  | nil =>
      obtain ⟨fuel, rfl⟩ := Nat.exists_eq_succ_of_ne_zero (show fuel ≠ 0 by omega)
      refine ⟨tm, ?_, ?_⟩
      · rw [checkWakeupFrom, if_pos]
        rw [queued.sleepingHolds.tail_eq, List.append_nil]
      · exact ⟨by simpa using queued, rfl, rfl, fun _ => rfl, by simp, fun _ _ => rfl⟩
  | cons pid rest ih =>
      obtain ⟨fuel, rfl⟩ := Nat.exists_eq_succ_of_ne_zero (show fuel ≠ 0 by omega)
      have room := queued.sleepingHolds.2.room
      rw [List.length_append, List.length_cons] at room
      rw [List.length_cons] at space enough
      have position : kept.length < (kept ++ pid :: rest).length := by simp
      have notYet : kept.length ≠ tm.pidQueueSleeping.tail := by
        rw [queued.sleepingHolds.tail_eq]
        simp
      have here : tm.pidQueueSleeping.pids kept.length = pid := by
        have cell := CircularQueue.Holds.cell queued.sleepingHolds.2 kept.length position
        rw [queued.sleepingHolds.slot_eq (by omega)] at cell
        simpa using cell
      have fresh : pid ∉ rest := by
        have tailNodup := (List.nodup_append.mp nodup).2.1
        exact (List.nodup_cons.mp tailNodup).1
      have notKept : pid ∉ kept := by
        intro member
        exact (List.nodup_append.mp nodup).2.2 pid member pid List.mem_cons_self rfl
      have nodupRest : (kept ++ rest).Nodup :=
        nodup.sublist (List.Sublist.append_left (List.sublist_cons_self pid rest) kept)
      rw [checkWakeupFrom_succ tm fuel _ here, if_neg notYet, decreaseWakeup_wakeupCounter, if_pos rfl]
      by_cases spent : (tm.tasks pid).wakeupCounter - 1 = 0
      · -- The pid leaves the sleeping queue for the ready queue.
        obtain ⟨sleeping, deleted, sleepingHolds⟩ :=
          pidQueueDelete_holdsFlat queued.sleepingHolds position
        have wake : wakes tm pid = true := by simpa [wakes] using spent
        rw [List.eraseIdx_append_of_length_le (Nat.le_refl _), Nat.sub_self, List.eraseIdx_cons_zero]
          at sleepingHolds
        rw [if_pos (UInt32.le_zero_iff.mpr spent), deleted, Option.bind_some, incPidQueueIndex_back (by omega)]
        have before := (decreaseWakeup_queued queued pid).dropSleeping sleepingHolds
        obtain ⟨notReady, notBlocked⟩ := apart pid List.mem_cons_self
        have after := before.toReady ⟨notReady, notBlocked, by simp [notKept, fresh]⟩ (by omega)
        have apartRest : ∀ p ∈ rest, p ∉ ready ++ [pid] ∧ p ∉ blocked := by
          intro p member
          obtain ⟨outReady, outBlocked⟩ := apart p (List.mem_cons_of_mem _ member)
          have other : p ≠ pid := fun same => fresh (same ▸ member)
          exact ⟨by simp [outReady, other], outBlocked⟩
        have spaceRest : (ready ++ [pid]).length + rest.length < maxGdtTerms := by
          rw [List.length_append, List.length_singleton]
          omega
        obtain ⟨tm', result, woken⟩ :=
          ih after apartRest nodupRest spaceRest (show rest.length < fuel by omega)
        refine ⟨tm', result, woken.cons fresh (by simp [wake]) (by simp [wake]) rfl rfl ?_ ?_ ?_⟩
        · intro p
          rw [setTaskState_tss]
          exact decreaseWakeup_tss tm pid p
        · intro p
          rw [setTaskState_wakeupCounter]
          exact decreaseWakeup_wakeupCounter tm pid p
        · intro p other
          rw [setTaskState_state, if_neg other]
          exact decreaseWakeup_state tm pid p
      · -- The pid stays, and the index goes on.
        have wake : wakes tm pid = false := by simpa [wakes] using spent
        rw [if_neg (mt UInt32.le_zero_iff.mp spent), incPidQueueIndex_next (by omega)]
        have after : Queued (decreaseWakeup tm pid) ready blocked ((kept ++ [pid]) ++ rest) := by
          simpa using decreaseWakeup_queued queued pid
        obtain ⟨tm', result, woken⟩ := ih after
          (fun p member => apart p (List.mem_cons_of_mem _ member)) (by simpa using nodup) (by omega)
          (show rest.length < fuel by omega)
        rw [List.length_append, List.length_singleton] at result
        exact ⟨tm', result, woken.cons fresh (by simp [wake]) (by simp [wake]) rfl rfl
          (decreaseWakeup_tss tm pid) (decreaseWakeup_wakeupCounter tm pid)
          fun p _ => decreaseWakeup_state tm pid p⟩

theorem checkWakeup_woken {sleeping : List Nat} (queued : Queued tm ready blocked sleeping)
    (apart : ∀ pid ∈ sleeping, pid ∉ ready ∧ pid ∉ blocked) (nodup : sleeping.Nodup)
    (space : ready.length + sleeping.length < maxGdtTerms) :
    ∃ tm', checkWakeup tm = some tm' ∧ Woken tm tm' ready blocked [] sleeping := by
  rw [checkWakeup, queued.sleepingHolds.1]
  exact checkWakeupFrom_woken (show Queued tm ready blocked ([] ++ sleeping) from queued) apart nodup
    space (by omega)

end Wakeup

/-! ## Task states of the processor -/

section Tss

variable {tm tm' : TaskManager}

theorem switchTo_tss {pid : Nat} {reason : SchedulerReason} (result : switchTo tm pid reason = some tm')
    (p : Nat) : (tm'.tasks p).tss = (tm.tasks p).tss := by
  by_cases missing : pid = notFound
  · simp [switchTo, missing] at result
  by_cases stays : tm.pidRunning = pid
  · simp only [switchTo, if_neg missing, if_pos stays, Option.some.injEq] at result
    rw [result]
  · rw [switchTo_eq missing stays] at result
    rw [← Option.some.inj result, setTaskState_tss]
    exact ((putOutgoing_frame tm reason).2 p).1

theorem schedule_tss {reason : SchedulerReason} (result : schedule tm reason = some tm') (p : Nat) :
    (tm'.tasks p).tss = (tm.tasks p).tss := by
  simp only [schedule] at result
  split_ifs at result
  exact switchTo_tss result p

theorem checkWakeupFrom_tss {fuel i : Nat} (result : checkWakeupFrom fuel tm i = some tm') (p : Nat) :
    (tm'.tasks p).tss = (tm.tasks p).tss := by
  induction fuel generalizing tm i with
  | zero => simp [checkWakeupFrom] at result
  | succ fuel ih =>
      simp only [checkWakeupFrom] at result
      split at result
      · rw [← Option.some.inj result]
      split at result
      · split at result
        · simp at result
        · rw [ih result, setTaskState_tss]
          exact decreaseWakeup_tss _ _ _
      · rw [ih result, decreaseWakeup_tss]

theorem checkTaskAffairs_tss (result : checkTaskAffairs tm = some tm') (p : Nat) :
    (tm'.tasks p).tss = (tm.tasks p).tss := by
  obtain ⟨mid, woken, scheduled⟩ := Option.bind_eq_some_iff.mp result
  rw [← checkWakeupFrom_tss woken p]
  simp only [checkSchedule] at scheduled
  split_ifs at scheduled
  · exact schedule_tss scheduled p
  · rw [← Option.some.inj scheduled]

theorem sysSleep_tss {counter : UInt32} (result : sysSleep tm counter = some tm') (p : Nat) :
    (tm'.tasks p).tss = (tm.tasks p).tss := by
  simp only [sysSleep] at result
  split_ifs at result
  rw [schedule_tss result p]
  by_cases same : p = tm.pidRunning
  · simp [same]
  · simp [Function.update_of_ne same]

theorem sysExit_frame {k k' : Kernel} {code : UInt32} (result : sysExit k code = some k') :
    k'.memory = k.memory ∧ ∀ p, (k'.taskManager.tasks p).tss = (k.taskManager.tasks p).tss := by
  simp only [sysExit, Option.bind_eq_bind] at result
  split_ifs at result
  · simp at result
  obtain ⟨tm, scheduled, same⟩ := Option.bind_eq_some_iff.mp result
  obtain rfl := Option.some.inj same
  exact ⟨rfl, schedule_tss scheduled⟩

end Tss

end WegOS
