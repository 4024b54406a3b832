import WegOS.SchedInvariant

/-! The tasks blocked in the system are the tasks that wait for some semaphore.

`pid_queue_find` returns the pid it looks for instead of its index, and `signal`
hands this to `pid_queue_delete`. The two queues therefore stay together only in
the runs in which every `signal` happens to clear the right cell. -/

namespace WegOS

open Transition

/-! ## One set stored twice -/

section Matched

variable {ι : Type} {blocked rest : List Nat} {waiters : ι → List Nat} {i : ι} {pid : Nat}

/-- `blocked` lists the elements of the disjoint duplicate-free lists `waiters`. -/
structure Matched (blocked : List Nat) (waiters : ι → List Nat) : Prop where
  member : ∀ pid, pid ∈ blocked ↔ ∃ i, pid ∈ waiters i
  once : ∀ i, (waiters i).Nodup
  apart : ∀ i j pid, pid ∈ waiters i → pid ∈ waiters j → i = j

theorem Matched.unique (matched : Matched blocked waiters) (pid : Nat) :
    pid ∈ blocked ↔ ∃! i, pid ∈ waiters i := by
  rw [matched.member]
  constructor
  · rintro ⟨i, here⟩
    exact ⟨i, here, fun j there => matched.apart j i pid there here⟩
  · rintro ⟨i, here, _⟩
    exact ⟨i, here⟩

variable [DecidableEq ι]

theorem Matched.add (matched : Matched blocked waiters) (fresh : pid ∉ blocked) (i : ι) :
    Matched (blocked ++ [pid]) (Function.update waiters i (waiters i ++ [pid])) := by
  have nowhere : ∀ j, pid ∉ waiters j := fun j here => fresh ((matched.member pid).mpr ⟨j, here⟩)
  have inside : ∀ j p, p ∈ Function.update waiters i (waiters i ++ [pid]) j ↔
      p ∈ waiters j ∨ j = i ∧ p = pid := by
    intro j p
    by_cases same : j = i
    · subst same
      simp
    · simp [same]
  refine ⟨fun p => ?_, fun j => ?_, fun j l p => ?_⟩
  · simp only [List.mem_append, List.mem_singleton, matched.member p, inside]
    constructor
    · rintro (⟨j, here⟩ | same)
      · exact ⟨j, Or.inl here⟩
      · exact ⟨i, Or.inr ⟨rfl, same⟩⟩
    · rintro ⟨j, here | ⟨_, same⟩⟩
      · exact Or.inl ⟨j, here⟩
      · exact Or.inr same
  · by_cases same : j = i
    · subst same
      rw [Function.update_self, List.nodup_append]
      refine ⟨matched.once j, List.nodup_singleton _, ?_⟩
      intro p member q last equal
      rw [List.mem_singleton] at last
      exact nowhere j (last ▸ equal ▸ member)
    · rw [Function.update_of_ne same]
      exact matched.once j
  · simp only [inside]
    rintro (here | ⟨rfl, rfl⟩) (there | ⟨rfl, equal⟩)
    · exact matched.apart j l p here there
    · exact absurd (equal ▸ here) (nowhere j)
    · exact absurd there (nowhere l)
    · rfl

theorem Matched.remove (matched : Matched blocked waiters) (nodup : blocked.Nodup)
    (front : waiters i = pid :: rest) :
    Matched (blocked.erase pid) (Function.update waiters i rest) := by
  have split := matched.once i
  rw [front, List.nodup_cons] at split
  have here : pid ∈ waiters i := front ▸ List.mem_cons_self
  have inside : ∀ j p, p ∈ Function.update waiters i rest j ↔ p ∈ waiters j ∧ p ≠ pid := by
    intro j p
    by_cases same : j = i
    · subst same
      rw [Function.update_self, front, List.mem_cons]
      constructor
      · intro member
        exact ⟨Or.inr member, fun equal => split.1 (equal ▸ member)⟩
      · rintro ⟨equal | member, other⟩
        · exact absurd equal other
        · exact member
    · rw [Function.update_of_ne same]
      constructor
      · intro member
        exact ⟨member, fun equal => same (matched.apart j i pid (equal ▸ member) here)⟩
      · exact fun both => both.1
  refine ⟨fun p => ?_, fun j => ?_, fun j l p => ?_⟩
  · rw [nodup.mem_erase_iff, matched.member p]
    simp only [inside]
    tauto
  · by_cases same : j = i
    · subst same
      rw [Function.update_self]
      exact split.2
    · rw [Function.update_of_ne same]
      exact matched.once j
  · simp only [inside]
    exact fun one two => matched.apart j l p one.1 two.1

end Matched

/-! ## What the two calls do -/

theorem wait_cases {tm tm' : TaskManager} {s s' : Semaphore} (result : wait tm s = some (tm', s')) :
    (s'.blockedPids = s.blockedPids ∧ tm' = tm) ∨
      (s'.blockedPids = pidEnqueue s.blockedPids tm.pidRunning ∧
        schedule tm .taskBlocked = some tm') := by
  simp only [wait, Option.bind_eq_bind] at result
  split_ifs at result
  · obtain ⟨mid, scheduled, same⟩ := Option.bind_eq_some_iff.mp result
    obtain ⟨rfl, rfl⟩ := Prod.mk.inj (Option.some.inj same)
    exact Or.inr ⟨rfl, scheduled⟩
  · obtain ⟨rfl, rfl⟩ := Prod.mk.inj (Option.some.inj result)
    exact Or.inl ⟨rfl, rfl⟩

theorem signal_nobody {tm tm' : TaskManager} {s s' : Semaphore} (nobody : s.blockedPids.Holds [])
    (result : signal tm s = some (tm', s')) : s'.blockedPids = s.blockedPids ∧ tm' = tm := by
  simp only [signal, pidDequeue_empty nobody, if_true] at result
  obtain ⟨rfl, rfl⟩ := Prod.mk.inj (Option.some.inj result)
  exact ⟨rfl, rfl⟩

/-- `signal` takes the first waiter from its semaphore's queue and makes it ready, but
the cell it clears in the system's queue is the one that the pid gives as an index. -/
theorem signal_wakes {tm tm' : TaskManager} {s s' : Semaphore} {pid : Nat} {rest blocked : List Nat}
    (waiting : s.blockedPids.Holds (pid :: rest)) (holds : tm.pidQueueBlocked.HoldsFlat blocked)
    (member : pid ∈ blocked) (bound : pid < maxGdtTerms)
    (result : signal tm s = some (tm', s')) :
    s'.blockedPids.Holds rest ∧ ∃ q,
      q.HoldsFlat (blocked.eraseIdx (deletedIndex blocked.length pid)) ∧
        tm' = setTaskState { tm with pidQueueBlocked := q } pid .ready := by
  obtain ⟨q, dequeued, restHolds⟩ := pidDequeue_cons waiting
  obtain ⟨q', deleted, erased⟩ := pidQueueDelete_anywhere holds (List.ne_nil_of_mem member) bound
  have real : pid ≠ notFound := by
    simp only [maxGdtTerms, notFound] at bound ⊢
    omega
  simp only [signal, dequeued, if_neg real, pidQueueFind_mem holds.2 member, deleted,
    Option.bind_eq_bind, Option.bind_some, Option.pure_def] at result
  obtain ⟨rfl, rfl⟩ := Prod.mk.inj (Option.some.inj result)
  exact ⟨restHolds, q', erased, rfl⟩

/-! ## The system with its semaphores -/

inductive SyncEvent (ι : Type)
  | task (event : Event)
  | wait (i : ι)
  | signal (i : ι)

structure SyncSystem (ι : Type) where
  system : System
  semaphores : ι → Semaphore

section Runs

variable {ι : Type} {image : KernelImage}

def SyncSystem.blocked (s : SyncSystem ι) : List Nat :=
  s.system.kernel.taskManager.pidQueueBlocked.elems

def SyncSystem.waiters (s : SyncSystem ι) (i : ι) : List Nat := (s.semaphores i).blockedPids.elems

variable [DecidableEq ι]

/-- Both calls are atomic; it is the running task that calls `wait`. -/
def syncStep (image : KernelImage) (s : SyncSystem ι) : SyncEvent ι → Option (SyncSystem ι)
  | .task event => do
      let system ← step image s.system event
      pure { s with system := system }
  | .wait i => do
      if s.system.kernel.taskManager.pidRunning = notFound then none
      let (tm, semaphore) ← wait s.system.kernel.taskManager (s.semaphores i)
      let kernel := { s.system.kernel with taskManager := tm }
      pure ⟨{ s.system with kernel := kernel }, Function.update s.semaphores i semaphore⟩
  | .signal i => do
      let (tm, semaphore) ← signal s.system.kernel.taskManager (s.semaphores i)
      let kernel := { s.system.kernel with taskManager := tm }
      pure ⟨{ s.system with kernel := kernel }, Function.update s.semaphores i semaphore⟩

def SyncStep (image : KernelImage) (s : SyncSystem ι) (event : SyncEvent ι) (t : SyncSystem ι) : Prop :=
  syncStep image s event = some t

/-- If `signal` wakes a task, the cell it clears in the system's queue holds that task. -/
def ClearsWaiter (s : SyncSystem ι) : SyncEvent ι → Prop
  | .signal i => ∀ pid ∈ (s.waiters i).head?,
      s.blocked[deletedIndex s.blocked.length pid]? = some pid
  | .task _ => True
  | .wait _ => True

omit [DecidableEq ι] in
instance (s : SyncSystem ι) (event : SyncEvent ι) : Decidable (ClearsWaiter s event) :=
  match event with
  | .signal i => inferInstanceAs (Decidable (∀ pid ∈ (s.waiters i).head?,
      s.blocked[deletedIndex s.blocked.length pid]? = some pid))
  | .task _ => isTrue trivial
  | .wait _ => isTrue trivial

structure Waiting (s : SyncSystem ι) : Prop where
  consistent : Consistent s.system
  queue : ∀ i, (s.semaphores i).blockedPids.Holds (s.waiters i)
  matched : Matched s.blocked s.waiters

variable {s t : SyncSystem ι} {i : ι}

theorem waiters_update {semaphore : Semaphore} {items : List Nat}
    (holds : semaphore.blockedPids.Holds items) (j : ι) :
    (Function.update s.semaphores i semaphore j).blockedPids.elems =
      Function.update s.waiters i items j := by
  by_cases same : j = i
  · subst same
    rw [Function.update_self, Function.update_self, holds.elems_eq]
  · rw [Function.update_of_ne same, Function.update_of_ne same]
    rfl

theorem Waiting.update {semaphore : Semaphore} {system : System} (ok : Waiting s)
    (items : List Nat) (consistent : Consistent system) (holds : semaphore.blockedPids.Holds items)
    (matched : Matched system.kernel.taskManager.pidQueueBlocked.elems
      (Function.update s.waiters i items)) :
    Waiting ⟨system, Function.update s.semaphores i semaphore⟩ := by
  have waiters : SyncSystem.waiters ⟨system, Function.update s.semaphores i semaphore⟩ =
      Function.update s.waiters i items := funext (waiters_update holds)
  refine ⟨consistent, fun j => ?_, by rw [waiters]; exact matched⟩
  rw [waiters]
  by_cases same : j = i
  · subst same
    simpa using holds
  · simpa [Function.update_of_ne same] using ok.queue j

omit [DecidableEq ι] in
theorem Waiting.waiters_space (ok : Waiting s) (busy : s.system.kernel.taskManager.pidRunning ≠ notFound)
    (i : ι) : (s.waiters i).length + 1 < maxGdtTerms := by
  have placed := ok.consistent.placed
  have running := mem_onCpu.mpr ⟨busy, rfl⟩
  have fresh : s.system.kernel.taskManager.pidRunning ∉ s.waiters i :=
    fun here => (placed.apart.1 running).2.1 ((ok.matched.member _).mpr ⟨i, here⟩)
  have length := live_length (List.nodup_cons.mpr ⟨fresh, ok.matched.once i⟩) (by
    intro p member
    rcases List.mem_cons.mp member with rfl | there
    · exact placed.bounds _ (placed.mem_live.mpr (Or.inl running))
    · exact placed.bounds p (placed.mem_live.mpr
        (Or.inr (Or.inr (Or.inl ((ok.matched.member p).mpr ⟨i, there⟩))))))
  simpa using length

theorem Waiting.wait (ok : Waiting s) (result : SyncStep image s (.wait i) t) : Waiting t := by
  simp only [SyncStep, syncStep, Option.bind_eq_bind] at result
  split_ifs at result with idle
  · simp at result
  obtain ⟨⟨tm, semaphore⟩, waited, same⟩ := Option.bind_eq_some_iff.mp result
  obtain rfl := Option.some.inj same
  rcases wait_cases waited with ⟨queue, rfl⟩ | ⟨queue, scheduled⟩
  · apply ok.update (s.waiters i) ok.consistent
    · rw [queue]
      exact ok.queue i
    · rw [Function.update_eq_self]
      exact ok.matched
  · have placed := ok.consistent.placed
    have running := mem_onCpu.mpr ⟨idle, rfl⟩
    have outside := placed.apart.1 running
    obtain ⟨best, rest, shape⟩ := placed.schedule_ready scheduled
    rw [shape] at placed
    have after := (placed.after_schedule scheduled).2.2
    simp only [reduceCtorEq, or_self, if_false, outgoing, if_true, List.append_nil, onCpu,
      if_neg idle] at after
    have enqueued : semaphore.blockedPids.Holds
        (s.waiters i ++ [s.system.kernel.taskManager.pidRunning]) := by
      rw [queue]
      exact pidEnqueue_holds (ok.queue i) _ (ok.waiters_space idle i)
    have consistent : Consistent
        { s.system with kernel := { s.system.kernel with taskManager := tm } } :=
      ⟨after.elems, ok.consistent.described, ok.consistent.gone⟩
    apply ok.update _ consistent enqueued
    rw [after.elems_eq.2.1]
    exact ok.matched.add outside.2.1 i

theorem Waiting.signal_blocked (ok : Waiting s) (result : SyncStep image s (.signal i) t) :
    t.blocked = match s.waiters i with
      | [] => s.blocked
      | pid :: _ => s.blocked.eraseIdx (deletedIndex s.blocked.length pid) := by
  obtain ⟨⟨tm, semaphore⟩, signalled, same⟩ := Option.bind_eq_some_iff.mp result
  obtain rfl := Option.some.inj same
  have holds := ok.queue i
  have placed := ok.consistent.placed
  cases front : s.waiters i with
  | nil =>
      rw [front] at holds
      obtain ⟨_, rfl⟩ := signal_nobody holds signalled
      rfl
  | cons pid rest =>
      rw [front] at holds
      have member : pid ∈ s.blocked := (ok.matched.member pid).mpr ⟨i, front ▸ List.mem_cons_self⟩
      have live := placed.mem_live.mpr (Or.inr (Or.inr (Or.inl member)))
      obtain ⟨_, q, flat, rfl⟩ := signal_wakes holds placed.queued.blockedHolds member
        (placed.bounds pid live).2 signalled
      exact flat.2.elems_eq

/-- The first of the tasks that wait for a semaphore is woken. -/
theorem Waiting.woken {semaphore : Semaphore} {pid : Nat} {rest : List Nat} {q : PidQueue} {tm : TaskManager}
    (ok : Waiting s) (front : s.waiters i = pid :: rest) (restHolds : semaphore.blockedPids.Holds rest)
    (flat : q.HoldsFlat (s.blocked.erase pid))
    (wakes : tm = setTaskState { s.system.kernel.taskManager with pidQueueBlocked := q } pid .ready) :
    Waiting ⟨{ s.system with kernel := { s.system.kernel with taskManager := tm } },
      Function.update s.semaphores i semaphore⟩ := by
  have placed := ok.consistent.placed
  have member : pid ∈ s.blocked := (ok.matched.member pid).mpr ⟨i, front ▸ List.mem_cons_self⟩
  have nodup : s.blocked.Nodup := placed.nodup_lists.2.1
  have woken := placed.after_wake member flat
  rw [← wakes] at woken
  have consistent : Consistent { s.system with kernel := { s.system.kernel with taskManager := tm } } :=
    ⟨woken.elems, ok.consistent.described, ok.consistent.gone⟩
  apply ok.update rest consistent restHolds
  rw [woken.elems_eq.2.1]
  exact ok.matched.remove nodup front

theorem Waiting.signal (ok : Waiting s) (clears : ClearsWaiter s (.signal i))
    (result : SyncStep image s (.signal i) t) : Waiting t := by
  obtain ⟨⟨tm, semaphore⟩, signalled, same⟩ := Option.bind_eq_some_iff.mp result
  obtain rfl := Option.some.inj same
  have holds := ok.queue i
  have placed := ok.consistent.placed
  cases front : s.waiters i with
  | nil =>
      rw [front] at holds
      obtain ⟨queue, rfl⟩ := signal_nobody holds signalled
      apply ok.update (s.waiters i) ok.consistent
      · rw [queue]
        exact ok.queue i
      · rw [Function.update_eq_self]
        exact ok.matched
  | cons pid rest =>
      rw [front] at holds
      have member : pid ∈ s.blocked := (ok.matched.member pid).mpr ⟨i, front ▸ List.mem_cons_self⟩
      have live := placed.mem_live.mpr (Or.inr (Or.inr (Or.inl member)))
      have nodup : s.blocked.Nodup := placed.nodup_lists.2.1
      obtain ⟨restHolds, q, flat, wakes⟩ := signal_wakes holds placed.queued.blockedHolds member
        (placed.bounds pid live).2 signalled
      have here := clears pid (by rw [front]; rfl)
      rw [show s.system.kernel.taskManager.pidQueueBlocked.elems = s.blocked from rfl,
        (eraseIdx_eq_erase_iff nodup member).mpr here] at flat
      exact ok.woken front restHolds flat wakes

theorem Waiting.step {event : SyncEvent ι} (ok : Waiting s)
    (step : Guarded (SyncStep image) ClearsWaiter s event t) : Waiting t := by
  obtain ⟨clears, result⟩ := step
  cases event with
  | task event =>
      obtain ⟨system, stepped, same⟩ := Option.bind_eq_some_iff.mp result
      obtain rfl := Option.some.inj same
      obtain ⟨consistent, blocked⟩ := ok.consistent.step stepped
      exact ⟨consistent, ok.queue, by rw [SyncSystem.blocked, blocked]; exact ok.matched⟩
  | wait i => exact ok.wait result
  | signal i => exact ok.signal clears result

/-- A task is blocked in the system exactly if it waits for exactly one semaphore;
it is then blocked once, and its state says so. -/
structure BlockedIffWaiting (s : SyncSystem ι) : Prop where
  iff : ∀ pid, pid ∈ s.blocked ↔ ∃! i, pid ∈ s.waiters i
  once : ∀ pid ∈ s.blocked, s.blocked.count pid = 1
  state : ∀ pid ∈ s.blocked, (s.system.kernel.taskManager.tasks pid).state = .blocked
  waiterOnce : ∀ i, ∀ pid ∈ s.waiters i, (s.waiters i).count pid = 1
  waiterBlocked : ∀ i, ∀ pid ∈ s.waiters i, pid ∈ s.blocked

omit [DecidableEq ι] in
theorem Waiting.blockedIffWaiting (ok : Waiting s) : BlockedIffWaiting s where
  iff := ok.matched.unique
  once _ member := List.count_eq_one_of_mem ok.consistent.placed.nodup_lists.2.1 member
  state pid member := ok.consistent.placed.queued.blockedState pid member
  waiterOnce i _ member := List.count_eq_one_of_mem (ok.matched.once i) member
  waiterBlocked i pid member := (ok.matched.member pid).mpr ⟨i, member⟩

def syncStart (image : KernelImage) (k k' : Kernel) (counts : ι → Int16) : SyncSystem ι :=
  ⟨⟨k', idlePids image k.gdt, []⟩, fun i => semaphoreInit (counts i)⟩

omit [DecidableEq ι] in
theorem syncStart_waiting {idle : IdleImage} {k k' : Kernel} (counts : ι → Int16)
    (unused : k.taskManager.pidQueueSleeping.head = 0 ∧ k.taskManager.pidQueueSleeping.tail = 0)
    (started : schedInit image idle k = some k') : Waiting (syncStart image k k' counts) := by
  have nobody : ∀ i, (syncStart image k k' counts).waiters i = [] :=
    fun i => pidQueueInit_holds.elems_eq
  obtain ⟨consistent, blocked⟩ := schedInit_consistent unused started
  refine ⟨consistent, fun i => ?_, ?_⟩
  · rw [nobody]
    exact pidQueueInit_holds
  · have empty : (syncStart image k k' counts).blocked = [] := blocked
    refine ⟨fun pid => ?_, fun i => ?_, fun i j pid => ?_⟩
    · simp [empty, nobody]
    · simp [nobody]
    · simp [nobody]

/-- In every run in which each `signal` clears the cell of the task it wakes, the
blocked tasks are the waiting ones. A further `signal` removes just the task it
wakes from the system's queue exactly if it clears that task's cell too. -/
theorem blocked_iff_waiting {idle : IdleImage} {k k' : Kernel} {counts : ι → Int16}
    {events : List (SyncEvent ι)}
    (unused : k.taskManager.pidQueueSleeping.head = 0 ∧ k.taskManager.pidQueueSleeping.tail = 0)
    (started : schedInit image idle k = some k')
    (run : Run (Guarded (SyncStep image) ClearsWaiter) (syncStart image k k' counts) events t) :
    BlockedIffWaiting t ∧
      ∀ i pid rest u, t.waiters i = pid :: rest → SyncStep image t (.signal i) u →
        (u.blocked = t.blocked.erase pid ↔ ClearsWaiter t (.signal i)) := by
  have ok : Waiting t :=
    run.invariant (syncStart_waiting counts unused started) fun _ _ _ holds step => holds.step step
  refine ⟨ok.blockedIffWaiting, ?_⟩
  intro i pid rest u front signalled
  have member : pid ∈ t.blocked := (ok.matched.member pid).mpr ⟨i, front ▸ List.mem_cons_self⟩
  rw [ok.signal_blocked signalled]
  simp only [front, ClearsWaiter, List.head?_cons, Option.mem_def, Option.some.injEq, forall_eq']
  exact eraseIdx_eq_erase_iff ok.consistent.placed.nodup_lists.2.1 member

end Runs

def sampleWaits : List (SyncEvent Bool) :=
  .task (.create 1 0x400000 0x500000 9) ::
    (List.replicate 100 (.task .tick) ++ [.wait false, .wait true])

def sampleSyncEvents : List (SyncEvent Bool) := sampleWaits ++ [.signal true]

def sampleOrderedEvents : List (SyncEvent Bool) := sampleWaits ++ [.signal false, .signal true]

def sampleSyncStart : SyncSystem Bool :=
  syncStart sampleImage sampleKernel sampleStart.kernel fun _ => 0

/-- Task 7 signals the second semaphore. The task woken, 6, is still blocked in the
system; task 5, which waits for the first semaphore, is not. -/
theorem signal_clears_other_waiter :
    ¬∀ t, Run (SyncStep sampleImage) sampleSyncStart sampleSyncEvents t → BlockedIffWaiting t := by
  intro holds
  have ends : (sampleSyncEvents.foldlM (syncStep sampleImage) sampleSyncStart).map
      (fun t => (t.blocked, t.waiters false, t.waiters true)) = some ([6], [5], []) := by
    decide +kernel
  obtain ⟨t, result, lists⟩ := Option.map_eq_some_iff.mp ends
  obtain ⟨blocked, first, -⟩ := by simpa only [Prod.mk.injEq] using lists
  have waiting := (holds t (Run.of_foldlM result)).waiterBlocked false 5 (by rw [first]; decide)
  rw [blocked] at waiting
  exact absurd waiting (by decide)

/-- Signalled in the order of their waits, the semaphores lose the right tasks. -/
theorem blocked_iff_waiting_in_order :
    ∃ t, Run (Guarded (SyncStep sampleImage) ClearsWaiter) sampleSyncStart sampleOrderedEvents t ∧
      BlockedIffWaiting t := by
  have ends : (sampleOrderedEvents.foldlM (fun s event =>
      if ClearsWaiter s event then syncStep sampleImage s event else none) sampleSyncStart).isSome =
        true := by decide +kernel
  obtain ⟨t, result⟩ := Option.isSome_iff_exists.mp ends
  have run := Run.guarded_of_foldlM result
  exact ⟨t, run, (blocked_iff_waiting ⟨rfl, rfl⟩ sampleStart_started run).1⟩

end WegOS
