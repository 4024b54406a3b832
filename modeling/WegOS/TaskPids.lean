import WegOS.SchedInvariant

/-! Pids from the initial GDT on.

A pid is free just when its descriptor is zero, and the descriptor of a task never is. -/

namespace WegOS

open Transition

def initialGdt : Nat → GdtDesc
  | 1 => ⟨0x0000FFFF, 0x00CF9A00⟩
  | 2 => ⟨0x0000FFFF, 0x00CF9200⟩
  | 3 => ⟨0x0000FFFF, 0x00CFFA00⟩
  | 4 => ⟨0x0000FFFF, 0x00CFF200⟩
  | _ => ⟨0, 0⟩

def gdtStart (k : Kernel) : System :=
  ⟨{ k with gdt := initialGdt, taskManager := taskManagerInit k.taskManager }, [], []⟩

/-- The segments are as at the start, and above them a descriptor is used just when its task is live. -/
structure PidsTracked (s : System) : Prop where
  consistent : Consistent s
  segments : ∀ i, i < 5 → s.kernel.gdt i = initialGdt i
  tasks : ∀ i, 5 ≤ i → i < maxGdtTerms → (emptyDesc (s.kernel.gdt i) = false ↔ i ∈ s.live)
  above : ∀ pid ∈ s.live, 5 ≤ pid

/-- What `create_task` returns is the least free pid, and only its descriptor changes. -/
structure FreshPid (s : System) (pid : Nat) (k : Kernel) : Prop where
  low : 5 ≤ pid
  high : pid < maxGdtTerms
  empty : emptyDesc (s.kernel.gdt pid) = true
  least : ∀ i, 5 ≤ i → i < pid → emptyDesc (s.kernel.gdt i) = false
  dead : pid ∉ s.live
  described : emptyDesc (k.gdt pid) = false
  others : ∀ i, i ≠ pid → k.gdt i = s.kernel.gdt i

theorem segment_nonempty {i : Nat} (low : 0 < i) (high : i < 5) : emptyDesc (initialGdt i) = false := by
  interval_cases i <;> decide

theorem getPidEmpty_lt {gdt : Nat → GdtDesc} {i : Nat} (low : 0 < i) (high : i < maxGdtTerms)
    (empty : emptyDesc (gdt i) = true) : getPidEmpty gdt < maxGdtTerms := by
  have member : i ∈ List.range' 1 (maxGdtTerms - 1) := by
    rw [List.mem_range'_1]
    omega
  cases found : (List.range' 1 (maxGdtTerms - 1)).find? fun i => emptyDesc (gdt i) with
  | none => exact absurd empty (List.find?_eq_none.mp found i member)
  | some pid =>
      have inside := List.mem_range'_1.mp (List.mem_of_find?_eq_some found)
      rw [getPidEmpty, found, Option.getD_some]
      omega

section Pids

variable {image : KernelImage} {s t : System}

theorem gdtStart_tracked {k : Kernel}
    (unused : k.taskManager.pidQueueSleeping.head = 0 ∧ k.taskManager.pidQueueSleeping.tail = 0) :
    PidsTracked (gdtStart k) where
  consistent := taskManagerInit_consistent (k := { k with gdt := initialGdt }) unused k.memory
  segments _ _ := rfl
  tasks i low _ := by
    have zero : initialGdt i = ⟨0, 0⟩ := by
      rw [initialGdt] <;> omega
    refine iff_of_false ?_ List.not_mem_nil
    change ¬emptyDesc (initialGdt i) = false
    rw [zero]
    decide
  above _ none := absurd none List.not_mem_nil

theorem PidsTracked.create (tracked : PidsTracked s) {flag eip esp ddl : UInt32} {pid : Nat} {k : Kernel}
    (result : createTask image s.kernel flag eip esp ddl = some (pid, k)) : FreshPid s pid k := by
  obtain ⟨⟨low, high, empty, before⟩, -, gdt, -⟩ := createTask_eq result
  have above : 5 ≤ pid := by
    by_contra small
    have used := segment_nonempty low (Nat.not_le.mp small)
    rw [← tracked.segments pid (Nat.not_le.mp small), empty] at used
    cases used
  exact
    { low := above
      high := high
      empty := empty
      least := fun i _ smaller => before i (by omega) smaller
      dead := fun live => by
        rw [(tracked.tasks pid above high).mpr live] at empty
        cases empty
      described := by
        rw [gdt, Function.update_self]
        exact makeGdtDescForTss_nonempty _ _
      others := fun i other => by rw [gdt, Function.update_of_ne other] }

theorem PidsTracked.after_create (tracked : PidsTracked s) {flag eip esp ddl : UInt32} {pid : Nat} {k : Kernel}
    (result : createTask image s.kernel flag eip esp ddl = some (pid, k)) :
    PidsTracked ⟨k, pid :: s.live, s.exited.filter (· ≠ pid)⟩ := by
  have fresh := tracked.create result
  refine ⟨tracked.consistent.create result, fun i small => ?_, fun i low high => ?_, fun p member => ?_⟩
  · have other : i ≠ pid := Nat.ne_of_lt (Nat.lt_of_lt_of_le small fresh.low)
    exact (fresh.others i other).trans (tracked.segments i small)
  · by_cases new : i = pid
    · rw [new]
      exact iff_of_true fresh.described List.mem_cons_self
    · rw [fresh.others i new, tracked.tasks i low high, List.mem_cons, or_iff_right new]
  · rcases List.mem_cons.mp member with rfl | old
    · exact fresh.low
    · exact tracked.above p old

theorem PidsTracked.after_exit (tracked : PidsTracked s) {code : UInt32} {k : Kernel}
    (result : sysExit s.kernel code = some k) :
    PidsTracked ⟨k, s.live.filter (· ∉ onCpu s.kernel.taskManager), onCpu s.kernel.taskManager ++ s.exited⟩ := by
  have consistent := (tracked.consistent.exit result).1
  simp only [sysExit, Option.bind_eq_bind] at result
  split_ifs at result with outside
  · cases result
  obtain ⟨tm, -, same⟩ := Option.bind_eq_some_iff.mp result
  obtain rfl := Option.some.inj same
  have busy : s.kernel.taskManager.pidRunning ≠ notFound := by
    simp only [maxGdtTerms, notFound] at outside ⊢
    omega
  have cpu : onCpu s.kernel.taskManager = [s.kernel.taskManager.pidRunning] := by rw [onCpu, if_neg busy]
  rw [cpu] at consistent ⊢
  have live : s.kernel.taskManager.pidRunning ∈ s.live :=
    tracked.consistent.placed.mem_live.mpr (Or.inl (mem_onCpu.mpr ⟨busy, rfl⟩))
  have above := tracked.above _ live
  refine ⟨consistent, fun i small => ?_, fun i low high => ?_, fun p member => ?_⟩
  · have other : i ≠ s.kernel.taskManager.pidRunning := by omega
    exact (Function.update_of_ne other _ _).trans (tracked.segments i small)
  · by_cases running : i = s.kernel.taskManager.pidRunning
    · rw [running]
      refine iff_of_false ?_ (by simp)
      change ¬emptyDesc (Function.update s.kernel.gdt _ _ _) = false
      rw [Function.update_self]
      decide
    · rw [List.mem_filter, ← tracked.tasks i low high]
      change emptyDesc (Function.update s.kernel.gdt _ _ i) = false ↔ _
      rw [Function.update_of_ne running]
      simp [running]
  · exact tracked.above p (List.mem_of_mem_filter member)

theorem PidsTracked.step {event : Event} (tracked : PidsTracked s) (step : Step image s event t) : PidsTracked t := by
  cases event with
  | create flag eip esp ddl =>
      obtain ⟨⟨pid, k⟩, result, same⟩ := Option.bind_eq_some_iff.mp step
      obtain rfl := Option.some.inj same
      exact tracked.after_create result
  | tick =>
      have consistent := (tracked.consistent.step step).1
      obtain ⟨tm, -, same⟩ := Option.bind_eq_some_iff.mp step
      obtain rfl := Option.some.inj same
      exact ⟨consistent, tracked.segments, tracked.tasks, tracked.above⟩
  | sleep counter =>
      have consistent := (tracked.consistent.step step).1
      obtain ⟨tm, -, same⟩ := Option.bind_eq_some_iff.mp step
      obtain rfl := Option.some.inj same
      exact ⟨consistent, tracked.segments, tracked.tasks, tracked.above⟩
  | exit code =>
      obtain ⟨k, result, same⟩ := Option.bind_eq_some_iff.mp step
      obtain rfl := Option.some.inj same
      exact tracked.after_exit result

/-- In every run from the initial GDT the pids of live tasks are distinct and above the segments, and as long as a
descriptor is empty `create_task` returns the least free one, which it fills and no other. -/
theorem create_task_pids {k : Kernel} {events : List Event}
    (unused : k.taskManager.pidQueueSleeping.head = 0 ∧ k.taskManager.pidQueueSleeping.tail = 0)
    (run : Run (Step image) (gdtStart k) events s) :
    s.live.Nodup ∧
      (∀ pid ∈ s.live, 5 ≤ pid ∧ pid < maxGdtTerms ∧ emptyDesc (s.kernel.gdt pid) = false) ∧
      ((∃ i, 0 < i ∧ i < maxGdtTerms ∧ emptyDesc (s.kernel.gdt i) = true) → ∀ flag eip esp ddl, ∃ pid k',
        createTask image s.kernel flag eip esp ddl = some (pid, k') ∧ FreshPid s pid k') := by
  have tracked : PidsTracked s := run.invariant (gdtStart_tracked unused) fun _ _ _ holds step => holds.step step
  refine ⟨tracked.consistent.placed.nodup, fun pid live => ?_, fun free flag eip esp ddl => ?_⟩
  · exact ⟨tracked.above pid live, (tracked.consistent.placed.bounds pid live).2, tracked.consistent.described pid live⟩
  · obtain ⟨i, low, high, empty⟩ := free
    obtain ⟨k', created⟩ := createTask_some image flag eip esp ddl (getPidEmpty_lt low high empty)
    exact ⟨_, k', created, tracked.create created⟩

end Pids

/-- Three tasks, the first of which runs and exits. -/
def sampleReuse : List Event :=
  List.replicate 3 (.create 1 0x400000 0x500000 9) ++ List.replicate 100 .tick ++ [.exit 0]

theorem create_task_pids_reuse : ∃ s k', Run (Step sampleImage) (gdtStart sampleKernel) sampleReuse s ∧
    s.live = [7, 6] ∧ createTask sampleImage s.kernel 1 0x400000 0x500000 9 = some (5, k') ∧ FreshPid s 5 k' := by
  have succeeds : (sampleReuse.foldlM (step sampleImage) (gdtStart sampleKernel)).map
      (fun s => (s.live, getPidEmpty s.kernel.gdt)) = some ([7, 6], 5) := by decide +kernel
  obtain ⟨s, result, same⟩ := Option.map_eq_some_iff.mp succeeds
  obtain ⟨live, first⟩ := Prod.mk.inj same
  have run := Run.of_foldlM result
  have free := @getPidEmpty_first s.kernel.gdt (by rw [first]; decide)
  rw [first] at free
  obtain ⟨-, -, creates⟩ := create_task_pids ⟨rfl, rfl⟩ run
  obtain ⟨pid, k', created, fresh⟩ := creates ⟨5, by decide, by decide, free.2.2.1⟩ 1 0x400000 0x500000 9
  obtain rfl : pid = 5 := (createTask_eq created).2.1.trans first
  exact ⟨s, k', run, live, created, fresh⟩

end WegOS
