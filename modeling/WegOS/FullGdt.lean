import WegOS.Execve

/-! The creation of a task when the GDT has no empty descriptor left.

`create_task` hands what the search returns to `task_init`, which takes it for an index. -/

namespace WegOS

/-- `task_init` without a look at the bounds of `gdt` and `tasks`. -/
def taskInitAt (image : KernelImage) (k : Kernel) (pid : Nat) (flag eip esp ddl : UInt32) : Kernel :=
  let desc := makeGdtDescForTss (image.tssAddress pid) dplKernel
  let old := k.taskManager.tasks pid
  let kernelTask := flag == taskFlagKernel
  let dataSeg := if kernelTask then gdtKernelDataSeg else gdtUserDataSeg
  let (cr3, memory) := pMalloc k.memory
  let task := { old with
    tss := { cr3 := cr3, eip := eip, eflags := initEflags, esp := esp,
             cs := if kernelTask then gdtKernelCodeSeg else gdtUserCodeSeg,
             ss := dataSeg, ds := dataSeg }
    ddl := ddl }
  let tm := { k.taskManager with tasks := Function.update k.taskManager.tasks pid task }
  { gdt := Function.update k.gdt pid desc
    taskManager := setTaskState tm pid .ready
    memory := copyPts memory image.kernelPd cr3 }

theorem taskInit_eq (image : KernelImage) (k : Kernel) (pid : Nat) (flag eip esp ddl : UInt32) :
    taskInit image k pid flag eip esp ddl =
      if maxGdtTerms ≤ pid then none else some (taskInitAt image k pid flag eip esp ddl) := rfl

def createTaskAt (image : KernelImage) (k : Kernel) (flag eip esp ddl : UInt32) : Nat × Kernel :=
  let pid := getPidEmpty k.gdt
  (pid, taskInitAt image k pid flag eip esp ddl)

/-- The indexes into `gdt` and `tasks`: those that the search passes over, and the one for the new task. -/
def createTaskIndexes (gdt : Nat → GdtDesc) : List Nat :=
  ((List.range' 1 (maxGdtTerms - 1)).takeWhile fun i => !emptyDesc (gdt i)) ++ [getPidEmpty gdt]

/-- `sys_execve`, with its indexes into `gdt` and `tasks`; the last one is for the `cr3` of the new task. -/
def sysExecveAt (image : KernelImage) (machine : Machine) (locals : Locals) (codeBuf : Nat → UInt8)
    (fileCached : FileCached) (path : List UInt8) : Option (Machine × List Nat) := do
  let (result, fileCached) ← loadFileCached machine.disk locals path fileCached
  if result = .success then
    if tempCodeSizeMax < readExtent 0 fileCached.file.fileSize.toNatClampNeg then none
    let codeBuf ← readAll machine.disk fileCached.file codeBuf
    let (codeSwapSector, swapNext) := swapAlloc machine.swapNext
    let disk := writeDiskSectors machine.disk 8 codeSwapSector codeBuf
    let (pid, kernel) := createTaskAt image machine.kernel taskFlagKernel tempCodeStart initEspVma 0xFF
    let cr3 := (kernel.taskManager.tasks pid).tss.cr3
    let memory := (setMmap kernel.memory cr3 tempCodeStart 0 pageTableFlagKernelReadWrite).2
    let memory := swapSectorSet memory cr3 tempCodeStart codeSwapSector
    let memory := (loadMemory memory cr3 initEspVma pageTableFlagKernelReadWrite).2
    some ({ kernel := { kernel with memory := memory }, disk := disk, swapNext := swapNext },
      createTaskIndexes machine.kernel.gdt ++ [pid])
  else some (machine, [])

/-! ## The bounds -/

def InGdt (indexes : List Nat) : Prop := ∀ i ∈ indexes, i < maxGdtTerms

instance (indexes : List Nat) : Decidable (InGdt indexes) := inferInstanceAs (Decidable (∀ i ∈ indexes, i < maxGdtTerms))

theorem createTaskIndexes_inGdt (gdt : Nat → GdtDesc) :
    InGdt (createTaskIndexes gdt) ↔ getPidEmpty gdt < maxGdtTerms := by
  constructor
  · intro inside
    exact inside _ (List.mem_append_right _ List.mem_cons_self)
  · intro bound i member
    rcases List.mem_append.mp member with searched | last
    · have range := List.mem_range'_1.mp ((List.takeWhile_sublist _).mem searched)
      simp only [maxGdtTerms] at range ⊢
      omega
    · rw [List.mem_singleton.mp last]
      exact bound

/-- The calls are defined just when all their indexes are inside. -/
theorem createTask_eq_at (image : KernelImage) (k : Kernel) (flag eip esp ddl : UInt32) :
    createTask image k flag eip esp ddl =
      if InGdt (createTaskIndexes k.gdt) then some (createTaskAt image k flag eip esp ddl) else none := by
  rw [createTask, taskInit_eq]
  by_cases bound : getPidEmpty k.gdt < maxGdtTerms
  · rw [if_pos ((createTaskIndexes_inGdt k.gdt).mpr bound), if_neg (Nat.not_le.mpr bound)]
    rfl
  · rw [if_neg ((createTaskIndexes_inGdt k.gdt).not.mpr bound), if_pos (Nat.not_lt.mp bound)]
    rfl

theorem sysExecve_eq_at (image : KernelImage) (machine : Machine) (locals : Locals) (codeBuf : Nat → UInt8)
    (fileCached : FileCached) (path : List UInt8) :
    sysExecve image machine locals codeBuf fileCached path =
      (sysExecveAt image machine locals codeBuf fileCached path).bind fun result =>
        if InGdt result.2 then some result.1 else none := by
  have last : InGdt (createTaskIndexes machine.kernel.gdt ++ [getPidEmpty machine.kernel.gdt]) ↔
      InGdt (createTaskIndexes machine.kernel.gdt) := by
    simp only [InGdt, List.forall_mem_append, List.forall_mem_singleton, and_iff_left_iff_imp]
    exact fun inside => (createTaskIndexes_inGdt machine.kernel.gdt).mp inside
  simp only [sysExecve, sysExecveAt, Option.bind_eq_bind, Option.bind_assoc, createTask_eq_at]
  cases loadFileCached machine.disk locals path fileCached with
  | none => rfl
  | some loaded =>
      simp only [Option.bind_some]
      by_cases success : loaded.1 = .success
      · rw [if_pos success, if_pos success]
        by_cases large : tempCodeSizeMax < readExtent 0 loaded.2.file.fileSize.toNatClampNeg
        · simp only [if_pos large, Option.bind_none]
        · simp only [if_neg large]
          cases readAll machine.disk loaded.2.file codeBuf with
          | none => rfl
          | some code =>
              by_cases inside : InGdt (createTaskIndexes machine.kernel.gdt)
              · have both := last.mpr inside
                simp only [createTaskAt, if_pos inside, if_pos both, Option.bind_some]
              · have neither := last.not.mpr inside
                simp only [createTaskAt, if_neg inside, if_neg neither, Option.bind_some, Option.bind_none]
      · rw [if_neg success, if_neg success]
        rfl

/-! ## A full GDT -/

def GdtFull (gdt : Nat → GdtDesc) : Prop := ∀ i, 0 < i → i < maxGdtTerms → emptyDesc (gdt i) = false

structure KernelKept (k k' : Kernel) : Prop where
  gdt : ∀ i < maxGdtTerms, k'.gdt i = k.gdt i
  tasks : ∀ i < maxGdtTerms, k'.taskManager.tasks i = k.taskManager.tasks i
  ready : k'.taskManager.pidQueueReady = k.taskManager.pidQueueReady
  blocked : k'.taskManager.pidQueueBlocked = k.taskManager.pidQueueBlocked
  sleeping : k'.taskManager.pidQueueSleeping = k.taskManager.pidQueueSleeping
  frames : k'.memory.memoryAllocBitmap = k.memory.memoryAllocBitmap

theorem KernelKept.refl (k : Kernel) : KernelKept k k := ⟨fun _ _ => rfl, fun _ _ => rfl, rfl, rfl, rfl, rfl⟩

structure CreateRefused (image : KernelImage) (k : Kernel) (flag eip esp ddl : UInt32) : Prop where
  result : (createTaskAt image k flag eip esp ddl).1 = notFound
  kept : KernelKept k (createTaskAt image k flag eip esp ddl).2
  inside : InGdt (createTaskIndexes k.gdt)

def ExecveRefused (image : KernelImage) (machine : Machine) (locals : Locals) (codeBuf : Nat → UInt8)
    (fileCached : FileCached) (path : List UInt8) : Prop :=
  ∃ machine' indexes, sysExecveAt image machine locals codeBuf fileCached path = some (machine', indexes) ∧
    KernelKept machine.kernel machine'.kernel ∧ InGdt indexes

theorem getPidEmpty_full {gdt : Nat → GdtDesc} (full : GdtFull gdt) : getPidEmpty gdt = notFound := by
  have nothing : (List.range' 1 (maxGdtTerms - 1)).find? (fun i => emptyDesc (gdt i)) = none := by
    rw [List.find?_eq_none]
    intro i member
    have range := List.mem_range'_1.mp member
    rw [full i (by omega) (by simp only [maxGdtTerms] at range ⊢; omega)]
    decide
  rw [getPidEmpty, nothing, Option.getD_none]

theorem full_not_inGdt {gdt : Nat → GdtDesc} (full : GdtFull gdt) : ¬InGdt (createTaskIndexes gdt) := by
  rw [createTaskIndexes_inGdt, getPidEmpty_full full]
  decide

/-- What happens instead: `NOT_FOUND` becomes a ready task, and a frame is taken for it. -/
theorem createTaskAt_full (image : KernelImage) {k : Kernel} (full : GdtFull k.gdt) (flag eip esp ddl : UInt32) :
    (createTaskAt image k flag eip esp ddl).1 = notFound ∧
      (createTaskAt image k flag eip esp ddl).2.taskManager.pidQueueReady =
        pidEnqueue k.taskManager.pidQueueReady notFound ∧
      (createTaskAt image k flag eip esp ddl).2.memory.memoryAllocBitmap =
        (pMalloc k.memory).2.memoryAllocBitmap := by
  have pid := getPidEmpty_full full
  simp only [createTaskAt, pid]
  exact ⟨trivial, rfl, rfl⟩

/-- With a full GDT no creation is refused; `sys_execve` leaves everything alone only where
the path does not lead to a file, so that it creates no task. -/
theorem full_gdt_not_refused (image : KernelImage) {k : Kernel} (full : GdtFull k.gdt) :
    (∀ flag eip esp ddl, ¬CreateRefused image k flag eip esp ddl) ∧
      ∀ (disk : Disk) (swapNext : UInt32) (locals : Locals) (codeBuf : Nat → UInt8) (fileCached : FileCached)
        (path : List UInt8), ExecveRefused image ⟨k, disk, swapNext⟩ locals codeBuf fileCached path ↔
          ∃ result cached, loadFileCached disk locals path fileCached = some (result, cached) ∧ result ≠ .success := by
  constructor
  · intro flag eip esp ddl refused
    exact full_not_inGdt full refused.inside
  · intro disk swapNext locals codeBuf fileCached path
    constructor
    · rintro ⟨machine', indexes, result, -, inside⟩
      simp only [sysExecveAt, Option.bind_eq_bind] at result
      obtain ⟨⟨loaded, cached⟩, found, rest⟩ := Option.bind_eq_some_iff.mp result
      refine ⟨loaded, cached, found, fun success => ?_⟩
      rw [if_pos success] at rest
      split_ifs at rest
      · simp at rest
      · obtain ⟨code, -, same⟩ := Option.bind_eq_some_iff.mp rest
        obtain ⟨-, rfl⟩ := Prod.mk.inj (Option.some.inj same)
        exact full_not_inGdt full fun i member => inside i (List.mem_append_left _ member)
    · rintro ⟨result, cached, found, failed⟩
      refine ⟨⟨k, disk, swapNext⟩, [], ?_, KernelKept.refl k, fun i none => (by cases none)⟩
      simp only [sysExecveAt, found, Option.bind_eq_bind, Option.bind_some, if_neg failed]

def fullKernel : Kernel := { sampleKernel with gdt := fun _ => ⟨1, 1⟩ }

theorem fullKernel_full : GdtFull fullKernel.gdt := fun _ _ _ => rfl

theorem full_gdt_missing_file : ¬CreateRefused sampleImage fullKernel taskFlagKernel tempCodeStart initEspVma 0xFF ∧
    ExecveRefused sampleImage ⟨fullKernel, sampleTree, diskSwapStartSector⟩ sampleLocals (fun _ => 0) sampleCached
      [98, 47] := by
  have refused := full_gdt_not_refused sampleImage fullKernel_full
  have missing : (loadFileCached sampleTree sampleLocals [98, 47] sampleCached).map (·.1) = some .notExisting := by
    decide +kernel
  obtain ⟨⟨result, cached⟩, found, rfl⟩ := Option.map_eq_some_iff.mp missing
  exact ⟨refused.1 _ _ _ _, (refused.2 _ _ _ _ _ _).mpr ⟨.notExisting, cached, found, by decide⟩⟩

theorem full_gdt_creates : ∃ image k, GdtFull k.gdt ∧ ¬CreateRefused image k taskFlagKernel 0x400000 0x500000 0xFF ∧
    (createTaskAt image k taskFlagKernel 0x400000 0x500000 0xFF).2.taskManager.pidQueueReady =
      pidEnqueue k.taskManager.pidQueueReady notFound :=
  ⟨sampleImage, fullKernel, fullKernel_full, fun refused => full_not_inGdt fullKernel_full refused.inside,
    (createTaskAt_full sampleImage fullKernel_full _ _ _ _).2.1⟩

end WegOS
