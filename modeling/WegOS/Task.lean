import WegOS.DataStruct
import WegOS.Memory

/-! Tasks, their descriptors in the GDT, and their creation. -/

namespace WegOS

structure GdtDesc where
  low : UInt32
  high : UInt32
  deriving DecidableEq, Repr

inductive TaskState
  | ready | running | blocked | sleeping | justInitialized | dying
  deriving DecidableEq, Repr

/-- The fields of the hardware task state that the kernel sets. -/
structure Tss where
  cr3 : UInt32
  eip : UInt32
  eflags : UInt32
  esp : UInt32
  cs : UInt32
  ss : UInt32
  ds : UInt32

structure Task where
  state : TaskState
  tss : Tss
  wakeupCounter : UInt32
  ddl : UInt32

structure TaskManager where
  tasks : Nat → Task
  schduleCounter : UInt32
  pidRunning : Nat
  pidQueueReady : PidQueue
  pidQueueBlocked : PidQueue
  pidQueueSleeping : PidQueue

structure Kernel where
  gdt : Nat → GdtDesc
  taskManager : TaskManager
  memory : Memory

structure KernelImage where
  kernelPd : UInt32
  tasks : UInt32
  kernelPd_aligned : PageAligned kernelPd
  kernelPd_inside : frameOf kernelPd < 0x800000 / pageSize

def taskFlagKernel : UInt32 := 0
def initEflags : UInt32 := 0x202
def gdtKernelCodeSeg : UInt32 := 0x8
def gdtKernelDataSeg : UInt32 := 0x10
def gdtUserCodeSeg : UInt32 := 0x18 ||| 3
def gdtUserDataSeg : UInt32 := 0x20 ||| 3
def dplKernel : UInt8 := 0

/-- `&tasks[pid].tss`: a `task_t` takes 120 bytes, 8 of them before its `tss`. -/
def KernelImage.tssAddress (image : KernelImage) (pid : Nat) : UInt32 :=
  image.tasks + UInt32.ofNat (120 * pid + 8)

/-- The task switch itself, `jmpf`, saves and loads registers and is no part of this state. -/
def setTaskState (tm : TaskManager) (pid : Nat) (state : TaskState) : TaskManager :=
  let tm := { tm with tasks := Function.update tm.tasks pid { tm.tasks pid with state := state } }
  match state with
  | .ready => { tm with pidQueueReady := pidEnqueue tm.pidQueueReady pid }
  | .running => { tm with pidRunning := pid }
  | .blocked => { tm with pidQueueBlocked := pidEnqueue tm.pidQueueBlocked pid }
  | .sleeping => { tm with pidQueueSleeping := pidEnqueue tm.pidQueueSleeping pid }
  | .justInitialized => tm
  | .dying => tm

def makeGdtDescForTss (baseAddr : UInt32) (dpl : UInt8) : GdtDesc :=
  let baseAddr0_15 := baseAddr &&& 0xFFFF
  let baseAddr16_23 := baseAddr &&& 0xFF0000
  let baseAddr24_31 := baseAddr &&& 0xFF000000
  { high := baseAddr24_31 ||| (0xF8900 : UInt32) ||| (baseAddr16_23 >>> 16) ||| (dpl.toUInt32 <<< 12)
    low := (baseAddr0_15 <<< 16) ||| (0xFFFF : UInt32) }

def emptyDesc (desc : GdtDesc) : Bool := desc.low == 0 && desc.high == 0

def getPidEmpty (gdt : Nat → GdtDesc) : Nat :=
  ((List.range' 1 (maxGdtTerms - 1)).find? fun i => emptyDesc (gdt i)).getD notFound

/-- `none` where the C indexes `gdt` and `tasks` outside their bounds. -/
def taskInit (image : KernelImage) (k : Kernel) (pid : Nat) (flag eip esp ddl : UInt32) :
    Option Kernel :=
  if maxGdtTerms ≤ pid then none
  else
    let desc := makeGdtDescForTss (image.tssAddress pid) dplKernel
    let old := k.taskManager.tasks pid
    let kernelTask := flag == taskFlagKernel
    let dataSeg := if kernelTask then gdtKernelDataSeg else gdtUserDataSeg
    let (cr3, memory) := pMalloc k.memory
    let task := { old with
      tss := { cr3 := cr3, eip := eip, eflags := initEflags, esp := esp,
               cs := if kernelTask then gdtKernelCodeSeg else gdtUserCodeSeg,
               ss := dataSeg, ds := dataSeg }
      ddl := ddl }
    let tm := { k.taskManager with tasks := Function.update k.taskManager.tasks pid task }
    some { gdt := Function.update k.gdt pid desc
           taskManager := setTaskState tm pid .ready
           memory := copyPts memory image.kernelPd cr3 }

def createTask (image : KernelImage) (k : Kernel) (flag eip esp ddl : UInt32) :
    Option (Nat × Kernel) := do
  let pid := getPidEmpty k.gdt
  let k ← taskInit image k pid flag eip esp ddl
  pure (pid, k)

/-! ## Free descriptors -/

def FirstEmpty (gdt : Nat → GdtDesc) (pid : Nat) : Prop :=
  1 ≤ pid ∧ pid < maxGdtTerms ∧ emptyDesc (gdt pid) = true ∧
    ∀ i, 1 ≤ i → i < pid → emptyDesc (gdt i) = false

theorem getPidEmpty_first {gdt : Nat → GdtDesc} (bound : getPidEmpty gdt < maxGdtTerms) :
    FirstEmpty gdt (getPidEmpty gdt) := by
  cases found : (List.range' 1 (maxGdtTerms - 1)).find? fun i => emptyDesc (gdt i) with
  | none =>
      rw [getPidEmpty, found] at bound
      exact absurd bound (by decide)
  | some pid =>
      have value : getPidEmpty gdt = pid := by rw [getPidEmpty, found, Option.getD_some]
      rw [value]
      obtain ⟨empty, i, inside, rfl, before⟩ := List.find?_eq_some_iff_getElem.mp found
      simp only [List.length_range', List.getElem_range', Nat.one_mul] at inside empty before ⊢
      refine ⟨by omega, by simp only [maxGdtTerms] at inside ⊢; omega, empty, ?_⟩
      intro j low high
      have miss := before (j - 1) (by omega)
      rw [Nat.add_sub_cancel' low] at miss
      simpa using miss

theorem makeGdtDescForTss_nonempty (baseAddr : UInt32) (dpl : UInt8) :
    emptyDesc (makeGdtDescForTss baseAddr dpl) = false := by
  have bit : (makeGdtDescForTss baseAddr dpl).low.toNat.testBit 0 = true := by
    simp only [makeGdtDescForTss]
    rw [UInt32.toNat_or, Nat.testBit_or, show UInt32.toNat 0xFFFF = 65535 by decide,
      show Nat.testBit 65535 0 = true by decide, Bool.or_true]
  have nonzero : (makeGdtDescForTss baseAddr dpl).low ≠ 0 := by
    intro zero
    rw [zero] at bit
    revert bit
    decide
  simp [emptyDesc, nonzero]

end WegOS
