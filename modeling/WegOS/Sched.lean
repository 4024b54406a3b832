import WegOS.Task

/-! The scheduler and the semaphores.

`none` stands for the endless error loops of the debug build and for accesses
outside an array. -/

namespace WegOS

inductive SchedulerReason
  | timePieceOver | taskYield | taskSleep | taskBlocked | taskExit
  deriving DecidableEq, Repr

def timePiece : UInt32 := 100

/-- The sleeping queue is not touched. -/
def taskManagerInit (tm : TaskManager) : TaskManager :=
  { tm with pidQueueReady := pidQueueInit, pidQueueBlocked := pidQueueInit,
            pidRunning := notFound, schduleCounter := timePiece }

def switchTo (tm : TaskManager) (pid : Nat) (reason : SchedulerReason) : Option TaskManager :=
  if pid = notFound then none
  else if tm.pidRunning = pid then some tm
  else
    let tm :=
      if tm.pidRunning = notFound then tm
      else
        match reason with
        | .timePieceOver => setTaskState tm tm.pidRunning .ready
        | .taskSleep => setTaskState tm tm.pidRunning .sleeping
        | .taskBlocked => setTaskState tm tm.pidRunning .blocked
        | .taskYield => tm
        | .taskExit => tm
    some (setTaskState tm pid .running)

def schedule (tm : TaskManager) (reason : SchedulerReason) : Option TaskManager :=
  let (bestPid, ready) := pidDequeue tm.pidQueueReady
  let tm := { tm with schduleCounter := timePiece, pidQueueReady := ready }
  if bestPid = notFound then none else switchTo tm bestPid reason

/-- The counter is unsigned, so that `<= 0` holds of zero alone. -/
def checkSchedule (tm : TaskManager) : Option TaskManager :=
  let tm := { tm with schduleCounter := tm.schduleCounter - 1 }
  if tm.schduleCounter ≤ 0 then schedule tm .timePieceOver else some tm

def decreaseWakeup (tm : TaskManager) (pid : Nat) : TaskManager :=
  let task := { tm.tasks pid with wakeupCounter := (tm.tasks pid).wakeupCounter - 1 }
  { tm with tasks := Function.update tm.tasks pid task }

/-- The loop of `check_wakeup`. After a deletion the `uint16_t` index steps back
and forth over the same place. -/
def checkWakeupFrom : Nat → TaskManager → Nat → Option TaskManager
  | 0, _, _ => none
  | fuel + 1, tm, i =>
      if i = tm.pidQueueSleeping.tail then some tm
      else
        let pid := tm.pidQueueSleeping.pids i
        let tm := decreaseWakeup tm pid
        if (tm.tasks pid).wakeupCounter ≤ 0 then
          match pidQueueDelete tm.pidQueueSleeping i with
          | none => none
          | some sleeping =>
              let tm := setTaskState { tm with pidQueueSleeping := sleeping } pid .ready
              checkWakeupFrom fuel tm (incPidQueueIndex ((i + 65535) % 65536))
        else checkWakeupFrom fuel tm (incPidQueueIndex i)

/-- Every turn of the loop brings the index and `tail` one place closer. -/
def checkWakeup (tm : TaskManager) : Option TaskManager :=
  checkWakeupFrom (maxGdtTerms + 1) tm tm.pidQueueSleeping.head

def checkTaskAffairs (tm : TaskManager) : Option TaskManager := do
  let tm ← checkWakeup tm
  checkSchedule tm

def sysSleep (tm : TaskManager) (counter : UInt32) : Option TaskManager :=
  if maxGdtTerms ≤ tm.pidRunning then none
  else
    let task := { tm.tasks tm.pidRunning with wakeupCounter := counter }
    schedule { tm with tasks := Function.update tm.tasks tm.pidRunning task } .taskSleep

def sysExit (k : Kernel) (_code : UInt32) : Option Kernel := do
  if maxGdtTerms ≤ k.taskManager.pidRunning then none
  let tm ← schedule k.taskManager .taskExit
  pure { k with gdt := Function.update k.gdt k.taskManager.pidRunning ⟨0, 0⟩, taskManager := tm }

structure IdleImage where
  idle : UInt32
  idleStack0 : UInt32
  idleStack1 : UInt32

def schedInit (image : KernelImage) (idle : IdleImage) (k : Kernel) : Option Kernel := do
  let k := { k with taskManager := taskManagerInit k.taskManager }
  let (_, k) ← createTask image k taskFlagKernel idle.idle (idle.idleStack0 + 4096) 0xFF
  let (_, k) ← createTask image k taskFlagKernel idle.idle (idle.idleStack1 + 4096) 0xFF
  pure k

/-! ## Semaphores -/

structure Semaphore where
  count : Int16
  blockedPids : PidQueue

def semaphoreInit (count : Int16) : Semaphore := ⟨count, pidQueueInit⟩

def wait (tm : TaskManager) (s : Semaphore) : Option (TaskManager × Semaphore) :=
  let s := { s with count := s.count - 1 }
  if s.count < 0 then do
    let s := { s with blockedPids := pidEnqueue s.blockedPids tm.pidRunning }
    let tm ← schedule tm .taskBlocked
    pure (tm, s)
  else some (tm, s)

def signal (tm : TaskManager) (s : Semaphore) : Option (TaskManager × Semaphore) :=
  let s := { s with count := s.count + 1 }
  let (pidWakeUp, blockedPids) := pidDequeue s.blockedPids
  let s := { s with blockedPids := blockedPids }
  if pidWakeUp = notFound then some (tm, s)
  else do
    let i ← pidQueueFind tm.pidQueueBlocked pidWakeUp
    let blocked ← pidQueueDelete tm.pidQueueBlocked i
    if i = notFound then none
    pure (setTaskState { tm with pidQueueBlocked := blocked } pidWakeUp .ready, s)

end WegOS
