import WegOS.Interrupts
import WegOS.LetterKeys

/-! The machine from the moment when interrupts are let in: the timer and the keyboard. -/

namespace WegOS

open Pic8259

/-- Channel 0 of the counter: the low byte that waits for the high one, and the value to count down from. -/
structure Pit where
  low : Option UInt8
  reload : UInt16

def Pit.outb (t : Pit) (port : UInt16) (value : UInt8) : Pit :=
  if port = 0x43 then (if value &&& 0xF0 = 0x30 then { t with low := none } else t)
  else if port = 0x40 then
    match t.low with
    | none => { t with low := some value }
    | some low => ⟨none, low.toUInt16 + (value.toUInt16 <<< 8)⟩
  else t

structure Computer where
  pics : Pics
  pit : Pit
  idt : Nat → GdtDesc
  ticks : UInt32
  taskManager : TaskManager
  terminal : Terminal

structure Handlers where
  ignoreInt : UInt32
  timerInterruptHandler : UInt32
  keyboardInterruptHandler : UInt32
  pageFaultHandler : UInt32

def latch : UInt32 := 1193180

theorem bytes_of_word (value : UInt16) :
    (value &&& 0xFF).toUInt8.toUInt16 + ((value >>> 8).toUInt8.toUInt16 <<< 8) = value := by
  have low : ∀ n : Nat, n &&& 255 = n % 256 := fun n => Nat.and_two_pow_sub_one_eq_mod n 8
  have bound := value.toNat_lt
  apply UInt16.toNat_inj.mp
  simp [low, Nat.shiftLeft_eq, Nat.shiftRight_eq_div_pow]
  omega

/-- The interrupt number is not used, and `interval` is not zero. -/
def cmosRtcHardwareInit (m : Computer) (interval : UInt32) : Computer :=
  let p := m.pics
  let p := p.outb 0x20 0x11
  let p := p.outb 0xA0 0x11
  let p := p.outb 0x21 0x20
  let p := p.outb 0xA1 0x28
  let p := p.outb 0x21 0x4
  let p := p.outb 0xA1 0x2
  let p := p.outb 0x21 0x1
  let p := p.outb 0xA1 0x1
  let p := p.outb 0x21 0xFE
  let p := p.outb 0xA1 0xFF
  let tmo := (latch / interval).toUInt16
  let t := m.pit.outb 0x43 0x36
  let t := t.outb 0x40 (tmo &&& 0xFF).toUInt8
  let t := t.outb 0x40 (tmo >>> 8).toUInt8
  { m with pics := p, pit := t }

/-- The counter is cut off to 16 bits: it is the one that is meant exactly for the longer intervals. -/
theorem cmosRtcHardwareInit_reload (m : Computer) {interval : UInt32} (some : interval ≠ 0) :
    (cmosRtcHardwareInit m interval).pit.low = none ∧
    ((cmosRtcHardwareInit m interval).pit.reload.toNat = latch.toNat / interval.toNat ↔ 19 ≤ interval) := by
  have pit : (cmosRtcHardwareInit m interval).pit = ⟨none, (latch / interval).toUInt16⟩ :=
    congrArg (Pit.mk none) (bytes_of_word _)
  have positive : 0 < interval.toNat := Nat.pos_of_ne_zero fun zero => some (UInt32.toNat_inj.mp zero)
  rw [pit]
  refine ⟨rfl, ?_⟩
  have whole : (latch / interval).toUInt16.toNat = latch.toNat / interval.toNat % 2 ^ 16 := by
    rw [UInt32.toNat_toUInt16, UInt32.toNat_div]
  have size : latch.toNat = 1193180 := rfl
  calc
    _ ↔ 1193180 / interval.toNat < 2 ^ 16 := by rw [whole, size, Nat.mod_eq_iff_lt (by decide)]
    _ ↔ 1193180 < 2 ^ 16 * interval.toNat := Nat.div_lt_iff_lt_mul positive
    _ ↔ 19 ≤ interval.toNat := by omega
    _ ↔ 19 ≤ interval := (UInt32.le_iff_toNat_le (a := 19)).symm

def interruptInit (h : Handlers) (m : Computer) : Computer :=
  { m with pics := picInit m.pics, idt := setAll h.ignoreInt m.idt }

def timeInit (h : Handlers) (m : Computer) : Computer :=
  let m := cmosRtcHardwareInit m 100
  { m with idt := setIdt m.idt timerInterrupt h.timerInterruptHandler }

def keyboardInit (h : Handlers) (m : Computer) : Computer :=
  { m with terminal := { m.terminal with keyboard := keyboardStateInit },
           idt := setIdt m.idt keyboardInterrupt h.keyboardInterruptHandler,
           pics := interruptEnable m.pics 0x21 }

def ttyInit (h : Handlers) (m : Computer) : Computer :=
  keyboardInit h { m with terminal := { m.terminal with console := cls m.terminal.console } }

/-- What `main` does to this part of the machine; of `memory_init` it is the gate of the page fault. -/
def startUp (h : Handlers) (m : Computer) : Computer :=
  let m := ttyInit h (timeInit h (interruptInit h m))
  { m with idt := setIdt m.idt pageFaultInterrupt h.pageFaultHandler }

def onTimer (m : Computer) : Option Computer := do
  let m := { m with ticks := m.ticks + 1 }
  let m := { m with pics := picSendEoi m.pics 0x20 }
  let tm ← checkTaskAffairs m.taskManager
  pure { m with taskManager := tm }

/-- `status` and `scanCode` are what the ports 0x64 and 0x60 give. -/
def onKeyboard (m : Computer) (status scanCode : UInt8) : Computer :=
  let m := if status &&& 1 ≠ 0 then { m with terminal := onKey m.terminal scanCode } else m
  { m with pics := picSendEoi m.pics 0x21 }

inductive ComputerEvent
  | raise (line : Fin 16)
  /-- The processor takes an interrupt, if there is one, and lines are raised while it is handled. -/
  | interrupt (status scanCode : UInt8) (meanwhile : List (Fin 16))

/-- Through the gate of the vector to its handler. `none` stands for any other way. -/
def Computer.handle (h : Handlers) (m : Computer) (gate : Gate) (status scanCode : UInt8) : Option Computer :=
  let code := gdtKernelCodeSeg.toUInt16
  if gate = kernelGate code h.timerInterruptHandler then onTimer m
  else if gate = kernelGate code h.keyboardInterruptHandler then some (onKeyboard m status scanCode)
  else if gate = kernelGate code h.ignoreInt then some m
  else none

def Computer.step (h : Handlers) (m : Computer) : ComputerEvent → Option Computer
  | .raise line => some { m with pics := m.pics.raise line }
  | .interrupt status scanCode meanwhile =>
      match m.pics.acknowledge with
      | none => some m
      | some (vector, p) =>
          Computer.handle h { m with pics := meanwhile.foldl Pics.raise p } (gateOf (m.idt vector.toNat)) status scanCode

/-! ## Two flags -/

structure Desk where
  timer : Bool
  key : Bool
  ticks : UInt32
  taskManager : TaskManager
  terminal : Terminal

def Desk.raise (d : Desk) (line : Fin 16) : Desk :=
  if line = irq 0 then { d with timer := true } else if line = irq 1 then { d with key := true } else d

/-- How it is meant: the timer first, then the keyboard, and nothing else. -/
def Desk.step (d : Desk) : ComputerEvent → Option Desk
  | .raise line => some (d.raise line)
  | .interrupt status scanCode meanwhile =>
      if d.timer then do
        let d := meanwhile.foldl Desk.raise { d with timer := false }
        let tm ← checkTaskAffairs d.taskManager
        pure { d with ticks := d.ticks + 1, taskManager := tm }
      else if d.key then
        let d := meanwhile.foldl Desk.raise { d with key := false }
        some (if status &&& 1 ≠ 0 then { d with terminal := onKey d.terminal scanCode } else d)
      else some d

def Computer.desk (m : Computer) : Desk :=
  ⟨m.pics.lines.requested (irq 0), m.pics.lines.requested (irq 1), m.ticks, m.taskManager, m.terminal⟩

/-- Only the timer and the keyboard are open, and their gates lead to their handlers. -/
structure Computer.Booted (h : Handlers) (m : Computer) : Prop where
  wired : Wired m.pics
  masked : m.pics.lines.masked = fun line => decide (line ≠ 0 ∧ line ≠ 1)
  timer : gateOf (m.idt 0x20) = kernelGate gdtKernelCodeSeg.toUInt16 h.timerInterruptHandler
  keyboard : gateOf (m.idt 0x21) = kernelGate gdtKernelCodeSeg.toUInt16 h.keyboardInterruptHandler

theorem timeInit_pics (h : Handlers) (m : Computer) : (timeInit h m).pics =
    ⟨⟨.ready, false, true, 0x20, bit 2, false, 0xFE, 0, 0⟩, ⟨.ready, false, true, 0x28, 2, false, 0xFF, 0, 0⟩⟩ := rfl

theorem startUp_pics (h : Handlers) (m : Computer) : (startUp h m).pics =
    ⟨⟨.ready, false, true, 0x20, bit 2, false, 0xFC, 0, 0⟩, ⟨.ready, false, true, 0x28, 2, false, 0xFF, 0, 0⟩⟩ := by
  have enabled : (startUp h m).pics = interruptEnable (timeInit h (interruptInit h m)).pics 0x21 := rfl
  rw [enabled, timeInit_pics]
  decide +kernel

theorem startUp_idt (h : Handlers) (m : Computer) : (startUp h m).idt =
    [(timerInterrupt, h.timerInterruptHandler), (keyboardInterrupt, h.keyboardInterruptHandler),
      (pageFaultInterrupt, h.pageFaultHandler)].foldl (fun idt call => setIdt idt call.1 call.2)
        (setAll h.ignoreInt m.idt) := by
  simp only [startUp, ttyInit, keyboardInit, timeInit, interruptInit, cmosRtcHardwareInit, List.foldl_cons, List.foldl_nil]

theorem startUp_booted (h : Handlers) (m : Computer) : (startUp h m).Booted h := by
  refine ⟨?_, ?_, ?_, ?_⟩
  · rw [startUp_pics]
    exact ⟨⟨by decide, by decide, by decide, by decide⟩, by decide⟩
  · have masked : ∀ line, both 0xFC 0xFF line = decide (line ≠ 0 ∧ line ≠ 1) := by decide
    rw [startUp_pics]
    exact funext masked
  · rw [startUp_idt]
    exact setIdt_run _ _ _ timerInterrupt
  · rw [startUp_idt]
    exact setIdt_run _ _ _ keyboardInterrupt

section Runs

variable {h : Handlers} {m : Computer}

theorem startUp_desk (h : Handlers) (m : Computer) :
    (startUp h m).desk = ⟨false, false, m.ticks, m.taskManager, (startUp h m).terminal⟩ := by
  rw [Computer.desk, startUp_pics]
  rfl

theorem desk_raise (m : Computer) (line : Fin 16) :
    ({ m with pics := m.pics.raise line } : Computer).desk = m.desk.raise line := by
  have timer : irq 0 = 0 := rfl
  have key : irq 1 = 1 := rfl
  rw [Computer.desk, Computer.desk, Desk.raise, Pics.raise_lines, Lines.raise, timer, key]
  by_cases zero : line = 0
  · subst zero
    rfl
  by_cases one : line = 1
  · subst one
    rfl
  rw [if_neg zero, if_neg one]
  split_ifs
  · rfl
  · simp only [Function.update_of_ne (Ne.symm zero), Function.update_of_ne (Ne.symm one)]

theorem desk_raises (m : Computer) (raised : List (Fin 16)) :
    ({ m with pics := raised.foldl Pics.raise m.pics } : Computer).desk = raised.foldl Desk.raise m.desk := by
  induction raised generalizing m with
  | nil => rfl
  | cons line rest ih =>
      have later := ih { m with pics := m.pics.raise line }
      rw [desk_raise] at later
      exact later

theorem Computer.Booted.pick (booted : m.Booted h) : m.pics.lines.pick =
    if m.desk.timer then some 0 else if m.desk.key then some 1 else none := by
  have closed : ∀ line : Fin 16, line ≠ 0 → line ≠ 1 → m.pics.lines.due line = false := by
    intro line zero one
    rw [Lines.due, booted.masked]
    simp [zero, one]
  have open0 : m.pics.lines.due 0 = m.desk.timer := by
    change _ = m.pics.lines.requested 0
    rw [Lines.due, booted.masked]
    simp
  have open1 : m.pics.lines.due 1 = m.desk.key := by
    change _ = m.pics.lines.requested 1
    rw [Lines.due, booted.masked]
    simp
  have rest : [8, 9, 10, 11, 12, 13, 14, 15, 3, 4, 5, 6, 7].find? m.pics.lines.due = none := by
    rw [List.find?_eq_none]
    intro line member
    rw [closed line (by rintro rfl; simp at member) (by rintro rfl; simp at member)]
    exact Bool.false_ne_true
  rw [Lines.pick, Lines.order, List.find?_cons, List.find?_cons, open0, open1, rest]
  cases m.desk.timer <;> cases m.desk.key <;> rfl

theorem raises_masked (l : Lines) (raised : List (Fin 16)) : (raised.foldl Lines.raise l).masked = l.masked := by
  induction raised generalizing l with
  | nil => rfl
  | cons line rest ih =>
      rw [List.foldl_cons, ih, Lines.raise]
      split_ifs <;> rfl

theorem Computer.Booted.raises (booted : m.Booted h) (raised : List (Fin 16)) :
    ({ m with pics := raised.foldl Pics.raise m.pics } : Computer).Booted h := by
  obtain ⟨wired, lines⟩ := booted.wired.raises raised
  refine ⟨wired, ?_, booted.timer, booted.keyboard⟩
  rw [lines, raises_masked, booted.masked]

theorem Computer.Booted.drop (booted : m.Booted h) (line : Fin 16) :
    ({ m with pics := m.pics.drop line } : Computer).Booted h := by
  refine ⟨booted.wired.drop line, ?_, booted.timer, booted.keyboard⟩
  rw [Pics.drop_lines]
  exact booted.masked

theorem desk_drop_timer (m : Computer) :
    ({ m with pics := m.pics.drop 0 } : Computer).desk = { m.desk with timer := false } := by
  rw [Computer.desk, Pics.drop_lines]
  rfl

theorem desk_drop_key (m : Computer) :
    ({ m with pics := m.pics.drop 1 } : Computer).desk = { m.desk with key := false } := by
  rw [Computer.desk, Pics.drop_lines]
  rfl

theorem Computer.Booted.handle_timer (booted : m.Booted h) (meanwhile : List (Fin 16)) (status scanCode : UInt8) :
    Computer.handle h { m with pics := meanwhile.foldl Pics.raise (m.pics.accept 0) } (gateOf (m.idt 0x20)) status
      scanCode = (checkTaskAffairs m.taskManager).map fun tm =>
        { m with pics := meanwhile.foldl Pics.raise (m.pics.drop 0), ticks := m.ticks + 1, taskManager := tm } := by
  have ended : picSendEoi (meanwhile.foldl Pics.raise (m.pics.accept 0)) 0x20 =
      meanwhile.foldl Pics.raise (m.pics.drop 0) := booted.wired.served 0 meanwhile
  rw [Computer.handle, booted.timer, if_pos rfl, onTimer]
  simp only [ended]
  cases checkTaskAffairs m.taskManager <;> rfl

theorem kernelGate_inj {selector : UInt16} {a b : UInt32} (same : kernelGate selector a = kernelGate selector b) :
    a = b := UInt32.toNat_inj.mp (congrArg Gate.offset same)

theorem Computer.Booted.handle_keyboard (booted : m.Booted h)
    (apart : h.keyboardInterruptHandler ≠ h.timerInterruptHandler) (meanwhile : List (Fin 16))
    (status scanCode : UInt8) :
    Computer.handle h { m with pics := meanwhile.foldl Pics.raise (m.pics.accept 1) } (gateOf (m.idt 0x21)) status
      scanCode = some { m with pics := meanwhile.foldl Pics.raise (m.pics.drop 1),
                               terminal := if status &&& 1 ≠ 0 then onKey m.terminal scanCode else m.terminal } := by
  have ended : picSendEoi (meanwhile.foldl Pics.raise (m.pics.accept 1)) 0x21 =
      meanwhile.foldl Pics.raise (m.pics.drop 1) := booted.wired.served 1 meanwhile
  rw [Computer.handle, booted.keyboard, if_neg fun same => apart (kernelGate_inj same), if_pos rfl, onKeyboard]
  split_ifs <;> simp only [ended]

theorem Computer.Booted.step (booted : m.Booted h) (apart : h.keyboardInterruptHandler ≠ h.timerInterruptHandler)
    (event : ComputerEvent) :
    (m.step h event).map Computer.desk = m.desk.step event ∧ ∀ t, m.step h event = some t → t.Booted h := by
  cases event with
  | raise line =>
      refine ⟨congrArg some (desk_raise m line), ?_⟩
      rintro t ⟨⟩
      exact booted.raises [line]
  | interrupt status scanCode meanwhile =>
      have timerVector : (m.pics.vector 0).toNat = 0x20 := congrArg BitVec.toNat (booted.wired.vector_eq 0)
      have keyVector : (m.pics.vector 1).toNat = 0x21 := congrArg BitVec.toNat (booted.wired.vector_eq 1)
      rw [Computer.step, booted.wired.free.acknowledge_lines, booted.pick, Desk.step]
      cases timer : m.desk.timer with
      | true =>
          have after := desk_raises { m with pics := m.pics.drop 0 } meanwhile
          rw [desk_drop_timer] at after
          have manager : (meanwhile.foldl Desk.raise { m.desk with timer := false }).taskManager = m.taskManager :=
            congrArg Desk.taskManager after.symm
          have still := (booted.drop 0).raises meanwhile
          simp only [if_true, Option.map_some, timerVector, booted.handle_timer, manager]
          rw [← after]
          cases checkTaskAffairs m.taskManager with
          | none => exact ⟨rfl, fun t step => nomatch step⟩
          | some tm =>
              refine ⟨rfl, ?_⟩
              rintro t ⟨⟩
              exact ⟨still.wired, still.masked, still.timer, still.keyboard⟩
      | false =>
          cases key : m.desk.key with
          | true =>
              have after := desk_raises { m with pics := m.pics.drop 1 } meanwhile
              rw [desk_drop_key] at after
              simp only [timer] at after
              have still := (booted.drop 1).raises meanwhile
              simp only [if_true, Bool.false_eq_true, if_false, Option.map_some, keyVector,
                booted.handle_keyboard apart]
              rw [← after]
              refine ⟨?_, ?_⟩
              · split_ifs <;> rfl
              · rintro t ⟨⟩
                exact ⟨still.wired, still.masked, still.timer, still.keyboard⟩
          | false =>
              refine ⟨rfl, ?_⟩
              rintro t ⟨⟩
              exact booted

/-- After the start the controllers, the gates and the handlers together are two flags: every timer request that
is taken is one tick, every keyboard request is one key, and none stays in service. -/
theorem interrupts_served (h : Handlers) (apart : h.keyboardInterruptHandler ≠ h.timerInterruptHandler) (m : Computer)
    (events : List ComputerEvent) :
    (events.foldlM (Computer.step h) (startUp h m)).map Computer.desk =
      events.foldlM Desk.step ⟨false, false, m.ticks, m.taskManager, (startUp h m).terminal⟩ ∧
    ∀ t, events.foldlM (Computer.step h) (startUp h m) = some t → Wired t.pics := by
  have general : ∀ (s : Computer), s.Booted h →
      (events.foldlM (Computer.step h) s).map Computer.desk = events.foldlM Desk.step s.desk ∧
      ∀ t, events.foldlM (Computer.step h) s = some t → Wired t.pics := by
    induction events with
    | nil =>
        intro s booted
        refine ⟨rfl, ?_⟩
        rintro t ⟨⟩
        exact booted.wired
    | cons event rest ih =>
        intro s booted
        obtain ⟨here, kept⟩ := booted.step apart event
        rw [List.foldlM_cons, List.foldlM_cons, ← here]
        cases next : s.step h event with
        | none => exact ⟨rfl, fun t result => nomatch result⟩
        | some mid => exact ih mid (kept mid next)
  rw [← startUp_desk]
  exact general _ (startUp_booted h m)

end Runs

def sampleHandlers : Handlers := ⟨0x100500, 0x100600, 0x100700, 0x100800⟩

def sampleTask : Task := ⟨.running, ⟨0, 0, 0, 0, 0, 0, 0⟩, 0, 0⟩

def sampleComputer : Computer where
  pics := ⟨⟨.mode, true, true, 7, 7, true, 7, 7, 7⟩, ⟨.base, true, true, 7, 7, true, 7, 7, 7⟩⟩
  pit := ⟨some 3, 9⟩
  idt := fun _ => ⟨0, 0⟩
  ticks := 0
  taskManager := taskManagerInit ⟨fun _ => sampleTask, 0, 0, pidQueueInit, pidQueueInit, pidQueueInit⟩
  terminal := ⟨blankConsole, ⟨true, true⟩⟩

/-- Both are raised, and the timer once more while it is handled: two ticks, then the press of a shift key. -/
theorem interrupts_served_both : (([.raise 1, .raise 0, .interrupt 0 0 [0, 7], .interrupt 0 0 [], .interrupt 1 0x2A []]
      ).foldlM (Computer.step sampleHandlers) (startUp sampleHandlers sampleComputer)).map (fun m =>
        (m.ticks, m.terminal.keyboard.leftShiftPressed)) = some (2, true) := by
  have desk := (interrupts_served sampleHandlers (by decide) sampleComputer
    [.raise 1, .raise 0, .interrupt 0 0 [0, 7], .interrupt 0 0 [], .interrupt 1 0x2A []]).1
  have seen := congrArg (Option.map fun d : Desk => (d.ticks, d.terminal.keyboard.leftShiftPressed)) desk
  rw [Option.map_map] at seen
  rw [show (fun m : Computer => (m.ticks, m.terminal.keyboard.leftShiftPressed)) =
    (fun d : Desk => (d.ticks, d.terminal.keyboard.leftShiftPressed)) ∘ Computer.desk from rfl, seen]
  decide +kernel

end WegOS
