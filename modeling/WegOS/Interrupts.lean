import WegOS.Sched
import WegOS.Keyboard
import WegOS.Lib.Pic8259

/-! Interrupts: the descriptor table, the masks and the ends of interrupts. -/

namespace WegOS

open Transition Pic8259

/-! ## The descriptor table -/

def intelIntrruptTypes : Nat := 256
def pageFaultInterrupt : UInt8 := 0xE
def timerInterrupt : UInt8 := 0x20
def keyboardInterrupt : UInt8 := 0x21

def makeIdtDesc (selector : UInt16) (offset : UInt32) : GdtDesc :=
  let offset16_31 : UInt16 := (offset >>> 16).toUInt16
  let offset0_15 : UInt16 := (offset % ((1 : UInt32) <<< 16)).toUInt16
  { high := (offset16_31.toUInt32 <<< 16) + 0x8E00, low := (selector.toUInt32 <<< 16) + offset0_15.toUInt32 }

def setIdt (idt : Nat → GdtDesc) (interruptNum : UInt8) (handler : UInt32) : Nat → GdtDesc :=
  Function.update idt interruptNum.toNat (makeIdtDesc gdtKernelCodeSeg.toUInt16 handler)

def setAll (handler : UInt32) (idt : Nat → GdtDesc) : Nat → GdtDesc :=
  (List.range intelIntrruptTypes).foldl (fun idt i => setIdt idt (UInt8.ofNat i) handler) idt

structure Gate where
  selector : Nat
  offset : Nat
  type : Nat
  dpl : Nat
  present : Nat
  deriving DecidableEq

def gateOf (desc : GdtDesc) : Gate where
  selector := desc.low.toNat / 2 ^ 16
  offset := desc.low.toNat % 2 ^ 16 + desc.high.toNat / 2 ^ 16 * 2 ^ 16
  type := desc.high.toNat / 2 ^ 8 % 2 ^ 5
  dpl := desc.high.toNat / 2 ^ 13 % 2 ^ 2
  present := desc.high.toNat / 2 ^ 15 % 2

def kernelGate (selector : UInt16) (offset : UInt32) : Gate := ⟨selector.toNat, offset.toNat, 0b01110, 0, 1⟩

theorem makeIdtDesc_gate (selector : UInt16) (offset : UInt32) :
    gateOf (makeIdtDesc selector offset) = kernelGate selector offset := by
  have bound := offset.toNat_lt
  have small := selector.toNat_lt
  have lower : (offset % ((1 : UInt32) <<< 16)).toNat = offset.toNat % 2 ^ 16 := by
    rw [UInt32.toNat_mod]
    rfl
  have low : (makeIdtDesc selector offset).low.toNat = selector.toNat * 2 ^ 16 + offset.toNat % 2 ^ 16 := by
    simp only [makeIdtDesc, UInt32.toNat_add, UInt32.toNat_shiftLeft, UInt16.toNat_toUInt32, UInt32.toNat_toUInt16,
      lower, Nat.shiftLeft_eq, UInt32.reduceToNat, Nat.reduceMod, Nat.reducePow]
    omega
  have high : (makeIdtDesc selector offset).high.toNat = offset.toNat / 2 ^ 16 * 2 ^ 16 + 0x8E00 := by
    simp [makeIdtDesc, Nat.shiftLeft_eq, Nat.shiftRight_eq_div_pow]
    omega
  rw [gateOf, kernelGate, low, high, Gate.mk.injEq]
  omega

theorem setIdt_apply (idt : Nat → GdtDesc) (num : UInt8) (handler : UInt32) (vector : UInt8) :
    setIdt idt num handler vector.toNat =
      if num = vector then makeIdtDesc gdtKernelCodeSeg.toUInt16 handler else idt vector.toNat := by
  rw [setIdt, Function.update_apply]
  congr 1
  exact propext ⟨fun same => UInt8.toNat_inj.mp same.symm, fun same => by rw [same]⟩

theorem setIdt_run_apply (calls : List (UInt8 × UInt32)) (idt : Nat → GdtDesc) (vector : UInt8) :
    calls.foldl (fun idt call => setIdt idt call.1 call.2) idt vector.toNat =
      match calls.reverse.find? fun call => call.1 = vector with
      | none => idt vector.toNat
      | some call => makeIdtDesc gdtKernelCodeSeg.toUInt16 call.2 := by
  induction calls using List.reverseRecOn with
  | nil => rfl
  | append_singleton calls call ih =>
      rw [List.foldl_append, List.foldl_cons, List.foldl_nil, setIdt_apply, ih, List.reverse_append,
        List.reverse_singleton, List.singleton_append, List.find?_cons]
      by_cases same : call.1 = vector
      · simp [same]
      · simp [same]

theorem setAll_apply (handler : UInt32) (idt : Nat → GdtDesc) (vector : UInt8) :
    setAll handler idt vector.toNat = makeIdtDesc gdtKernelCodeSeg.toUInt16 handler := by
  have calls : setAll handler idt =
      (((List.range 256).map fun i => (UInt8.ofNat i, handler)).foldl
        (fun idt call => setIdt idt call.1 call.2) idt) := by
    rw [List.foldl_map]
    rfl
  rw [calls, setIdt_run_apply]
  cases found : List.find? (fun call : UInt8 × UInt32 => decide (call.1 = vector))
      ((List.range 256).map fun i => (UInt8.ofNat i, handler)).reverse with
  | none =>
      have absent := List.find?_eq_none.mp found (vector, handler) (by
        rw [List.mem_reverse, List.mem_map]
        exact ⟨vector.toNat, List.mem_range.mpr vector.toNat_lt, by simp⟩)
      simp at absent
  | some call =>
      have member := List.mem_of_find?_eq_some found
      rw [List.mem_reverse, List.mem_map] at member
      obtain ⟨i, -, rfl⟩ := member
      rfl

/-- Whatever is registered afterwards, the gate of a vector leads to the handler that was registered last
for it, or to the one for all. -/
theorem setIdt_run (idt : Nat → GdtDesc) (ignoreInt : UInt32) (calls : List (UInt8 × UInt32)) (vector : UInt8) :
    gateOf (calls.foldl (fun idt call => setIdt idt call.1 call.2) (setAll ignoreInt idt) vector.toNat) =
      kernelGate gdtKernelCodeSeg.toUInt16
        (((calls.reverse.find? fun call => call.1 = vector).map Prod.snd).getD ignoreInt) := by
  rw [setIdt_run_apply, setAll_apply]
  cases calls.reverse.find? fun call => call.1 = vector <;> exact makeIdtDesc_gate _ _

/-! ## The controllers -/

def pic0Imr : UInt16 := 0x21
def pic1Imr : UInt16 := 0xA1
def pic0Ocw2 : UInt16 := 0x20
def pic1Ocw2 : UInt16 := 0xA0
def picOcw2Eoi : UInt8 := (1 : UInt8) <<< 5
def picStart : Int32 := 0x20

def picInit (p : Pics) : Pics :=
  let p := p.outb 0x20 0x11
  let p := p.outb 0x21 0x20
  let p := p.outb 0x21 ((1 : UInt8) <<< 2)
  let p := p.outb 0x21 0x01
  let p := p.outb 0xA0 0x11
  let p := p.outb 0xA1 (0x20 + 8)
  let p := p.outb 0xA1 2
  let p := p.outb 0xA1 0x01
  let p := p.outb pic0Imr ((0xFF : UInt8) &&& ~~~((1 : UInt8) <<< 2))
  p.outb pic1Imr 0xFF

def picSendEoi (p : Pics) (interruptNum : Int32) : Pics :=
  let interruptNum := interruptNum - picStart
  let p := if 8 ≤ interruptNum then p.outb pic1Ocw2 picOcw2Eoi else p
  p.outb pic0Ocw2 picOcw2Eoi

/-- What `interrupt_enable` and `interrupt_disable` share. `change` gets the mask and `1 << interrupt_num`;
the result is cut off to eight bits. -/
def changeMask (change : UInt32 → UInt32 → UInt32) (p : Pics) (interruptNum : Int32) : Pics :=
  if interruptNum < picStart then p
  else
    let interruptNum := interruptNum - picStart
    if interruptNum < 8 then
      p.outb pic0Imr (change (p.inb pic0Imr).toUInt32 ((1 : UInt32) <<< interruptNum.toUInt32)).toUInt8
    else
      let interruptNum := interruptNum - 8
      p.outb pic1Imr (change (p.inb pic1Imr).toUInt32 ((1 : UInt32) <<< interruptNum.toUInt32)).toUInt8

def interruptEnable : Pics → Int32 → Pics := changeMask fun mask bit => mask &&& ~~~bit

def interruptDisable : Pics → Int32 → Pics := changeMask fun mask bit => mask ||| bit

/-- The controllers of this kernel between two interrupts. -/
structure Wired (p : Pics) : Prop where
  free : p.Free
  bases : p.master.base = 0x20 ∧ p.slave.base = 0x28

theorem picInit_eq (p : Pics) : picInit p =
    ⟨⟨.ready, false, true, 0x20, bit 2, false, 0xFB, 0, 0⟩, ⟨.ready, false, true, 0x28, 2, false, 0xFF, 0, 0⟩⟩ := rfl

theorem picInit_wired (p : Pics) : Wired (picInit p) := by
  rw [picInit_eq]
  exact ⟨⟨by decide, by decide, by decide, by decide⟩, by decide⟩

def closedLines : Lines := ⟨fun _ => false, fun line => line ≠ irq 2⟩

theorem picInit_lines (p : Pics) : (picInit p).lines = closedLines := by
  have requested : ∀ line, both 0 0 line = false := by decide
  have masked : ∀ line, both 0xFB 0xFF line = decide (line ≠ 2) := by decide
  rw [picInit_eq]
  exact congrArg₂ Lines.mk (funext requested) (funext masked)

def lineOf (interruptNum : Int32) : Option (Fin 16) :=
  (List.finRange 16).find? fun line => decide (interruptNum = 0x20 + Int32.ofNat line.val)

def maskLine (l : Lines) (interruptNum : Int32) (off : Bool) : Lines :=
  match lineOf interruptNum with
  | none => l
  | some line => l.mask line off

/-- How a change of the mask is meant: one bit, the others stay, and nothing happens to places that the mask
does not have. -/
def Changes (change : UInt32 → UInt32 → UInt32) (off : Bool) : Prop :=
  ∀ (mask : BitVec 8) (k : Fin 32) (j : Fin 8),
    (change (UInt8.ofBitVec mask).toUInt32 ((1 : UInt32) <<< UInt32.ofNat k.val)).toUInt8.toBitVec.getLsbD j =
      if j.val = k.val then off else mask.getLsbD j

theorem shifted_bit : ∀ k : Fin 32, ((1 : UInt32) <<< UInt32.ofNat k.val).toBitVec = BitVec.twoPow 32 k.val := by
  decide +kernel

theorem enable_changes : Changes (fun mask bit => mask &&& ~~~bit) false := by
  intro mask k j
  rw [UInt32.toBitVec_toUInt8, UInt32.toBitVec_and, UInt32.toBitVec_not, shifted_bit, UInt8.toBitVec_toUInt32]
  by_cases same : j.val = k.val
  · simp [same]
  · simp [same, Ne.symm same]

theorem disable_changes : Changes (fun mask bit => mask ||| bit) true := by
  intro mask k j
  rw [UInt32.toBitVec_toUInt8, UInt32.toBitVec_or, shifted_bit, UInt8.toBitVec_toUInt32]
  by_cases same : j.val = k.val
  · have inside : k.val < 8 := same ▸ j.isLt
    simp [same, inside]
  · simp [same, Ne.symm same]

theorem numbered (k : Fin 40) :
    ¬Int32.ofNat (0x20 + k.val) < picStart ∧
    (Int32.ofNat (0x20 + k.val) - picStart < 8 ↔ k.val < 8) ∧
    (k.val < 8 → (Int32.ofNat (0x20 + k.val) - picStart).toUInt32 = UInt32.ofNat k.val) ∧
    (8 ≤ k.val → (Int32.ofNat (0x20 + k.val) - picStart - 8).toUInt32 = UInt32.ofNat (k.val - 8)) ∧
    lineOf (Int32.ofNat (0x20 + k.val)) = if inside : k.val < 16 then some ⟨k.val, inside⟩ else none := by
  revert k
  decide +kernel

theorem number_cases {num : Int32} (small : num < 0x48) (from20 : ¬num < picStart) :
    ∃ k : Fin 40, num = Int32.ofNat (0x20 + k.val) := by
  have above : 0x20 ≤ num.toInt := by
    have := mt Int32.lt_iff_toInt_lt.mpr from20
    simpa [picStart] using this
  have below : num.toInt < 0x48 := Int32.lt_iff_toInt_lt.mp small
  obtain ⟨k, far⟩ := Int.eq_ofNat_of_zero_le (show 0 ≤ num.toInt - 0x20 by omega)
  refine ⟨⟨k, by omega⟩, Int32.toInt_inj.mp ?_⟩
  have here : (Int32.ofNat (0x20 + k)).toInt = (0x20 + k : Nat) := Int32.toInt_ofNat_of_lt (by omega)
  rw [here]
  omega

theorem lineOf_below {num : Int32} (below : num < picStart) : lineOf num = none := by
  have lines : ∀ line : Fin 16, ¬0x20 + Int32.ofNat line.val < picStart := by decide
  rw [lineOf, List.find?_eq_none]
  intro line _ same
  rw [of_decide_eq_true same] at below
  exact lines line below

section Masks

variable {change : UInt32 → UInt32 → UInt32} {off : Bool} {p : Pics} {num : Int32}

theorem changeMask_spec (changes : Changes change off) (ready : p.master.stage = .ready ∧ p.slave.stage = .ready)
    (small : num < 0x48) : ∃ master slave,
      changeMask change p num = ⟨{ p.master with masked := master }, { p.slave with masked := slave }⟩ ∧
      both master slave = (maskLine p.lines num off).masked := by
  have first : ∀ value, p.outb pic0Imr value = ⟨{ p.master with masked := value.toBitVec }, p.slave⟩ :=
    fun value => congrArg (Pics.mk · p.slave) (Chip.data_ready ready.1 _)
  have second : ∀ value, p.outb pic1Imr value = ⟨p.master, { p.slave with masked := value.toBitVec }⟩ :=
    fun value => congrArg (Pics.mk p.master) (Chip.data_ready ready.2 _)
  by_cases below : num < picStart
  · refine ⟨p.master.masked, p.slave.masked, ?_, ?_⟩
    · rw [changeMask, if_pos below]
    · rw [maskLine, lineOf_below below]
      rfl
  obtain ⟨k, rfl⟩ := number_cases small below
  obtain ⟨-, side, lowShift, highShift, line⟩ := numbered k
  rw [changeMask, if_neg below, maskLine, line]
  by_cases low : k.val < 8
  · refine ⟨_, p.slave.masked, (if_pos (side.mpr low)).trans (first _), ?_⟩
    rw [dif_pos (by omega), lowShift low]
    refine both_update_lower low fun j => (changes p.master.masked ⟨k.val, by omega⟩ j).trans ?_
    have place : ownLine ⟨k.val, by omega⟩ = ⟨k.val, low⟩ := Fin.ext (Nat.mod_eq_of_lt low)
    simp only [place, Fin.ext_iff]
  · refine ⟨p.master.masked, _, (if_neg (mt side.mp low)).trans (second _), ?_⟩
    rw [highShift (by omega)]
    have changed := changes p.slave.masked ⟨k.val - 8, by omega⟩
    split_ifs with inside
    · refine both_update_upper low fun j => (changed j).trans ?_
      have place : ownLine ⟨k.val, inside⟩ = ⟨k.val - 8, by omega⟩ := Fin.ext (by simp only [ownLine]; omega)
      simp only [place, Fin.ext_iff]
    · refine congrArg (both p.master.masked) (BitVec.eq_of_getLsbD_eq fun j small => ?_)
      exact (changed ⟨j, small⟩).trans (if_neg (by simp only; omega))

theorem Wired.changeMask (wired : Wired p) (changes : Changes change off) (small : num < 0x48) :
    Wired (changeMask change p num) ∧ (WegOS.changeMask change p num).lines = maskLine p.lines num off := by
  obtain ⟨master, slave, result, masked⟩ := changeMask_spec changes ⟨wired.free.master.1, wired.free.slave.1⟩ small
  have requested : (maskLine p.lines num off).requested = p.lines.requested := by
    rw [maskLine]
    cases lineOf num <;> rfl
  rw [result]
  refine ⟨⟨⟨wired.free.master, wired.free.slave, wired.free.wiring, wired.free.quiet⟩, wired.bases⟩, ?_⟩
  exact congrArg₂ Lines.mk requested.symm masked

end Masks

/-! ## Sixteen lines -/

inductive PicEvent
  | raise (line : Fin 16)
  | enable (interruptNum : Int32)
  | disable (interruptNum : Int32)
  /-- An interrupt is taken and ended with its own number, and meanwhile lines are raised. -/
  | serve (meanwhile : List (Fin 16))

def picStep (s : Pics × List (BitVec 8)) : PicEvent → Pics × List (BitVec 8)
  | .raise line => (s.1.raise line, s.2)
  | .enable interruptNum => (interruptEnable s.1 interruptNum, s.2)
  | .disable interruptNum => (interruptDisable s.1 interruptNum, s.2)
  | .serve meanwhile =>
      match s.1.acknowledge with
      | none => s
      | some (vector, p) =>
          (picSendEoi (meanwhile.foldl Pics.raise p) (Int32.ofNat vector.toNat), s.2 ++ [vector])

/-- How it is meant: of the lines that are requested and not masked, the first one is served. -/
def lineStep (s : Lines × List (Fin 16)) : PicEvent → Lines × List (Fin 16)
  | .raise line => (s.1.raise line, s.2)
  | .enable interruptNum => (maskLine s.1 interruptNum false, s.2)
  | .disable interruptNum => (maskLine s.1 interruptNum true, s.2)
  | .serve meanwhile =>
      match s.1.pick with
      | none => s
      | some line => (meanwhile.foldl Lines.raise (s.1.drop line), s.2 ++ [line])

/-- The shift of the source has a meaning. -/
def PicEvent.Shifts : PicEvent → Prop
  | .enable interruptNum => interruptNum < 0x48
  | .disable interruptNum => interruptNum < 0x48
  | _ => True

def vectorOf (line : Fin 16) : BitVec 8 := 0x20 + line.val

section Serving

variable {p : Pics}

theorem Wired.vector_eq (wired : Wired p) (line : Fin 16) : p.vector line = vectorOf line := by
  have own : (if line.val < 8 then 0x20 else 0x28) + (BitVec.ofNat 8 (ownLine line).val) = vectorOf line := by
    revert line
    decide
  rw [← own, Pics.vector, Pics.chip]
  split_ifs
  · rw [wired.bases.1]
    rfl
  · rw [wired.bases.2]
    rfl

/-- An interrupt that is ended with its own number leaves nothing behind but what was raised meanwhile. -/
theorem Wired.served (wired : Wired p) (line : Fin 16) (meanwhile : List (Fin 16)) :
    picSendEoi (meanwhile.foldl Pics.raise (p.accept line)) (Int32.ofNat (vectorOf line).toNat) =
      meanwhile.foldl Pics.raise (p.drop line) := by
  have side : 8 ≤ Int32.ofNat (vectorOf line).toNat - picStart ↔ ¬line.val < 8 := by
    revert line
    decide
  have master : ∀ q : Pics, (meanwhile.foldl Pics.raise q).outb pic0Ocw2 picOcw2Eoi =
      meanwhile.foldl Pics.raise (q.outb pic0Ocw2 picOcw2Eoi) := fun q =>
    (List.foldl_hom (Pics.outb · pic0Ocw2 picOcw2Eoi) fun q line => (q.raise_ended_master line).symm).symm
  have slave : ∀ q : Pics, (meanwhile.foldl Pics.raise q).outb pic1Ocw2 picOcw2Eoi =
      meanwhile.foldl Pics.raise (q.outb pic1Ocw2 picOcw2Eoi) := fun q =>
    (List.foldl_hom (Pics.outb · pic1Ocw2 picOcw2Eoi) fun q line => (q.raise_ended_slave line).symm).symm
  by_cases below : line.val < 8
  · have one : ¬8 ≤ Int32.ofNat (vectorOf line).toNat - picStart := fun far => side.mp far below
    simp only [picSendEoi, if_neg one]
    rw [master]
    exact congrArg (meanwhile.foldl Pics.raise) (wired.free.ended_lower below)
  · simp only [picSendEoi, if_pos (side.mpr below)]
    rw [slave, master]
    exact congrArg (meanwhile.foldl Pics.raise) (wired.free.ended_upper below)

theorem Wired.raise (wired : Wired p) (line : Fin 16) : Wired (p.raise line) := by
  refine ⟨wired.free.raise line, ?_⟩
  rw [Pics.raise]
  split_ifs <;> exact wired.bases

theorem Wired.drop (wired : Wired p) (line : Fin 16) : Wired (p.drop line) := by
  refine ⟨wired.free.drop line, ?_⟩
  rw [Pics.drop]
  split_ifs <;> exact wired.bases

theorem Wired.raises (wired : Wired p) (raised : List (Fin 16)) :
    Wired (raised.foldl Pics.raise p) ∧ (raised.foldl Pics.raise p).lines = raised.foldl Lines.raise p.lines := by
  induction raised generalizing p with
  | nil => exact ⟨wired, rfl⟩
  | cons line rest ih =>
      obtain ⟨still, lines⟩ := ih (wired.raise line)
      rw [List.foldl_cons, List.foldl_cons]
      exact ⟨still, by rw [lines, p.raise_lines]⟩

theorem Wired.step (wired : Wired p) (taken : List (Fin 16)) {event : PicEvent} (shifts : event.Shifts) :
    Wired (picStep (p, taken.map vectorOf) event).1 ∧
    (picStep (p, taken.map vectorOf) event).1.lines = (lineStep (p.lines, taken) event).1 ∧
    (picStep (p, taken.map vectorOf) event).2 = (lineStep (p.lines, taken) event).2.map vectorOf := by
  cases event with
  | raise line => exact ⟨wired.raise line, p.raise_lines line, rfl⟩
  | enable num =>
      obtain ⟨still, lines⟩ := wired.changeMask enable_changes shifts
      exact ⟨still, lines, rfl⟩
  | disable num =>
      obtain ⟨still, lines⟩ := wired.changeMask disable_changes shifts
      exact ⟨still, lines, rfl⟩
  | serve meanwhile =>
      rw [picStep, lineStep, wired.free.acknowledge_lines]
      cases p.lines.pick with
      | none => exact ⟨wired, rfl, rfl⟩
      | some line =>
          obtain ⟨still, lines⟩ := (wired.drop line).raises meanwhile
          simp only [Option.map_some, wired.vector_eq, wired.served]
          rw [p.drop_lines] at lines
          exact ⟨still, lines, by rw [List.map_append, List.map_singleton]⟩

/-- The two controllers, programmed by `pic_init` from whatever state, are sixteen lines in one order: over
every run of requests, masks and interrupts, the vectors are those of the lines that are meant. -/
theorem pic_lines (p : Pics) (events : List PicEvent) (shifts : ∀ event ∈ events, event.Shifts) :
    Wired (events.foldl picStep (picInit p, [])).1 ∧
    (events.foldl picStep (picInit p, [])).1.lines = (events.foldl lineStep (closedLines, [])).1 ∧
    (events.foldl picStep (picInit p, [])).2 = (events.foldl lineStep (closedLines, [])).2.map vectorOf := by
  induction events using List.reverseRecOn with
  | nil => exact ⟨picInit_wired p, picInit_lines p, rfl⟩
  | append_singleton events event ih =>
      obtain ⟨wired, lines, taken⟩ := ih fun event member => shifts event (List.mem_append_left _ member)
      simp only [List.foldl_append, List.foldl_cons, List.foldl_nil]
      have pair := wired.step (events.foldl lineStep (closedLines, [])).2
        (shifts event (by simp))
      rw [← taken, lines] at pair
      exact pair

/-- Line 12 waits for line 0, and line 3 stays masked. -/
theorem pic_lines_slave :
    ([.enable 0x20, .enable 0x2C, .raise 12, .raise 3, .raise 0, .serve [12], .serve [], .serve []].foldl picStep
      (picInit ⟨Chip.mk .base true true 7 7 true 7 7 7, Chip.mk .ready true true 7 7 true 7 7 7⟩, [])).2 =
        [0x20, 0x2C] := by
  rw [(pic_lines _ _ (by simp [PicEvent.Shifts])).2.2]
  decide

end Serving

end WegOS
