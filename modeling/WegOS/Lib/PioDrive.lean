import Mathlib.Data.UInt
import WegOS.Lib.CArray

/-! A drive that takes the 48-bit sector commands of ATA through its ports, word by word. -/

namespace PioDrive

open CArray

abbrev Sector := CArray UInt8 512

structure Latch where
  current : UInt8
  previous : UInt8

def Latch.push (latch : Latch) (value : UInt8) : Latch := ⟨value, latch.current⟩

/-- `left` sectors from `lba` on are still to come, and `pos` words of the first are over. -/
inductive Phase
  | idle
  | reading (lba left pos : Nat)
  | writing (lba left pos : Nat)
  deriving DecidableEq

/-- `stored` is on the medium for good, `cached` is what reads find. -/
structure Drive where
  stored : Nat → Sector
  cached : Nat → Sector
  count : Latch
  low : Latch
  mid : Latch
  high : Latch
  phase : Phase
  buffer : Nat → UInt8
  busy : Nat
  clock : Nat

/-- For each moment: for how many accesses the drive is busy with a sector, for how many with what it
was last given to write, and the status bits that a command leaves open. -/
structure Timing where
  delay : Nat → Nat
  settle : Nat → Nat
  noise : Nat → UInt8

def joinBytes (low high : UInt8) : UInt16 := low.toUInt16 + 256 * high.toUInt16

def lowByte (word : UInt16) : UInt8 := word.toUInt8

def highByte (word : UInt16) : UInt8 := (word / 256).toUInt8

theorem lowByte_join (low high : UInt8) : lowByte (joinBytes low high) = low := by
  apply UInt8.toNat_inj.mp
  have first := low.toNat_lt
  have second := high.toNat_lt
  simp [lowByte, joinBytes]

theorem highByte_join (low high : UInt8) : highByte (joinBytes low high) = high := by
  apply UInt8.toNat_inj.mp
  have first := low.toNat_lt
  have second := high.toNat_lt
  simp [highByte, joinBytes]
  omega

namespace Drive

variable (timing : Timing)

/-- Every access takes its time. -/
def pass (d : Drive) : Drive := { d with busy := d.busy - 1, clock := d.clock + 1 }

def lba (d : Drive) : Nat :=
  d.low.current.toNat + 2 ^ 8 * d.mid.current.toNat + 2 ^ 16 * d.high.current.toNat +
    2 ^ 24 * d.low.previous.toNat + 2 ^ 32 * d.mid.previous.toNat + 2 ^ 40 * d.high.previous.toNat

def sectors (d : Drive) : Nat :=
  let n := d.count.current.toNat + 2 ^ 8 * d.count.previous.toNat
  if n = 0 then 65536 else n

def command (d : Drive) (code : UInt8) : Drive :=
  if code = 0x24 then { d with phase := .reading d.lba d.sectors 0, busy := timing.delay d.clock }
  else if code = 0x34 then { d with phase := .writing d.lba d.sectors 0, busy := timing.delay d.clock }
  else if code = 0xE7 then { d with stored := d.cached, busy := timing.settle d.clock }
  else d

/-- A drive with something to do takes no commands. -/
def outb (d : Drive) (port : UInt16) (value : UInt8) : Drive :=
  if d.busy ≠ 0 ∨ d.phase ≠ .idle then d.pass
  else if port = 0x1F2 then { d.pass with count := d.count.push value }
  else if port = 0x1F3 then { d.pass with low := d.low.push value }
  else if port = 0x1F4 then { d.pass with mid := d.mid.push value }
  else if port = 0x1F5 then { d.pass with high := d.high.push value }
  else if port = 0x1F7 then d.pass.command timing value
  else d.pass

def status (d : Drive) : UInt8 :=
  if d.busy ≠ 0 then timing.noise d.clock ||| 0x80
  else if d.phase = .idle then timing.noise d.clock &&& 0x77
  else timing.noise d.clock &&& 0x77 ||| 0x08

def inb (d : Drive) (port : UInt16) : UInt8 × Drive :=
  (if port = 0x1F7 then d.status timing else timing.noise d.clock, d.pass)

/-- Where a sector ends, the next one or none follows. -/
def inw (d : Drive) (port : UInt16) : UInt16 × Drive :=
  if d.busy ≠ 0 ∨ port ≠ 0x1F0 then ((timing.noise d.clock).toUInt16, d.pass)
  else
    match d.phase with
    | .reading lba left pos =>
        let word := joinBytes ((d.cached lba).cell (2 * pos)) ((d.cached lba).cell (2 * pos + 1))
        if pos + 1 < 256 then (word, { d.pass with phase := .reading lba left (pos + 1) })
        else if left = 1 then (word, { d.pass with phase := .idle })
        else (word, { d.pass with phase := .reading (lba + 1) (left - 1) 0, busy := timing.delay d.clock })
    | .idle => ((timing.noise d.clock).toUInt16, d.pass)
    | .writing _ _ _ => ((timing.noise d.clock).toUInt16, d.pass)

def outw (d : Drive) (port : UInt16) (word : UInt16) : Drive :=
  if d.busy ≠ 0 ∨ port ≠ 0x1F0 then d.pass
  else
    match d.phase with
    | .writing lba left pos =>
        let buffer := Function.update (Function.update d.buffer (2 * pos) (lowByte word)) (2 * pos + 1) (highByte word)
        let d := { d.pass with buffer := buffer }
        if pos + 1 < 256 then { d with phase := .writing lba left (pos + 1) }
        else
          let cached := Function.update d.cached lba (ofCells 512 buffer)
          if left = 1 then { d with cached := cached, phase := .idle, busy := timing.settle d.clock }
          else { d with cached := cached, phase := .writing (lba + 1) (left - 1) 0, busy := timing.delay d.clock }
    | .idle => d.pass
    | .reading _ _ _ => d.pass

structure Ready (d : Drive) : Prop where
  idle : d.phase = .idle
  free : d.busy = 0

/-! ## What the accesses do -/

structure Holds (d : Drive) (phase : Phase) (fuel : Nat) : Prop where
  reached : d.phase = phase
  soon : d.busy < fuel
  free : phase = .idle → d.busy = 0

variable {timing} {d : Drive} {lba left pos fuel : Nat}

theorem outb_command (idle : d.phase = .idle) (free : d.busy = 0) (code : UInt8) :
    d.outb timing 0x1F7 code = d.pass.command timing code := by
  simp [outb, idle, free]

theorem command_read (d : Drive) : d.command timing 0x24 =
    { d with phase := .reading d.lba d.sectors 0, busy := timing.delay d.clock } := if_pos rfl

theorem command_write (d : Drive) : d.command timing 0x34 =
    { d with phase := .writing d.lba d.sectors 0, busy := timing.delay d.clock } := by
  rw [command, if_neg (by decide), if_pos rfl]

theorem command_flush (d : Drive) : d.command timing 0xE7 =
    { d with stored := d.cached, busy := timing.settle d.clock } := by
  rw [command, if_neg (by decide), if_neg (by decide), if_pos rfl]

theorem outb_ignored (working : d.phase ≠ .idle) (port : UInt16) (value : UInt8) :
    d.outb timing port value = d.pass := if_pos (Or.inr working)

theorem status_data : (d.inb timing 0x1F7).1 &&& 0x88 = 0x8 ↔ d.busy = 0 ∧ d.phase ≠ .idle := by
  have taken : ∀ bits : UInt8, (bits ||| 0x80) &&& 0x88 ≠ 0x8 := by
    rintro ⟨bits⟩
    revert bits
    decide +kernel
  have nothing : ∀ bits : UInt8, bits &&& 0x77 &&& 0x88 ≠ 0x8 := by
    rintro ⟨bits⟩
    revert bits
    decide +kernel
  have data : ∀ bits : UInt8, (bits &&& 0x77 ||| 0x08) &&& 0x88 = 0x8 := by
    rintro ⟨bits⟩
    revert bits
    decide +kernel
  simp only [inb, if_true, status]
  split_ifs with working idle
  · simp [taken, working]
  · simp [nothing, idle]
  · simp [data, not_ne_iff.mp working, idle]

def atSector (phase : Nat → Nat → Nat → Phase) (lba left : Nat) : Phase :=
  if left = 0 then .idle else phase lba left 0

theorem inw_reading (phase : d.phase = .reading lba (left + 1) pos) (free : d.busy = 0) (inside : pos < 256) :
    ∃ d', d.inw timing 0x1F0 =
        (joinBytes ((d.cached lba).cell (2 * pos)) ((d.cached lba).cell (2 * pos + 1)), d') ∧
      d'.stored = d.stored ∧ d'.cached = d.cached ∧
      (pos + 1 < 256 → d'.phase = .reading lba (left + 1) (pos + 1) ∧ d'.busy = 0) ∧
      (pos + 1 = 256 → (∀ i, timing.delay i < fuel) → d'.Holds (atSector .reading (lba + 1) left) fuel) := by
  rw [inw, if_neg (by simp [free]), phase]
  simp only
  split_ifs with more last
  · refine ⟨_, rfl, rfl, rfl, fun _ => ⟨rfl, ?_⟩, fun full => by omega⟩
    simp [pass, free]
  · refine ⟨_, rfl, rfl, rfl, fun few => absurd few more, fun _ soon => ⟨?_, ?_, fun _ => ?_⟩⟩
    · simp [atSector, show left = 0 by omega]
    · have positive := soon 0
      simp only [pass, free]
      omega
    · simp [pass, free]
  · refine ⟨_, rfl, rfl, rfl, fun few => absurd few more, fun _ soon => ⟨?_, soon _, fun idle => absurd idle ?_⟩⟩
    · simp [atSector, show left ≠ 0 by omega]
    · simp [atSector, show left ≠ 0 by omega]

theorem outw_writing (phase : d.phase = .writing lba (left + 1) pos) (free : d.busy = 0) (inside : pos < 256)
    (word : UInt16) : ∃ d', d.outw timing 0x1F0 word = d' ∧ d'.stored = d.stored ∧
      d'.buffer = Function.update (Function.update d.buffer (2 * pos) (lowByte word)) (2 * pos + 1) (highByte word) ∧
      (pos + 1 < 256 → d'.phase = .writing lba (left + 1) (pos + 1) ∧ d'.busy = 0 ∧ d'.cached = d.cached) ∧
      (pos + 1 = 256 → (∀ i, timing.delay i < fuel) → (∀ i, timing.settle i = 0) →
        d'.Holds (atSector .writing (lba + 1) left) fuel ∧
          d'.cached = Function.update d.cached lba (ofCells 512 d'.buffer)) := by
  rw [outw, if_neg (by simp [free]), phase]
  simp only
  split_ifs with more last
  · refine ⟨_, rfl, rfl, rfl, fun _ => ⟨rfl, ?_, rfl⟩, fun full => by omega⟩
    simp [pass, free]
  · refine ⟨_, rfl, rfl, rfl, fun few => absurd few more, fun _ soon prompt => ⟨⟨?_, ?_, fun _ => prompt _⟩, rfl⟩⟩
    · simp [atSector, show left = 0 by omega]
    · simp only [prompt]
      exact Nat.zero_lt_of_lt (soon 0)
  · refine ⟨_, rfl, rfl, rfl, fun few => absurd few more,
      fun _ soon _ => ⟨⟨?_, soon _, fun idle => absurd idle ?_⟩, rfl⟩⟩
    · simp [atSector, show left ≠ 0 by omega]
    · simp [atSector, show left ≠ 0 by omega]

end Drive

end PioDrive
