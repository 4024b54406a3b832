import WegOS.Execve
import WegOS.Lib.PioDrive

/-! `read_disk` and `write_disk` over the ports of the drive.

`none` stands for a poll of the status that never ends. -/

namespace WegOS.Ports

open CArray PioDrive

def sectorSize : Nat := 0x200

section Driver

variable (timing : Timing)

def waitData : Nat → Drive → Option Drive
  | 0, _ => none
  | fuel + 1, d =>
      let (status, d) := d.inb timing 0x1F7
      if status &&& 0x88 ≠ 0x8 then waitData fuel d else some d

def setSectors (sector sectorCount : UInt32) (d : Drive) : Drive :=
  let d := d.outb timing 0x1F6 0xE0
  let d := d.outb timing 0x1F2 (sectorCount >>> 8).toUInt8
  let d := d.outb timing 0x1F3 (sector >>> 24).toUInt8
  let d := d.outb timing 0x1F4 0
  let d := d.outb timing 0x1F5 0
  let d := d.outb timing 0x1F2 sectorCount.toUInt8
  let d := d.outb timing 0x1F3 sector.toUInt8
  let d := d.outb timing 0x1F4 (sector >>> 8).toUInt8
  d.outb timing 0x1F5 (sector >>> 16).toUInt8

def readWords : Nat → (Nat → UInt8) → Nat → Drive → (Nat → UInt8) × Drive
  | 0, buf, _, d => (buf, d)
  | n + 1, buf, place, d =>
      let (word, d) := d.inw timing 0x1F0
      let buf := Function.update (Function.update buf place (lowByte word)) (place + 1) (highByte word)
      readWords n buf (place + 2) d

def readSectors (fuel : Nat) : Nat → (Nat → UInt8) → Nat → Drive → Option ((Nat → UInt8) × Drive)
  | 0, buf, _, d => some (buf, d)
  | sectorCount + 1, buf, place, d => do
      let d ← waitData timing fuel d
      let (buf, d) := readWords timing (sectorSize / 2) buf place d
      readSectors fuel sectorCount buf (place + 512) d

def readDisk (fuel : Nat) (sector sectorCount : UInt32) (buf : Nat → UInt8) (d : Drive) :
    Option ((Nat → UInt8) × Drive) :=
  let d := setSectors timing sector sectorCount d
  let d := d.outb timing 0x1F7 0x24
  readSectors timing fuel sectorCount.toNat buf 0 d

def writeWords (buf : Nat → UInt8) : Nat → Nat → Drive → Drive
  | 0, _, d => d
  | n + 1, place, d =>
      let d := d.outw timing 0x1F0 (joinBytes (buf place) (buf (place + 1)))
      writeWords buf n (place + 2) d

def writeSectors (fuel : Nat) (buf : Nat → UInt8) : Nat → Nat → Drive → Option Drive
  | 0, _, d => some d
  | sectorCount + 1, place, d => do
      let d ← waitData timing fuel d
      let d := writeWords timing buf (sectorSize / 2) place d
      writeSectors fuel buf sectorCount (place + 512) d

def writeDisk (fuel : Nat) (sector sectorCount : UInt32) (buf : Nat → UInt8) (d : Drive) : Option Drive := do
  let d := setSectors timing sector sectorCount d
  let d := d.outb timing 0x1F7 0x34
  let d ← writeSectors timing fuel buf sectorCount.toNat 0 d
  pure (d.outb timing 0x1F7 0xE7)

end Driver

variable {timing : Timing} {d : Drive} {phase : Phase} {fuel lba left : Nat}

/-! ## Polling -/

theorem waitData_succ (fuel : Nat) (d : Drive) : waitData timing (fuel + 1) d =
    if (d.inb timing 0x1F7).1 &&& 0x88 ≠ 0x8 then waitData timing fuel d.pass else some d.pass := rfl

theorem waitData_some (holds : d.Holds phase fuel) (data : phase ≠ .idle) :
    ∃ d', waitData timing fuel d = some d' ∧ d'.phase = phase ∧ d'.busy = 0 ∧ d'.stored = d.stored ∧
      d'.cached = d.cached ∧ d'.buffer = d.buffer := by
  have working : d.phase ≠ .idle := by
    rw [holds.reached]
    exact data
  have soon := holds.soon
  induction fuel generalizing d with
  | zero => omega
  | succ fuel ih =>
      by_cases free : d.busy = 0
      · refine ⟨d.pass, ?_, holds.reached, ?_, rfl, rfl, rfl⟩
        · rw [waitData_succ, if_neg (not_not.mpr (Drive.status_data.mpr ⟨free, working⟩))]
        · simp [Drive.pass, free]
      · have left : d.pass.busy < fuel := by
          simp only [Drive.pass]
          omega
        obtain ⟨d', waited, after⟩ :=
          @ih d.pass ⟨holds.reached, left, fun idle => absurd idle data⟩ working left
        refine ⟨d', ?_, after⟩
        rw [waitData_succ, if_pos fun ready => free (Drive.status_data.mp ready).1]
        exact waited

theorem waitData_idle (idle : d.phase = .idle) (fuel : Nat) : waitData timing fuel d = none := by
  induction fuel generalizing d with
  | zero => rfl
  | succ fuel ih =>
      rw [waitData_succ, if_pos fun ready => (Drive.status_data.mp ready).2 idle]
      exact ih idle

/-! ## Reading -/

theorem memcpy_word (buf source : Nat → UInt8) (place n : Nat) :
    memcpy (Function.update (Function.update buf place (source 0)) (place + 1) (source 1)) (place + 2)
      (fun i => source (2 + i)) n = memcpy buf place source (n + 2) := by
  funext i
  simp only [memcpy, Function.update_apply]
  split_ifs with inside here there there here' whole whole'
  all_goals try omega
  all_goals first | rfl | (congr 1; omega)

theorem readWords_spec (soon : ∀ i, timing.delay i < fuel) {words pos : Nat} (whole : pos + words = 256)
    (some : 0 < words) (buf : Nat → UInt8) (place : Nat) (phase : d.phase = .reading lba (left + 1) pos)
    (free : d.busy = 0) :
    ∃ d', readWords timing words buf place d =
        (memcpy buf place (fun i => (d.cached lba).cell (2 * pos + i)) (2 * words), d') ∧
      d'.stored = d.stored ∧ d'.cached = d.cached ∧ d'.Holds (Drive.atSector .reading (lba + 1) left) fuel := by
  obtain ⟨n, rfl⟩ := Nat.exists_eq_succ_of_ne_zero some.ne'
  clear some
  obtain ⟨next, input, stored, cached, goesOn, ends⟩ :=
    @Drive.inw_reading timing d lba left pos fuel phase free (by omega)
  induction n generalizing pos buf place d next with
  | zero =>
      refine ⟨next, ?_, stored, cached, ends whole soon⟩
      simp only [readWords, input, lowByte_join, highByte_join]
      have joint := memcpy_word buf (fun i => (d.cached lba).cell (2 * pos + i)) place 0
      rw [← joint, memcpy_none]
      rfl
  | succ n ih =>
      obtain ⟨reads, free'⟩ := goesOn (by omega)
      obtain ⟨next', input', stored', cached', goesOn', ends'⟩ :=
        @Drive.inw_reading timing next lba left (pos + 1) fuel reads free' (by omega)
      obtain ⟨d', rest, kept, same, after⟩ := ih
        (Function.update (Function.update buf place ((d.cached lba).cell (2 * pos))) (place + 1)
          ((d.cached lba).cell (2 * pos + 1))) (place + 2) reads free' (by omega) next'
        input' stored' cached' goesOn' ends'
      refine ⟨d', ?_, kept.trans stored, same.trans cached, after⟩
      rw [readWords, input]
      simp only [lowByte_join, highByte_join]
      rw [rest, cached]
      have joint := memcpy_word buf (fun i => (d.cached lba).cell (2 * pos + i)) place (2 * (n + 1))
      have further : (fun i => (d.cached lba).cell (2 * pos + (2 + i))) =
          fun i => (d.cached lba).cell (2 * (pos + 1) + i) := by
        funext i
        rw [show 2 * pos + (2 + i) = 2 * (pos + 1) + i by omega]
      rw [further] at joint
      exact Prod.ext joint rfl

def sectorBytes (media : Nat → Sector) (lba : Nat) (i : Nat) : UInt8 := (media (lba + i / 512)).cell (i % 512)

theorem sectorBytes_next (media : Nat → Sector) (lba : Nat) :
    (fun i => sectorBytes media lba (512 + i)) = sectorBytes media (lba + 1) := by
  funext i
  rw [sectorBytes, sectorBytes, show (512 + i) / 512 = 1 + i / 512 by omega, show (512 + i) % 512 = i % 512 by omega,
    Nat.add_assoc]

theorem readSectors_succ (soon : ∀ i, timing.delay i < fuel)
    (holds : d.Holds (Drive.atSector .reading lba (left + 1)) fuel) (n : Nat) (buf : Nat → UInt8) (place : Nat) :
    ∃ d', readSectors timing fuel (n + 1) buf place d =
        readSectors timing fuel n (memcpy buf place (sectorBytes d.cached lba) 512) (place + 512) d' ∧
      d'.stored = d.stored ∧ d'.cached = d.cached ∧ d'.Holds (Drive.atSector .reading (lba + 1) left) fuel := by
  have start : Drive.atSector .reading lba (left + 1) = .reading lba (left + 1) 0 := rfl
  rw [start] at holds
  obtain ⟨mid, waited, phase, free, stored, cached, -⟩ := @waitData_some timing _ _ _ holds (by simp)
  obtain ⟨d', read, stored', cached', after⟩ := readWords_spec soon (show 0 + sectorSize / 2 = 256 from rfl)
    (show 0 < sectorSize / 2 by decide) buf place phase free
  refine ⟨d', ?_, stored'.trans stored, cached'.trans cached, after⟩
  rw [readSectors, waited]
  simp only [Option.bind_eq_bind, Option.bind_some]
  rw [read, cached]
  have bytes : memcpy buf place (fun i => (d.cached lba).cell (2 * 0 + i)) (2 * (sectorSize / 2)) =
      memcpy buf place (sectorBytes d.cached lba) 512 := by
    apply memcpy_congr
    intro i small
    have inside : i < 512 := small
    rw [sectorBytes, Nat.div_eq_of_lt inside, Nat.mod_eq_of_lt inside, Nat.mul_zero, Nat.zero_add, Nat.add_zero]
  exact congrArg (fun buf => readSectors timing fuel n buf (place + 512) d') bytes

theorem readSectors_spec (soon : ∀ i, timing.delay i < fuel) {n : Nat}
    (holds : d.Holds (Drive.atSector .reading lba (n + left)) fuel) (buf : Nat → UInt8) (place : Nat) :
    ∃ d', readSectors timing fuel n buf place d = some (memcpy buf place (sectorBytes d.cached lba) (512 * n), d') ∧
      d'.stored = d.stored ∧ d'.cached = d.cached ∧ d'.Holds (Drive.atSector .reading (lba + n) left) fuel := by
  induction n generalizing lba buf place d with
  | zero =>
      rw [Nat.zero_add] at holds
      exact ⟨d, by rw [readSectors, memcpy_none], rfl, rfl, holds⟩
  | succ n ih =>
      rw [show n + 1 + left = n + left + 1 by omega] at holds
      obtain ⟨mid, turn, stored, cached, next⟩ := readSectors_succ soon holds n buf place
      obtain ⟨d', rest, stored', cached', after⟩ :=
        ih next (memcpy buf place (sectorBytes d.cached lba) 512) (place + 512)
      refine ⟨d', ?_, stored'.trans stored, cached'.trans cached, ?_⟩
      · rw [turn, rest, cached, ← sectorBytes_next, memcpy_append, Nat.mul_succ, Nat.add_comm 512]
      · rwa [show lba + (n + 1) = lba + 1 + n by omega]

/-- More sectors than the drive has been asked for never come. -/
theorem readSectors_none (soon : ∀ i, timing.delay i < fuel) {n : Nat} (more : left < n)
    (holds : d.Holds (Drive.atSector .reading lba left) fuel) (buf : Nat → UInt8) (place : Nat) :
    readSectors timing fuel n buf place d = none := by
  induction n generalizing lba left buf place d with
  | zero => omega
  | succ n ih =>
      cases left with
      | zero =>
          rw [readSectors, waitData_idle holds.reached]
          rfl
      | succ left =>
          obtain ⟨mid, turn, -, -, next⟩ := readSectors_succ soon holds n buf place
          rw [turn]
          exact ih (by omega) next _ _

/-! ## Writing -/

theorem writeWords_spec (soon : ∀ i, timing.delay i < fuel) (prompt : ∀ i, timing.settle i = 0) {words pos : Nat}
    (whole : pos + words = 256) (some : 0 < words) (buf : Nat → UInt8) (place : Nat)
    (phase : d.phase = .writing lba (left + 1) pos) (free : d.busy = 0) :
    (writeWords timing buf words place d).stored = d.stored ∧
      (writeWords timing buf words place d).cached = Function.update d.cached lba
        (ofCells 512 (memcpy d.buffer (2 * pos) (fun i => buf (place + i)) (2 * words))) ∧
      (writeWords timing buf words place d).Holds (Drive.atSector .writing (lba + 1) left) fuel := by
  obtain ⟨n, rfl⟩ := Nat.exists_eq_succ_of_ne_zero some.ne'
  clear some
  induction n generalizing pos place d with
  | zero =>
      obtain ⟨d', output, stored, buffer, -, ends⟩ := @Drive.outw_writing timing d lba left pos fuel phase free
        (by omega) (joinBytes (buf place) (buf (place + 1)))
      obtain ⟨after, cached⟩ := ends whole soon prompt
      simp only [writeWords, output]
      refine ⟨stored, ?_, after⟩
      have joint := memcpy_word d.buffer (fun i => buf (place + i)) (2 * pos) 0
      rw [memcpy_none] at joint
      rw [cached, buffer, lowByte_join, highByte_join]
      exact congrArg (fun cells => Function.update d.cached lba (ofCells 512 cells)) joint
  | succ n ih =>
      obtain ⟨mid, output, stored, buffer, goesOn, -⟩ := @Drive.outw_writing timing d lba left pos fuel phase free
        (by omega) (joinBytes (buf place) (buf (place + 1)))
      obtain ⟨phase', free', cached⟩ := goesOn (by omega)
      obtain ⟨stored', cached', after⟩ := @ih mid (pos + 1) (place + 2) phase' free' (by omega)
      have unfolded : writeWords timing buf (n + 1 + 1) place d = writeWords timing buf (n + 1) (place + 2) mid := by
        rw [writeWords, output]
      rw [unfolded]
      refine ⟨stored'.trans stored, ?_, after⟩
      have joint := memcpy_word d.buffer (fun i => buf (place + i)) (2 * pos) (2 * (n + 1))
      rw [cached', cached, buffer, lowByte_join, highByte_join]
      have further : (fun i => buf (place + (2 + i))) = fun i => buf (place + 2 + i) := by
        funext i
        rw [Nat.add_assoc]
      rw [further] at joint
      exact congrArg (fun cells => Function.update d.cached lba (ofCells 512 cells)) joint

def putSectors (media : Nat → Sector) (lba n : Nat) (buf : Nat → UInt8) (s : Nat) : Sector :=
  if lba ≤ s ∧ s < lba + n then ofCells 512 fun i => buf (512 * (s - lba) + i) else media s

theorem putSectors_succ (media : Nat → Sector) (lba n : Nat) (buf : Nat → UInt8) :
    putSectors (Function.update media lba (ofCells 512 buf)) (lba + 1) n (fun i => buf (512 + i)) =
      putSectors media lba (n + 1) buf := by
  funext s
  simp only [putSectors, Function.update_apply]
  by_cases first : s = lba
  · subst first
    rw [if_neg (by omega), if_pos rfl, if_pos (by omega), Nat.sub_self, Nat.mul_zero]
    simp only [Nat.zero_add]
  · by_cases inside : lba + 1 ≤ s ∧ s < lba + 1 + n
    · rw [if_pos inside, if_pos (by omega)]
      have later : (fun i => buf (512 + (512 * (s - (lba + 1)) + i))) = fun i => buf (512 * (s - lba) + i) := by
        funext i
        rw [show 512 + (512 * (s - (lba + 1)) + i) = 512 * (s - lba) + i by omega]
      rw [later]
    · rw [if_neg inside, if_neg first, if_neg (by omega)]

theorem writeSectors_succ (soon : ∀ i, timing.delay i < fuel) (prompt : ∀ i, timing.settle i = 0)
    (holds : d.Holds (Drive.atSector .writing lba (left + 1)) fuel) (buf : Nat → UInt8) (n place : Nat) :
    ∃ d', writeSectors timing fuel buf (n + 1) place d = writeSectors timing fuel buf n (place + 512) d' ∧
      d'.stored = d.stored ∧ d'.cached = Function.update d.cached lba (ofCells 512 fun i => buf (place + i)) ∧
      d'.Holds (Drive.atSector .writing (lba + 1) left) fuel := by
  have start : Drive.atSector .writing lba (left + 1) = .writing lba (left + 1) 0 := rfl
  rw [start] at holds
  obtain ⟨mid, waited, phase, free, stored, cached, -⟩ := @waitData_some timing _ _ _ holds (by simp)
  obtain ⟨stored', cached', after⟩ := writeWords_spec soon prompt (show 0 + sectorSize / 2 = 256 from rfl)
    (show 0 < sectorSize / 2 by decide) buf place phase free
  generalize written : writeWords timing buf (sectorSize / 2) place mid = d' at stored' cached' after
  refine ⟨d', ?_, stored'.trans stored, ?_, after⟩
  · simp only [writeSectors, waited, Option.bind_eq_bind, Option.bind_some, written]
  · have whole : ofCells 512 (memcpy mid.buffer (2 * 0) (fun i => buf (place + i)) (2 * (sectorSize / 2))) =
        ofCells 512 fun i => buf (place + i) := by
      apply ofCells_congr
      intro i inside
      exact memcpy_inside (Nat.zero_le i) inside
    rw [cached', cached, whole]

theorem writeSectors_spec (soon : ∀ i, timing.delay i < fuel) (prompt : ∀ i, timing.settle i = 0) {n : Nat}
    (holds : d.Holds (Drive.atSector .writing lba (n + left)) fuel) (buf : Nat → UInt8) (place : Nat) :
    ∃ d', writeSectors timing fuel buf n place d = some d' ∧ d'.stored = d.stored ∧
      d'.cached = putSectors d.cached lba n (fun i => buf (place + i)) ∧
      d'.Holds (Drive.atSector .writing (lba + n) left) fuel := by
  induction n generalizing lba place d with
  | zero =>
      rw [Nat.zero_add] at holds
      refine ⟨d, rfl, rfl, ?_, holds⟩
      funext s
      exact (if_neg (by omega)).symm
  | succ n ih =>
      rw [show n + 1 + left = n + left + 1 by omega] at holds
      obtain ⟨mid, turn, stored, cached, next⟩ := writeSectors_succ soon prompt holds buf n place
      obtain ⟨d', rest, stored', cached', after⟩ := ih next (place + 512)
      refine ⟨d', turn.trans rest, stored'.trans stored, ?_, ?_⟩
      · rw [cached', cached, ← putSectors_succ]
        simp only [Nat.add_assoc]
      · rwa [show lba + (n + 1) = lba + 1 + n by omega]

theorem writeSectors_none (soon : ∀ i, timing.delay i < fuel) (prompt : ∀ i, timing.settle i = 0) {n : Nat}
    (more : left < n) (holds : d.Holds (Drive.atSector .writing lba left) fuel) (buf : Nat → UInt8) (place : Nat) :
    writeSectors timing fuel buf n place d = none := by
  induction n generalizing lba left place d with
  | zero => omega
  | succ n ih =>
      cases left with
      | zero =>
          rw [writeSectors, waitData_idle holds.reached]
          rfl
      | succ left =>
          obtain ⟨mid, turn, -, -, next⟩ := writeSectors_succ soon prompt holds buf n place
          rw [turn]
          exact ih (by omega) next _

/-! ## The calls -/

/-- How many sectors the drive understands. -/
def sectorsAsked (sectorCount : UInt32) : Nat :=
  if sectorCount.toNat % 65536 = 0 then 65536 else sectorCount.toNat % 65536

theorem setSectors_spec (ready : d.Ready) (sector sectorCount : UInt32) :
    (setSectors timing sector sectorCount d).Ready ∧
      (setSectors timing sector sectorCount d).stored = d.stored ∧
      (setSectors timing sector sectorCount d).cached = d.cached ∧
      (setSectors timing sector sectorCount d).lba = sector.toNat ∧
      (setSectors timing sector sectorCount d).sectors = sectorsAsked sectorCount := by
  obtain ⟨idle, free⟩ := ready
  obtain ⟨stored, cached, count, low, mid, high, phase, buffer, busy, clock⟩ := d
  obtain rfl : phase = .idle := idle
  obtain rfl : busy = 0 := free
  have small := sector.toNat_lt
  have few := sectorCount.toNat_lt
  refine ⟨⟨?_, ?_⟩, ?_, ?_, ?_, ?_⟩
  · simp [setSectors, Drive.outb, Drive.pass]
  · simp [setSectors, Drive.outb, Drive.pass]
  · simp [setSectors, Drive.outb, Drive.pass]
  · simp [setSectors, Drive.outb, Drive.pass]
  · simp [setSectors, Drive.outb, Drive.pass, Drive.lba, Latch.push, Nat.shiftRight_eq_div_pow]
    omega
  · simp [setSectors, Drive.outb, Drive.pass, Drive.sectors, sectorsAsked, Latch.push, Nat.shiftRight_eq_div_pow]
    split_ifs <;> omega

theorem sectorsAsked_pos (sectorCount : UInt32) : 0 < sectorsAsked sectorCount := by
  unfold sectorsAsked
  split_ifs <;> omega

theorem sectorsAsked_iff (sectorCount : UInt32) :
    sectorCount.toNat = sectorsAsked sectorCount ↔ 0 < sectorCount.toNat ∧ sectorCount.toNat ≤ 65536 := by
  unfold sectorsAsked
  split_ifs <;> omega

theorem read_asked (ready : d.Ready) (soon : ∀ i, timing.delay i < fuel) (sector sectorCount : UInt32) :
    ∃ d', (setSectors timing sector sectorCount d).outb timing 0x1F7 0x24 = d' ∧ d'.stored = d.stored ∧
      d'.cached = d.cached ∧ d'.Holds (Drive.atSector .reading sector.toNat (sectorsAsked sectorCount)) fuel := by
  have set := @setSectors_spec timing d ready sector sectorCount
  generalize setSectors timing sector sectorCount d = asked at set ⊢
  obtain ⟨⟨idle, free⟩, stored, cached, lba, sectors⟩ := set
  have some : sectorsAsked sectorCount ≠ 0 := (sectorsAsked_pos sectorCount).ne'
  rw [Drive.outb_command idle free, Drive.command_read]
  refine ⟨_, rfl, stored, cached, ?_, soon _, fun wrong => ?_⟩
  · rw [Drive.atSector, if_neg some, ← lba, ← sectors]
    rfl
  · rw [Drive.atSector, if_neg some] at wrong
    cases wrong

theorem write_asked (ready : d.Ready) (soon : ∀ i, timing.delay i < fuel) (sector sectorCount : UInt32) :
    ∃ d', (setSectors timing sector sectorCount d).outb timing 0x1F7 0x34 = d' ∧ d'.stored = d.stored ∧
      d'.cached = d.cached ∧ d'.Holds (Drive.atSector .writing sector.toNat (sectorsAsked sectorCount)) fuel := by
  have set := @setSectors_spec timing d ready sector sectorCount
  generalize setSectors timing sector sectorCount d = asked at set ⊢
  obtain ⟨⟨idle, free⟩, stored, cached, lba, sectors⟩ := set
  have some : sectorsAsked sectorCount ≠ 0 := (sectorsAsked_pos sectorCount).ne'
  rw [Drive.outb_command idle free, Drive.command_write]
  refine ⟨_, rfl, stored, cached, ?_, soon _, fun wrong => ?_⟩
  · rw [Drive.atSector, if_neg some, ← lba, ← sectors]
    rfl
  · rw [Drive.atSector, if_neg some] at wrong
    cases wrong

/-- `read_disk` comes back with the sectors, and with the drive free for the next command, exactly
if it is called for 1 to 65536 of them. -/
theorem read_disk_iff (ready : d.Ready) (soon : ∀ i, timing.delay i < fuel) (sector sectorCount : UInt32)
    (buf : Nat → UInt8) :
    (∃ d', readDisk timing fuel sector sectorCount buf d =
        some (memcpy buf 0 (sectorBytes d.cached sector.toNat) (512 * sectorCount.toNat), d') ∧
      d'.Ready ∧ d'.stored = d.stored ∧ d'.cached = d.cached) ↔
      0 < sectorCount.toNat ∧ sectorCount.toNat ≤ 65536 := by
  obtain ⟨asked, command, stored, cached, holds⟩ := read_asked ready soon sector sectorCount
  have call : readDisk timing fuel sector sectorCount buf d =
      readSectors timing fuel sectorCount.toNat buf 0 asked := by rw [readDisk, command]
  rw [call, ← sectorsAsked_iff]
  constructor
  · rintro ⟨d', result, ready', -⟩
    by_contra different
    rcases Nat.lt_or_gt_of_ne different with few | many
    · obtain ⟨left, split⟩ := Nat.exists_eq_add_of_lt few
      rw [show sectorsAsked sectorCount = sectorCount.toNat + (left + 1) by omega] at holds
      obtain ⟨after, read, -, -, waits⟩ := readSectors_spec soon holds buf 0
      rw [read, Option.some.injEq, Prod.mk.injEq] at result
      obtain ⟨-, rfl⟩ := result
      have phase := waits.reached.symm.trans ready'.idle
      cases phase
    · rw [readSectors_none soon many holds] at result
      cases result
  · intro exactly
    rw [← exactly, ← Nat.add_zero sectorCount.toNat] at holds
    obtain ⟨after, read, stored', cached', rests⟩ := readSectors_spec soon holds buf 0
    rw [cached] at read
    exact ⟨after, read, ⟨rests.reached, rests.free rfl⟩, stored'.trans stored, cached'.trans cached⟩

/-- `write_disk` does so, with everything on the medium, if the drive does not take its time over the
last sector: nobody waits for it before the flush. -/
theorem write_disk_iff (ready : d.Ready) (soon : ∀ i, timing.delay i < fuel) (prompt : ∀ i, timing.settle i = 0)
    (sector sectorCount : UInt32) (buf : Nat → UInt8) :
    (∃ d', writeDisk timing fuel sector sectorCount buf d = some d' ∧ d'.Ready ∧ d'.stored = d'.cached ∧
      d'.cached = putSectors d.cached sector.toNat sectorCount.toNat buf) ↔
      0 < sectorCount.toNat ∧ sectorCount.toNat ≤ 65536 := by
  obtain ⟨asked, command, -, cached, holds⟩ := write_asked ready soon sector sectorCount
  have call : writeDisk timing fuel sector sectorCount buf d =
      (writeSectors timing fuel buf sectorCount.toNat 0 asked).map fun d => d.outb timing 0x1F7 0xE7 := by
    rw [writeDisk, command]
    cases writeSectors timing fuel buf sectorCount.toNat 0 asked <;> rfl
  rw [call, ← sectorsAsked_iff]
  constructor
  · rintro ⟨d', result, ready', -⟩
    by_contra different
    rcases Nat.lt_or_gt_of_ne different with few | many
    · obtain ⟨left, split⟩ := Nat.exists_eq_add_of_lt few
      rw [show sectorsAsked sectorCount = sectorCount.toNat + (left + 1) by omega] at holds
      obtain ⟨after, written, -, -, waits⟩ := writeSectors_spec soon prompt holds buf 0
      have working : after.phase ≠ .idle := by
        rw [waits.reached]
        intro wrong
        cases wrong
      rw [written, Option.map_some, Option.some.injEq, Drive.outb_ignored working] at result
      subst result
      exact working ready'.idle
    · rw [writeSectors_none soon prompt many holds] at result
      cases result
  · intro exactly
    rw [← exactly, ← Nat.add_zero sectorCount.toNat] at holds
    obtain ⟨after, written, -, cached', rests⟩ := writeSectors_spec soon prompt holds buf 0
    have flushed := @Drive.outb_command timing after rests.reached (rests.free rfl) 0xE7
    rw [Drive.command_flush] at flushed
    refine ⟨_, by rw [written, Option.map_some, flushed], ?_, rfl, ?_⟩
    · exact ⟨rests.reached, prompt _⟩
    · change after.cached = _
      rw [cached', cached]
      simp only [Nat.zero_add]

/-! ## The disk behind the ports -/

inductive Request
  | read (sector sectorCount : UInt32) (buf : Nat → UInt8)
  | write (sector sectorCount : UInt32) (buf : Nat → UInt8)

def Request.sector : Request → UInt32
  | .read sector _ _ => sector
  | .write sector _ _ => sector

def Request.sectorCount : Request → UInt32
  | .read _ sectorCount _ => sectorCount
  | .write _ sectorCount _ => sectorCount

/-- The sectors can be asked for, and have numbers. -/
def Request.Sound (r : Request) : Prop :=
  0 < r.sectorCount.toNat ∧ r.sectorCount.toNat ≤ 65536 ∧ r.sector.toNat + r.sectorCount.toNat ≤ 2 ^ 32

def onPorts (timing : Timing) (fuel : Nat) (d : Drive) : Request → Option ((Nat → UInt8) × Drive)
  | .read sector sectorCount buf => readDisk timing fuel sector sectorCount buf d
  | .write sector sectorCount buf => (writeDisk timing fuel sector sectorCount buf d).map fun d => (buf, d)

/-- What the calls mean for the file system and the swap area. -/
def onDisk (disk : Disk) : Request → (Nat → UInt8) × Disk
  | .read sector sectorCount buf => (memcpy buf 0 (slotByte disk sector) (512 * sectorCount.toNat), disk)
  | .write sector sectorCount buf => (buf, writeDiskSectors disk sectorCount.toNat sector buf)

def portsRun (timing : Timing) (fuel : Nat) : List Request → Drive → Option (List (Nat → UInt8) × Drive)
  | [], d => some ([], d)
  | r :: rest, d => do
      let (buf, d) ← onPorts timing fuel d r
      let (bufs, d) ← portsRun timing fuel rest d
      pure (buf :: bufs, d)

def diskRun : List Request → Disk → List (Nat → UInt8) × Disk
  | [], disk => ([], disk)
  | r :: rest, disk =>
      let (buf, disk) := onDisk disk r
      let (bufs, disk) := diskRun rest disk
      (buf :: bufs, disk)

/-- The drive waits for a call, and has the disk's sectors for good. -/
structure Keeps (d : Drive) (disk : Disk) : Prop where
  ready : d.Ready
  flushed : d.stored = d.cached
  sectors : ∀ s : UInt32, d.cached s.toNat = disk s

theorem sectorBytes_slotByte {media : Nat → Sector} {disk : Disk} (same : ∀ s : UInt32, media s.toNat = disk s)
    {sector : UInt32} {n : Nat} (inside : sector.toNat + n ≤ 2 ^ 32) {i : Nat} (small : i < 512 * n) :
    sectorBytes media sector.toNat i = slotByte disk sector i := by
  have number : (sector + UInt32.ofNat (i / 512)).toNat = sector.toNat + i / 512 := by
    rw [UInt32.toNat_add, UInt32.toNat_ofNat']
    omega
  rw [sectorBytes, slotByte, ← same, number]

theorem putSectors_writeDiskSectors {media : Nat → Sector} {disk : Disk} (same : ∀ s : UInt32, media s.toNat = disk s)
    {sector : UInt32} {n : Nat} (inside : sector.toNat + n ≤ 2 ^ 32) (buf : Nat → UInt8) (s : UInt32) :
    putSectors media sector.toNat n buf s.toNat = writeDiskSectors disk n sector buf s := by
  induction n generalizing media disk sector buf with
  | zero => exact (if_neg (by omega)).trans (same s)
  | succ n ih =>
      have first : ∀ t : UInt32, Function.update media sector.toNat (ofCells 512 buf) t.toNat =
          WegOS.writeDisk disk sector buf t := by
        intro t
        by_cases here : t = sector
        · subst here
          rw [WegOS.writeDisk, Function.update_self, Function.update_self]
        · have apart : t.toNat ≠ sector.toNat := fun equal => here (UInt32.toNat_inj.mp equal)
          rw [WegOS.writeDisk, Function.update_of_ne here, Function.update_of_ne apart, same]
      rw [← putSectors_succ, writeDiskSectors]
      cases n with
      | zero => exact (if_neg (by omega)).trans (first s)
      | succ n =>
          have next : (sector + 1).toNat = sector.toNat + 1 := by
            rw [UInt32.toNat_add, UInt32.toNat_one]
            omega
          rw [← next]
          exact ih first (by omega) _

/-- One call over the ports does to the drive what it means for the disk. -/
theorem Keeps.onPorts {disk : Disk} (keeps : Keeps d disk) (soon : ∀ i, timing.delay i < fuel)
    (prompt : ∀ i, timing.settle i = 0) {r : Request} (sound : r.Sound) :
    ∃ d', Ports.onPorts timing fuel d r = some ((onDisk disk r).1, d') ∧ Keeps d' (onDisk disk r).2 := by
  obtain ⟨some, few, inside⟩ := sound
  cases r with
  | read sector sectorCount buf =>
      obtain ⟨d', result, ready, stored, cached⟩ :=
        (read_disk_iff keeps.ready soon sector sectorCount buf).mpr ⟨some, few⟩
      have bytes : memcpy buf 0 (sectorBytes d.cached sector.toNat) (512 * sectorCount.toNat) =
          memcpy buf 0 (slotByte disk sector) (512 * sectorCount.toNat) :=
        memcpy_congr fun i small => sectorBytes_slotByte keeps.sectors inside small
      refine ⟨d', ?_, ready, ?_, fun s => ?_⟩
      · rw [Ports.onPorts, result, bytes]
        rfl
      · rw [stored, cached, keeps.flushed]
      · rw [cached]
        exact keeps.sectors s
  | write sector sectorCount buf =>
      obtain ⟨d', result, ready, flushed, cached⟩ :=
        (write_disk_iff keeps.ready soon prompt sector sectorCount buf).mpr ⟨some, few⟩
      refine ⟨d', ?_, ready, flushed, fun s => ?_⟩
      · rw [Ports.onPorts, result]
        rfl
      · rw [cached]
        exact putSectors_writeDiskSectors keeps.sectors inside buf s

/-- Any calls one after the other, each for sectors that can be asked for, read and leave behind over
the ports what they do on the disk, and end with nothing left in the drive's cache. -/
theorem requests_served {disk : Disk} (keeps : Keeps d disk) (soon : ∀ i, timing.delay i < fuel)
    (prompt : ∀ i, timing.settle i = 0) {requests : List Request} (sound : ∀ r ∈ requests, r.Sound) :
    ∃ d', portsRun timing fuel requests d = some ((diskRun requests disk).1, d') ∧
      Keeps d' (diskRun requests disk).2 := by
  induction requests generalizing d disk with
  | nil => exact ⟨d, rfl, keeps⟩
  | cons r rest ih =>
      obtain ⟨mid, one, between⟩ := keeps.onPorts soon prompt (sound r List.mem_cons_self)
      obtain ⟨d', others, after⟩ := ih between fun r member => sound r (List.mem_cons_of_mem _ member)
      refine ⟨d', ?_, after⟩
      rw [portsRun, one]
      simp only [Option.bind_eq_bind, Option.bind_some, others]
      rfl

def sampleTiming : Timing := ⟨fun i => i % 3, fun _ => 0, fun _ => 0x50⟩

def sampleDrive : Drive where
  stored s := ofCells 512 fun i => UInt8.ofNat (s + i)
  cached s := ofCells 512 fun i => UInt8.ofNat (s + i)
  count := ⟨0, 0⟩
  low := ⟨0, 0⟩
  mid := ⟨0, 0⟩
  high := ⟨0, 0⟩
  phase := .idle
  buffer _ := 0
  busy := 0
  clock := 0

theorem sampleDrive_ready : sampleDrive.Ready := ⟨rfl, rfl⟩

theorem sampleTiming_soon (i : Nat) : sampleTiming.delay i < 3 := Nat.mod_lt i (by decide)

theorem read_disk_page : ∃ buf d',
    readDisk sampleTiming 3 1024 8 (fun _ => 0) sampleDrive = some (buf, d') ∧ d'.Ready := by
  obtain ⟨d', result, ready, -⟩ :=
    (read_disk_iff sampleDrive_ready sampleTiming_soon 1024 8 fun _ => 0).mpr ⟨by decide, by decide⟩
  exact ⟨_, d', result, ready⟩

theorem write_disk_page : ∃ d', writeDisk sampleTiming 3 1024 8 (fun _ => 7) sampleDrive = some d' ∧ d'.Ready ∧
    d'.stored = d'.cached := by
  obtain ⟨d', result, ready, flushed, -⟩ :=
    (write_disk_iff sampleDrive_ready sampleTiming_soon (fun _ => rfl) 1024 8 fun _ => 7).mpr ⟨by decide, by decide⟩
  exact ⟨d', result, ready, flushed⟩

def sampleRequests : List Request := [.write 1024 8 fun _ => 7, .read 640 384 fun _ => 0]

theorem requests_served_two : ∃ d', (portsRun sampleTiming 3 sampleRequests sampleDrive).map Prod.snd = some d' ∧
    Keeps d' (diskRun sampleRequests fun s => sampleDrive.cached s.toNat).2 := by
  have sound : ∀ r ∈ sampleRequests, r.Sound := by
    intro r member
    simp only [sampleRequests, List.mem_cons, List.not_mem_nil, or_false] at member
    rcases member with rfl | rfl
    · exact ⟨by decide, by decide, by decide⟩
    · exact ⟨by decide, by decide, by decide⟩
  have keeps : Keeps sampleDrive fun s => sampleDrive.cached s.toNat := ⟨sampleDrive_ready, rfl, fun _ => rfl⟩
  obtain ⟨d', result, after⟩ := requests_served keeps sampleTiming_soon (fun _ => rfl) sound
  exact ⟨d', by rw [result, Option.map_some], after⟩

end WegOS.Ports
