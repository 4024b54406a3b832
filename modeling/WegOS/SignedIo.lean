import WegOS.ReadFile
import WegOS.Lib.Stores

/-! Reads and seeks with the `int`s of the C code.

Seeks and lengths are 32-bit words whose sums wrap, and `NTH_BLOCK` and `IN_BLOCK_OFFSET` take them as unsigned.
Without negative numbers and without a wrap these are the functions of `FileSystem`. What `sys_read` does to
the buffer is given by its stores, and what the seeks do to the disk by the sectors they read. -/

namespace WegOS

open CArray BlockChain Stores

structure IntIoState where
  readSeek : Int32
  writeSeek : Int32
  readSector : UInt32
  writeSector : UInt32

def FileIoState.ints (io : FileIoState) : IntIoState where
  readSeek := Int32.ofNat io.readSeek
  writeSeek := Int32.ofNat io.writeSeek
  readSector := io.readSector
  writeSector := io.writeSector

theorem FileIoState.ints_readSeek (io : FileIoState) : io.ints.readSeek = Int32.ofNat io.readSeek := rfl

def nthBlockInt (x : Int32) : UInt32 := x.toUInt32 / UInt32.ofNat validDataSizeInBlock

def inBlockOffsetInt (x : Int32) : UInt32 := x.toUInt32 % UInt32.ofNat validDataSizeInBlock

def readSectorsInt (disk : Disk) : Nat → IntIoState → Nat → IntIoState × List (Store UInt8)
  | 0, io, _ => (io, [])
  | sectors + 1, io, pos =>
      let block := disk io.readSector
      let io := { io with readSector := nextSector block,
                          readSeek := io.readSeek + Int32.ofNat validDataSizeInBlock }
      let (io, stores) := readSectorsInt disk sectors io (pos + validDataSizeInBlock)
      (io, ⟨pos, sectorSize, block.cell⟩ :: stores)

/-- `memcpy` takes its length as unsigned. -/
def sysReadInt (disk : Disk) (file : FileT) (io : IntIoState) (length : Int32) :
    FileResult × IntIoState × List (Store UInt8) :=
  if io.readSeek + length ≤ file.fileSize then
    let temp := disk io.readSector
    let offset := inBlockOffsetInt io.readSeek
    if nthBlockInt (io.readSeek + length) - nthBlockInt io.readSeek = 0 then
      (.success, { io with readSeek := io.readSeek + length },
        [⟨0, length.toUInt32.toNat, fun i => temp.cell (offset.toNat + i)⟩])
    else
      let remain := UInt32.ofNat validDataSizeInBlock - offset
      let first : Store UInt8 := ⟨0, remain.toNat, fun i => temp.cell (offset.toNat + i)⟩
      let io := { io with readSeek := io.readSeek + remain.toInt32, readSector := nextSector temp }
      let length := length - remain.toInt32
      let sectors := nthBlockInt length
      let (io, whole) := readSectorsInt disk sectors.toNat io remain.toNat
      let scattered := inBlockOffsetInt length
      (.success, io, first :: whole ++
        [⟨remain.toNat + sectors.toNat * validDataSizeInBlock, scattered.toNat, (disk io.readSector).cell⟩])
  else (.outOfIndex, io, [])

/-- The sectors that are read on the way come last. -/
def sysRseekInt (disk : Disk) (file : FileT) (io : IntIoState) (readSeek : Int32) :
    FileResult × IntIoState × List UInt32 :=
  if readSeek < file.fileSize then
    let sectorIndex := (nthBlockInt readSeek).toNat
    (.success, { io with readSector := seekSector disk sectorIndex file.firstSector, readSeek := readSeek },
      chainFrom blockFormat disk sectorIndex file.firstSector)
  else (.outOfIndex, io, [])

def sysWseekInt (disk : Disk) (file : FileT) (io : IntIoState) (writeSeek : Int32) :
    FileResult × IntIoState × List UInt32 :=
  let sectorIndex := (nthBlockInt writeSeek).toNat
  (.success, { io with writeSector := seekSector disk sectorIndex file.firstSector, writeSeek := writeSeek },
    chainFrom blockFormat disk sectorIndex file.firstSector)

/-! ## Words -/

theorem toUInt32_nonneg {x : Int32} (positive : 0 ≤ x) : (x.toUInt32.toNat : Int) = x.toInt := by
  rw [Int32.toNat_toUInt32_of_le positive, Int32.cast_toNatClampNeg x positive]

theorem toUInt32_neg {x : Int32} (negative : x < 0) : (x.toUInt32.toNat : Int) = x.toInt + 2 ^ 32 := by
  have sign : x.toInt < 0 := Int32.lt_iff_toInt_lt.mp negative
  have value : x.toInt = BitVec.toInt x.toBitVec := rfl
  have bits : x.toUInt32.toNat = x.toBitVec.toNat := rfl
  have bound := x.toBitVec.isLt
  rw [BitVec.toInt_eq_toNat_cond] at value
  split_ifs at value <;> omega

theorem nthBlockInt_toNat (x : Int32) : (nthBlockInt x).toNat = x.toUInt32.toNat / 508 := UInt32.toNat_div _ _

theorem inBlockOffsetInt_toNat (x : Int32) : (inBlockOffsetInt x).toNat = x.toUInt32.toNat % 508 := UInt32.toNat_mod _ _

theorem ofNat_toUInt32 {n : Nat} (small : n < 2 ^ 31) : (Int32.ofNat n).toUInt32.toNat = n := by
  rw [Int32.toUInt32_ofNat', UInt32.toNat_ofNat']
  omega

theorem nthBlockInt_ofNat {n : Nat} (small : n < 2 ^ 31) : (nthBlockInt (Int32.ofNat n)).toNat = nthBlock n := by
  rw [nthBlockInt_toNat, ofNat_toUInt32 small, nthBlock_eq]

theorem inBlockOffsetInt_ofNat {n : Nat} (small : n < 2 ^ 31) :
    (inBlockOffsetInt (Int32.ofNat n)).toNat = inBlockOffset n := by
  rw [inBlockOffsetInt_toNat, ofNat_toUInt32 small, inBlockOffset_eq]

theorem sameBlock_iff {x y : UInt32} : x - y = 0 ↔ x.toNat = y.toNat := by
  rw [UInt32.toNat_inj]
  constructor
  · intro zero
    calc
      x = x - y + y := (UInt32.sub_add_cancel x y).symm
      _ = y := by rw [zero, UInt32.zero_add]
  · rintro rfl
    exact UInt32.sub_self x

theorem remainInt_eq {seek : Nat} (small : seek < 2 ^ 31) :
    UInt32.ofNat validDataSizeInBlock - inBlockOffsetInt (Int32.ofNat seek) =
      UInt32.ofNat (validDataSizeInBlock - inBlockOffset seek) := by
  have offset := inBlockOffsetInt_ofNat small
  have below : (inBlockOffsetInt (Int32.ofNat seek)).toNat ≤ (UInt32.ofNat validDataSizeInBlock).toNat := by
    rw [offset, inBlockOffset_eq]
    exact Nat.le_of_lt (Nat.mod_lt _ (by decide))
  apply UInt32.toNat_inj.mp
  rw [UInt32.toNat_sub_of_le _ _ (UInt32.le_iff_toNat_le.mpr below), offset, UInt32.toNat_ofNat', UInt32.toNat_ofNat']
  simp only [validDataSizeInBlock, sectorSize, inBlockOffset_eq]
  omega

theorem remainInt_toNat (seek : Nat) : (UInt32.ofNat (validDataSizeInBlock - inBlockOffset seek)).toNat =
    validDataSizeInBlock - inBlockOffset seek := by
  rw [UInt32.toNat_ofNat']
  simp only [validDataSizeInBlock, sectorSize, inBlockOffset_eq]
  omega

theorem restInt_eq {remain length : Nat} (enough : remain ≤ length) :
    Int32.ofNat length - (UInt32.ofNat remain).toInt32 = Int32.ofNat (length - remain) := by
  rw [UInt32.toInt32_ofNat', Int32.ofNat_sub _ _ enough]

/-! ## The functions of `FileSystem` -/

section Ints

variable {disk : Disk} {file : FileT} {io : FileIoState}

theorem readSectorsInt_eq (sectors : Nat) (io : FileIoState) (buf : Nat → UInt8) (pos : Nat) :
    (readSectorsInt disk sectors io.ints pos).1 = (readSectors disk sectors io buf pos).1.ints ∧
      run buf (readSectorsInt disk sectors io.ints pos).2 = (readSectors disk sectors io buf pos).2 := by
  induction sectors generalizing io buf pos with
  | zero => exact ⟨rfl, rfl⟩
  | succ sectors ih =>
      let block := disk io.readSector
      obtain ⟨state, stores⟩ := ih
        { io with readSector := nextSector block, readSeek := io.readSeek + validDataSizeInBlock }
        (memcpy buf pos block.cell sectorSize) (pos + validDataSizeInBlock)
      rw [FileIoState.ints, Int32.ofNat_add] at state stores
      exact ⟨state, stores⟩

theorem sysReadInt_eq {length : Nat} (small : io.readSeek + length < 2 ^ 31) (buf : Nat → UInt8) :
    (sysReadInt disk file io.ints (Int32.ofNat length)).1 = (sysRead disk file io buf length).1 ∧
      (sysReadInt disk file io.ints (Int32.ofNat length)).2.1 = (sysRead disk file io buf length).2.1.ints ∧
      run buf (sysReadInt disk file io.ints (Int32.ofNat length)).2.2 = (sysRead disk file io buf length).2.2 := by
  have sum : io.ints.readSeek + Int32.ofNat length = Int32.ofNat (io.readSeek + length) := (Int32.ofNat_add _ _).symm
  have inRange : Int32.ofNat (io.readSeek + length) ≤ file.fileSize ↔
      ((io.readSeek + length : Nat) : Int) ≤ file.fileSize.toInt := by
    rw [Int32.le_iff_toInt_le, Int32.toInt_ofNat_of_lt small]
  have ordered := nthBlock_le_add io.readSeek length
  have same : nthBlockInt (Int32.ofNat (io.readSeek + length)) - nthBlockInt io.ints.readSeek = 0 ↔
      nthBlock (io.readSeek + length) - nthBlock io.readSeek = 0 := by
    rw [sameBlock_iff, nthBlockInt_ofNat small, FileIoState.ints, nthBlockInt_ofNat (by omega)]
    omega
  have offset : (inBlockOffsetInt io.ints.readSeek).toNat = inBlockOffset io.readSeek :=
    inBlockOffsetInt_ofNat (by omega)
  unfold sysReadInt sysRead
  rw [sum]
  by_cases fits : ((io.readSeek + length : Nat) : Int) ≤ file.fileSize.toInt
  · rw [if_pos fits, if_pos (inRange.mpr fits)]
    by_cases single : nthBlock (io.readSeek + length) - nthBlock io.readSeek = 0
    · simp only [if_pos single, if_pos (same.mpr single), offset, ofNat_toUInt32 (show length < 2 ^ 31 by omega),
        true_and]
      exact ⟨rfl, rfl⟩
    · have crossed : (io.readSeek + length) / 508 - io.readSeek / 508 ≠ 0 := single
      have enough : validDataSizeInBlock - inBlockOffset io.readSeek ≤ length := by
        simp only [validDataSizeInBlock, sectorSize, inBlockOffset_eq]
        omega
      have remain := remainInt_eq (show io.readSeek < 2 ^ 31 by omega)
      have remainNat := remainInt_toNat io.readSeek
      have rest := restInt_eq enough
      have restSmall : length - (validDataSizeInBlock - inBlockOffset io.readSeek) < 2 ^ 31 := by omega
      rw [← FileIoState.ints_readSeek] at remain
      simp only [if_neg single, if_neg (mt same.mp single), remain, remainNat, rest, offset,
        nthBlockInt_ofNat restSmall, inBlockOffsetInt_ofNat restSmall]
      let start := memcpy buf 0 (fun i => (disk io.readSector).cell (inBlockOffset io.readSeek + i))
        (validDataSizeInBlock - inBlockOffset io.readSeek)
      obtain ⟨state, stores⟩ := @readSectorsInt_eq disk
        (nthBlock (length - (validDataSizeInBlock - inBlockOffset io.readSeek)))
        { io with readSeek := io.readSeek + (validDataSizeInBlock - inBlockOffset io.readSeek),
                  readSector := nextSector (disk io.readSector) } start
        (validDataSizeInBlock - inBlockOffset io.readSeek)
      rw [FileIoState.ints, Int32.ofNat_add] at state stores
      refine ⟨trivial, state, ?_⟩
      rw [run_append]
      let remain := validDataSizeInBlock - inBlockOffset io.readSeek
      exact congrArg₂ (fun mem (sector : UInt32) => memcpy mem
        (remain + nthBlock (length - remain) * validDataSizeInBlock) (disk sector).cell (inBlockOffset (length - remain)))
        stores (congrArg IntIoState.readSector state)
  · rw [if_neg fits, if_neg (mt inRange.mp fits)]
    exact ⟨rfl, rfl, rfl⟩

end Ints

/-! ## The check of `sys_read` -/

/-- `sys_read` goes on for the lengths within the file, and changes nothing for any other. -/
structure ReadChecked (disk : Disk) (file : FileT) (io : IntIoState) (length : Int32) : Prop where
  proceeds : 0 ≤ length ∧ io.readSeek.toInt + length.toInt ≤ file.fileSize.toInt →
    (sysReadInt disk file io length).1 = .success
  refuses : ¬(0 ≤ length ∧ io.readSeek.toInt + length.toInt ≤ file.fileSize.toInt) →
    sysReadInt disk file io length = (.outOfIndex, io, [])

section Check

variable {disk : Disk} {file : FileT} {io : IntIoState} {length : Int32}

theorem sysReadInt_success (inRange : io.readSeek + length ≤ file.fileSize) :
    (sysReadInt disk file io length).1 = .success := by
  unfold sysReadInt
  rw [if_pos inRange]
  split_ifs <;> rfl

theorem sysReadInt_refused (outside : ¬io.readSeek + length ≤ file.fileSize) :
    sysReadInt disk file io length = (.outOfIndex, io, []) := by
  rw [sysReadInt, if_neg outside]

/-- The sum of two `int`s that are not negative, the second one or the wrapped one. -/
theorem seek_sum (low : 0 ≤ io.readSeek) (positive : 0 ≤ length) :
    (io.readSeek + length).toInt = if io.readSeek.toInt + length.toInt < 2 ^ 31 then
      io.readSeek.toInt + length.toInt else io.readSeek.toInt + length.toInt - 2 ^ 32 := by
  have first := Int32.le_iff_toInt_le.mp low
  have second := Int32.le_iff_toInt_le.mp positive
  have bound := io.readSeek.toInt_lt
  have bound' := length.toInt_lt
  rw [Int32.toInt_zero] at first second
  rw [Int32.toInt_add, Int.bmod_def]
  split_ifs <;> omega

/-- The check fails on negative lengths and on sums that wrap. -/
theorem sys_read_checked_iff (low : 0 ≤ io.readSeek) (high : io.readSeek ≤ file.fileSize) :
    ReadChecked disk file io length ↔ 0 ≤ length ∧ io.readSeek.toInt + length.toInt < 2 ^ 31 := by
  have start := Int32.le_iff_toInt_le.mp low
  have seek := Int32.le_iff_toInt_le.mp high
  have size := file.fileSize.toInt_lt
  rw [Int32.toInt_zero] at start
  have inRange : io.readSeek + length ≤ file.fileSize ↔ (io.readSeek + length).toInt ≤ file.fileSize.toInt :=
    Int32.le_iff_toInt_le
  have sign : 0 ≤ length ↔ 0 ≤ length.toInt := by rw [Int32.le_iff_toInt_le, Int32.toInt_zero]
  constructor
  · intro checked
    by_contra outside
    have refused := congrArg Prod.fst (checked.refuses fun ⟨positive, inside⟩ => outside ⟨positive, by omega⟩)
    have passes : io.readSeek + length ≤ file.fileSize := by
      rw [inRange]
      by_cases positive : 0 ≤ length
      · -- The sum wraps to a negative number.
        have wraps := seek_sum low positive
        have bound := length.toInt_lt
        rw [if_neg fun small => outside ⟨positive, small⟩] at wraps
        omega
      · rw [sign] at positive
        have bound := length.le_toInt
        rw [Int32.toInt_add, Int.bmod_eq_of_le] <;> omega
    rw [sysReadInt_success passes] at refused
    cases refused
  · rintro ⟨positive, small⟩
    have sum := seek_sum low positive
    rw [if_pos small] at sum
    refine ⟨fun inside => sysReadInt_success ?_, fun outside => sysReadInt_refused ?_⟩
    · rw [inRange, sum]
      exact inside.2
    · rw [inRange, sum]
      exact fun inside => outside ⟨positive, inside⟩

theorem sys_read_checked_whole : ReadChecked sampleDisk sampleFile ⟨0, 0, 1026, 1026⟩ 600 :=
  (sys_read_checked_iff (by decide) (by decide)).mpr (by decide)

/-- A negative length is taken for one of nearly 4 GB. -/
theorem sys_read_negative : WellFormed sampleDisk sampleFile [1026, 1027] ∧
    (sysReadInt sampleDisk sampleFile ⟨10, 0, 1026, 1026⟩ (-5)).2.2.map Store.count = [2 ^ 32 - 5] ∧
      ¬ReadChecked sampleDisk sampleFile ⟨10, 0, 1026, 1026⟩ (-5) := by
  refine ⟨sampleFile_wellFormed, by decide +kernel, fun checked => ?_⟩
  have refused := congrArg Prod.fst (checked.refuses (by decide))
  rw [sysReadInt_success (by decide)] at refused
  cases refused

end Check

/-! ## Positions of the seeks -/

/-- A seek is refused without a change, or it sets the position and its sector of the chain; it reads
no other sectors. -/
def SeekOk (file : FileT) (chain : List UInt32) (io : IntIoState) (position : Int32)
    (move : UInt32 → IntIoState) (result : FileResult × IntIoState × List UInt32) : Prop :=
  (result.1 = .outOfIndex ∧ result.2.1 = io ∨
    result.1 = .success ∧ 0 ≤ position ∧ position.toInt < 508 * file.sectorCount.toNat ∧
      ∃ s, chain[(nthBlockInt position).toNat]? = some s ∧ result.2.1 = move s) ∧
  ∀ s ∈ result.2.2, s ∈ chain

def RseekOk (disk : Disk) (file : FileT) (chain : List UInt32) (io : IntIoState) (position : Int32) : Prop :=
  SeekOk file chain io position (fun s => { io with readSector := s, readSeek := position })
    (sysRseekInt disk file io position)

def WseekOk (disk : Disk) (file : FileT) (chain : List UInt32) (io : IntIoState) (position : Int32) : Prop :=
  SeekOk file chain io position (fun s => { io with writeSector := s, writeSeek := position })
    (sysWseekInt disk file io position)

section Seeks

variable {disk : Disk} {file : FileT} {chain : List UInt32} {position : Int32}

theorem seek_inside (wellFormed : WellFormed disk file chain) (low : 0 ≤ position)
    (high : position.toInt < 508 * file.sectorCount.toNat) :
    chain[(nthBlockInt position).toNat]? =
        some (seekSector disk (nthBlockInt position).toNat file.firstSector) ∧
      ∀ s ∈ chainFrom blockFormat disk (nthBlockInt position).toNat file.firstSector, s ∈ chain := by
  have value := toUInt32_nonneg low
  have inside : (nthBlockInt position).toNat < chain.length := by
    rw [wellFormed.count, nthBlockInt_toNat]
    omega
  exact ⟨seekSector_chain wellFormed.linked wellFormed.first inside,
    wellFormed.linked.chainFrom_subset wellFormed.first (by omega)⟩

/-- `sys_rseek` does not refuse negative positions, and `sys_wseek` refuses none at all. -/
theorem sys_seeks_iff (wellFormed : WellFormed disk file chain) (io : IntIoState) (position : Int32) :
    (RseekOk disk file chain io position ↔ 0 ≤ position) ∧
      (WseekOk disk file chain io position ↔ 0 ≤ position ∧ position.toInt < 508 * file.sectorCount.toNat) := by
  have size := size_cast wellFormed.positive
  have room := wellFormed.room
  rw [wellFormed.count, nthBlock_eq] at room
  constructor
  · constructor
    · rintro ⟨refused | ⟨-, low, -⟩, -⟩
      · by_contra negative
        have below : position < 0 := Int32.not_le.mp negative
        have passes : position < file.fileSize := Int32.lt_of_lt_of_le below wellFormed.positive
        have result := refused.1
        rw [sysRseekInt, if_pos passes] at result
        cases result
      · exact low
    · intro low
      unfold RseekOk SeekOk sysRseekInt
      split_ifs with passes
      · have before := Int32.lt_iff_toInt_lt.mp passes
        have high : position.toInt < 508 * file.sectorCount.toNat := by omega
        obtain ⟨here, sectors⟩ := seek_inside wellFormed low high
        exact ⟨Or.inr ⟨rfl, low, high, _, here, rfl⟩, sectors⟩
      · exact ⟨Or.inl ⟨rfl, rfl⟩, fun _ none => absurd none List.not_mem_nil⟩
  · constructor
    · rintro ⟨refused | ⟨-, low, high, -⟩, -⟩
      · cases refused.1
      · exact ⟨low, high⟩
    · rintro ⟨low, high⟩
      obtain ⟨here, sectors⟩ := seek_inside wellFormed low high
      exact ⟨Or.inr ⟨rfl, low, high, _, here, rfl⟩, sectors⟩

theorem sys_seeks_second :
    RseekOk sampleDisk sampleFile [1026, 1027] ⟨0, 0, 1026, 1026⟩ 599 ∧
      WseekOk sampleDisk sampleFile [1026, 1027] ⟨0, 0, 1026, 1026⟩ 600 := by
  have both := sys_seeks_iff sampleFile_wellFormed ⟨0, 0, 1026, 1026⟩
  exact ⟨(both 599).1.mpr (by decide), (both 600).2.mpr (by decide)⟩

theorem sys_wseek_past_chain : WellFormed sampleDisk sampleFile [1026, 1027] ∧
    ¬(RseekOk sampleDisk sampleFile [1026, 1027] ⟨0, 0, 1026, 1026⟩ 1016 ∧
      WseekOk sampleDisk sampleFile [1026, 1027] ⟨0, 0, 1026, 1026⟩ 1016) := by
  refine ⟨sampleFile_wellFormed, ?_⟩
  rintro ⟨-, refused | ⟨-, -, high, -⟩, -⟩
  · cases refused.1
  · exact absurd high (by decide)

end Seeks

end WegOS
