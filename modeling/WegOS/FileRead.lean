import WegOS.FileSystem
import WegOS.Lib.BlockChain

/-! Reading a file through its chain of sectors. -/

namespace WegOS

open LittleEndian CArray BlockChain

def blockFormat : Format UInt32 Block UInt8 where
  cap := 508
  cap_pos := by decide
  next := nextSector
  item := fun block i => block.cell i

def byteOf (disk : Disk) (chain : List UInt32) (i : Nat) : UInt8 := content blockFormat disk chain i

def FileT.size (f : FileT) : Nat := f.fileSize.toNatClampNeg

/-- A chain from the first sector on that reaches as far as the file, and one block further
if its last block is full. -/
structure Readable (disk : Disk) (f : FileT) (chain : List UInt32) : Prop where
  first : chain[0]? = some f.firstSector
  linked : Linked blockFormat disk chain
  positive : 0 ≤ f.fileSize
  room : nthBlock f.size < chain.length

/-- A well-formed file: the chain is the whole one, and has no sector twice. -/
structure WellFormed (disk : Disk) (f : FileT) (chain : List UInt32) : Prop extends
    Readable disk f chain where
  last : chain.getLast? = some f.lastSector
  count : chain.length = f.sectorCount.toNat
  nodup : chain.Nodup

theorem Readable.congr {disk disk' : Disk} {f : FileT} {chain : List UInt32} (readable : Readable disk f chain)
    (same : ∀ s ∈ chain, disk' s = disk s) : Readable disk' f chain where
  first := readable.first
  linked := readable.linked.congr fun s member => by rw [same s member]
  positive := readable.positive
  room := readable.room

theorem WellFormed.congr {disk disk' : Disk} {f : FileT} {chain : List UInt32}
    (wellFormed : WellFormed disk f chain) (same : ∀ s ∈ chain, disk' s = disk s) :
    WellFormed disk' f chain where
  toReadable := wellFormed.toReadable.congr same
  last := wellFormed.last
  count := wellFormed.count
  nodup := wellFormed.nodup

theorem byteOf_congr {disk disk' : Disk} {chain : List UInt32} {i : Nat} (place : i / 508 < chain.length)
    (same : ∀ s ∈ chain, disk' s = disk s) : byteOf disk' chain i = byteOf disk chain i :=
  content_congr place fun s member _ _ => by rw [same s member]

theorem size_cast {f : FileT} (positive : 0 ≤ f.fileSize) : (f.size : Int) = f.fileSize.toInt :=
  Int32.cast_toNatClampNeg f.fileSize positive

theorem byteOf_at {disk : Disk} {chain : List UInt32} {k j : Nat} {sector : UInt32}
    (here : chain[k]? = some sector) (inside : j < 508) :
    byteOf disk chain (k * 508 + j) = (disk sector).cell j := by
  obtain ⟨bound, rfl⟩ := List.getElem?_eq_some_iff.mp here
  exact content_at bound inside

theorem byteOf_seek {disk : Disk} {chain : List UInt32} {seek i : Nat} {sector : UInt32}
    (here : chain[nthBlock seek]? = some sector) (inside : seek % 508 + i < 508) :
    byteOf disk chain (seek + i) = (disk sector).cell (inBlockOffset seek + i) := by
  have split : seek + i = nthBlock seek * 508 + (seek % 508 + i) := by
    rw [nthBlock_eq]
    omega
  rw [split, byteOf_at here inside, inBlockOffset_eq]

theorem nextSector_of_linked {disk : Disk} {chain : List UInt32} (linked : Linked blockFormat disk chain)
    {k : Nat} {sector : UInt32} (here : chain[k]? = some sector) (bound : k + 1 < chain.length) :
    chain[k + 1]? = some (nextSector (disk sector)) := linked.getElem?_next here bound

theorem seekSector_eq (disk : Disk) (steps : Nat) (sector : UInt32) :
    seekSector disk steps sector = follow blockFormat disk steps sector := by
  induction steps generalizing sector with
  | zero => rfl
  | succ steps ih => exact ih _

theorem seekSector_chain {disk : Disk} {chain : List UInt32} {sector : UInt32}
    (linked : Linked blockFormat disk chain) (first : chain[0]? = some sector) {k : Nat}
    (bound : k < chain.length) : chain[k]? = some (seekSector disk k sector) := by
  obtain ⟨_, rfl⟩ := List.getElem?_eq_some_iff.mp first
  rw [seekSector_eq, linked.follow_eq (by omega), List.getElem?_eq_getElem bound]
  simp

/-! ## `sys_read` -/

section Read

variable {disk : Disk} {chain : List UInt32}

theorem readSectors_spec (linked : Linked blockFormat disk chain) {sectors k : Nat} (pos : Nat)
    (io : FileIoState) (buf : Nat → UInt8) (here : chain[k]? = some io.readSector)
    (room : k + sectors < chain.length) :
    ∃ sector buf', readSectors disk sectors io buf pos =
        ({ io with readSector := sector, readSeek := io.readSeek + sectors * 508 }, buf') ∧
      chain[k + sectors]? = some sector ∧
      (∀ i < sectors * 508, buf' (pos + i) = byteOf disk chain (k * 508 + i)) ∧
      (∀ i < pos, buf' i = buf i) ∧
      ∀ i, pos + sectors * 508 + min sectors 1 * 4 ≤ i → buf' i = buf i := by
  induction sectors generalizing k pos io buf with
  | zero => exact ⟨io.readSector, buf, by simp [readSectors], here, by simp, by simp, by simp⟩
  | succ sectors ih =>
      have next := nextSector_of_linked linked here (by omega)
      let block := disk io.readSector
      obtain ⟨sector, buf', result, final, inside, below, above⟩ :=
        ih (pos + 508) { io with readSector := nextSector block, readSeek := io.readSeek + 508 }
          (memcpy buf pos block.cell sectorSize) next (by omega)
      refine ⟨sector, buf', ?_, ?_, ?_, ?_, ?_⟩
      · have seek : io.readSeek + 508 + sectors * 508 = io.readSeek + (sectors + 1) * 508 := by omega
        simp only [seek] at result
        exact result
      · rw [← final, Nat.add_assoc, Nat.add_comm 1]
      · intro i small
        by_cases first : i < 508
        · rw [below (pos + i) (by omega), memcpy_inside (by omega) (by simp only [sectorSize]; omega),
            Nat.add_sub_cancel_left, byteOf_at here first]
        · obtain ⟨j, rfl⟩ := Nat.exists_eq_add_of_le (Nat.le_of_not_lt first)
          have shifted : (k + 1) * 508 + j = k * 508 + (508 + j) := by omega
          rw [← Nat.add_assoc, inside j (by omega), shifted]
      · intro i small
        rw [below i (by omega), memcpy_below small]
      · intro i large
        rw [above i (by omega), memcpy_above (by simp only [sectorSize]; omega)]

/-- Where the read seek stands after a read of `length` bytes: at the end of what was
read, or at the start of its last block once a block end has been passed. -/
def readEnd (readSeek length : Nat) : Nat :=
  if nthBlock (readSeek + length) = nthBlock readSeek then readSeek + length
  else nthBlock (readSeek + length) * validDataSizeInBlock

theorem nthBlock_le_add (x length : Nat) : nthBlock x ≤ nthBlock (x + length) :=
  Nat.div_le_div_right (Nat.le_add_right _ _)

theorem le_readExtent (readSeek length : Nat) : length ≤ readExtent readSeek length := by
  unfold readExtent
  split_ifs
  · exact Nat.le_refl length
  · exact Nat.le_max_left _ _

theorem readExtent_le (readSeek length : Nat) : readExtent readSeek length ≤ length + 4 := by
  unfold readExtent
  split_ifs <;> omega

variable {file : FileT}

/-- `sys_read` within the file returns the bytes of the file from the seek on. -/
theorem sysRead_spec (readable : Readable disk file chain) (io : FileIoState) (buf : Nat → UInt8)
    (length : Nat) (here : chain[nthBlock io.readSeek]? = some io.readSector)
    (bound : io.readSeek + length ≤ file.size) :
    ∃ sector buf', sysRead disk file io buf length =
        (.success, { io with readSector := sector, readSeek := readEnd io.readSeek length }, buf') ∧
      chain[nthBlock (io.readSeek + length)]? = some sector ∧
      (∀ i < length, buf' i = byteOf disk chain (io.readSeek + i)) ∧
      ∀ i, readExtent io.readSeek length ≤ i → buf' i = buf i := by
  have inRange : ((io.readSeek + length : Nat) : Int) ≤ file.fileSize.toInt := by
    rw [← size_cast readable.positive]
    exact_mod_cast bound
  have room := readable.room
  by_cases single : nthBlock (io.readSeek + length) - nthBlock io.readSeek = 0
  · have ordered := nthBlock_le_add io.readSeek length
    have same : nthBlock (io.readSeek + length) = nthBlock io.readSeek := by omega
    refine ⟨io.readSector, memcpy buf 0
      (fun i => (disk io.readSector).cell (inBlockOffset io.readSeek + i)) length, ?_, ?_, ?_, ?_⟩
    · simp only [sysRead, if_pos inRange, if_pos single, readEnd, if_pos same]
    · rw [same]
      exact here
    · intro i small
      simp only [nthBlock_eq] at same
      rw [memcpy_inside (by omega) (by omega), byteOf_seek here (by omega), Nat.sub_zero]
    · intro i large
      rw [readExtent, if_pos (by omega)] at large
      exact memcpy_above (by omega)
  · -- The rest of the first block, whole blocks, and the start of the last one.
    have different : nthBlock (io.readSeek + length) ≠ nthBlock io.readSeek := by omega
    have crossed : (io.readSeek + length) / 508 - io.readSeek / 508 ≠ 0 := single
    rw [nthBlock_eq] at room
    let remain := 508 - io.readSeek % 508
    let sectors := (length - remain) / 508
    let start := memcpy buf 0
      (fun i => (disk io.readSector).cell (inBlockOffset io.readSeek + i)) remain
    let io' : FileIoState :=
      { io with readSeek := io.readSeek + remain, readSector := nextSector (disk io.readSector) }
    have remainEq : remain = 508 - io.readSeek % 508 := rfl
    have sectorsEq : sectors = (length - remain) / 508 := rfl
    have next := nextSector_of_linked readable.linked here (by rw [nthBlock_eq]; omega)
    have blocks : nthBlock io.readSeek + 1 + sectors = nthBlock (io.readSeek + length) := by
      simp only [nthBlock_eq]
      omega
    obtain ⟨sector, whole, result, final, inside, below, above⟩ :=
      readSectors_spec readable.linked remain io' start next
        (by rw [blocks, nthBlock_eq]; omega)
    rw [blocks] at final
    refine ⟨sector, memcpy whole (remain + sectors * 508) (disk sector).cell ((length - remain) % 508),
      ?_, final, ?_, ?_⟩
    · have seek : io.readSeek + remain + sectors * 508 = nthBlock (io.readSeek + length) * 508 := by
        simp only [nthBlock_eq]
        omega
      calc
        _ = (FileResult.success, (readSectors disk sectors io' start remain).1,
              memcpy (readSectors disk sectors io' start remain).2 (remain + sectors * 508)
                (disk (readSectors disk sectors io' start remain).1.readSector).cell
                ((length - remain) % 508)) := by
          simp only [sysRead, if_pos inRange, if_neg single]
          rfl
        _ = _ := by
          rw [result, readEnd, if_neg different]
          simp only [io', seek]
          rfl
    · intro i small
      by_cases head : i < remain
      · rw [memcpy_below (by omega), below i head, byteOf_seek here (by omega)]
        exact memcpy_inside (by omega) (by omega)
      · by_cases middle : i < remain + sectors * 508
        · obtain ⟨j, rfl⟩ := Nat.exists_eq_add_of_le (Nat.le_of_not_lt head)
          have split : (nthBlock io.readSeek + 1) * 508 + j = io.readSeek + (remain + j) := by
            rw [nthBlock_eq]
            omega
          rw [memcpy_below middle, inside j (by omega), split]
        · have split : io.readSeek + i = nthBlock (io.readSeek + length) * 508 +
              (i - (remain + sectors * 508)) := by
            rw [nthBlock_eq]
            omega
          rw [memcpy_inside (by omega) (by omega), split, byteOf_at final (by omega)]
    · intro i large
      have extent : remain + sectors * 508 + (length - remain) % 508 = length := by omega
      have beyond : remain + sectors * 508 + min sectors 1 * 4 ≤ i := by
        unfold readExtent at large
        split_ifs at large with short
        · simp only [nthBlock_eq] at short
          have noWhole : sectors = 0 := by omega
          rw [noWhole]
          omega
        · rw [inBlockOffset_eq] at large
          omega
      have length_le : length ≤ i := by
        unfold readExtent at large
        split_ifs at large
        · exact large
        · omega
      rw [memcpy_above (by omega), above i beyond]
      exact memcpy_above (by omega)

theorem readSectors_write (disk : Disk) (sectors : Nat) (io : FileIoState) (buf : Nat → UInt8) (pos : Nat) :
    (readSectors disk sectors io buf pos).1.writeSeek = io.writeSeek ∧
      (readSectors disk sectors io buf pos).1.writeSector = io.writeSector := by
  induction sectors generalizing io buf pos with
  | zero => exact ⟨rfl, rfl⟩
  | succ sectors ih => exact ih _ _ _

theorem sysRead_write (disk : Disk) (file : FileT) (io : FileIoState) (buf : Nat → UInt8) (length : Nat) :
    (sysRead disk file io buf length).2.1.writeSeek = io.writeSeek ∧
      (sysRead disk file io buf length).2.1.writeSector = io.writeSector := by
  unfold sysRead
  split_ifs
  · exact ⟨rfl, rfl⟩
  · exact readSectors_write _ _ _ _ _
  · exact ⟨rfl, rfl⟩

def AtBlock (chain : List UInt32) (io : FileIoState) (seek : Nat) : Prop :=
  io.readSeek = seek ∧ chain[nthBlock seek]? = some io.readSector

theorem readEnd_le (readSeek length : Nat) : readEnd readSeek length ≤ readSeek + length := by
  unfold readEnd
  split_ifs
  · exact Nat.le_refl _
  · exact Nat.div_mul_le_self _ _

theorem nthBlock_readEnd (readSeek length : Nat) :
    nthBlock (readEnd readSeek length) = nthBlock (readSeek + length) := by
  unfold readEnd
  split_ifs
  · rfl
  · exact Nat.mul_div_cancel _ (by decide)

/-- The seek is left behind when a block end was passed and the read ends inside a block. -/
theorem readEnd_eq (readSeek length : Nat) :
    readEnd readSeek length = readSeek + length ↔
      nthBlock (readSeek + length) = nthBlock readSeek ∨ inBlockOffset (readSeek + length) = 0 := by
  unfold readEnd
  split_ifs with same
  · exact iff_of_true rfl (Or.inl same)
  · rw [or_iff_right same]
    have split := Nat.div_add_mod' (readSeek + length) 508
    calc
      _ ↔ (readSeek + length) / 508 * 508 = readSeek + length := Iff.rfl
      _ ↔ (readSeek + length) % 508 = 0 := by omega

def SplitReadAgrees (disk : Disk) (chain : List UInt32) (file : FileT) (io : FileIoState)
    (buf : Nat → UInt8) (a b : Nat) : Prop :=
  ∃ io₁ buf₁ io₂ buf₂ io₃ buf₃,
    sysRead disk file io buf a = (.success, io₁, buf₁) ∧
      sysRead disk file io₁ (fun i => buf₁ (a + i)) b = (.success, io₂, buf₂) ∧
      sysRead disk file io buf (a + b) = (.success, io₃, buf₃) ∧
      (∀ i < a, buf₁ i = buf₃ i) ∧ (∀ i < b, buf₂ i = buf₃ (a + i)) ∧
      AtBlock chain io₂ (io.readSeek + a + b) ∧ AtBlock chain io₃ (io.readSeek + a + b)

/-- The read stays in its block, or it ends at a block end and so does its first part,
unless that stays in the block. -/
theorem sysRead_split (readable : Readable disk file chain) (io : FileIoState) (buf : Nat → UInt8)
    (a b : Nat) (here : chain[nthBlock io.readSeek]? = some io.readSector)
    (bound : io.readSeek + a + b ≤ file.size) :
    SplitReadAgrees disk chain file io buf a b ↔
      nthBlock (io.readSeek + a + b) = nthBlock io.readSeek ∨
        inBlockOffset (io.readSeek + a + b) = 0 ∧
          (nthBlock (io.readSeek + a) = nthBlock io.readSeek ∨ inBlockOffset (io.readSeek + a) = 0) := by
  let seek₁ := readEnd io.readSeek a
  obtain ⟨sector₁, buf₁, first, at₁, bytes₁, -⟩ :=
    sysRead_spec readable io buf a here (Nat.le_of_add_right_le bound)
  obtain ⟨sector₂, buf₂, second, at₂, bytes₂, -⟩ :=
    sysRead_spec readable { io with readSector := sector₁, readSeek := seek₁ }
      (fun i => buf₁ (a + i)) b (by rw [nthBlock_readEnd]; exact at₁)
      (Nat.le_trans (Nat.add_le_add_right (readEnd_le _ _) b) bound)
  obtain ⟨sector₃, buf₃, whole, at₃, bytes₃, -⟩ :=
    sysRead_spec readable io buf (a + b) here (by rw [← Nat.add_assoc]; exact bound)
  constructor
  · rintro ⟨io₁, _, io₂, _, io₃, _, first', second', whole', -, -, ⟨end₂, -⟩, ⟨end₃, -⟩⟩
    cases first.symm.trans first'
    cases second.symm.trans second'
    cases whole.symm.trans whole'
    -- A first read that is left behind is never caught up with.
    have end₁ : readEnd io.readSeek a = io.readSeek + a := by
      have le₁ := readEnd_le io.readSeek a
      have le₂ := readEnd_le seek₁ b
      simp only [seek₁] at le₂ end₂
      omega
    simp only [Nat.add_assoc] at end₃ ⊢
    rcases (readEnd_eq io.readSeek (a + b)).mp end₃ with stays | ends
    · exact Or.inl stays
    · exact Or.inr ⟨ends, (readEnd_eq io.readSeek a).mp end₁⟩
  · intro condition
    have end₁ : readEnd io.readSeek a = io.readSeek + a := by
      apply (readEnd_eq io.readSeek a).mpr
      rcases condition with stays | ⟨-, inner⟩
      · exact Or.inl (Nat.le_antisymm
          (Nat.le_trans (nthBlock_le_add _ b) (Nat.le_of_eq stays)) (nthBlock_le_add _ a))
      · exact inner
    have end₂ : readEnd (io.readSeek + a) b = io.readSeek + a + b := by
      apply (readEnd_eq _ b).mpr
      rcases condition with stays | ⟨ends, -⟩
      · exact Or.inl (Nat.le_antisymm
          (Nat.le_trans (Nat.le_of_eq stays) (nthBlock_le_add _ a)) (nthBlock_le_add _ b))
      · exact Or.inr ends
    have end₃ : readEnd io.readSeek (a + b) = io.readSeek + (a + b) := by
      apply (readEnd_eq _ _).mpr
      simp only [← Nat.add_assoc]
      rcases condition with stays | ⟨ends, -⟩
      · exact Or.inl stays
      · exact Or.inr ends
    simp only [seek₁, end₁] at first second at₂ bytes₂
    rw [← Nat.add_assoc] at at₃ end₃
    refine ⟨_, buf₁, _, buf₂, _, buf₃, first, second, whole, ?_, ?_, ⟨end₂, at₂⟩, ⟨end₃, at₃⟩⟩
    · intro i small
      rw [bytes₁ i small, bytes₃ i (Nat.lt_add_right b small)]
    · intro i small
      rw [bytes₂ i small, bytes₃ (a + i) (Nat.add_lt_add_left small a), Nat.add_assoc]

end Read

/-! ## A sample disk -/

def layOut (disk : Disk) : List UInt32 → (Nat → UInt8) → Disk
  | [], _ => disk
  | sector :: chain, bytes =>
      Function.update (layOut disk chain fun i => bytes (508 + i)) sector
        (withNextSector (ofCells 512 bytes) (chain.headD 0xFFFFFFFF))

def sampleName (c : UInt8) : CArray UInt8 fileNameMaxLength :=
  ofCells fileNameMaxLength (strcpy (fun _ => 0) [c])

def sampleFile : FileT where
  fileName := sampleName 97
  firstSector := 1026
  lastSector := 1027
  sectorCount := 2
  fileSize := 600
  fileType := FileType.normal.code

def sampleDisk : Disk := layOut (fun _ => ofCells 512 fun _ => 0) [1026, 1027] fun i => UInt8.ofNat i

theorem sampleFile_wellFormed : WellFormed sampleDisk sampleFile [1026, 1027] where
  first := rfl
  linked := by
    unfold Linked
    decide +kernel
  positive := by decide
  room := by decide
  last := rfl
  count := rfl
  nodup := by decide

theorem sysRead_split_block_end :
    SplitReadAgrees sampleDisk [1026, 1027] sampleFile ⟨0, 0, 1026, 1026⟩ (fun _ => 0) 300 208 :=
  (sysRead_split sampleFile_wellFormed.toReadable ⟨0, 0, 1026, 1026⟩ (fun _ => 0) 300 208 rfl
    (by decide)).mpr (by decide)

theorem sysRead_leaves_seek_behind :
    WellFormed sampleDisk sampleFile [1026, 1027] ∧
      ¬SplitReadAgrees sampleDisk [1026, 1027] sampleFile ⟨0, 0, 1026, 1026⟩ (fun _ => 0) 300 300 := by
  refine ⟨sampleFile_wellFormed, ?_⟩
  rintro ⟨_, _, _, _, io₃, buf₃, -, -, whole, -, -, -, seek, -⟩
  have behind : (sysRead sampleDisk sampleFile ⟨0, 0, 1026, 1026⟩ (fun _ => 0) (300 + 300)).2.1.readSeek =
      508 := by decide +kernel
  rw [whole, seek] at behind
  exact absurd behind (by decide)

end WegOS
