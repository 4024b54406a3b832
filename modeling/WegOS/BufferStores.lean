import WegOS.SignedIo
import WegOS.FileTypes
import WegOS.FullDisk

/-! Stores into the buffers of fixed size of the file system. -/

namespace WegOS

open CArray BlockChain Stores

/-! ## Reads -/

section Reads

variable {disk : Disk} {file : FileT} {io : IntIoState} {size : Nat}

theorem readSectorsInt_inside (sectors : Nat) (io : IntIoState) (pos : Nat) :
    Inside size (readSectorsInt disk sectors io pos).2 ↔ sectors = 0 ∨ pos + sectors * 508 + 4 ≤ size := by
  induction sectors generalizing io pos with
  | zero => simp [readSectorsInt]
  | succ sectors ih =>
      simp only [readSectorsInt, inside_cons, ih, validDataSizeInBlock, sectorSize]
      omega

/-- The stores of a read that crosses a block end: the rest of the first block, whole sectors with their links,
and the start of the last one. -/
theorem sysReadInt_inside {length : Int32} (inRange : io.readSeek + length ≤ file.fileSize)
    (crosses : ¬nthBlockInt (io.readSeek + length) - nthBlockInt io.readSeek = 0) {remain sectors scattered : Nat}
    (remainEq : (UInt32.ofNat validDataSizeInBlock - inBlockOffsetInt io.readSeek).toNat = remain)
    (sectorsEq : (nthBlockInt (length - (UInt32.ofNat validDataSizeInBlock -
      inBlockOffsetInt io.readSeek).toInt32)).toNat = sectors)
    (scatteredEq : (inBlockOffsetInt (length - (UInt32.ofNat validDataSizeInBlock -
      inBlockOffsetInt io.readSeek).toInt32)).toNat = scattered) :
    Inside size (sysReadInt disk file io length).2.2 ↔ remain ≤ size ∧
      (sectors = 0 ∨ remain + sectors * 508 + 4 ≤ size) ∧ (scattered = 0 ∨ remain + sectors * 508 + scattered ≤ size) := by
  rw [sysReadInt, if_pos inRange]
  simp only [if_neg crosses, List.cons_append, inside_cons, inside_append, inside_nil, readSectorsInt_inside, remainEq,
    sectorsEq, scatteredEq, and_true]
  simp only [validDataSizeInBlock, sectorSize]
  omega

theorem sysReadInt_extent (positive : 0 ≤ file.fileSize) {io : FileIoState} {length : Nat} (bound : io.readSeek + length ≤ file.size) :
    Inside size (sysReadInt disk file io.ints (Int32.ofNat length)).2.2 ↔ readExtent io.readSeek length ≤ size := by
  have small : io.readSeek + length < 2 ^ 31 := Nat.lt_of_le_of_lt bound file.fileSize.toNatClampNeg_lt
  have sum : io.ints.readSeek + Int32.ofNat length = Int32.ofNat (io.readSeek + length) := (Int32.ofNat_add _ _).symm
  have blocks : nthBlockInt (io.ints.readSeek + Int32.ofNat length) - nthBlockInt io.ints.readSeek = 0 ↔
      nthBlock (io.readSeek + length) = nthBlock io.readSeek := by
    rw [sum, sameBlock_iff, nthBlockInt_ofNat small, FileIoState.ints, nthBlockInt_ofNat (by omega)]
  have inRange : io.ints.readSeek + Int32.ofNat length ≤ file.fileSize := by
    rw [sum, Int32.le_iff_toInt_le, Int32.toInt_ofNat_of_lt small]
    have size := size_cast positive
    omega
  by_cases single : nthBlock (io.readSeek + length) = nthBlock io.readSeek
  · have short : nthBlock (io.readSeek + length) ≤ nthBlock io.readSeek + 1 := by omega
    rw [sysReadInt, if_pos inRange, readExtent, if_pos short]
    simp only [if_pos (blocks.mpr single), inside_cons, inside_nil, and_true, ofNat_toUInt32 (show length < 2 ^ 31 by omega)]
    omega
  · have crossed : ¬(io.readSeek + length) / 508 = io.readSeek / 508 := single
    have enough : validDataSizeInBlock - inBlockOffset io.readSeek ≤ length := by
      simp only [validDataSizeInBlock, sectorSize, inBlockOffset_eq]
      omega
    have remain := remainInt_eq (show io.readSeek < 2 ^ 31 by omega)
    have restSmall : length - (validDataSizeInBlock - inBlockOffset io.readSeek) < 2 ^ 31 := by omega
    rw [sysReadInt_inside inRange (mt blocks.mp single) rfl rfl rfl, FileIoState.ints_readSeek, remain, remainInt_toNat,
      restInt_eq enough, nthBlockInt_ofNat restSmall, inBlockOffsetInt_ofNat restSmall]
    by_cases short : nthBlock (io.readSeek + length) ≤ nthBlock io.readSeek + 1
    · rw [readExtent, if_pos short]
      simp only [nthBlock_eq, inBlockOffset_eq, validDataSizeInBlock, sectorSize, Nat.reduceSub] at enough short ⊢
      omega
    · rw [readExtent, if_neg short]
      simp only [nthBlock_eq, inBlockOffset_eq, validDataSizeInBlock, sectorSize, Nat.reduceSub] at enough short ⊢
      omega

end Reads

/-- A read leaves the cells behind its length alone, just when at most one block end is passed or four bytes of
the last block cover the link of the sector before. -/
theorem sys_read_stays_iff {disk : Disk} {file : FileT} {chain : List UInt32} (wellFormed : WellFormed disk file chain)
    (io : FileIoState) (length : Nat) (bound : io.readSeek + length ≤ file.size) :
    (∀ buf i, length ≤ i → (sysRead disk file io buf length).2.2 i = buf i) ↔
      nthBlock (io.readSeek + length) ≤ nthBlock io.readSeek + 1 ∨ 4 ≤ inBlockOffset (io.readSeek + length) := by
  have small : io.readSeek + length < 2 ^ 31 := Nat.lt_of_le_of_lt bound file.fileSize.toNatClampNeg_lt
  have stores := fun buf => (@sysReadInt_eq disk file _ _ small buf).2.2
  have extent : readExtent io.readSeek length ≤ length ↔
      nthBlock (io.readSeek + length) ≤ nthBlock io.readSeek + 1 ∨ 4 ≤ inBlockOffset (io.readSeek + length) := by
    by_cases short : nthBlock (io.readSeek + length) ≤ nthBlock io.readSeek + 1
    · rw [readExtent, if_pos short]
      exact iff_of_true (Nat.le_refl _) (Or.inl short)
    · rw [readExtent, if_neg short, or_iff_right short]
      simp only [nthBlock_eq, inBlockOffset_eq] at short ⊢
      omega
  have two : Nontrivial UInt8 := ⟨0, 1, by decide⟩
  rw [← extent, ← @sysReadInt_extent disk _ _ wellFormed.positive _ _ bound, ← leaves_iff_inside]
  simp only [stores]

theorem sys_read_stays_whole : (sysRead sampleDisk sampleFile ⟨0, 0, 1026, 1026⟩ (fun _ => 7) 600).2.2 600 = 7 :=
  (sys_read_stays_iff sampleFile_wellFormed ⟨0, 0, 1026, 1026⟩ 600 (by decide)).mpr (by decide) (fun _ => 7) 600
    (Nat.le_refl _)

def sampleLong : FileT := { sampleInner with fileSize := 1017 }

theorem sampleLong_wellFormed : WellFormed sampleTree sampleLong (sectorsOf sampleTree sampleLong) :=
  wellFormed_of_check (by decide +kernel)

theorem sys_read_leaves_link : WellFormed sampleTree sampleLong (sectorsOf sampleTree sampleLong) ∧
    ¬∀ (buf : Nat → UInt8) (i : Nat), 1017 ≤ i →
      (sysRead sampleTree sampleLong ⟨0, 0, 1029, 1029⟩ buf 1017).2.2 i = buf i := by
  refine ⟨sampleLong_wellFormed, fun stays => ?_⟩
  have link : (sysRead sampleTree sampleLong ⟨0, 0, 1029, 1029⟩ (fun _ => 7) 1017).2.2 1017 = 4 := by decide +kernel
  exact absurd (link.symm.trans (stays (fun _ => 7) 1017 (Nat.le_refl _))) (by decide)

/-! ## The staging buffer of `sys_write` -/

def shiftStores (length : Nat) : Nat → (Nat → UInt8) → List (Store UInt8)
  | 0, _ => []
  | i + 1, temp =>
      ⟨length + i, 1, fun _ => temp i⟩ :: shiftStores length i (Function.update temp (length + i) (temp i))

/-- The stores of `sys_write` into `temp`, where the file has all its sectors. -/
def tempStores (disk : Disk) (file : FileT) (io : IntIoState) (temp buf : Nat → UInt8) (length : Int32) :
    List (Store UInt8) :=
  let remain := file.fileSize - io.writeSeek
  let io := (sysRseekInt disk file io io.writeSeek).2.1
  let tail := (sysReadInt disk file io (file.fileSize - io.readSeek)).2.2
  tail ++ shiftStores length.toUInt32.toNat remain.toNatClampNeg (run temp tail) ++ [⟨0, length.toUInt32.toNat, buf⟩]

def sysWriteStores (fs : FileSystem) (locals : Locals) (cached : FileCached) (buf : Nat → UInt8) (length : Int32) :
    Option (List (Store UInt8)) := do
  let blocks := (nthBlockInt (cached.file.fileSize + length)).toNat + 1
  let (fs, cached) ←
    if cached.file.sectorCount.toNat < blocks then
      fileExpand fs locals cached (blocks - cached.file.sectorCount.toNat)
    else pure (fs, cached)
  pure (tempStores fs.disk cached.file cached.ioState.ints locals.temp buf length)

section Staging

variable {disk : Disk} {file : FileT} {io : FileIoState} {size : Nat}

theorem sysWriteStores_eq (fs : FileSystem) (locals : Locals) (cached : FileCached) (buf : Nat → UInt8)
    (length : Int32) :
    sysWriteStores fs locals cached buf length =
      (if cached.file.sectorCount.toNat < (nthBlockInt (cached.file.fileSize + length)).toNat + 1
        then fileExpand fs locals cached
          ((nthBlockInt (cached.file.fileSize + length)).toNat + 1 - cached.file.sectorCount.toNat)
        else pure (fs, cached)).bind fun (fs, cached) =>
          some (tempStores fs.disk cached.file cached.ioState.ints locals.temp buf length) := by
  simp only [sysWriteStores]
  split_ifs <;> rfl

theorem run_shiftStores (length i : Nat) (temp : Nat → UInt8) :
    run temp (shiftStores length i temp) = shiftUp length i temp := by
  induction i generalizing temp with
  | zero => rfl
  | succ i ih =>
      have one : memcpy temp (length + i) (fun _ => temp i) 1 = Function.update temp (length + i) (temp i) := by
        funext j
        by_cases here : j = length + i
        · rw [here, Function.update_self, memcpy_inside (Nat.le_refl _) (Nat.lt_succ_self _)]
        · rw [Function.update_of_ne here, memcpy, if_neg (by omega)]
      rw [shiftStores, run_cons, one]
      exact ih _

theorem shiftStores_inside (length i : Nat) (temp : Nat → UInt8) :
    Inside size (shiftStores length i temp) ↔ i = 0 ∨ length + i ≤ size := by
  induction i generalizing temp with
  | zero => simp [shiftStores]
  | succ i ih =>
      rw [shiftStores, inside_cons, ih]
      dsimp only
      omega

theorem sysRseekInt_eq {position : Nat} (small : position < 2 ^ 31) :
    (sysRseekInt disk file io.ints (Int32.ofNat position)).2.1 = (sysRseek disk file io position).2.ints := by
  have inRange : Int32.ofNat position < file.fileSize ↔ (position : Int) < file.fileSize.toInt := by
    rw [Int32.lt_iff_toInt_lt, Int32.toInt_ofNat_of_lt small]
  rw [sysRseekInt, sysRseek, nthBlockInt_ofNat small]
  by_cases before : (position : Int) < file.fileSize.toInt
  · rw [if_pos before, if_pos (inRange.mpr before)]
    rfl
  · rw [if_neg before, if_neg (mt inRange.mp before)]

theorem restOfFile (positive : 0 ≤ file.fileSize) {seek : Nat} (inside : seek ≤ file.size) :
    file.fileSize - Int32.ofNat seek = Int32.ofNat (file.size - seek) := by
  rw [Int32.ofNat_sub _ _ inside, FileT.size, Int32.ofNat_toNatClampNeg _ positive]

/-- The tail is read from the write seek, or from the read seek where the write seek is at the end. -/
theorem tempStores_inside (positive : 0 ≤ file.fileSize) (read : io.readSeek ≤ file.size)
    (write : io.writeSeek ≤ file.size) (temp buf : Nat → UInt8) {length : Int32} (nonneg : 0 ≤ length) :
    Inside size (tempStores disk file io.ints temp buf length) ↔
      readExtent (tailStart file io) (file.size - tailStart file io) ≤ size ∧
        file.size - io.writeSeek + length.toNatClampNeg ≤ size := by
  have limit : file.size < 2 ^ 31 := file.fileSize.toNatClampNeg_lt
  have cast := size_cast positive
  have seek : (sysRseek disk file io io.writeSeek).2.readSeek = tailStart file io := by
    rw [sysRseek, tailStart]
    by_cases before : io.writeSeek < file.size
    · rw [if_pos before, if_pos (by omega)]
    · rw [if_neg before, if_neg (by omega)]
  have start : tailStart file io ≤ file.size := by
    unfold tailStart
    split_ifs <;> assumption
  have tail : (file.size - tailStart file io) + tailStart file io ≤ file.size := by omega
  have count : length.toUInt32.toNat = length.toNatClampNeg := Int32.toNat_toUInt32_of_le nonneg
  have remain : (file.fileSize - io.ints.writeSeek).toNatClampNeg = file.size - io.writeSeek := by
    rw [FileIoState.ints, restOfFile positive write, Int32.toNatClampNeg_ofNat_of_lt (by omega)]
  have moved : (sysRseekInt disk file io.ints io.ints.writeSeek).2.1 = (sysRseek disk file io io.writeSeek).2.ints :=
    sysRseekInt_eq (by omega)
  have extent := @sysReadInt_extent disk file size positive (sysRseek disk file io io.writeSeek).2
    (file.size - tailStart file io) (by rw [seek]; omega)
  rw [seek] at extent
  have rest : file.fileSize - (sysRseek disk file io io.writeSeek).2.ints.readSeek =
      Int32.ofNat (file.size - tailStart file io) := by
    rw [FileIoState.ints_readSeek, seek, restOfFile positive start]
  simp only [tempStores, moved, rest, inside_append, extent, shiftStores_inside, inside_cons, inside_nil, count, remain,
    and_true]
  omega

theorem expanded_kept {fs fs' : FileSystem} {locals : Locals} {cached cached' : FileCached} {condition : Prop}
    [Decidable condition] {need : Nat}
    (expanded : (if condition then fileExpand fs locals cached need else pure (fs, cached)) = some (fs', cached')) :
    cached'.file.fileSize = cached.file.fileSize ∧ cached'.ioState = cached.ioState := by
  split_ifs at expanded
  · refine ⟨fileExpand_fileSize expanded, ?_⟩
    obtain ⟨disk, -, same⟩ := Option.bind_eq_some_iff.mp expanded
    rw [← (Prod.mk.inj (Option.some.inj same)).2]
  · rw [← (Prod.mk.inj (Option.some.inj expanded)).2]
    exact ⟨rfl, rfl⟩

theorem tailStart_le (write : io.writeSeek ≤ file.size) (read : io.readSeek ≤ file.size) :
    tailStart file io ≤ file.size := by
  unfold tailStart
  split_ifs <;> assumption

theorem sysWriteStores_inside {fs : FileSystem} {locals : Locals} {cached : FileCached} {buf : Nat → UInt8}
    {length : Int32} {stores : List (Store UInt8)} (positive : 0 ≤ cached.file.fileSize)
    (read : cached.ioState.readSeek ≤ cached.file.size) (write : cached.ioState.writeSeek ≤ cached.file.size)
    (nonneg : 0 ≤ length) (made : sysWriteStores fs locals cached buf length = some stores) :
    Inside size stores ↔
      readExtent (tailStart cached.file cached.ioState) (cached.file.size - tailStart cached.file cached.ioState) ≤ size ∧
        cached.file.size - cached.ioState.writeSeek + length.toNatClampNeg ≤ size := by
  obtain ⟨⟨fs', cached'⟩, expanded, same⟩ := Option.bind_eq_some_iff.mp ((sysWriteStores_eq ..).symm.trans made)
  obtain rfl := Option.some.inj same
  obtain ⟨fileSize, ioState⟩ := expanded_kept expanded
  have size : cached'.file.size = cached.file.size := congrArg Int32.toNatClampNeg fileSize
  have start : tailStart cached'.file cached.ioState = tailStart cached.file cached.ioState := by
    rw [tailStart, size, tailStart]
  rw [tempStores_inside (by rw [fileSize]; exact positive) (by rw [ioState, size]; exact read)
    (by rw [ioState, size]; exact write) _ _ nonneg, ioState, size, start]

/-- Where the file has its sectors, all stores of `sys_write` into its buffer are inside just when the tail that is
read, with the link behind it, and the tail together with the new bytes fit in the buffer. -/
theorem sys_write_stores_iff {fs : FileSystem} {locals : Locals} {cached : FileCached} {buf : Nat → UInt8}
    {length : Int32} {stores : List (Store UInt8)} (positive : 0 ≤ cached.file.fileSize)
    (read : cached.ioState.readSeek ≤ cached.file.size) (write : cached.ioState.writeSeek ≤ cached.file.size)
    (nonneg : 0 ≤ length) (made : sysWriteStores fs locals cached buf length = some stores) :
    Inside tempSize stores ↔ TailFits cached.file cached.ioState ∧
      cached.file.size - cached.ioState.writeSeek + length.toNatClampNeg ≤ tempSize := by
  rw [sysWriteStores_inside positive read write nonneg made]
  exact and_congr_left' (and_iff_right (tailStart_le write read)).symm

/-- 450 bytes in front of the last 80 of a file, into a new block. -/
theorem sys_write_stores_tail : ∃ stores,
    sysWriteStores sampleFs sampleLocals sampleTail (fun _ => 7) 450 = some stores ∧ Inside tempSize stores := by
  have made : (sysWriteStores sampleFs sampleLocals sampleTail (fun _ => 7) 450).isSome = true := by decide +kernel
  obtain ⟨stores, made⟩ := Option.isSome_iff_exists.mp made
  exact ⟨stores, made, (sys_write_stores_iff (by decide) (by decide) (by decide) (by decide) made).mpr
    ⟨by unfold TailFits; decide, by decide⟩⟩

theorem sys_write_overruns : WellFormed sampleTree sampleInner (sectorsOf sampleTree sampleInner) ∧ ∃ stores,
    sysWriteStores sampleFs sampleLocals sampleHandle (fun _ => 7) 5000 = some stores ∧ ¬Inside tempSize stores := by
  have outside : (sysWriteStores sampleFs sampleLocals sampleHandle (fun _ => 7) 5000).map
      (fun stores => decide (Inside tempSize stores)) = some false := by decide +kernel
  obtain ⟨stores, made, no⟩ := Option.map_eq_some_iff.mp outside
  exact ⟨sampleInner_wellFormed, stores, made, of_decide_eq_false no⟩

/-- Where the model has a result of `sys_write`, no store has left the buffer. -/
theorem sysWrite_inside {fs : FileSystem} {locals : Locals} {cached : FileCached} {buf : Nat → UInt8} {n : Nat}
    {result : FileSystem × FileCached} (positive : 0 ≤ cached.file.fileSize)
    (read : cached.ioState.readSeek ≤ cached.file.size) (write : cached.ioState.writeSeek ≤ cached.file.size)
    (small : n < 2 ^ 31) (wrote : sysWrite fs locals cached buf n = some result) :
    ∃ stores, sysWriteStores fs locals cached buf (Int32.ofNat n) = some stores ∧ Inside tempSize stores := by
  rw [sysWrite_save] at wrote
  obtain ⟨_, reached, -⟩ := Option.bind_eq_some_iff.mp wrote
  obtain ⟨⟨fs', cached'⟩, expanded, inserts⟩ := Option.bind_eq_some_iff.mp reached
  have expanded :
      (if cached.file.sectorCount.toNat < nthBlock (cached.file.fileSize + Int32.ofNat n).toUInt32.toNat + 1
        then fileExpand fs locals cached
          (nthBlock (cached.file.fileSize + Int32.ofNat n).toUInt32.toNat + 1 - cached.file.sectorCount.toNat)
        else pure (fs, cached)) = some (fs', cached') := expanded
  have nonneg : 0 ≤ Int32.ofNat n := by
    rw [Int32.le_iff_toInt_le, Int32.toInt_ofNat_of_lt small, Int32.toInt_zero]
    exact Int.natCast_nonneg n
  have made : sysWriteStores fs locals cached buf (Int32.ofNat n) =
      some (tempStores fs'.disk cached'.file cached'.ioState.ints locals.temp buf (Int32.ofNat n)) := by
    have blocks : nthBlock (cached.file.fileSize + Int32.ofNat n).toUInt32.toNat =
        (nthBlockInt (cached.file.fileSize + Int32.ofNat n)).toNat := (nthBlockInt_toNat _).symm
    rw [blocks] at expanded
    rw [sysWriteStores_eq, expanded, Option.bind_some]
  refine ⟨_, made, (sysWriteStores_inside positive read write nonneg made).mpr ?_⟩
  have length : (Int32.ofNat n).toNatClampNeg = n := Int32.toNatClampNeg_ofNat_of_lt small
  rw [length]
  obtain ⟨fileSize, ioState⟩ := expanded_kept expanded
  have size : cached'.file.size = cached.file.size := congrArg Int32.toNatClampNeg fileSize
  obtain ⟨⟨io, temp⟩, tail, inserts⟩ := Option.bind_eq_some_iff.mp inserts
  have fits := readRemains_fits (by rw [fileSize]; exact positive) tail
  rw [TailFits, ioState, size] at fits
  refine ⟨fits.2, ?_⟩
  dsimp only at inserts
  have cast := size_cast positive
  split_ifs at inserts with large
  · cases inserts
  · rw [fileSize, ioState] at large
    omega

end Staging

end WegOS
