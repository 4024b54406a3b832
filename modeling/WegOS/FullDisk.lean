import WegOS.ExpandFile

/-! Calls that need more sectors than are free.

`file_alloc` returns -1, and no caller looks at it. -/

namespace WegOS

open BlockChain

def FileCall.result (fs : FileSystem) : FileCall → Option (FileSystem × FileCached)
  | .create locals dirCached fileName fileType => sysCreate fs locals dirCached fileName fileType
  | .write locals cached buf length => sysWrite fs locals cached buf length
  | .expand locals cached need => fileExpand fs locals cached need

def FileCall.handle : FileCall → FileCached
  | .create _ dirCached _ _ => dirCached
  | .write _ cached _ _ => cached
  | .expand _ cached _ => cached

/-- The directories and chains on the disk, the FCB in the handle and the bitmap are as before. -/
structure LeftAlone (fs : FileSystem) (cached : FileCached) (fs' : FileSystem) (cached' : FileCached) : Prop where
  root : fs'.disk sectorWithRootFcb = fs.disk sectorWithRootFcb
  chains : ∀ p f, node fs.disk (rootFcb fs.disk) p = some f → ∀ s ∈ sectorsOf fs.disk f, fs'.disk s = fs.disk s
  fcb : cached'.file = cached.file
  bitmap : fs'.fileAllocBitmap = fs.fileAllocBitmap

/-! ## What becomes of the FCB -/

theorem fileAlloc_full {fs : FileSystem} (full : freeSectors fs.fileAllocBitmap = 0) :
    fileAlloc fs = (0xFFFFFFFF, fs) := by
  have marked : ∀ n < fs.fileAllocBitmap.size, fs.fileAllocBitmap.bit (n : Nat) = !false := by
    intro n inside
    have none := Finset.filter_eq_empty_iff.mp (Finset.card_eq_zero.mp full) (Finset.mem_range.mpr inside)
    simpa using none
  rw [fileAlloc, bitAlloc_full marked]
  rfl

/-- The last of the sectors asked for is -1. -/
theorem expandFrom_short {need : Nat} {fs : FileSystem} (file : FileT)
    (size : fs.fileAllocBitmap.size = fsAllocTableBits) (short : freeSectors fs.fileAllocBitmap < need) :
    (expandFrom need fs file).2.lastSector = 0xFFFFFFFF := by
  induction need generalizing fs file with
  | zero => omega
  | succ need ih =>
      rw [expandFrom]
      rcases Nat.eq_zero_or_pos (freeSectors fs.fileAllocBitmap) with full | free
      · rw [fileAlloc_full full]
        cases need with
        | zero => rfl
        | succ need => exact ih _ size (Nat.lt_of_le_of_lt (Nat.le_of_eq full) (Nat.zero_lt_succ need))
      · obtain ⟨sector, bitmap, alloc, allocated⟩ := fileAlloc_spec size free
        rw [alloc]
        apply ih _ allocated.size
        have left := allocated.free
        rw [List.length_singleton] at left
        change freeSectors bitmap < need
        omega

theorem fileExpand_short {fs fs' : FileSystem} {locals : Locals} {cached cached' : FileCached} {need : Nat}
    (size : fs.fileAllocBitmap.size = fsAllocTableBits) (short : freeSectors fs.fileAllocBitmap < need)
    (result : fileExpand fs locals cached need = some (fs', cached')) :
    cached'.file.lastSector = 0xFFFFFFFF := by
  obtain ⟨disk, -, same⟩ := Option.bind_eq_some_iff.mp result
  rw [← (Prod.mk.inj (Option.some.inj same)).2]
  exact expandFrom_short cached.file size short

theorem fileExpand_fileSize {fs fs' : FileSystem} {locals : Locals} {cached cached' : FileCached} {need : Nat}
    (result : fileExpand fs locals cached need = some (fs', cached')) :
    cached'.file.fileSize = cached.file.fileSize := by
  obtain ⟨disk, -, same⟩ := Option.bind_eq_some_iff.mp result
  rw [← (Prod.mk.inj (Option.some.inj same)).2]
  exact expandFrom_fileSize need fs cached.file

theorem stagedWrite_file {fs fs' : FileSystem} {locals : Locals} {cached cached' : FileCached}
    {buf : Nat → UInt8} {length : Nat} (result : stagedWrite fs locals cached buf length = some (fs', cached')) :
    cached'.file = { cached.file with fileSize := cached.file.fileSize + Int32.ofNat length } := by
  obtain ⟨_, -, result⟩ := Option.bind_eq_some_iff.mp result
  dsimp only at result
  split_ifs at result
  · cases result
  · rw [← (Prod.mk.inj (Option.some.inj result)).2]

theorem sysWrite_file {fs fs' : FileSystem} {locals : Locals} {cached cached' : FileCached} {buf : Nat → UInt8}
    {length : Nat} (result : sysWrite fs locals cached buf length = some (fs', cached')) :
    ∃ expanded, expandedFor fs locals cached length = some expanded ∧
      cached'.file = { expanded.2.file with fileSize := expanded.2.file.fileSize + Int32.ofNat length } := by
  rw [sysWrite_save] at result
  obtain ⟨unsaved, reached, last⟩ := Option.bind_eq_some_iff.mp result
  obtain ⟨expanded, expansion, staged⟩ := Option.bind_eq_some_iff.mp reached
  obtain ⟨disk, -, same⟩ := Option.map_eq_some_iff.mp last
  obtain ⟨-, rfl⟩ := Prod.mk.inj same
  exact ⟨expanded, expansion, stagedWrite_file staged⟩

theorem sysWrite_short {fs fs' : FileSystem} {locals : Locals} {cached cached' : FileCached} {buf : Nat → UInt8}
    {length : Nat} (size : fs.fileAllocBitmap.size = fsAllocTableBits)
    (short : freeSectors fs.fileAllocBitmap < blocksMissing cached.file length)
    (result : sysWrite fs locals cached buf length = some (fs', cached')) :
    cached'.file.lastSector = 0xFFFFFFFF := by
  obtain ⟨⟨fs₁, cached₁⟩, expanded, file⟩ := sysWrite_file result
  unfold blocksMissing at short
  simp only [expandedFor] at expanded
  rw [if_pos (by omega)] at expanded
  rw [file]
  exact fileExpand_short size short expanded

theorem sysWrite_fileSize {fs fs' : FileSystem} {locals : Locals} {cached cached' : FileCached}
    {buf : Nat → UInt8} {length : Nat} (result : sysWrite fs locals cached buf length = some (fs', cached')) :
    cached'.file.fileSize = cached.file.fileSize + Int32.ofNat length := by
  obtain ⟨⟨fs₁, cached₁⟩, expanded, file⟩ := sysWrite_file result
  rw [file]
  simp only [expandedFor] at expanded
  split_ifs at expanded
  · exact congrArg (· + Int32.ofNat length) (fileExpand_fileSize expanded)
  · obtain ⟨-, rfl⟩ := Prod.mk.inj (Option.some.inj expanded)
    rfl

/-- A new entry makes the directory larger, whether or not there is a sector for the new file. -/
theorem sysCreate_fileSize {fs fs' : FileSystem} {locals : Locals} {dirCached dirCached' : FileCached}
    {fileName : List UInt8} {fileType : FileType}
    (result : sysCreate fs locals dirCached fileName fileType = some (fs', dirCached')) :
    dirCached'.file.fileSize = dirCached.file.fileSize + Int32.ofNat fileTSize := by
  simp only [sysCreate] at result
  split_ifs at result
  · cases result
  · exact sysWrite_fileSize result

theorem grown_ne (x : Int32) : x + Int32.ofNat fileTSize ≠ x := by
  intro same
  have zero : Int32.ofNat fileTSize = 0 := by simpa using same
  exact absurd zero (by decide)

/-- No call that needs more sectors than are free leaves the file system and the handle alone. -/
theorem full_disk_not_left_alone {fs : FileSystem} (volume : Volume fs) (call : FileCall)
    (components : List (List UInt8)) (through : ThroughDirectories fs.disk components)
    (handle : Handle fs.disk components call.handle)
    (wellFormed : WellFormed fs.disk call.handle.file (sectorsOf fs.disk call.handle.file))
    (short : freeSectors fs.fileAllocBitmap < call.allocations) :
    ¬∃ fs' cached', call.result fs = some (fs', cached') ∧ LeftAlone fs call.handle fs' cached' := by
  obtain ⟨place, -, there⟩ := node_of_resolve through handle.file
  -- The last sector of a file is one that the bitmap can hand out.
  have inside : call.handle.file.lastSector ≠ 0xFFFFFFFF := by
    intro none
    have bound := (volume.marked place _ there _ (List.mem_of_getLast? wellFormed.last)).1
    rw [none, volume.size] at bound
    exact absurd bound (by decide)
  rintro ⟨fs', cached', result, alone⟩
  rw [← alone.fcb] at inside
  cases call with
  | create locals dirCached fileName fileType =>
      have grown := sysCreate_fileSize result
      rw [alone.fcb] at grown
      exact grown_ne _ grown.symm
  | write locals cached buf length => exact inside (sysWrite_short volume.size short result)
  | expand locals cached need => exact inside (fileExpand_short volume.size short result)

/-! ## A full disk with the sample tree -/

def sampleFullFs : FileSystem := ⟨sampleTree, ⟨fun _ => 0xFF, fsAllocTableBits⟩⟩

theorem sampleFull_bit (n : Int) : sampleFullFs.fileAllocBitmap.bit n = true := by
  have ones : ∀ k < 8, (0xFF : UInt8).toNat.testBit k = true := by decide
  exact ones _ (by omega)

theorem sampleFull_free : freeSectors sampleFullFs.fileAllocBitmap = 0 := by
  apply Finset.card_eq_zero.mpr
  apply Finset.filter_eq_empty_iff.mpr
  intro n _
  rw [sampleFull_bit]
  decide

theorem sampleFull_volume : Volume sampleFullFs where
  tree := sampleTree_tree
  size := rfl
  marked p f place s member :=
    ⟨(sampleFs_volume.marked p f place s member).1, sampleFull_bit s.toNat⟩
  rootMarked := ⟨by decide, sampleFull_bit _⟩

theorem full_disk_not_left_alone_write : ¬∃ fs' cached',
    (FileCall.write sampleLocals sampleHandle (fun _ => 7) 2000).result sampleFullFs = some (fs', cached') ∧
      LeftAlone sampleFullFs sampleHandle fs' cached' :=
  full_disk_not_left_alone sampleFull_volume (.write sampleLocals sampleHandle (fun _ => 7) 2000) [[100], [98]]
    sampleTree_directories sampleHandle_handle sampleInner_wellFormed (by rw [sampleFull_free]; decide)

/-- One sector more for the file `d/b`: afterwards its last sector is -1. -/
theorem full_disk_expand : Volume sampleFullFs ∧ ThroughDirectories sampleTree ([[100]] ++ [[98]]) ∧
    Handle sampleTree ([[100]] ++ [[98]]) sampleHandle ∧
    WellFormed sampleTree sampleInner (sectorsOf sampleTree sampleInner) ∧
    freeSectors sampleFullFs.fileAllocBitmap < 1 ∧
    ¬∃ fs' cached', fileExpand sampleFullFs sampleLocals sampleHandle 1 = some (fs', cached') ∧
      LeftAlone sampleFullFs sampleHandle fs' cached' := by
  have short : freeSectors sampleFullFs.fileAllocBitmap < 1 := by rw [sampleFull_free]; decide
  refine ⟨sampleFull_volume, sampleTree_directories, sampleHandle_handle, sampleInner_wellFormed, short, ?_⟩
  rintro ⟨fs', cached', result, alone⟩
  have last := fileExpand_short sampleFull_volume.size short result
  rw [alone.fcb] at last
  exact absurd last (by decide)

end WegOS
