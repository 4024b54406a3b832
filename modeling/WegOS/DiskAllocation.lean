import WegOS.FileWrite
import WegOS.Lib.Transition

/-! The two allocators of the disk: the bitmap of the files and the counter of the swap space.

Neither of them knows of the other, and the bitmap is not read back when the system starts
again. -/

namespace WegOS

open LittleEndian CArray Transition

/-- Memory at the static array `fs_alloc_table`, which starts as zeros. -/
def fsAllocTable (around : Int → UInt8) (i : Int) : UInt8 :=
  if 0 ≤ i ∧ i < fsAllocTableBits / 8 then 0 else around i

/-- `block` is what the local variable holds before it is set. -/
def rootInit (fs : FileSystem) (block : Nat → UInt8) : FileSystem :=
  let rootFcb : FileT :=
    { fileName := ofCells fileNameMaxLength (strcpy block [114, 111, 111, 116])
      firstSector := 1025
      lastSector := 1025
      sectorCount := 1
      fileSize := 84
      fileType := FileType.directory.code }
  let bitmap := bitFree (bitFree fs.fileAllocBitmap 1024 true) 1025 true
  let block := memcpy (putWord block (arrayPlace 508) 0xFFFFFFFF) 0 rootFcb.bytes fileTSize
  { disk := writeDisk fs.disk sectorWithRootFcb block, fileAllocBitmap := bitmap }

/-- `firstBoot` says whether the kernel is built with `FS_INIT`. -/
def fsInit (firstBoot : Bool) (disk : Disk) (around : Int → UInt8) (block : Nat → UInt8) : FileSystem :=
  let bitmap := bitBind (fsAllocTable around) fsAllocTableBits
  if firstBoot then
    let bitmap := (List.range sectorWithRootFcb.toNat).foldl
      (fun bitmap (i : Nat) => bitFree bitmap i true) bitmap
    rootInit { disk := disk, fileAllocBitmap := bitmap } block
  else { disk := disk, fileAllocBitmap := bitmap }

def diskSwapStartSector : UInt32 := 1030

/-- `sector` is the static counter; each slot has the eight sectors of a page. -/
def swapAlloc (sector : UInt32) : UInt32 × UInt32 := (sector, sector + 8)

/-! ## Calls of `file_alloc` -/

def sectorAlloc (bitmap : Bitmap) : UInt32 × Bitmap :=
  let (index, bitmap) := bitAlloc bitmap false
  (UInt32.ofInt index, bitmap)

def sectorAllocs : Nat → Bitmap → List UInt32 × Bitmap
  | 0, bitmap => ([], bitmap)
  | count + 1, bitmap =>
      let (sector, bitmap) := sectorAlloc bitmap
      let (rest, bitmap) := sectorAllocs count bitmap
      (sector :: rest, bitmap)

def blocksMissing (file : FileT) (length : Nat) : Nat :=
  nthBlock (file.fileSize + Int32.ofNat length).toUInt32.toNat + 1 - file.sectorCount.toNat

theorem expandFrom_bitmap (need : Nat) (fs : FileSystem) (file : FileT) :
    (expandFrom need fs file).1.fileAllocBitmap = (sectorAllocs need fs.fileAllocBitmap).2 := by
  induction need generalizing fs file with
  | zero => rfl
  | succ need ih => exact ih _ _

theorem fileExpand_bitmap {fs fs' : FileSystem} {locals : Locals} {cached cached' : FileCached} {need : Nat}
    (result : fileExpand fs locals cached need = some (fs', cached')) :
    fs'.fileAllocBitmap = (sectorAllocs need fs.fileAllocBitmap).2 := by
  obtain ⟨disk, -, same⟩ := Option.bind_eq_some_iff.mp result
  obtain ⟨rfl, -⟩ := Prod.mk.inj (Option.some.inj same)
  exact expandFrom_bitmap need fs cached.file

theorem stagedWrite_bitmap {fs fs' : FileSystem} {locals : Locals} {cached cached' : FileCached}
    {buf : Nat → UInt8} {length : Nat} (result : stagedWrite fs locals cached buf length = some (fs', cached')) :
    fs'.fileAllocBitmap = fs.fileAllocBitmap := by
  obtain ⟨_, -, result⟩ := Option.bind_eq_some_iff.mp result
  dsimp only at result
  split_ifs at result
  · cases result
  · rw [← (Prod.mk.inj (Option.some.inj result)).1]

theorem sysWrite_bitmap {fs fs' : FileSystem} {locals : Locals} {cached cached' : FileCached}
    {buf : Nat → UInt8} {length : Nat} (result : sysWrite fs locals cached buf length = some (fs', cached')) :
    fs'.fileAllocBitmap = (sectorAllocs (blocksMissing cached.file length) fs.fileAllocBitmap).2 := by
  rw [sysWrite_save] at result
  obtain ⟨⟨fs₂, cached₂⟩, reached, last⟩ := Option.bind_eq_some_iff.mp result
  obtain ⟨⟨fs₁, cached₁⟩, expansion, staged⟩ := Option.bind_eq_some_iff.mp reached
  obtain ⟨disk, -, same⟩ := Option.map_eq_some_iff.mp last
  obtain ⟨rfl, -⟩ := Prod.mk.inj same
  refine (stagedWrite_bitmap staged).trans ?_
  simp only [expandedFor] at expansion
  split_ifs at expansion with short
  · exact fileExpand_bitmap expansion
  · obtain ⟨rfl, -⟩ := Prod.mk.inj (Option.some.inj expansion)
    have none : blocksMissing cached.file length = 0 := by
      rw [blocksMissing]
      omega
    rw [none]
    rfl

theorem sysCreate_bitmap {fs fs' : FileSystem} {locals : Locals} {dirCached cached' : FileCached}
    {fileName : List UInt8} {fileType : FileType}
    (result : sysCreate fs locals dirCached fileName fileType = some (fs', cached')) :
    fs'.fileAllocBitmap = (sectorAllocs (1 + blocksMissing dirCached.file fileTSize) fs.fileAllocBitmap).2 := by
  simp only [sysCreate, Option.bind_eq_bind] at result
  split_ifs at result
  · simp at result
  · rw [sysWrite_bitmap result, Nat.add_comm]
    rfl

/-! ## Sessions -/

inductive FileCall
  | create (locals : Locals) (dirCached : FileCached) (fileName : List UInt8) (fileType : FileType)
  | write (locals : Locals) (cached : FileCached) (buf : Nat → UInt8) (length : Nat)
  | expand (locals : Locals) (cached : FileCached) (need : Nat)

def FileCall.allocations : FileCall → Nat
  | .create _ dirCached _ _ => 1 + blocksMissing dirCached.file fileTSize
  | .write _ cached _ length => blocksMissing cached.file length
  | .expand _ _ need => need

def FileCall.run (fs : FileSystem) : FileCall → Option FileSystem
  | .create locals dirCached fileName fileType =>
      (sysCreate fs locals dirCached fileName fileType).map Prod.fst
  | .write locals cached buf length => (sysWrite fs locals cached buf length).map Prod.fst
  | .expand locals cached need => (fileExpand fs locals cached need).map Prod.fst

theorem FileCall.run_bitmap {fs fs' : FileSystem} {call : FileCall} (result : call.run fs = some fs') :
    fs'.fileAllocBitmap = (sectorAllocs call.allocations fs.fileAllocBitmap).2 := by
  cases call with
  | create locals dirCached fileName fileType =>
      obtain ⟨⟨_, cached'⟩, created, rfl⟩ := Option.map_eq_some_iff.mp result
      exact sysCreate_bitmap created
  | write locals cached buf length =>
      obtain ⟨⟨_, cached'⟩, written, rfl⟩ := Option.map_eq_some_iff.mp result
      exact sysWrite_bitmap written
  | expand locals cached need =>
      obtain ⟨⟨_, cached'⟩, expanded, rfl⟩ := Option.map_eq_some_iff.mp result
      exact fileExpand_bitmap expanded

structure DiskUse where
  fileSystem : FileSystem
  swapSector : UInt32
  fileSectors : List UInt32
  swapSlots : List UInt32

inductive DiskEvent
  | file (call : FileCall)
  | swap

/-- What `file_alloc` returns in a call is what it returns for the bitmap before the call. -/
def diskStep (s : DiskUse) : DiskEvent → Option DiskUse
  | .file call => do
      let fs ← call.run s.fileSystem
      let sectors := (sectorAllocs call.allocations s.fileSystem.fileAllocBitmap).1
      pure { s with fileSystem := fs, fileSectors := s.fileSectors ++ sectors }
  | .swap =>
      let (slot, sector) := swapAlloc s.swapSector
      some { s with swapSector := sector, swapSlots := s.swapSlots ++ [slot] }

def DiskStep (s : DiskUse) (event : DiskEvent) (t : DiskUse) : Prop := diskStep s event = some t

theorem diskStep_swap (s : DiskUse) :
    DiskStep s .swap { s with swapSector := s.swapSector + 8, swapSlots := s.swapSlots ++ [s.swapSector] } := rfl

def boot (firstBoot : Bool) (disk : Disk) (around : Int → UInt8) (block : Nat → UInt8) : DiskUse :=
  ⟨fsInit firstBoot disk around block, diskSwapStartSector, [], []⟩

def fileAllocCount (events : List DiskEvent) : Nat :=
  (events.map fun event => match event with
    | .file call => call.allocations
    | .swap => 0).sum

def swapAllocCount (events : List DiskEvent) : Nat :=
  events.countP fun event => match event with
    | .file _ => false
    | .swap => true

/-! ## What is handed out -/

structure Bitmap.FilledTo (bitmap : Bitmap) (n : Nat) : Prop where
  size : bitmap.size = fsAllocTableBits
  bit : ∀ m < fsAllocTableBits, bitmap.bit (m : Nat) = decide (m < n)

/-- The sector handed out next; -1 when there is none. -/
def sectorAt (n : Nat) : UInt32 := if n < fsAllocTableBits then UInt32.ofNat n else 0xFFFFFFFF

theorem sectorAlloc_filledTo {bitmap : Bitmap} {n : Nat} (filled : bitmap.FilledTo n) :
    (sectorAlloc bitmap).1 = sectorAt n ∧ (sectorAlloc bitmap).2.FilledTo (n + 1) := by
  have whole : bitmap.size % 8 = 0 := by
    rw [filled.size]
    rfl
  by_cases free : n < fsAllocTableBits
  · have least : bitmap.Least false n := by
      refine ⟨filled.size ▸ free, by simp [filled.bit n free], fun earlier before => ?_⟩
      simp [filled.bit earlier (before.trans free), before]
    have number : UInt32.ofInt (n : Int) = UInt32.ofNat n := by
      apply UInt32.toNat_inj.mp
      rw [UInt32.ofInt, UInt32.toNat_ofNat', UInt32.toNat_ofNat']
      omega
    rw [sectorAlloc, bitAlloc_least whole least, sectorAt, if_pos free]
    refine ⟨number, filled.size, fun m inside => ?_⟩
    rw [bitFree_bit, filled.bit m inside]
    simp only [Nat.cast_inj]
    split_ifs with here
    · simp [here]
    · simp only [decide_eq_decide]
      omega
  · have full : ∀ m < bitmap.size, bitmap.bit (m : Nat) = !false := by
      intro m inside
      rw [filled.size] at inside
      rw [filled.bit m inside]
      simp only [Bool.not_false, decide_eq_true_eq]
      omega
    rw [sectorAlloc, bitAlloc_full full, sectorAt, if_neg free]
    refine ⟨rfl, filled.size, fun m inside => ?_⟩
    rw [filled.bit m inside]
    simp only [decide_eq_decide]
    omega

theorem sectorAllocs_filledTo {bitmap : Bitmap} {n : Nat} (filled : bitmap.FilledTo n) (count : Nat) :
    (sectorAllocs count bitmap).1 = (List.range' n count).map sectorAt ∧
      (sectorAllocs count bitmap).2.FilledTo (n + count) := by
  induction count generalizing bitmap n with
  | zero => exact ⟨rfl, filled⟩
  | succ count ih =>
      obtain ⟨sector, next⟩ := sectorAlloc_filledTo filled
      obtain ⟨rest, last⟩ := ih next
      rw [List.range'_succ, List.map_cons, ← sector, ← rest, ← Nat.add_assoc, Nat.add_right_comm]
      exact ⟨rfl, last⟩

def firstFree (firstBoot : Bool) : Nat := if firstBoot then 1026 else 0

theorem fsInit_filledTo (firstBoot : Bool) (disk : Disk) (around : Int → UInt8) (block : Nat → UInt8) :
    (fsInit firstBoot disk around block).fileAllocBitmap.FilledTo (firstFree firstBoot) := by
  have clear : ∀ m < fsAllocTableBits,
      (bitBind (fsAllocTable around) fsAllocTableBits).bit (m : Nat) = false := by
    intro m inside
    have own : 0 ≤ (m : Int) / 8 ∧ (m : Int) / 8 < fsAllocTableBits / 8 := by
      simp only [fsAllocTableBits] at inside ⊢
      omega
    simp [Bitmap.bit, bitBind, fsAllocTable, own]
  cases firstBoot with
  | true =>
      have marks : (fsInit true disk around block).fileAllocBitmap = bitFree (bitFree
          ((List.range sectorWithRootFcb.toNat).foldl (fun bitmap (i : Nat) => bitFree bitmap i true)
            (bitBind (fsAllocTable around) fsAllocTableBits)) 1024 true) 1025 true := by
        simp only [fsInit, rootInit, if_true]
      obtain ⟨size, bit⟩ :=
        foldl_bitFree (bitBind (fsAllocTable around) fsAllocTableBits) sectorWithRootFcb.toNat
      have low : sectorWithRootFcb.toNat = 1024 := by decide
      rw [marks]
      refine ⟨?_, fun m inside => ?_⟩
      · rw [bitFree_size, bitFree_size, size, bitBind]
      rw [bitFree_bit, bitFree_bit, bit m, clear m inside, low, firstFree, if_pos rfl]
      split_ifs <;> simp only [true_eq_decide_iff, false_eq_decide_iff] <;> omega
  | false =>
      refine ⟨rfl, fun m inside => ?_⟩
      simpa [fsInit, firstFree] using clear m inside

structure HandedOut (first : Nat) (files swaps : Nat) (s : DiskUse) : Prop where
  filled : s.fileSystem.fileAllocBitmap.FilledTo (first + files)
  fileSectors : s.fileSectors = (List.range' first files).map sectorAt
  swapSlots : s.swapSlots = (List.range swaps).map fun k => diskSwapStartSector + UInt32.ofNat (8 * k)
  swapSector : s.swapSector = diskSwapStartSector + UInt32.ofNat (8 * swaps)

theorem HandedOut.step {first files swaps : Nat} {s t : DiskUse} {event : DiskEvent}
    (handed : HandedOut first files swaps s) (step : DiskStep s event t) :
    HandedOut first (files + fileAllocCount [event]) (swaps + swapAllocCount [event]) t := by
  cases event with
  | file call =>
      obtain ⟨fs, result, same⟩ := Option.bind_eq_some_iff.mp step
      obtain rfl := Option.some.inj same
      obtain ⟨sectors, filled⟩ := sectorAllocs_filledTo handed.filled call.allocations
      refine ⟨?_, ?_, handed.swapSlots, handed.swapSector⟩
      · rw [FileCall.run_bitmap result]
        simpa [fileAllocCount, Nat.add_assoc] using filled
      · simp only [sectors, handed.fileSectors, fileAllocCount, List.map_cons, List.map_nil, List.sum_cons,
          List.sum_nil, Nat.add_zero]
        rw [← List.map_append, List.range'_append_1]
  | swap =>
      obtain rfl := Option.some.inj step
      refine ⟨handed.filled, handed.fileSectors, ?_, ?_⟩
      · simp [swapAllocCount, handed.swapSlots, handed.swapSector, List.range_succ]
      · have next : s.swapSector + 8 = diskSwapStartSector + UInt32.ofNat (8 * (swaps + 1)) := by
          rw [handed.swapSector, UInt32.add_assoc, Nat.mul_succ, UInt32.ofNat_add]
          rfl
        exact next

theorem boot_handedOut (firstBoot : Bool) (disk : Disk) (around : Int → UInt8) (block : Nat → UInt8) :
    HandedOut (firstFree firstBoot) 0 0 (boot firstBoot disk around block) :=
  ⟨fsInit_filledTo firstBoot disk around block, rfl, rfl, rfl⟩

theorem HandedOut.run {first : Nat} {s t : DiskUse} {events : List DiskEvent}
    (start : HandedOut first 0 0 s) (run : Run DiskStep s events t) :
    HandedOut first (fileAllocCount events) (swapAllocCount events) t := by
  induction run with
  | refl => exact start
  | tail before last ih =>
      have handed := ih.step last
      simpa [fileAllocCount, swapAllocCount] using handed

/-! ## Files and swap slots -/

def InSlot (slot sector : UInt32) : Prop := (sector - slot).toNat < 8

/-- No sector is in two swap slots, or in one and in a file. -/
structure SwapApart (s : DiskUse) : Prop where
  slots : s.swapSlots.Pairwise fun first second => ∀ sector, InSlot first sector → ¬InSlot second sector
  files : ∀ slot ∈ s.swapSlots, ∀ sector ∈ s.fileSectors, ¬InSlot slot sector

def slotAt (k : Nat) : UInt32 := diskSwapStartSector + UInt32.ofNat (8 * k)

theorem inSlot_slotAt (k : Nat) (sector : UInt32) :
    InSlot (slotAt k) sector ↔ (sector.toNat + (2 ^ 32 - (1030 + 8 * k) % 2 ^ 32)) % 2 ^ 32 < 8 := by
  have start : (slotAt k).toNat = (1030 + 8 * k) % 2 ^ 32 := by
    rw [slotAt, UInt32.toNat_add, UInt32.toNat_ofNat', show diskSwapStartSector.toNat = 1030 by decide]
    omega
  rw [InSlot, UInt32.toNat_sub, start, Nat.add_comm]

/-- The counter comes back to its start after `2 ^ 29` slots. -/
theorem slots_apart_iff (swaps : Nat) :
    (((List.range swaps).map slotAt).Pairwise fun first second =>
      ∀ sector, InSlot first sector → ¬InSlot second sector) ↔ swaps ≤ 2 ^ 29 := by
  rw [List.pairwise_map]
  constructor
  · intro apart
    by_contra many
    have first : 0 < (List.range swaps).length := by rw [List.length_range]; omega
    have around : 2 ^ 29 < (List.range swaps).length := by rw [List.length_range]; omega
    have clash := List.pairwise_iff_getElem.mp apart 0 (2 ^ 29) first around (by decide) 1030
    rw [List.getElem_range, List.getElem_range, inSlot_slotAt, inSlot_slotAt] at clash
    exact clash (by decide) (by decide)
  · intro few
    apply List.Pairwise.imp_of_mem _ List.pairwise_lt_range
    intro k l _ member before sector inner outer
    rw [List.mem_range] at member
    rw [inSlot_slotAt] at inner outer
    omega

/-- The swap slots are apart from one another and from the files exactly if there is none, or at most
four sectors have been given to files and the counter has not come around. -/
theorem swap_slots_apart_iff (disk : Disk) (around : Int → UInt8) (block : Nat → UInt8)
    {events : List DiskEvent} {t : DiskUse} (run : Run DiskStep (boot true disk around block) events t) :
    SwapApart t ↔ swapAllocCount events = 0 ∨
      fileAllocCount events = 0 ∧ swapAllocCount events ≤ 2 ^ 29 ∨
      fileAllocCount events ≤ 4 ∧ swapAllocCount events < 2 ^ 29 := by
  have handed := (boot_handedOut true disk around block).run run
  generalize fileAllocCount events = files at handed ⊢
  generalize swapAllocCount events = swaps at handed ⊢
  have slots : t.swapSlots = (List.range swaps).map slotAt := handed.swapSlots
  have given : ∀ i < files, i ≤ 4 → UInt32.ofNat (1026 + i) ∈ t.fileSectors := by
    intro i inside small
    rw [handed.fileSectors]
    refine List.mem_map.mpr ⟨1026 + i, List.mem_range'_1.mpr ?_, ?_⟩
    · simp only [firstFree, if_true]
      omega
    · rw [sectorAt, if_pos (by simp only [fsAllocTableBits]; omega)]
  have taken : ∀ k < swaps, slotAt k ∈ t.swapSlots := by
    intro k inside
    rw [slots]
    exact List.mem_map.mpr ⟨k, List.mem_range.mpr inside, rfl⟩
  constructor
  · intro apart
    have around := (slots_apart_iff swaps).mp (slots ▸ apart.slots)
    by_contra other
    simp only [not_or, not_and, not_le, not_lt] at other
    by_cases five : 4 < files
    · have clash := apart.files _ (taken 0 (by omega)) _ (given 4 five (Nat.le_refl 4))
      rw [inSlot_slotAt] at clash
      exact clash (by decide)
    · have last : swaps = 2 ^ 29 := by omega
      have clash := apart.files _ (taken (2 ^ 29 - 1) (by omega)) _ (given 0 (by omega) (by decide))
      rw [inSlot_slotAt] at clash
      exact clash (by decide)
  · intro condition
    refine ⟨slots ▸ (slots_apart_iff swaps).mpr (by omega), ?_⟩
    intro slot member sector inside
    rw [slots] at member
    obtain ⟨k, few, rfl⟩ := List.mem_map.mp member
    rw [List.mem_range] at few
    rw [handed.fileSectors] at inside
    obtain ⟨n, range, rfl⟩ := List.mem_map.mp inside
    rw [List.mem_range'_1, firstFree, if_pos rfl] at range
    have number : (sectorAt n).toNat = n := by
      rw [sectorAt, if_pos (by simp only [fsAllocTableBits]; omega), UInt32.toNat_ofNat']
      omega
    rw [inSlot_slotAt, number]
    omega

def sampleRootCached : FileCached :=
  ⟨rootFcb (fsInit true (fun _ => ofCells 512 fun _ => 0) (fun _ => 0) fun _ => 0).disk,
    ⟨0, 0, 1025, 1025⟩, ⟨[], 0, false⟩⟩

def sampleBoot : DiskUse := boot true (fun _ => ofCells 512 fun _ => 0) (fun _ => 0) fun _ => 0

theorem sampleBoot_expand (need : Nat) :
    ∃ t, DiskStep sampleBoot (.file (.expand sampleLocals sampleRootCached need)) t :=
  ⟨_, rfl⟩

theorem swap_slots_apart_four :
    ∃ t, Run DiskStep sampleBoot [.file (.expand sampleLocals sampleRootCached 4), .swap, .swap] t ∧
      SwapApart t := by
  obtain ⟨s, expanded⟩ := sampleBoot_expand 4
  have run : Run DiskStep sampleBoot [.file (.expand sampleLocals sampleRootCached 4), .swap, .swap] _ :=
    Run.tail (Run.tail (Run.single expanded) (diskStep_swap _)) (diskStep_swap _)
  exact ⟨_, run, (swap_slots_apart_iff _ _ _ run).mpr (by decide)⟩

/-- The fifth sector given to a file is the first one of the first swap slot. -/
theorem file_sector_in_swap_slot :
    ¬∀ events t, Run DiskStep sampleBoot events t → SwapApart t := by
  intro holds
  obtain ⟨s, expanded⟩ := sampleBoot_expand 5
  have run : Run DiskStep sampleBoot [.file (.expand sampleLocals sampleRootCached 5), .swap] _ :=
    Run.tail (Run.single expanded) (diskStep_swap _)
  have apart := holds _ _ run
  have handed := (boot_handedOut true _ _ _).run run
  refine apart.files 1030 ?_ 1030 ?_ (by unfold InSlot; decide)
  · rw [handed.swapSlots]
    decide
  · rw [handed.fileSectors]
    decide

/-! ## The next start of the system -/

/-- What is handed out is none of the sectors of the kernel, and of no file of that disk. -/
def TableKept (disk : Disk) (s : DiskUse) : Prop :=
  ∀ sector ∈ s.fileSectors, 1026 ≤ sector.toNat ∧
    ∀ components f, resolve disk (rootFcb disk) components = some f → sector ∉ sectorsOf disk f

/-- A kernel that starts from the disk it finds hands out sector 0 first, so that nothing may be
handed out at all. -/
theorem table_kept_iff (disk : Disk) (around : Int → UInt8) (block : Nat → UInt8)
    {events : List DiskEvent} {t : DiskUse} (run : Run DiskStep (boot false disk around block) events t) :
    TableKept disk t ↔ fileAllocCount events = 0 := by
  have handed := (boot_handedOut false disk around block).run run
  constructor
  · intro kept
    by_contra some
    have first : sectorAt 0 ∈ t.fileSectors := by
      rw [handed.fileSectors]
      refine List.mem_map.mpr ⟨0, List.mem_range'_1.mpr ?_, rfl⟩
      simp only [firstFree, Bool.false_eq_true, if_false]
      omega
    exact absurd (kept _ first).1 (by decide)
  · intro none sector member
    rw [handed.fileSectors, none] at member
    simp at member

def sampleBootDisk : Disk := sampleBoot.fileSystem.disk

def sampleRestart : DiskUse := boot false sampleBootDisk (fun _ => 0) fun _ => 0

theorem table_kept_write :
    ∃ t, Run DiskStep sampleRestart [.file (.write sampleLocals sampleRootCached (fun _ => 1) 5)] t ∧
      TableKept sampleBootDisk t := by
  have written : (diskStep sampleRestart
      (.file (.write sampleLocals sampleRootCached (fun _ => 1) 5))).isSome = true := by decide +kernel
  obtain ⟨t, result⟩ := Option.isSome_iff_exists.mp written
  have run : Run DiskStep sampleRestart _ t := Run.single result
  exact ⟨t, run, (table_kept_iff _ _ _ run).mpr (by decide +kernel)⟩

theorem boot_sector_handed_out :
    ¬∀ events t, Run DiskStep sampleRestart events t → TableKept sampleBootDisk t := by
  intro holds
  have ends : (diskStep sampleRestart (.file (.create sampleLocals sampleRootCached [97] .normal))).map
      DiskUse.fileSectors = some [0] := by decide +kernel
  obtain ⟨t, result, sectors⟩ := Option.map_eq_some_iff.mp ends
  have kept := holds _ t (Run.single result) 0 (by rw [sectors]; exact List.mem_cons_self)
  exact absurd kept.1 (by decide)

end WegOS
