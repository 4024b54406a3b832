import WegOS.PageFault
import WegOS.CreateFile
import WegOS.DiskAllocation

/-! Starting a program: its file goes to the swap area, and its first page is left to the page fault.

`none` stands for what `Swap` and `FileSystem` use it for, and for an overrun of `code_buf`. -/

namespace WegOS

open LittleEndian CArray Transition

def tempCodeSizeMax : Nat := 4096
def tempCodeStart : UInt32 := 0x80000000
def initEspVma : UInt32 := 0xFFFFEFFC

def writeDiskSectors (disk : Disk) : Nat → UInt32 → (Nat → UInt8) → Disk
  | 0, _, _ => disk
  | sectorCount + 1, sector, buf =>
      writeDiskSectors (writeDisk disk sector buf) sectorCount (sector + 1) fun i => buf (512 + i)

structure Machine where
  kernel : Kernel
  disk : Disk
  swapNext : UInt32

/-- The array `code_buf` and the handle `file_cached` are not initialised. -/
def sysExecve (image : KernelImage) (machine : Machine) (locals : Locals) (codeBuf : Nat → UInt8)
    (fileCached : FileCached) (path : List UInt8) : Option Machine := do
  let (result, fileCached) ← loadFileCached machine.disk locals path fileCached
  if result = .success then
    if tempCodeSizeMax < readExtent 0 fileCached.file.fileSize.toNatClampNeg then none
    let codeBuf ← readAll machine.disk fileCached.file codeBuf
    let (codeSwapSector, swapNext) := swapAlloc machine.swapNext
    let disk := writeDiskSectors machine.disk 8 codeSwapSector codeBuf
    let (pid, kernel) ← createTask image machine.kernel taskFlagKernel tempCodeStart initEspVma 0xFF
    let cr3 := (kernel.taskManager.tasks pid).tss.cr3
    -- The call is for the page table; `swap_sector_set` replaces the entry.
    let memory := (setMmap kernel.memory cr3 tempCodeStart 0 pageTableFlagKernelReadWrite).2
    let memory := swapSectorSet memory cr3 tempCodeStart codeSwapSector
    let memory := (loadMemory memory cr3 initEspVma pageTableFlagKernelReadWrite).2
    some { kernel := { kernel with memory := memory }, disk := disk, swapNext := swapNext }
  else some machine

def sysExecveOn (image : KernelImage) (machine : Machine) (active : UInt32) (locals : Locals) (codeBuf : Nat → UInt8)
    (fileCached : FileCached) (path : List UInt8) : Option Machine := do
  let (result, fileCached) ← loadFileCached machine.disk locals path fileCached
  if result = .success then
    if tempCodeSizeMax < readExtent 0 fileCached.file.fileSize.toNatClampNeg then none
    let codeBuf ← readAll machine.disk fileCached.file codeBuf
    let (codeSwapSector, swapNext) := swapAlloc machine.swapNext
    let disk := writeDiskSectors machine.disk 8 codeSwapSector codeBuf
    let (pid, kernel) ← createTaskOn image machine.kernel active taskFlagKernel tempCodeStart initEspVma 0xFF
    let cr3 := (kernel.taskManager.tasks pid).tss.cr3
    let (_, memory) ← setMmapOn kernel.memory active cr3 tempCodeStart 0 pageTableFlagKernelReadWrite
    let memory ← swapSectorSetOn memory active cr3 tempCodeStart codeSwapSector
    let (_, memory) ← loadMemoryOn memory active cr3 initEspVma pageTableFlagKernelReadWrite
    some { kernel := { kernel with memory := memory }, disk := disk, swapNext := swapNext }
  else some machine

/-! ## The swap area -/

section Sectors

variable {disk : Disk} {sectorCount : Nat} {sector : UInt32} {buf : Nat → UInt8}

theorem writeDiskSectors_outside {s : UInt32} (outside : ∀ k < sectorCount, s ≠ sector + UInt32.ofNat k) :
    writeDiskSectors disk sectorCount sector buf s = disk s := by
  induction sectorCount generalizing disk sector buf with
  | zero => rfl
  | succ count ih =>
      have first : s ≠ sector := by
        have zero := outside 0 (Nat.zero_lt_succ count)
        rwa [show sector + UInt32.ofNat 0 = sector from UInt32.add_zero sector] at zero
      rw [writeDiskSectors, ih]
      · exact Function.update_of_ne first _ _
      · intro k inside
        have next := outside (k + 1) (by omega)
        rwa [Nat.add_comm k 1, UInt32.ofNat_add, ← UInt32.add_assoc] at next

theorem slotByte_writeDiskSectors (few : sectorCount ≤ 2 ^ 32) {i : Nat} (inside : i < 512 * sectorCount) :
    slotByte (writeDiskSectors disk sectorCount sector buf) sector i = buf i := by
  induction sectorCount generalizing disk sector buf i with
  | zero => omega
  | succ count ih =>
      rw [writeDiskSectors]
      by_cases first : i < 512
      · have kept : writeDiskSectors (writeDisk disk sector buf) count (sector + 1) (fun i => buf (512 + i)) sector =
            writeDisk disk sector buf sector := by
          apply writeDiskSectors_outside
          intro k small same
          have number := congrArg UInt32.toNat same
          have bound := sector.toNat_lt
          rw [UInt32.toNat_add, UInt32.toNat_add, UInt32.toNat_one, UInt32.toNat_ofNat'] at number
          omega
        rw [slotByte_first _ _ first, kept, writeDisk, Function.update_self, cell_ofCells first]
      · obtain ⟨j, rfl⟩ := Nat.exists_eq_add_of_le (Nat.not_lt.mp first)
        rw [slotByte_next, ih (by omega) (by omega)]

end Sectors

/-! ## Frames -/

def freeFrames (m : Memory) : Nat := freeSectors m.memoryAllocBitmap

section Frames

variable {m : Memory} {cr3 v p : UInt32} {flags : UInt16}

theorem pMalloc_frames (covers : m.Covers) (free : 0 < freeFrames m) :
    freeFrames (pMalloc m).2 + 1 = freeFrames m := by
  obtain ⟨n, least⟩ := least_of_free free
  rw [pMalloc_nextFree covers least]
  exact freeSectors_mark least.1 least.2.1

theorem setMmap_frames (covers : m.Covers) (free : 0 < freeFrames m) :
    freeFrames m ≤ freeFrames (setMmap m cr3 v p flags).2 + 1 := by
  cases here : present (m.entry cr3 (testbits v 22 32)) with
  | true =>
      rw [setMmap_present here]
      exact Nat.le_succ _
  | false =>
      obtain ⟨n, least⟩ := least_of_free free
      rw [setMmap_absent covers least here]
      exact (freeSectors_mark least.1 least.2.1).ge

theorem frames_nextFree (free : 0 < freeFrames m) :
    present (m.entry cr3 (testbits v 22 32)) = false → ∃ n, m.NextFree n :=
  fun _ => least_of_free free

theorem loadMemory_page (covers : m.Covers) (ok : DirectoryOk m cr3) (above : itselfEnd ≤ v)
    (small : flags.toNat < 4096) (mapped : testbit flags.toUInt32 pageTableP = true) (free : 2 ≤ freeFrames m) :
    Touches m (loadMemory m cr3 v flags).2 cr3 ∧ hasAddr (loadMemory m cr3 v flags).2 cr3 v = true ∧
      freeFrames m ≤ freeFrames (loadMemory m cr3 v flags).2 + 2 := by
  obtain ⟨n, least⟩ := least_of_free (show 0 < freeFrames m by omega)
  have first := pMalloc_touches covers ok least
  have left := pMalloc_frames covers (show 0 < freeFrames m by omega)
  have next : 0 < freeFrames (pMalloc m).2 := by omega
  have aligned : PageAligned (pMalloc m).1 := by
    rw [pMalloc_nextFree covers least]
    exact frame_aligned n
  have second := setMmap_touches first.covers first.directory (itselfEnd_index above) (frames_nextFree next)
    (pMalloc m).1 flags
  have page := (@setMmap_page (pMalloc m).2 cr3 v (pMalloc m).1 flags aligned small mapped first.covers
    first.directory (frames_nextFree next)).1 (v &&& 0xFFF) (by rw [offset_mask]; exact Nat.mod_lt _ (by decide))
  rw [page_split] at page
  have taken := @setMmap_frames (pMalloc m).2 cr3 v (pMalloc m).1 flags first.covers next
  refine ⟨first.trans second, page.2, ?_⟩
  change freeFrames m ≤ freeFrames (setMmap (pMalloc m).2 cr3 v (pMalloc m).1 flags).2 + 2
  omega

theorem HasSlot.loadMemory {w slot : UInt32} (given : HasSlot m cr3 v slot) (covers : m.Covers)
    (ok : DirectoryOk m cr3) (other : v &&& 0xFFFFF000 ≠ w &&& 0xFFFFF000) (free : 2 ≤ freeFrames m) :
    HasSlot (loadMemory m cr3 w flags).2 cr3 v slot := by
  obtain ⟨n, least⟩ := least_of_free (show 0 < freeFrames m by omega)
  have first := pMalloc_touches covers ok least
  have left := pMalloc_frames covers (show 0 < freeFrames m by omega)
  have next : 0 < freeFrames (pMalloc m).2 := by omega
  have here : present ((pMalloc m).2.entry cr3 (testbits v 22 32)) = true := given.table
  obtain ⟨directory, entry⟩ := @setMmap_other (pMalloc m).2 cr3 w (pMalloc m).1 flags first.covers first.directory
    (frames_nextFree next) v here other
  constructor
  · exact (congrArg present directory).trans here
  · have table : Memory.table (WegOS.loadMemory m cr3 w flags).2 cr3 (testbits v 22 32) =
        m.table cr3 (testbits v 22 32) := congrArg (· &&& 0xFFFFF000) directory
    rw [table]
    exact entry.trans given.entry

def prepare (m : Memory) (cr3 slot : UInt32) : Memory :=
  (loadMemory (swapSectorSet (setMmap m cr3 tempCodeStart 0 pageTableFlagKernelReadWrite).2 cr3 tempCodeStart slot)
    cr3 initEspVma pageTableFlagKernelReadWrite).2

theorem prepare_spec (covers : m.Covers) (ok : DirectoryOk m cr3) (slot : UInt32) (free : 4 ≤ freeFrames m) :
    (prepare m cr3 slot).Covers ∧ DirectoryOk (prepare m cr3 slot) cr3 ∧
      HasSlot (prepare m cr3 slot) cr3 tempCodeStart slot ∧ hasAddr (prepare m cr3 slot) cr3 initEspVma = true ∧
      freeFrames m ≤ freeFrames (prepare m cr3 slot) + 3 := by
  rw [prepare]
  have some : 0 < freeFrames m := by omega
  have first := setMmap_touches covers ok (itselfEnd_index (show itselfEnd ≤ tempCodeStart by decide))
    (frames_nextFree some) 0 pageTableFlagKernelReadWrite
  have left := @setMmap_frames m cr3 tempCodeStart 0 pageTableFlagKernelReadWrite covers some
  have there := @setMmap_table_present m cr3 tempCodeStart 0 pageTableFlagKernelReadWrite covers ok
    (frames_nextFree some)
  generalize (setMmap m cr3 tempCodeStart 0 pageTableFlagKernelReadWrite).2 = mapped at *
  have second := setEntry_touches first.covers first.directory (itselfEnd_index (show itselfEnd ≤ tempCodeStart by decide))
    (indexInPde_lt tempCodeStart) there (indexInPte_lt tempCodeStart) (slot <<< 3)
  have given := swapSectorSet_hasSlot first.directory there slot
  have same : freeFrames (swapSectorSet mapped cr3 tempCodeStart slot) = freeFrames mapped := rfl
  change Touches mapped (swapSectorSet mapped cr3 tempCodeStart slot) cr3 at second
  generalize swapSectorSet mapped cr3 tempCodeStart slot = swapped at *
  obtain ⟨third, stack, rest⟩ := @loadMemory_page swapped cr3 initEspVma pageTableFlagKernelReadWrite second.covers
    second.directory (by decide) (by decide) (by decide) (by omega)
  exact ⟨third.covers, third.directory,
    given.loadMemory second.covers second.directory (by decide) (by omega), stack, by omega⟩

end Frames

/-! ## The new task -/

/-- `create_task` takes one frame, and puts the new task at the end of the ready queue. -/
theorem created_task {image : KernelImage} {s : System} (ok : Spaces image s)
    (slot : getPidEmpty s.kernel.gdt < maxGdtTerms) (free : 0 < freeFrames s.kernel.memory) (flag eip esp ddl : UInt32) :
    ∃ k, createTask image s.kernel flag eip esp ddl = some (getPidEmpty s.kernel.gdt, k) ∧
      getPidEmpty s.kernel.gdt ∈ k.taskManager.pidQueueReady.elems ∧ k.memory.Covers ∧
      DirectoryOk k.memory (k.taskManager.tasks (getPidEmpty s.kernel.gdt)).tss.cr3 ∧
      freeFrames k.memory + 1 = freeFrames s.kernel.memory := by
  obtain ⟨k, created⟩ := createTask_some image flag eip esp ddl slot
  obtain ⟨⟨low, high, empty, _⟩, _, _, memory, task, _, taskManager⟩ := createTask_eq created
  obtain ⟨n, least⟩ := least_of_free free
  have spaces := (ok.create (nextFree_allocates ok.isolated.covers least) created).1
  have fresh : getPidEmpty s.kernel.gdt ∉ s.live := by
    intro member
    rw [ok.consistent.described _ member] at empty
    exact absurd empty (by decide)
  have ready := (ok.consistent.placed.after_create task fresh low high).elems_eq.1
  rw [← taskManager] at ready
  refine ⟨k, created, ?_, spaces.isolated.covers, spaces.directory List.mem_cons_self, ?_⟩
  · rw [ready]
    exact List.mem_append_right _ List.mem_cons_self
  · rw [memory]
    exact pMalloc_frames ok.isolated.covers free

theorem fault_fills {m : Memory} {cr3 v slot : UInt32} (covers : m.Covers) (ok : DirectoryOk m cr3)
    (given : HasSlot m cr3 v slot) (free : 0 < freeFrames m) (start : PageAligned v) (small : slot.toNat < 2 ^ 29)
    (disk : Disk) (e : UInt32) :
    ∃ m', onPageFault m disk cr3 v e = some m' ∧ ∀ i < 4096, hasAddr m' cr3 (v + UInt32.ofNat i) = true ∧
      m'.bytes (addrTranslate m' cr3 (v + UInt32.ofNat i)) = slotByte disk slot i := by
  obtain ⟨n, least⟩ := least_of_free free
  obtain ⟨m', run, brought, -⟩ := fault_brings covers ok given least start small disk e
  refine ⟨m', run, fun i inside => ?_⟩
  have number : (UInt32.ofNat i).toNat = i := by
    rw [UInt32.toNat_ofNat']
    omega
  have page := brought.page (UInt32.ofNat i) (by omega)
  rw [page_start start, number] at page
  exact page

/-! ## Frames below `ITSELF_END` -/

def freeBelow (m : Memory) (bound : Nat) : Nat :=
  ((Finset.range bound).filter fun n => m.memoryAllocBitmap.bit (n : Nat) = false).card

def lowFrames (m : Memory) : Nat := freeBelow m 65536

section Low

variable {m : Memory} {cr3 v p : UInt32} {flags : UInt16} {n bound : Nat}

theorem mem_free (m : Memory) (bound n : Nat) :
    n ∈ (Finset.range bound).filter (fun n => m.memoryAllocBitmap.bit (n : Nat) = false) ↔ n < bound ∧ ¬m.Taken n := by
  rw [Finset.mem_filter, Finset.mem_range, Memory.Taken, Bool.not_eq_true]

theorem freeBelow_pos : 0 < freeBelow m bound ↔ ∃ n < bound, ¬m.Taken n := by
  rw [freeBelow, Finset.card_pos]
  constructor
  · rintro ⟨n, member⟩
    exact ⟨n, (mem_free m bound n).mp member⟩
  · rintro ⟨n, low⟩
    exact ⟨n, (mem_free m bound n).mpr low⟩

theorem freeBelow_take (free : m.NextFree n) (some : 0 < freeBelow m bound) :
    freeBelow { m with memoryAllocBitmap := bitFree m.memoryAllocBitmap n true } bound + 1 = freeBelow m bound := by
  obtain ⟨k, below, notTaken⟩ := freeBelow_pos.mp some
  have least := nextFree_least free notTaken
  have erased : (Finset.range bound).filter (fun k => (bitFree m.memoryAllocBitmap n true).bit (k : Nat) = false) =
      ((Finset.range bound).filter fun k => m.memoryAllocBitmap.bit (k : Nat) = false).erase n := by
    ext k
    have taken := taken_bitFree m n k
    rw [Memory.Taken] at taken
    rw [Finset.mem_erase, mem_free, Finset.mem_filter, Finset.mem_range, ← Bool.not_eq_true, taken, not_or]
    tauto
  rw [freeBelow, freeBelow, erased]
  exact Finset.card_erase_add_one ((mem_free m bound n).mpr ⟨by omega, nextFree_not_taken free⟩)

theorem lowFrames_nextFree (covers : m.Covers) (some : 0 < lowFrames m) : ∃ n, m.NextFree n := by
  obtain ⟨n, low, notTaken⟩ := freeBelow_pos.mp some
  rcases m.memoryAllocBitmap.least_or_full false with least | full
  · exact least
  · exact absurd (full n (by rw [covers]; omega)) notTaken

theorem lowFrames_pMalloc (covers : m.Covers) (some : 0 < lowFrames m) :
    lowFrames (pMalloc m).2 + 1 = lowFrames m := by
  obtain ⟨n, free⟩ := lowFrames_nextFree covers some
  rw [pMalloc_nextFree covers free]
  exact freeBelow_take free some

theorem lowFrames_setMmap (covers : m.Covers) (some : 0 < lowFrames m)
    (missing : present (m.entry cr3 (testbits v 22 32)) = false) :
    lowFrames (setMmap m cr3 v p flags).2 + 1 = lowFrames m := by
  obtain ⟨n, free⟩ := lowFrames_nextFree covers some
  rw [setMmap_absent covers free missing]
  exact freeBelow_take free some

theorem freeFrames_swapSectorSet (m : Memory) (cr3 v slot : UInt32) :
    freeFrames (swapSectorSet m cr3 v slot) = freeFrames m := rfl

theorem lowFrames_swapSectorSet (m : Memory) (cr3 v slot : UInt32) :
    lowFrames (swapSectorSet m cr3 v slot) = lowFrames m := by
  rw [lowFrames, freeBelow, lowFrames, freeBelow]
  rfl

theorem lowFrames_setMmap_le (covers : m.Covers) (some : 0 < lowFrames m) :
    lowFrames m ≤ lowFrames (setMmap m cr3 v p flags).2 + 1 := by
  cases here : present (m.entry cr3 (testbits v 22 32)) with
  | true =>
      rw [setMmap_present here, lowFrames, freeBelow, lowFrames, freeBelow]
      exact Nat.le_succ _
  | false => exact (lowFrames_setMmap covers some here).ge

/-- After the last low frame, only high ones are left. -/
theorem lowFrames_pMalloc_last (covers : m.Covers) (free : m.NextFree n) (few : lowFrames m ≤ 1) :
    lowFrames (pMalloc m).2 = 0 := by
  by_contra some
  obtain ⟨k, low, notTaken⟩ := freeBelow_pos.mp (Nat.pos_of_ne_zero some)
  rw [pMalloc_nextFree covers free, taken_bitFree, not_or] at notTaken
  have before : 0 < lowFrames m := freeBelow_pos.mpr ⟨k, low, notTaken.2⟩
  have taken := lowFrames_pMalloc covers before
  omega

theorem nextFree_far (none : lowFrames m = 0) (free : m.NextFree n) : 65536 ≤ n := by
  by_contra low
  have some : 0 < lowFrames m := freeBelow_pos.mpr ⟨n, Nat.not_le.mp low, nextFree_not_taken free⟩
  omega

end Low

/-! ## The new task's directory with paging on -/

def prepareOn (m : Memory) (active cr3 slot : UInt32) : Option Memory := do
  let (_, m) ← setMmapOn m active cr3 tempCodeStart 0 pageTableFlagKernelReadWrite
  let m ← swapSectorSetOn m active cr3 tempCodeStart slot
  let (_, m) ← loadMemoryOn m active cr3 initEspVma pageTableFlagKernelReadWrite
  pure m

section Prepare

variable {m : Memory} {kernelPd active cr3 : UInt32} {dirs : List UInt32} (ok : LowDirectories m kernelPd dirs)
  (member : cr3 ∈ dirs) (slot : UInt32)

include ok member

theorem LowDirectories.codeOn (here : active ∈ kernelPd :: dirs) (low : 0 < lowFrames m) :
    setMmapOn m active cr3 tempCodeStart 0 pageTableFlagKernelReadWrite =
        some (WegOS.setMmap m cr3 tempCodeStart 0 pageTableFlagKernelReadWrite) ∧
      let mapped := (WegOS.setMmap m cr3 tempCodeStart 0 pageTableFlagKernelReadWrite).2
      swapSectorSetOn mapped active cr3 tempCodeStart slot =
          some (WegOS.swapSectorSet mapped cr3 tempCodeStart slot) ∧
        LowDirectories (WegOS.swapSectorSet mapped cr3 tempCodeStart slot) kernelPd dirs := by
  have high : itselfEntries ≤ (testbits tempCodeStart 22 32).toNat := by decide
  have succeeds : present (m.entry cr3 (testbits tempCodeStart 22 32)) = false → ∃ n, m.NextFree n :=
    fun _ => lowFrames_nextFree ok.isolated.covers low
  have stays : mapStaysLow m cr3 tempCodeStart := Or.inr (freeBelow_pos.mp low)
  have there := @setMmap_table_present m cr3 tempCodeStart 0 pageTableFlagKernelReadWrite ok.isolated.covers
    (ok.isolated.directory cr3 member) succeeds
  have mapped := ok.setMmap member high succeeds stays 0 pageTableFlagKernelReadWrite
  exact ⟨ok.setMmapOn_eq here member high succeeds stays 0 pageTableFlagKernelReadWrite,
    mapped.swapSectorSetOn_eq here member there slot, mapped.swapSectorSet member high there slot⟩

theorem LowDirectories.prepareOn_eq (here : active ∈ kernelPd :: dirs) (low : 3 ≤ lowFrames m) :
    prepareOn m active cr3 slot = some (prepare m cr3 slot) ∧ LowDirectories (prepare m cr3 slot) kernelPd dirs := by
  have left := @lowFrames_setMmap_le m cr3 tempCodeStart 0 pageTableFlagKernelReadWrite ok.isolated.covers
    (show 0 < lowFrames m by omega)
  obtain ⟨maps, swaps, swapped⟩ := ok.codeOn member slot here (show 0 < lowFrames m by omega)
  have same := lowFrames_swapSectorSet (WegOS.setMmap m cr3 tempCodeStart 0 pageTableFlagKernelReadWrite).2 cr3
    tempCodeStart slot
  rw [prepareOn, prepare, maps]
  simp only [Option.bind_eq_bind, Option.bind_some, swaps, Option.pure_def]
  generalize WegOS.swapSectorSet (WegOS.setMmap m cr3 tempCodeStart 0 pageTableFlagKernelReadWrite).2 cr3 tempCodeStart
    slot = m' at swapped same ⊢
  have covers := swapped.isolated.covers
  obtain ⟨n, free⟩ := lowFrames_nextFree covers (show 0 < lowFrames m' by omega)
  have next := lowFrames_pMalloc covers (show 0 < lowFrames m' by omega)
  have taken := swapped.taken member free
  obtain ⟨k, second⟩ := lowFrames_nextFree taken.isolated.covers (show 0 < lowFrames (pMalloc m').2 by omega)
  have one := nextFree_allocates covers free
  have two : mapAllocates (pMalloc m').2 cr3 initEspVma := Or.inr (nextFree_allocates taken.isolated.covers second)
  have stays : mapStaysLow (pMalloc m').2 cr3 initEspVma := Or.inr (freeBelow_pos.mp (show 0 < lowFrames (pMalloc m').2 by omega))
  rw [swapped.loadMemoryOn_eq here member (by decide) one two stays pageTableFlagKernelReadWrite, Option.bind_some]
  exact ⟨rfl, swapped.loadMemory member (by decide) one two stays pageTableFlagKernelReadWrite⟩

/-- With less than three low frames, one of the new tables is out of the kernel's reach. -/
theorem LowDirectories.prepareOn_none (code : present (m.entry cr3 (testbits tempCodeStart 22 32)) = false)
    (stack : present (m.entry cr3 (testbits initEspVma 22 32)) = false) (frames : 3 ≤ freeFrames m)
    (low : lowFrames m < 3) : prepareOn m kernelPd cr3 slot = none := by
  have covers := ok.isolated.covers
  have directory := ok.isolated.directory cr3 member
  obtain ⟨n, free⟩ := least_of_free (show 0 < freeFrames m by omega)
  by_cases some : 0 < lowFrames m
  · obtain ⟨maps, swaps, swapped⟩ := ok.codeOn member slot List.mem_cons_self some
    have left := @lowFrames_setMmap m cr3 tempCodeStart 0 pageTableFlagKernelReadWrite covers some code
    have fewer := @setMmap_frames m cr3 tempCodeStart 0 pageTableFlagKernelReadWrite covers
      (show 0 < freeFrames m by omega)
    have missing : present (Memory.entry (WegOS.swapSectorSet
        (WegOS.setMmap m cr3 tempCodeStart 0 pageTableFlagKernelReadWrite).2 cr3 tempCodeStart slot) cr3
          (testbits initEspVma 22 32)) = false := by
      have mapped := setMmap_touches covers directory (show itselfEntries ≤ (testbits tempCodeStart 22 32).toNat by decide)
        (fun _ => ⟨n, free⟩) 0 pageTableFlagKernelReadWrite
      have there := @setMmap_table_present m cr3 tempCodeStart 0 pageTableFlagKernelReadWrite covers directory
        fun _ => ⟨n, free⟩
      have swapped := setEntry_table_entry mapped.directory (indexInPde_lt tempCodeStart) there
        (indexInPte_lt tempCodeStart) (slot <<< 3) (indexInPde_lt initEspVma)
      rw [WegOS.swapSectorSet]
      refine (congrArg present (swapped.trans ?_)).trans stack
      rw [setMmap_absent_entry directory covers free code (indexInPde_lt _)]
      exact withTable_entry_of_ne directory (indexInPde_lt _) (indexInPde_lt _) (by decide)
    rw [prepareOn, maps]
    simp only [Option.bind_eq_bind, Option.bind_some, swaps, Option.pure_def]
    have same := lowFrames_swapSectorSet (WegOS.setMmap m cr3 tempCodeStart 0 pageTableFlagKernelReadWrite).2 cr3
      tempCodeStart slot
    have sameFrames := freeFrames_swapSectorSet (WegOS.setMmap m cr3 tempCodeStart 0 pageTableFlagKernelReadWrite).2 cr3
      tempCodeStart slot
    generalize WegOS.swapSectorSet (WegOS.setMmap m cr3 tempCodeStart 0 pageTableFlagKernelReadWrite).2 cr3
      tempCodeStart slot = m' at swapped same sameFrames missing ⊢
    obtain ⟨k, first⟩ := least_of_free (show 0 < freeFrames m' by omega)
    have taken := swapped.taken member first
    have rest := pMalloc_frames swapped.isolated.covers (show 0 < freeFrames m' by omega)
    obtain ⟨j, second⟩ := least_of_free (show 0 < freeFrames (pMalloc m').2 by omega)
    have far := nextFree_far (lowFrames_pMalloc_last swapped.isolated.covers first (by omega)) second
    have faults := taken.setMmapOn_none member second far (show itselfEntries ≤ (testbits initEspVma 22 32).toNat by decide)
      missing (pMalloc m').1 pageTableFlagKernelReadWrite
    rw [loadMemoryOn]
    simp only [faults, Option.bind_eq_bind, Option.bind_none]
  · have faults := ok.setMmapOn_none member free (nextFree_far (by omega) free)
      (show itselfEntries ≤ (testbits tempCodeStart 22 32).toNat by decide) code 0 pageTableFlagKernelReadWrite
    simp only [prepareOn, faults, Option.bind_eq_bind, Option.bind_none]

end Prepare

/-! ## The call -/

theorem readExtent_code {size : Nat} (small : size ≤ tempCodeSizeMax) : readExtent 0 size ≤ tempCodeSizeMax := by
  unfold readExtent
  split_ifs
  · exact small
  · simp only [inBlockOffset_eq, tempCodeSizeMax] at small ⊢
    omega

def execved (machine : Machine) (k : Kernel) (code : Nat → UInt8) : Machine :=
  let cr3 := (k.taskManager.tasks (getPidEmpty machine.kernel.gdt)).tss.cr3
  { kernel := { k with memory := prepare k.memory cr3 machine.swapNext }
    disk := writeDiskSectors machine.disk 8 machine.swapNext code
    swapNext := machine.swapNext + 8 }

theorem LowSpaces.created {image : KernelImage} {s : System} {flag eip esp ddl : UInt32} {pid : Nat} {k : Kernel}
    (ok : LowSpaces image s) (low : 0 < lowFrames s.kernel.memory)
    (created : createTask image s.kernel flag eip esp ddl = some (pid, k)) :
    let t : System := ⟨k, pid :: s.live, s.exited.filter (· ≠ pid)⟩
    LowSpaces image t ∧ lowFrames k.memory + 1 = lowFrames s.kernel.memory ∧
      ∀ active ∈ WegOS.directories image s, active ∈ WegOS.directories image t ∧
        createTaskOn image s.kernel active flag eip esp ddl = some (pid, k) := by
  intro t
  have covers := ok.spaces.isolated.covers
  obtain ⟨n, free⟩ := lowFrames_nextFree covers low
  have some : FramesLow s (.task (.create flag eip esp ddl)) := freeBelow_pos.mp low
  have taken : MemStep image s (.task (.create flag eip esp ddl)) t :=
    ⟨nextFree_allocates covers free, by simp [memStep, WegOS.step, created, t]⟩
  obtain ⟨-, -, -, memory, -⟩ := createTask_eq created
  have kept := (ok.spaces.step taken).2.2
  refine ⟨ok.step some taken, ?_, fun active here => ⟨?_, ?_⟩⟩
  · rw [memory]
    exact lowFrames_pMalloc covers low
  · rcases List.mem_cons.mp here with rfl | task
    · exact List.mem_cons_self
    · obtain ⟨b, live, rfl⟩ := List.mem_map.mp task
      rw [← (kept b live trivial).cr3]
      exact List.mem_cons_of_mem _ (List.mem_map_of_mem (List.mem_cons_of_mem _ live))
  · rw [ok.directories.createTaskOn_eq here free ((nextFree_low free).mpr some), created]

section Calls

variable {image : KernelImage} {machine : Machine} {live exited : List Nat} {active : UInt32}

theorem prepareOn_map {α : Type} (m : Memory) (active cr3 slot : UInt32) (f : Memory → α) :
    (prepareOn m active cr3 slot).map f = (do
      let (_, m) ← setMmapOn m active cr3 tempCodeStart 0 pageTableFlagKernelReadWrite
      let m ← swapSectorSetOn m active cr3 tempCodeStart slot
      let (_, m) ← loadMemoryOn m active cr3 initEspVma pageTableFlagKernelReadWrite
      some (f m)) := by
  simp only [prepareOn, Option.map_eq_bind, Option.bind_eq_bind, Option.bind_assoc, Option.pure_def, Option.bind_some,
    Function.comp_def]

theorem LowSpaces.prepared {pid : Nat} {k : Kernel} (ok : LowSpaces image ⟨machine.kernel, live, exited⟩)
    (low : 4 ≤ lowFrames machine.kernel.memory)
    (created : createTask image machine.kernel taskFlagKernel tempCodeStart initEspVma 0xFF = some (pid, k))
    (slot : UInt32) :
    let t : System := ⟨k, pid :: live, exited.filter (· ≠ pid)⟩
    LowDirectories (prepare k.memory (t.cr3 pid) slot) image.kernelPd (t.live.map t.cr3) ∧
      ∀ active ∈ WegOS.directories image ⟨machine.kernel, live, exited⟩,
        createTaskOn image machine.kernel active taskFlagKernel tempCodeStart initEspVma 0xFF = some (pid, k) ∧
          prepareOn k.memory active (t.cr3 pid) slot = some (prepare k.memory (t.cr3 pid) slot) := by
  intro t
  obtain ⟨after, left, calls⟩ := ok.created (show 0 < lowFrames machine.kernel.memory by omega) created
  change lowFrames k.memory + 1 = lowFrames machine.kernel.memory at left
  have enough : 3 ≤ lowFrames k.memory := by omega
  have member : t.cr3 pid ∈ t.live.map t.cr3 := List.mem_map_of_mem List.mem_cons_self
  refine ⟨(after.directories.prepareOn_eq member slot List.mem_cons_self enough).2, fun active here => ?_⟩
  obtain ⟨there, creates⟩ := calls active here
  exact ⟨creates, (after.directories.prepareOn_eq member slot there enough).1⟩

/-- With four low frames free, the active directory makes no difference. -/
theorem LowSpaces.sysExecveOn_eq (ok : LowSpaces image ⟨machine.kernel, live, exited⟩)
    (here : active ∈ WegOS.directories image ⟨machine.kernel, live, exited⟩)
    (low : 4 ≤ lowFrames machine.kernel.memory) (locals : Locals) (codeBuf : Nat → UInt8) (fileCached : FileCached)
    (path : List UInt8) :
    sysExecveOn image machine active locals codeBuf fileCached path =
      sysExecve image machine locals codeBuf fileCached path := by
  rw [sysExecveOn, sysExecve]
  refine bind_congr fun loaded => if_congr Iff.rfl (if_congr Iff.rfl rfl (bind_congr fun code => ?_)) rfl
  obtain ⟨n, free⟩ := lowFrames_nextFree ok.spaces.isolated.covers (show 0 < lowFrames machine.kernel.memory by omega)
  have some := freeBelow_pos.mp (show 0 < lowFrames machine.kernel.memory by omega)
  have creates := ok.directories.createTaskOn_eq here free ((nextFree_low free).mpr some) taskFlagKernel tempCodeStart
    initEspVma 0xFF
  cases result : createTask image machine.kernel taskFlagKernel tempCodeStart initEspVma 0xFF with
  | none => simp only [creates, result, Option.bind_eq_bind, Option.bind_none, swapAlloc]
  | some created =>
      obtain ⟨pid, k⟩ := created
      have prepares := ((ok.prepared low result machine.swapNext).2 active here).2
      simp only [creates, result, swapAlloc, Option.bind_eq_bind, Option.bind_some]
      refine (prepareOn_map k.memory active (k.taskManager.tasks pid).tss.cr3 machine.swapNext fun m => Machine.mk
        { k with memory := m } (writeDiskSectors machine.disk 8 machine.swapNext code) (machine.swapNext + 8)).symm.trans ?_
      rw [show (k.taskManager.tasks pid).tss.cr3 = System.cr3 ⟨k, pid :: live, exited.filter (· ≠ pid)⟩ pid from rfl,
        prepares]
      rfl

section Program

variable {components : List (List UInt8)} {f : FileT} {chain : List UInt32} (path : Path components)
  (along : Along machine.disk (rootFcb machine.disk) components (IsDirectory machine.disk))
  (resolved : resolve machine.disk (rootFcb machine.disk) components = some f)
  (wellFormed : WellFormed machine.disk f chain) (small : f.size ≤ tempCodeSizeMax) (locals : Locals)
  (codeBuf : Nat → UInt8) (fileCached : FileCached)

include path along resolved wellFormed small

theorem program_loads : ∃ (cached : FileCached) (code : Nat → UInt8),
    loadFileCached machine.disk locals (joinPath components) fileCached = some (.success, cached) ∧
      readExtent 0 cached.file.fileSize.toNatClampNeg ≤ tempCodeSizeMax ∧
      readAll machine.disk cached.file codeBuf = some code ∧
      ∀ i < f.size, code i = byteOf machine.disk chain i := by
  obtain ⟨cached, loaded, rfl, -⟩ := loadFileCached_resolved locals path along resolved fileCached
  obtain ⟨code, read, bytes⟩ := readAll_spec wellFormed.toReadable codeBuf
  exact ⟨cached, code, loaded, readExtent_code small, read, bytes⟩

theorem sysExecve_execved {k : Kernel}
    (created : createTask image machine.kernel taskFlagKernel tempCodeStart initEspVma 0xFF =
      some (getPidEmpty machine.kernel.gdt, k)) :
    ∃ code : Nat → UInt8, (∀ i < f.size, code i = byteOf machine.disk chain i) ∧
      sysExecve image machine locals codeBuf fileCached (joinPath components) = some (execved machine k code) := by
  obtain ⟨cached, code, loads, fits, reads, bytes⟩ :=
    program_loads path along resolved wellFormed small locals codeBuf fileCached
  refine ⟨code, bytes, ?_⟩
  simp only [sysExecve, loads, Nat.not_lt.mpr fits, reads, swapAlloc, created, Option.bind_eq_bind, Option.bind_some,
    if_true, if_false]
  rfl

/-- With less than four low frames, the call meets a page fault while the kernel's directory is active. -/
theorem LowSpaces.sysExecveOn_none (ok : LowSpaces image ⟨machine.kernel, live, exited⟩)
    (slot : getPidEmpty machine.kernel.gdt < maxGdtTerms) (frames : 5 ≤ freeFrames machine.kernel.memory)
    (few : lowFrames machine.kernel.memory < 4) :
    sysExecveOn image machine image.kernelPd locals codeBuf fileCached (joinPath components) = none := by
  obtain ⟨cached, code, loads, fits, reads, -⟩ :=
    program_loads path along resolved wellFormed small locals codeBuf fileCached
  have covers := ok.spaces.isolated.covers
  obtain ⟨n, free⟩ := least_of_free (show 0 < freeFrames machine.kernel.memory by omega)
  simp only [sysExecveOn, loads, Nat.not_lt.mpr fits, reads, swapAlloc, Option.bind_eq_bind, Option.bind_some, if_true,
    if_false]
  by_cases low : 0 < lowFrames machine.kernel.memory
  · obtain ⟨k, created, -, -, -, frame⟩ := created_task ok.spaces slot (show 0 < freeFrames machine.kernel.memory by omega)
      taskFlagKernel tempCodeStart initEspVma 0xFF
    obtain ⟨after, left, calls⟩ := ok.created low created
    obtain ⟨-, creates⟩ := calls image.kernelPd List.mem_cons_self
    have taken : MemStep image ⟨machine.kernel, live, exited⟩ (.task (.create taskFlagKernel tempCodeStart initEspVma 0xFF))
        ⟨k, getPidEmpty machine.kernel.gdt :: live, exited.filter (· ≠ getPidEmpty machine.kernel.gdt)⟩ :=
      ⟨nextFree_allocates covers free, by simp [memStep, WegOS.step, created]⟩
    have missing : ∀ v : UInt32, itselfEnd ≤ v → present (k.memory.entry
        (k.taskManager.tasks (getPidEmpty machine.kernel.gdt)).tss.cr3 (testbits v 22 32)) = false :=
      fun v above => created_missing ok.spaces taken rfl (itselfEnd_index above) (indexInPde_lt v)
    change freeFrames k.memory + 1 = freeFrames machine.kernel.memory at frame
    change lowFrames k.memory + 1 = lowFrames machine.kernel.memory at left
    have fails := after.directories.prepareOn_none (List.mem_map_of_mem List.mem_cons_self) machine.swapNext
      (missing tempCodeStart (by decide)) (missing initEspVma (by decide)) (show 3 ≤ freeFrames k.memory by omega)
      (show lowFrames k.memory < 3 by omega)
    refine Eq.trans ?_ (congrArg (Option.map fun m => Machine.mk { k with memory := m }
      (writeDiskSectors machine.disk 8 machine.swapNext code) (machine.swapNext + 8)) fails)
    simp only [creates, Option.bind_some, prepareOn_map, Option.bind_eq_bind, System.cr3]
  · have creates := ok.directories.createTaskOn_none free (nextFree_far (by omega) free) taskFlagKernel tempCodeStart
      initEspVma 0xFF
    simp only [creates, Option.bind_none]

end Program

/-- What `sys_execve` leaves behind, and what the first fault at the start of the program does. -/
structure Started (before after : Machine) (f : FileT) (chain : List UInt32) (pid : Nat) (cr3 : UInt32) : Prop where
  directory : (after.kernel.taskManager.tasks pid).tss.cr3 = cr3
  ready : pid ∈ after.kernel.taskManager.pidQueueReady.elems
  absent : hasAddr after.kernel.memory cr3 tempCodeStart = false
  stack : hasAddr after.kernel.memory cr3 initEspVma = true
  fault : ∀ e, ∃ m', onPageFaultOn after.kernel.memory after.disk cr3 tempCodeStart e = some m' ∧
    ∀ i < f.size, hasAddr m' cr3 (tempCodeStart + UInt32.ofNat i) = true ∧
      m'.bytes (addrTranslate m' cr3 (tempCodeStart + UInt32.ofNat i)) = byteOf before.disk chain i

section Program

variable {components : List (List UInt8)} {f : FileT} {chain : List UInt32} (path : Path components)
  (along : Along machine.disk (rootFcb machine.disk) components (IsDirectory machine.disk))
  (resolved : resolve machine.disk (rootFcb machine.disk) components = some f)
  (wellFormed : WellFormed machine.disk f chain) (small : f.size ≤ tempCodeSizeMax)
  (ok : LowSpaces image ⟨machine.kernel, live, exited⟩) (slot : getPidEmpty machine.kernel.gdt < maxGdtTerms)
  (frames : 5 ≤ freeFrames machine.kernel.memory) (sector : machine.swapNext.toNat < 2 ^ 29) (locals : Locals)
  (codeBuf : Nat → UInt8) (fileCached : FileCached)

include path along resolved wellFormed small ok slot frames sector

/-- With four low frames free the program is started, and its first fault brings it in. -/
theorem LowSpaces.starts (here : active ∈ WegOS.directories image ⟨machine.kernel, live, exited⟩)
    (low : 4 ≤ lowFrames machine.kernel.memory) :
    ∃ k code, let cr3 := (k.taskManager.tasks (getPidEmpty machine.kernel.gdt)).tss.cr3
      sysExecveOn image machine active locals codeBuf fileCached (joinPath components) =
          some (execved machine k code) ∧
        Started machine (execved machine k code) f chain (getPidEmpty machine.kernel.gdt) cr3 ∧
        HasSlot (prepare k.memory cr3 machine.swapNext) cr3 tempCodeStart machine.swapNext ∧
        freeFrames machine.kernel.memory ≤ freeFrames (prepare k.memory cr3 machine.swapNext) + 4 := by
  obtain ⟨k, created, ready, covers, directory, left⟩ := created_task ok.spaces slot
    (show 0 < freeFrames machine.kernel.memory by omega) taskFlagKernel tempCodeStart initEspVma 0xFF
  change freeFrames k.memory + 1 = freeFrames machine.kernel.memory at left
  obtain ⟨code, bytes, runs⟩ := sysExecve_execved path along resolved wellFormed small locals codeBuf fileCached created
  obtain ⟨reach, -⟩ := ok.prepared low created machine.swapNext
  obtain ⟨covers, directory, given, stack, rest⟩ := prepare_spec covers directory machine.swapNext (by omega)
  change freeFrames k.memory ≤ freeFrames (prepare k.memory
    (k.taskManager.tasks (getPidEmpty machine.kernel.gdt)).tss.cr3 machine.swapNext) + 3 at rest
  have free : 0 < freeFrames (prepare k.memory
      (k.taskManager.tasks (getPidEmpty machine.kernel.gdt)).tss.cr3 machine.swapNext) := by omega
  obtain ⟨n, least⟩ := least_of_free free
  refine ⟨k, code, (ok.sysExecveOn_eq here low locals codeBuf fileCached _).trans runs,
    ⟨rfl, ready, given.missing, stack, fun e => ?_⟩, given, by omega⟩
  obtain ⟨m', run, page⟩ := fault_fills covers directory given free (by decide) sector
    (writeDiskSectors machine.disk 8 machine.swapNext code) e
  refine ⟨m', (reach.slot_fault (List.mem_map_of_mem List.mem_cons_self) given (nextFree_allocates covers least) _
    e).trans run, fun i inside => ?_⟩
  have whole : i < 4096 := Nat.lt_of_lt_of_le inside small
  obtain ⟨has, byte⟩ := page i whole
  exact ⟨has, byte.trans ((slotByte_writeDiskSectors (by decide) whole).trans (bytes i inside))⟩

/-- `sys_execve` makes a ready task of a file of one page at most, and the page fault at its start brings the file in,
whichever directory is active, exactly when four of the free frames are below `ITSELF_END`. -/
theorem sys_execve_starts_iff :
    (∀ active ∈ WegOS.directories image ⟨machine.kernel, live, exited⟩, ∃ after cr3,
      sysExecveOn image machine active locals codeBuf fileCached (joinPath components) = some after ∧
        Started machine after f chain (getPidEmpty machine.kernel.gdt) cr3) ↔
      4 ≤ lowFrames machine.kernel.memory := by
  constructor
  · intro starts
    by_contra few
    obtain ⟨after, cr3, run, -⟩ := starts image.kernelPd List.mem_cons_self
    rw [ok.sysExecveOn_none path along resolved wellFormed small locals codeBuf fileCached slot frames
      (Nat.not_le.mp few)] at run
    cases run
  · intro low active here
    obtain ⟨k, code, run, started, -⟩ :=
      ok.starts path along resolved wellFormed small slot frames sector locals codeBuf fileCached here low
    exact ⟨_, _, run, started⟩

end Program

end Calls

/-! ## The file `a` of the sample tree -/

theorem Memory.Filled.freeBelow {m : Memory} {n k bound : Nat} (filled : m.Filled n) (room : n + k ≤ bound)
    (small : bound ≤ 2 ^ 20) : k ≤ freeBelow m bound := by
  have free : Finset.Ico n (n + k) ⊆
      (Finset.range bound).filter fun j => m.memoryAllocBitmap.bit (j : Nat) = false := by
    intro j member
    have place := Finset.mem_Ico.mp member
    exact (mem_free m bound j).mpr ⟨by omega, filled.not_taken (by omega) place.1⟩
  have count := Finset.card_le_card free
  rw [Nat.card_Ico, Nat.add_sub_cancel_left] at count
  exact count

theorem Memory.Filled.frames {m : Memory} {n k : Nat} (filled : m.Filled n) (room : n + k ≤ 2 ^ 20) :
    k ≤ freeFrames m := by
  have below := filled.freeBelow room (Nat.le_refl _)
  rw [WegOS.freeBelow, ← show m.memoryAllocBitmap.size = 2 ^ 20 from filled.covers] at below
  exact below

theorem Memory.Filled.lowFrames {m : Memory} (filled : m.Filled 65536) : lowFrames m = 0 := by
  by_contra some
  obtain ⟨n, low, notTaken⟩ := freeBelow_pos.mp (Nat.pos_of_ne_zero some)
  exact notTaken ((filled.taken n (by omega)).mpr low)

theorem sampleTree_program : Path [[97]] ∧
    Along sampleTree (rootFcb sampleTree) [[97]] (IsDirectory sampleTree) ∧
    resolve sampleTree (rootFcb sampleTree) [[97]] = some (entry sampleTree (rootFcb sampleTree) 0) ∧
    WellFormed sampleTree (entry sampleTree (rootFcb sampleTree) 0)
      (sectorsOf sampleTree (entry sampleTree (rootFcb sampleTree) 0)) ∧
    (entry sampleTree (rootFcb sampleTree) 0).size ≤ tempCodeSizeMax := by
  have path : Path [[97]] :=
    { each := by
        unfold Component
        decide
      short := by decide }
  have found : lookup sampleTree (rootFcb sampleTree) [97] = some 0 := by decide +kernel
  have resolved : resolve sampleTree (rootFcb sampleTree) [[97]] = some (entry sampleTree (rootFcb sampleTree) 0) := by
    rw [resolve, found, Option.bind_some, resolve]
  have along : Along sampleTree (rootFcb sampleTree) [[97]] (IsDirectory sampleTree) :=
    along_cons (isDirectory_of_check (by decide +kernel)) fun _ _ => along_nil
  exact ⟨path, along, resolved, wellFormed_of_check (by decide +kernel), by decide +kernel⟩

theorem sys_execve_starts_sample : ∃ kernel after cr3,
    sysExecveOn sampleImage ⟨kernel, sampleTree, diskSwapStartSector⟩ sampleImage.kernelPd sampleLocals (fun _ => 0)
        sampleCached (joinPath [[97]]) = some after ∧
      Started ⟨kernel, sampleTree, diskSwapStartSector⟩ after (entry sampleTree (rootFcb sampleTree) 0)
        (sectorsOf sampleTree (entry sampleTree (rootFcb sampleTree) 0)) 5 cr3 := by
  have ok := sampleKernel_start
  have filled := memStart_filled sampleKernel_zeroed
  have frames := filled.frames (k := 5) (by decide)
  have low := @Memory.Filled.freeBelow _ _ 4 65536 filled (by decide) (by decide)
  have pid := sampleKernel_pid
  have start : memStart sampleImage sampleKernel = ⟨(memStart sampleImage sampleKernel).kernel, [], []⟩ := rfl
  rw [start] at ok
  generalize (memStart sampleImage sampleKernel).kernel = kernel at ok frames low pid
  obtain ⟨path, along, resolved, wellFormed, small⟩ := sampleTree_program
  have starts := (@sys_execve_starts_iff sampleImage ⟨kernel, sampleTree, diskSwapStartSector⟩ _ _ _ _ _ path along
    resolved wellFormed small ok (by rw [pid]; decide) frames (show diskSwapStartSector.toNat < 2 ^ 29 by decide)
    sampleLocals (fun _ => 0) sampleCached).mpr low
  obtain ⟨after, cr3, run, started⟩ := starts sampleImage.kernelPd List.mem_cons_self
  rw [pid] at started
  exact ⟨kernel, after, cr3, run, started⟩

theorem calls_gdt {image : KernelImage} {s t : System} {events : List MemEvent} (run : Run (MemStep image) s events t)
    (calls : ∀ e ∈ events, ∀ event, e ≠ .task event) : t.kernel.gdt = s.kernel.gdt := by
  induction run with
  | refl => rfl
  | @tail middle t events event _ last ih =>
      have before := ih fun e member => calls e (List.mem_append_left _ member)
      obtain ⟨-, result⟩ := last
      cases event with
      | task event => exact absurd rfl (calls (.task event) (by simp) event)
      | setMmap pid v p flags => exact (Option.some.inj result) ▸ before
      | loadMemory pid v flags => exact (Option.some.inj result) ▸ before
      | swapSectorSet pid v sector => exact (Option.some.inj result) ▸ before

/-- One task, whose pages have taken the frames below `ITSELF_END`. -/
theorem sampleKernel_spent : ∃ events s, Run (Guarded (MemStep sampleImage) FramesLow)
    (memStart sampleImage sampleKernel) events s ∧ LowSpaces sampleImage s ∧ s.live = [5] ∧
      s.kernel.memory.Filled 65536 ∧ getPidEmpty s.kernel.gdt = 6 := by
  obtain ⟨one, created, okOne, live, filledOne, gdt, missing⟩ := sampleKernel_first
  have five : 5 ∈ one.live := by
    rw [live]
    exact List.mem_cons_self
  obtain ⟨two, mapped, liveTwo, cr3Two, -, filledTwo, here, -⟩ :=
    setMmap_takes okOne.spaces five (show itselfEnd ≤ 0x10000000 by decide) filledOne (by decide)
      (missing 0x10000000 (by decide)) 0 7
  have lowTwo : FramesLow one (.setMmap 5 0x10000000 0 7) :=
    Or.inr ⟨2113, by decide, filledOne.not_taken (by decide) (Nat.le_refl _)⟩
  have okTwo := okOne.step lowTwo mapped
  rw [← cr3Two] at here
  obtain ⟨full, loads, -, liveFull, -, filledFull, -⟩ :=
    @loadMemory_run _ _ _ _ 0x10000000 okTwo.spaces (liveTwo.symm ▸ five) (by decide) filledTwo here 7 63422 (by decide)
  have calls := (Run.single ⟨lowTwo, mapped⟩).trans loads
  have run := (Run.single created).trans calls
  have descriptors := calls_gdt (calls.mono fun _ _ _ taken => taken.2) (by
    intro e member event same
    rcases List.mem_append.mp member with first | loaded
    · rw [List.mem_singleton.mp first] at same
      cases same
    · rw [List.eq_of_mem_replicate loaded] at same
      cases same)
  have pid : getPidEmpty full.kernel.gdt = 6 := by
    rw [descriptors, gdt]
    decide +kernel
  exact ⟨_, full, run, run.invariant sampleKernel_start fun _ _ _ before step => before.step step.1 step.2,
    liveFull.trans (liveTwo.trans live), filledFull, pid⟩

/-- A free descriptor and five free frames, and no task is started. -/
theorem sys_execve_out_of_reach : ∃ events s,
    Run (Guarded (PagedStep sampleImage) FindsLow) (memStart sampleImage sampleKernel) events s ∧
      getPidEmpty s.kernel.gdt < maxGdtTerms ∧ 5 ≤ freeFrames s.kernel.memory ∧
      WellFormed sampleTree (entry sampleTree (rootFcb sampleTree) 0)
        (sectorsOf sampleTree (entry sampleTree (rootFcb sampleTree) 0)) ∧
      resolve sampleTree (rootFcb sampleTree) [[97]] = some (entry sampleTree (rootFcb sampleTree) 0) ∧
      (entry sampleTree (rootFcb sampleTree) 0).size ≤ tempCodeSizeMax ∧
      ¬∃ after cr3, sysExecveOn sampleImage ⟨s.kernel, sampleTree, diskSwapStartSector⟩ sampleImage.kernelPd sampleLocals
          (fun _ => 0) sampleCached (joinPath [[97]]) = some after ∧
        Started ⟨s.kernel, sampleTree, diskSwapStartSector⟩ after (entry sampleTree (rootFcb sampleTree) 0)
          (sectorsOf sampleTree (entry sampleTree (rootFcb sampleTree) 0)) 6 cr3 := by
  obtain ⟨events, s, flat, ok, live, filled, pid⟩ := sampleKernel_spent
  obtain ⟨path, along, resolved, wellFormed, small⟩ := sampleTree_program
  have run := (sampleKernel_start.paged flat).2
  have slot : getPidEmpty s.kernel.gdt < maxGdtTerms := by
    rw [pid]
    decide
  have frames := filled.frames (k := 5) (by decide)
  have faults := @LowSpaces.sysExecveOn_none sampleImage ⟨s.kernel, sampleTree, diskSwapStartSector⟩ s.live s.exited _ _ _
    path along resolved wellFormed small sampleLocals (fun _ => 0) sampleCached ok slot frames
    (show lowFrames s.kernel.memory < 4 by rw [filled.lowFrames]; decide)
  refine ⟨_, s, run, slot, frames, wellFormed, resolved, small, ?_⟩
  rintro ⟨after, cr3, started, -⟩
  rw [faults] at started
  cases started

end WegOS
