import WegOS.PagedRuns

/-! The page fault with paging on.

The faulting task's directory is the active one, and the handler reads and writes the page tables through it. -/

namespace WegOS

open LittleEndian Transition

def swapSectorOfOn (m : Memory) (active cr3 virtual : UInt32) : Option UInt32 := do
  let there ← hasAddrOn m active cr3 virtual
  if there then none
  else do
    let pteDescInPde ← m.entryOn active cr3 (testbits virtual 22 32)
    if !testbit pteDescInPde pageTableP then pure 0
    else do
      let entry ← m.entryOn active (pteDescInPde &&& 0xFFFFF000) (testbits virtual 12 22)
      pure (entry >>> 3)

def swapInOn (m : Memory) (disk : Disk) (cr3 useful : UInt32) (flags : UInt16) : Option Memory := do
  let there ← hasAddrOn m cr3 cr3 useful
  if there then none
  else do
    let swapSector ← swapSectorOfOn m cr3 cr3 useful
    let (_, m) ← loadMemoryOn m cr3 cr3 useful flags
    readDisk disk cr3 8 swapSector useful m

def onPageFaultOn (m : Memory) (disk : Disk) (cr3 virtual _errorCode : UInt32) : Option Memory :=
  swapInOn m disk cr3 virtual pageTableFlagKernelReadWrite

section Fault

variable {m : Memory} {kernelPd active cr3 v slot : UInt32} {dirs : List UInt32}
  (ok : LowDirectories m kernelPd dirs)

include ok

theorem LowDirectories.swapSectorOfOn_eq (here : active ∈ kernelPd :: dirs) (member : cr3 ∈ kernelPd :: dirs) :
    swapSectorOfOn m active cr3 v = swapSectorOf m cr3 v := by
  rw [swapSectorOfOn, swapSectorOf, ok.hasAddrOn_eq here member, ok.entryOn here member (indexInPde_lt v)]
  simp only [Option.bind_eq_bind, Option.bind_some]
  cases hasAddr m cr3 v with
  | true => rfl
  | false =>
      cases there : present (m.entry cr3 (testbits v 22 32)) with
      | false =>
          rw [present] at there
          rw [there]
          rfl
      | true =>
          have entry := ok.tableOn here member (indexInPde_lt v) there (indexInPte_lt v)
          rw [Memory.table] at entry
          rw [present] at there
          rw [there, entry]
          rfl

variable (member : cr3 ∈ dirs)

include member

/-- Where the frame for a new table is low, the handler does what it does on physical memory. -/
theorem LowDirectories.onPageFaultOn_eq (high : itselfEntries ≤ (testbits v 22 32).toNat) (free : allocates m)
    (succeeds : mapAllocates (pMalloc m).2 cr3 v) (low : mapStaysLow (pMalloc m).2 cr3 v) (disk : Disk) (e : UInt32) :
    onPageFaultOn m disk cr3 v e = onPageFault m disk cr3 v e := by
  have here := List.mem_cons_of_mem kernelPd member
  have loads := ok.loadMemoryOn_eq here member high free succeeds low pageTableFlagKernelReadWrite
  rw [onPageFaultOn, onPageFault, swapInOn, swapIn, ok.hasAddrOn_eq here here, ok.swapSectorOfOn_eq here here, loads]
  simp only [Option.bind_eq_bind, Option.bind_some]

theorem LowDirectories.slot_above (given : HasSlot m cr3 v slot) : itselfEnd ≤ v := by
  by_contra below
  have has := (ok.everywhere (List.mem_cons_of_mem _ member) v (UInt32.not_le.mp below)).1
  rw [given.missing] at has
  cases has

theorem LowDirectories.slot_fault (given : HasSlot m cr3 v slot) (free : allocates m) (disk : Disk) (e : UInt32) :
    onPageFaultOn m disk cr3 v e = onPageFault m disk cr3 v e :=
  ok.onPageFaultOn_eq member (itselfEnd_index (ok.slot_above member given)) free (Or.inl given.table)
    (Or.inl given.table) disk e

/-- The identity map leads to the page table of `v`. -/
theorem LowDirectories.aliased (given : HasSlot m cr3 v slot) (free : allocates m) : ¬Unaliased m cr3 v := by
  intro unaliased
  obtain ⟨n, nextFree⟩ := allocates_nextFree free
  have here := List.mem_cons_of_mem kernelPd member
  have aligned := table_aligned m cr3 (testbits v 22 32)
  obtain ⟨has, translate⟩ := ok.everywhere here (m.table cr3 (testbits v 22 32))
    ((below_itselfEnd _).mpr (ok.table_low here (indexInPde_lt v) given.table))
  have other : m.table cr3 (testbits v 22 32) &&& 0xFFFFF000 ≠ v &&& 0xFFFFF000 := by
    intro same
    obtain ⟨pde, pte⟩ := (same_page_iff v _).mp same
    have missing := given.missing
    rw [hasAddr_eq, pde, pte, ← hasAddr_eq, missing] at has
    cases has
  exact (unaliased n nextFree _ other has).2 (congrArg frameOf translate)

/-- Not even a fault at the start of a page leaves the bytes of all other pages alone. -/
theorem LowDirectories.never_served (given : HasSlot m cr3 v slot) (free : allocates m) (e : UInt32) :
    ¬∀ disk, ∃ m', onPageFaultOn m disk cr3 v e = some m' ∧ Served m disk cr3 v slot m' := by
  intro serves
  have directory := ok.isolated.directory cr3 member
  obtain ⟨n, nextFree⟩ := allocates_nextFree free
  have flat : ∀ disk, ∃ m', onPageFault m disk cr3 v e = some m' ∧ Served m disk cr3 v slot m' := by
    intro disk
    rw [← ok.slot_fault member given free disk e]
    exact serves disk
  have start := fault_needs_start ok.isolated.covers directory given nextFree e flat
  exact ok.aliased member given free (fault_needs_unaliased ok.isolated.covers directory given nextFree start e flat)

/-- For a fault at the start of a page, the handler brings the eight sectors of the slot, whatever the disk holds, and
changes nothing but the new frame and the entry of the page, exactly when the number of the slot fits in the entry. -/
theorem on_page_fault_brings_iff (given : HasSlot m cr3 v slot) (start : PageAligned v) (free : allocates m)
    (e : UInt32) :
    (∀ disk, ∃ m', onPageFaultOn m disk cr3 v e = some m' ∧ Brought m disk cr3 v slot m' ∧
      ∀ a, frameOf a ≠ frameOf (pMalloc m).1 →
        (∀ k < 4, a ≠ addressPlace (m.table cr3 (testbits v 22 32) + 4 * testbits v 12 22) k) →
          m'.bytes a = m.bytes a) ↔ slot.toNat < 2 ^ 29 := by
  have covers := ok.isolated.covers
  have directory := ok.isolated.directory cr3 member
  obtain ⟨n, nextFree⟩ := allocates_nextFree free
  have frame : frameOf (pMalloc m).1 = n := by
    rw [pMalloc_nextFree covers nextFree]
    exact frameOf_frame (nextFree_lt covers nextFree)
  rw [frame]
  constructor
  · intro brings
    apply fault_needs_small covers directory given nextFree start e
    intro disk
    obtain ⟨m', run, brought, -⟩ := brings disk
    exact ⟨m', (ok.slot_fault member given free disk e).symm.trans run, brought⟩
  · intro small disk
    rw [ok.slot_fault member given free disk e]
    exact fault_brings covers directory given nextFree start small disk e

end Fault

/-! ## Two pages of the first task -/

theorem sampleKernel_swapped : ∃ events s, Run (Guarded (MemStep sampleImage) FramesLow)
    (memStart sampleImage sampleKernel) events s ∧ LowSpaces sampleImage s ∧ s.live = [5] ∧
      s.kernel.memory.Filled 2114 ∧ HasSlot s.kernel.memory (s.cr3 5) 0x80000000 40 ∧
      hasAddr s.kernel.memory (s.cr3 5) 0x80001000 = true := by
  obtain ⟨one, created, okOne, liveOne, filledOne, -, absent⟩ := sampleKernel_first
  have five : 5 ∈ one.live := by
    rw [liveOne]
    exact List.mem_cons_self
  have missing := absent 0x80001000 (by decide)
  obtain ⟨two, mapped, liveTwo, cr3Two, memoryTwo, filledTwo, here, -⟩ :=
    setMmap_takes okOne.spaces five (show itselfEnd ≤ 0x80001000 by decide) filledOne (by decide) missing 0x5000 7
  have lowTwo : FramesLow one (.setMmap 5 0x80001000 0x5000 7) :=
    Or.inr ⟨2113, by decide, filledOne.not_taken (by decide) (Nat.le_refl _)⟩
  have okTwo := okOne.step lowTwo mapped
  have directory := okTwo.spaces.directory (liveTwo.symm ▸ five)
  rw [← cr3Two] at here
  have swapped : MemStep sampleImage two (.swapSectorSet 5 0x80000000 40)
      (two.withMemory (swapSectorSet two.kernel.memory (two.cr3 5) 0x80000000 40)) :=
    ⟨⟨liveTwo.symm ▸ five, by decide, here⟩, rfl⟩
  have lowSwap : FramesLow two (.swapSectorSet 5 0x80000000 40) := trivial
  have next : hasAddr two.kernel.memory (two.cr3 5) 0x80001000 = true := by
    rw [memoryTwo, cr3Two]
    exact (@setMmap_absent_maps one.kernel.memory (one.cr3 5) 0x80001000 0x5000 7 (by decide) (by decide) (by decide)
      2113 (okOne.spaces.directory five) filledOne.covers (filledOne.nextFree (by decide)) missing 0 (by decide)).2
  have kept := @swapSectorSet_keeps two.kernel.memory (two.cr3 5) 0x80000000 0x80001000 directory here 40 (by decide)
  exact ⟨_, _, ((Run.single created).trans (Run.single ⟨lowTwo, mapped⟩)).trans
    (Run.single ⟨lowSwap, swapped⟩), okTwo.step lowSwap swapped, liveTwo.trans liveOne,
    ⟨filledTwo.covers, filledTwo.taken⟩,
    @swapSectorSet_hasSlot two.kernel.memory (two.cr3 5) 0x80000000 directory here 40, kept.1.trans next⟩

theorem on_page_fault_brings_first : ∃ (s : System) (m' : Memory), s.live = [5] ∧
    onPageFaultOn s.kernel.memory (filledDisk 7) (s.cr3 5) 0x80000000 0 = some m' ∧
      Brought s.kernel.memory (filledDisk 7) (s.cr3 5) 0x80000000 40 m' := by
  obtain ⟨events, s, -, ok, live, filled, given, -⟩ := sampleKernel_swapped
  have member : s.cr3 5 ∈ s.live.map s.cr3 := List.mem_map_of_mem (by rw [live]; exact List.mem_cons_self)
  obtain ⟨m', run, brought, -⟩ := (on_page_fault_brings_iff ok.directories member given (by decide)
    (filled.allocates (by decide)) 0).mpr (by decide) (filledDisk 7)
  exact ⟨s, m', live, run, brought⟩

/-- A fault at the start of the first page, and one at offset 4. -/
theorem on_page_fault_unserved : ∃ events s, Run (Guarded (PagedStep sampleImage) FindsLow)
    (memStart sampleImage sampleKernel) events s ∧ 5 ∈ s.live ∧ allocates s.kernel.memory ∧
      (HasSlot s.kernel.memory (s.cr3 5) 0x80000000 40 ∧ ¬∀ disk, ∃ m',
        onPageFaultOn s.kernel.memory disk (s.cr3 5) 0x80000000 0 = some m' ∧
          Served s.kernel.memory disk (s.cr3 5) 0x80000000 40 m') ∧
      HasSlot s.kernel.memory (s.cr3 5) 0x80000004 40 ∧ hasAddr s.kernel.memory (s.cr3 5) 0x80001000 = true ∧
      ¬∀ disk, ∃ m', onPageFaultOn s.kernel.memory disk (s.cr3 5) 0x80000004 0 = some m' ∧
        Served s.kernel.memory disk (s.cr3 5) 0x80000004 40 m' := by
  obtain ⟨events, s, flat, ok, live, filled, given, next⟩ := sampleKernel_swapped
  have five : 5 ∈ s.live := by
    rw [live]
    exact List.mem_cons_self
  have member := List.mem_map_of_mem (f := s.cr3) five
  have free := filled.allocates (by decide)
  have pde : testbits 0x80000004 22 32 = testbits 0x80000000 22 32 := by decide
  have pte : testbits 0x80000004 12 22 = testbits 0x80000000 12 22 := by decide
  have offset : HasSlot s.kernel.memory (s.cr3 5) 0x80000004 40 :=
    ⟨by rw [pde]; exact given.table, by rw [pde, pte]; exact given.entry⟩
  have run := (sampleKernel_start.paged flat).2
  exact ⟨_, s, run, five, free, ⟨given, ok.directories.never_served member given free 0⟩, offset, next,
    ok.directories.never_served member offset free 0⟩

end WegOS
