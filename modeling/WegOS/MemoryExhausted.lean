import WegOS.AddressSpaces

/-! Calls that run out of physical memory.

No caller of `p_malloc` looks at its result: the `-1` becomes a directory entry, a page table entry, or the address of a
new directory. -/

namespace WegOS

open LittleEndian

/-! ## The bytes that are written -/

def entryPlaces (table index : UInt32) : List UInt32 := (List.range 4).map (addressPlace (table + 4 * index))

def setMmapPlaces (m : Memory) (cr3 virtual : UInt32) : List UInt32 :=
  let indexInPde := testbits virtual 22 32
  let indexInPte := testbits virtual 12 22
  if testbit (m.entry cr3 indexInPde) pageTableP then entryPlaces (m.table cr3 indexInPde) indexInPte
  else
    let (frame, m) := pMalloc m
    let m := m.setEntry cr3 indexInPde (frame ||| pageTableFlagUserReadWrite)
    entryPlaces cr3 indexInPde ++ entryPlaces (m.table cr3 indexInPde) indexInPte

def copyPtsPlaces (toPd : UInt32) : List UInt32 := (List.range pageSize).map fun k => toPd + UInt32.ofNat k

inductive MemoryCall
  | setMmap (cr3 virtual physical : UInt32) (flags : UInt16)
  | loadMemory (cr3 virtual : UInt32) (flags : UInt16)
  | createTask (flag eip esp ddl : UInt32)

/-- The kernel after a call, and the bytes of physical memory that the call writes. -/
def memoryCall (image : KernelImage) (k : Kernel) : MemoryCall → Option (Kernel × List UInt32)
  | .setMmap cr3 virtual physical flags =>
      some ({ k with memory := (setMmap k.memory cr3 virtual physical flags).2 }, setMmapPlaces k.memory cr3 virtual)
  | .loadMemory cr3 virtual flags =>
      some ({ k with memory := (loadMemory k.memory cr3 virtual flags).2 },
        setMmapPlaces (pMalloc k.memory).2 cr3 virtual)
  | .createTask flag eip esp ddl =>
      (createTask image k flag eip esp ddl).map fun created => (created.2, copyPtsPlaces (pMalloc k.memory).1)

/-- A `p_malloc` of the call returns `-1`. -/
def Exhausts (m : Memory) : MemoryCall → Prop
  | .setMmap cr3 virtual _ _ => ¬mapAllocates m cr3 virtual
  | .loadMemory cr3 virtual _ => ¬(allocates m ∧ mapAllocates (pMalloc m).2 cr3 virtual)
  | .createTask _ _ _ _ => ¬allocates m

/-- No entry of a directory or of a page table is changed, nothing behind the kernel's own variables is written, and
a task that becomes ready has the address of a page as its directory. -/
structure Spared (k k' : Kernel) (places : List UInt32) : Prop where
  entries : ∀ d i : UInt32, i.toNat < 1024 → k'.memory.entry d i = k.memory.entry d i ∧
    (present (k.memory.entry d i) = true → ∀ j : UInt32, j.toNat < 1024 →
      k'.memory.entry (k.memory.table d i) j = k.memory.entry (k.memory.table d i) j)
  written : ∀ a ∈ places, frameOf a < kernelFrames
  ready : ∀ pid, emptyDesc (k.gdt pid) = true → emptyDesc (k'.gdt pid) = false →
    (k'.taskManager.tasks pid).state = .ready → PageAligned (k'.taskManager.tasks pid).tss.cr3

/-- The page was loaded in vain before, into a table among the kernel's own variables. -/
def StoresSame (m : Memory) : MemoryCall → Prop
  | .loadMemory cr3 virtual _ =>
      present (m.entry cr3 (testbits virtual 22 32)) = true ∧
        frameOf (m.table cr3 (testbits virtual 22 32)) < kernelFrames ∧
        m.entry (m.table cr3 (testbits virtual 22 32)) (testbits virtual 12 22) = 0xFFFFFFFF
  | _ => False

section Places

variable {m : Memory} {cr3 v p a : UInt32} {flags : UInt16}

theorem setEntry_outside {table index word : UInt32} (outside : a ∉ entryPlaces table index) :
    (m.setEntry table index word).bytes a = m.bytes a := by
  apply putWord_outside
  rintro k small rfl
  exact outside (List.mem_map_of_mem (List.mem_range.mpr small))

theorem setMmap_outside (outside : a ∉ setMmapPlaces m cr3 v) : (setMmap m cr3 v p flags).2.bytes a = m.bytes a := by
  unfold setMmapPlaces at outside
  unfold setMmap
  dsimp only at outside ⊢
  split_ifs at outside ⊢ with here
  · exact setEntry_outside outside
  · rw [List.mem_append, not_or] at outside
    exact (setEntry_outside outside.2).trans (setEntry_outside outside.1)

theorem copyPts_outside {fromPd toPd : UInt32} (outside : a ∉ copyPtsPlaces toPd) :
    (copyPts m fromPd toPd).bytes a = m.bytes a := by
  have beyond : ¬(a - toPd).toNat < pageSize := by
    intro inside
    apply outside
    refine List.mem_map.mpr ⟨(a - toPd).toNat, List.mem_range.mpr inside, ?_⟩
    rw [UInt32.ofNat_toNat, UInt32.add_comm, UInt32.sub_add_cancel]
  exact if_neg beyond

/-- The bytes that a call does not list are as before. -/
theorem memoryCall_frame {image : KernelImage} {k k' : Kernel} {call : MemoryCall} {places : List UInt32}
    (called : memoryCall image k call = some (k', places)) (outside : a ∉ places) :
    k'.memory.bytes a = k.memory.bytes a := by
  cases call with
  | setMmap cr3 v p flags =>
      obtain ⟨rfl, rfl⟩ := Prod.mk.inj (Option.some.inj called)
      exact setMmap_outside outside
  | loadMemory cr3 v flags =>
      obtain ⟨rfl, rfl⟩ := Prod.mk.inj (Option.some.inj called)
      exact setMmap_outside outside
  | createTask flag eip esp ddl =>
      obtain ⟨⟨pid, after⟩, created, same⟩ := Option.map_eq_some_iff.mp called
      obtain ⟨rfl, rfl⟩ := Prod.mk.inj same
      obtain ⟨-, -, -, memory, -⟩ := createTask_eq created
      rw [memory]
      exact copyPts_outside outside

end Places

/-! ## Calls without a frame -/

section Exhausted

variable {m : Memory} {cr3 v p : UInt32} {flags : UInt16}

theorem pMalloc_fails (fails : ¬allocates m) : pMalloc m = (0xFFFFFFFF, m) := by
  rcases bitAllocFrom_spec m.memoryAllocBitmap false (m.memoryAllocBitmap.size / 8) 0 (by simp) with
    ⟨n, -, -, -, result⟩ | ⟨-, result⟩
  · have taken : bitAlloc m.memoryAllocBitmap false = ((n : Int), bitFree m.memoryAllocBitmap n true) := result
    have present : (n : Int) ≠ -1 := by omega
    refine absurd ?_ fails
    intro same
    have aligned := frame_aligned n
    simp only [pMalloc, taken, if_neg present, Int.toNat_natCast] at same
    rw [same] at aligned
    exact absurd aligned (by decide)
  · have none : bitAlloc m.memoryAllocBitmap false = (-1, m.memoryAllocBitmap) := result
    simp only [pMalloc, none, if_pos]

/-- The `-1` is the entry of the directory, and what it names is the last page of the address space. -/
theorem setMmapPlaces_fails (fails : ¬mapAllocates m cr3 v) :
    setMmapPlaces m cr3 v = entryPlaces cr3 (testbits v 22 32) ++ entryPlaces 0xFFFFF000 (testbits v 12 22) := by
  rw [mapAllocates, not_or] at fails
  have missing : ¬testbit (m.entry cr3 (testbits v 22 32)) pageTableP = true := fails.1
  have entry : (0xFFFFFFFF : UInt32) ||| pageTableFlagUserReadWrite = 0xFFFFFFFF := by decide
  have page : (0xFFFFFFFF : UInt32) &&& 0xFFFFF000 = 0xFFFFF000 := by decide
  simp only [setMmapPlaces, if_neg missing, pMalloc_fails fails.2, entry, Memory.table, Memory.entry_setEntry, page]

theorem setMmap_not_spared {k k' : Kernel} (fails : ¬mapAllocates m cr3 v) : ¬Spared k k' (setMmapPlaces m cr3 v) := by
  intro spared
  have aligned : PageAligned 0xFFFFF000 := by decide
  have last : addressPlace (0xFFFFF000 + 4 * testbits v 12 22) 0 ∈ setMmapPlaces m cr3 v := by
    rw [setMmapPlaces_fails fails]
    exact List.mem_append_right _ (List.mem_map_of_mem (List.mem_range.mpr (by decide)))
  have own := spared.written _ last
  rw [entry_frame aligned (indexInPte_lt v) (by decide)] at own
  exact absurd own (by decide)

/-- The page table is there: its entry becomes `-1`. -/
theorem loadMemory_fails (here : present (m.entry cr3 (testbits v 22 32)) = true) (fails : ¬allocates m) :
    (loadMemory m cr3 v flags).2 = m.setEntry (m.table cr3 (testbits v 22 32)) (testbits v 12 22) 0xFFFFFFFF := by
  have full : (0xFFFFFFFF : UInt32) ||| flags.toUInt32 = 0xFFFFFFFF := UInt32.neg_one_or
  simp only [loadMemory, pMalloc_fails fails, setMmap_present here, full]

theorem loadMemory_spared_iff {k : Kernel} (here : present (k.memory.entry cr3 (testbits v 22 32)) = true)
    (fails : ¬allocates k.memory) :
    Spared k { k with memory := (loadMemory k.memory cr3 v flags).2 } (setMmapPlaces (pMalloc k.memory).2 cr3 v) ↔
      frameOf (k.memory.table cr3 (testbits v 22 32)) < kernelFrames ∧
        k.memory.entry (k.memory.table cr3 (testbits v 22 32)) (testbits v 12 22) = 0xFFFFFFFF := by
  have aligned := table_aligned k.memory cr3 (testbits v 22 32)
  have places : setMmapPlaces (pMalloc k.memory).2 cr3 v =
      entryPlaces (k.memory.table cr3 (testbits v 22 32)) (testbits v 12 22) := by
    rw [pMalloc_fails fails, setMmapPlaces]
    exact if_pos here
  rw [places, loadMemory_fails here fails]
  constructor
  · intro spared
    have first := spared.written _ (List.mem_map_of_mem (List.mem_range.mpr (show 0 < 4 by decide)))
    rw [entry_frame aligned (indexInPte_lt v) (by decide)] at first
    have same := (spared.entries cr3 _ (indexInPde_lt v)).2 here _ (indexInPte_lt v)
    rw [Memory.entry_setEntry] at same
    exact ⟨first, same.symm⟩
  · rintro ⟨own, same⟩
    have unchanged : k.memory.setEntry (k.memory.table cr3 (testbits v 22 32)) (testbits v 12 22) 0xFFFFFFFF =
        k.memory := by
      rw [← same]
      exact congrArg (fun bytes => { k.memory with bytes := bytes }) (putWord_wordAt _ (addressPlace_places _))
    rw [unchanged]
    refine ⟨fun d i _ => ⟨rfl, fun _ _ _ => rfl⟩, fun a member => ?_, fun pid empty described => ?_⟩
    · obtain ⟨n, small, rfl⟩ := List.mem_map.mp member
      rw [entry_frame aligned (indexInPte_lt v) (List.mem_range.mp small)]
      exact own
    · exact absurd (empty.symm.trans described) (by decide)

/-- The copy of the kernel's directory goes to the end of the address space and around to its start, and the new
task is ready. -/
theorem createTask_not_spared {image : KernelImage} {k k' : Kernel} {flag eip esp ddl : UInt32} {pid : Nat}
    {places : List UInt32} (created : createTask image k flag eip esp ddl = some (pid, k'))
    (fails : ¬allocates k.memory) : ¬Spared k k' places := by
  intro spared
  obtain ⟨first, -, gdt, -, task, cr3, taskManager⟩ := createTask_eq created
  have described : emptyDesc (k'.gdt pid) = false := by
    rw [gdt, Function.update_self]
    exact makeGdtDescForTss_nonempty _ _
  have state : (k'.taskManager.tasks pid).state = .ready := by
    rw [taskManager, setTaskState_state, if_pos rfl]
  have directory : (k'.taskManager.tasks pid).tss.cr3 = 0xFFFFFFFF := by
    simp only [taskManager, setTaskState_tss, Function.update_self, cr3, pMalloc_fails fails]
  have aligned := spared.ready pid first.2.2.1 described state
  rw [directory] at aligned
  exact absurd aligned (by decide)

end Exhausted

/-- A call that runs out of memory spares the memory only if it is `load_memory` and stores again the `-1` of an
earlier failure, into a page table that lies among the kernel's own variables. -/
theorem exhausted_spared_iff {image : KernelImage} {k k' : Kernel} {call : MemoryCall} {places : List UInt32}
    (called : memoryCall image k call = some (k', places)) (exhausts : Exhausts k.memory call) :
    Spared k k' places ↔ StoresSame k.memory call := by
  cases call with
  | setMmap cr3 v p flags =>
      obtain ⟨rfl, rfl⟩ := Prod.mk.inj (Option.some.inj called)
      exact iff_of_false (setMmap_not_spared exhausts) id
  | loadMemory cr3 v flags =>
      obtain ⟨rfl, rfl⟩ := Prod.mk.inj (Option.some.inj called)
      cases here : present (k.memory.entry cr3 (testbits v 22 32)) with
      | true =>
          have fails : ¬allocates k.memory := fun first => exhausts ⟨first, Or.inl here⟩
          exact (loadMemory_spared_iff here fails).trans (and_iff_right here).symm
      | false =>
          have fails : ¬mapAllocates (pMalloc k.memory).2 cr3 v := by
            intro succeeds
            have second : allocates (pMalloc k.memory).2 := by
              refine succeeds.resolve_left ?_
              change ¬present (k.memory.entry cr3 (testbits v 22 32)) = true
              rw [here]
              decide
            by_cases first : allocates k.memory
            · exact exhausts ⟨first, succeeds⟩
            · rw [pMalloc_fails first] at second
              exact first second
          refine iff_of_false (setMmap_not_spared fails) fun stores => ?_
          exact absurd (here.symm.trans stores.1) (by decide)
  | createTask flag eip esp ddl =>
      obtain ⟨⟨pid, after⟩, created, same⟩ := Option.map_eq_some_iff.mp called
      obtain ⟨rfl, rfl⟩ := Prod.mk.inj same
      exact iff_of_false (createTask_not_spared created exhausts) id

def sampleFull : Kernel := { sampleKernel with memory := ⟨fun _ => 0, ⟨fun _ => 0xFF, 2 ^ 20⟩⟩ }

theorem sampleFull_fails : ¬allocates sampleFull.memory := by
  intro succeeds
  obtain ⟨n, free⟩ := allocates_nextFree succeeds
  have set : sampleFull.memory.memoryAllocBitmap.bit n = true := by
    have place : ((n : Int) % 8).toNat < 8 := by omega
    change (2 ^ 8 - 1).testBit _ = true
    rw [Nat.testBit_two_pow_sub_one]
    exact decide_eq_true place
  rw [free.2.1] at set
  cases set

theorem exhausted_create_task : ∃ k' places,
    memoryCall sampleImage sampleFull (.createTask 1 0x400000 0x500000 9) = some (k', places) ∧
      ¬Spared sampleFull k' places := by
  have free : getPidEmpty sampleFull.gdt < maxGdtTerms := by decide +kernel
  obtain ⟨k', created⟩ := createTask_some sampleImage 1 0x400000 0x500000 9 free
  have called : memoryCall sampleImage sampleFull (.createTask 1 0x400000 0x500000 9) =
      some (k', copyPtsPlaces (pMalloc sampleFull.memory).1) := by
    rw [memoryCall, created]
    rfl
  exact ⟨k', _, called, (exhausted_spared_iff called sampleFull_fails).not.mpr id⟩

theorem exhausted_set_mmap : Exhausts sampleFull.memory (.setMmap 0x1000 0x10000000 0x5000 3) ∧ ∃ k' places,
    memoryCall sampleImage sampleFull (.setMmap 0x1000 0x10000000 0x5000 3) = some (k', places) ∧
      ¬Spared sampleFull k' places := by
  have fails : ¬mapAllocates sampleFull.memory 0x1000 0x10000000 := by
    rw [mapAllocates, not_or]
    refine ⟨?_, sampleFull_fails⟩
    change ¬present (leWord fun _ => 0) = true
    decide
  exact ⟨fails, _, _, rfl, setMmap_not_spared fails⟩

end WegOS
