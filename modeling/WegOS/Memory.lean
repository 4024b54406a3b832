import WegOS.BitAllocation

/-! Physical memory, the frame allocator and the two-level page tables.

Page directories and page tables are reached through their physical addresses,
as the C code dereferences them. -/

namespace WegOS

open LittleEndian

def pageTableP : UInt8 := 0
def pageTableFlagUserReadWrite : UInt32 := 7
def pageTableFlagKernelReadWrite : UInt16 := 3
def pageSize : Nat := 4096
def itselfEnd : UInt32 := 0x10000000

/-- Memory by physical address, and the bitmap of allocated page frames. -/
structure Memory where
  bytes : UInt32 → UInt8
  memoryAllocBitmap : Bitmap

namespace Memory

def entry (m : Memory) (table index : UInt32) : UInt32 :=
  wordAt m.bytes (addressPlace (table + 4 * index))

def setEntry (m : Memory) (table index word : UInt32) : Memory :=
  { m with bytes := putWord m.bytes (addressPlace (table + 4 * index)) word }

end Memory

def pMalloc (m : Memory) : UInt32 × Memory :=
  let (pageIndex, bitmap) := bitAlloc m.memoryAllocBitmap false
  (if pageIndex = -1 then 0xFFFFFFFF else UInt32.ofNat (pageIndex.toNat * pageSize),
    { m with memoryAllocBitmap := bitmap })

/-- The address is an `int`, and so is the quotient, which C rounds towards zero. -/
def pFree (m : Memory) (pAddr : Int32) : Memory :=
  { m with memoryAllocBitmap := bitFree m.memoryAllocBitmap (pAddr.toInt.tdiv pageSize) false }

/-- The result says whether the page table was there before. A new table is
installed as the allocator hands it out, without clearing it. -/
def setMmap (m : Memory) (cr3 virtual physical : UInt32) (flags : UInt16) : Bool × Memory :=
  let indexInPde := testbits virtual 22 32
  let result := testbit (m.entry cr3 indexInPde) pageTableP
  let m :=
    if result then m
    else
      let (frame, m) := pMalloc m
      m.setEntry cr3 indexInPde (frame ||| pageTableFlagUserReadWrite)
  let pteAddr := m.entry cr3 indexInPde &&& 0xFFFFF000
  let indexInPte := testbits virtual 12 22
  (result, m.setEntry pteAddr indexInPte (physical ||| flags.toUInt32))

def loadMemory (m : Memory) (cr3 virtual : UInt32) (flags : UInt16) : UInt32 × Memory :=
  let (physical, m) := pMalloc m
  (physical, (setMmap m cr3 virtual physical flags).2)

/-- The loop maps one page after the other; the parameter `flags` is not used. -/
def addMmapToItself (m : Memory) (cr3 upperLimit : UInt32) (_flags : UInt16) : Memory :=
  (List.range ((upperLimit.toNat + (pageSize - 1)) / pageSize)).foldl
    (fun m i => (setMmap m cr3 (UInt32.ofNat (i * pageSize)) (UInt32.ofNat (i * pageSize))
      pageTableFlagKernelReadWrite).2) m

def addrTranslate (m : Memory) (cr3 virtual : UInt32) : UInt32 :=
  let pageTable := m.entry cr3 (testbits virtual 22 32) &&& 0xFFFFF000
  (m.entry pageTable (testbits virtual 12 22) &&& 0xFFFFF000) + (virtual &&& 0xFFF)

def hasAddr (m : Memory) (cr3 virtual : UInt32) : Bool :=
  let pteDescInPde := m.entry cr3 (testbits virtual 22 32)
  if !testbit pteDescInPde pageTableP then false
  else testbit (m.entry (pteDescInPde &&& 0xFFFFF000) (testbits virtual 12 22)) pageTableP

def copyPts (m : Memory) (fromPd toPd : UInt32) : Memory :=
  { m with bytes := fun a => if (a - toPd).toNat < pageSize then m.bytes (fromPd + (a - toPd))
                             else m.bytes a }

/-- The frames below `0x800000` are taken from the start. -/
def memoryAllocInit (m : Memory) : Memory :=
  let bitmap := bitBind m.memoryAllocBitmap.bits (2 ^ 20)
  { m with memoryAllocBitmap :=
      (List.range (0x800000 / pageSize)).foldl (fun bitmap (i : Nat) => bitFree bitmap i true) bitmap }

/-- `kernelPd` is the address of the array `kernel_pd`. -/
def memoryInit (m : Memory) (kernelPd : UInt32) : Memory :=
  addMmapToItself (memoryAllocInit m) kernelPd itselfEnd pageTableFlagKernelReadWrite

/-- `SWAP_SECTOR_SET` also clears the present bit. -/
def swapSectorSet (m : Memory) (cr3 virtual sector : UInt32) : Memory :=
  let pageTable := m.entry cr3 (testbits virtual 22 32) &&& 0xFFFFF000
  m.setEntry pageTable (testbits virtual 12 22) (sector <<< 3)

/-! ## Entries of page-aligned tables -/

def frameOf (a : UInt32) : Nat := a.toNat / pageSize

def PageAligned (a : UInt32) : Prop := a.toNat % pageSize = 0

instance (a : UInt32) : Decidable (PageAligned a) := inferInstanceAs (Decidable (_ = _))

theorem page_mask (x : UInt32) : (x &&& 0xFFFFF000).toNat = x.toNat / pageSize * pageSize := by
  have mask : (0xFFFFF000 : UInt32).toNat = (2 ^ 20 - 1) <<< 12 := by decide
  rw [UInt32.toNat_and, mask, show pageSize = 2 ^ 12 from rfl, ← Nat.shiftRight_eq_div_pow,
    ← Nat.shiftLeft_eq]
  apply Nat.eq_of_testBit_eq
  intro i
  simp only [Nat.testBit_and, Nat.testBit_shiftLeft, Nat.testBit_shiftRight,
    Nat.testBit_two_pow_sub_one]
  by_cases low : i ≥ 12
  · have back : 12 + (i - 12) = i := by omega
    by_cases high : i - 12 < 20
    · simp [low, high, back]
    · have zero : x.toNat.testBit i = false := by
        apply Nat.testBit_lt_two_pow
        exact lt_of_lt_of_le x.toNat_lt (Nat.pow_le_pow_right (by decide) (by omega))
      simp [low, high, back, zero]
  · simp [low]

theorem offset_mask (x : UInt32) : (x &&& 0xFFF).toNat = x.toNat % pageSize := by
  rw [UInt32.toNat_and, show (0xFFF : UInt32).toNat = 2 ^ 12 - 1 by decide,
    Nat.and_two_pow_sub_one_eq_mod]
  rfl

theorem page_mask_aligned (x : UInt32) : PageAligned (x &&& 0xFFFFF000) := by
  rw [PageAligned, page_mask]
  exact Nat.mul_mod_left _ _

theorem or_flags_toNat {frame flags : UInt32} (aligned : PageAligned frame)
    (small : flags.toNat < pageSize) : (frame ||| flags).toNat = frame.toNat + flags.toNat := by
  rw [UInt32.toNat_or]
  have shape : frame.toNat = (frame.toNat / 4096) <<< 12 := by
    rw [Nat.shiftLeft_eq]
    simp only [PageAligned, pageSize] at aligned
    omega
  rw [shape, Nat.shiftLeft_add_eq_or_of_lt (b := flags.toNat) (i := 12) small]

theorem or_flags_mask {frame flags : UInt32} (aligned : PageAligned frame)
    (small : flags.toNat < pageSize) : (frame ||| flags) &&& 0xFFFFF000 = frame := by
  apply UInt32.toNat_inj.mp
  rw [page_mask, or_flags_toNat aligned small]
  simp only [PageAligned, pageSize] at aligned small ⊢
  omega

theorem or_flags_present {frame flags : UInt32} (aligned : PageAligned frame)
    (small : flags.toNat < pageSize) :
    testbit (frame ||| flags) pageTableP = testbit flags pageTableP := by
  rw [testbit_eq _ (by decide), testbit_eq _ (by decide), or_flags_toNat aligned small]
  simp only [pageTableP, UInt8.toNat_zero, Nat.testBit_zero, PageAligned, pageSize] at aligned ⊢
  congr 1
  simp only [eq_iff_iff]
  omega

theorem indexInPde_toNat (virtual : UInt32) :
    (testbits virtual 22 32).toNat = virtual.toNat / 4194304 := by
  have bound := virtual.toNat_lt
  rw [testbits_toNat virtual (by decide) (by decide) (by decide)]
  have low : UInt8.toNat 22 = 22 := by decide
  have high : UInt8.toNat 32 = 32 := by decide
  rw [low, high]
  omega

theorem indexInPte_toNat (virtual : UInt32) :
    (testbits virtual 12 22).toNat = virtual.toNat / 4096 % 1024 := by
  rw [testbits_toNat virtual (by decide) (by decide) (by decide)]
  have low : UInt8.toNat 12 = 12 := by decide
  have high : UInt8.toNat 22 = 22 := by decide
  rw [low, high]
  norm_num

theorem indexInPde_lt (virtual : UInt32) : (testbits virtual 22 32).toNat < 1024 := by
  have bound := virtual.toNat_lt
  rw [indexInPde_toNat]
  omega

theorem indexInPte_lt (virtual : UInt32) : (testbits virtual 12 22).toNat < 1024 := by
  rw [indexInPte_toNat]
  omega

theorem entry_address {table index : UInt32} (aligned : PageAligned table)
    (bound : index.toNat < 1024) : (table + 4 * index).toNat = table.toNat + 4 * index.toNat := by
  have small := table.toNat_lt
  have four : UInt32.toNat 4 = 4 := by decide
  simp only [PageAligned, pageSize] at aligned
  rw [UInt32.toNat_add, UInt32.toNat_mul, four]
  omega

theorem entry_frame {table index : UInt32} (aligned : PageAligned table)
    (bound : index.toNat < 1024) {k : Nat} (small : k < 4) :
    frameOf (addressPlace (table + 4 * index) k) = frameOf table := by
  have address := entry_address aligned bound
  simp only [PageAligned, pageSize] at aligned
  rw [frameOf, frameOf, addressPlace_toNat (by omega) small, address]
  simp only [pageSize]
  omega

namespace Memory

@[simp] theorem setEntry_bitmap (m : Memory) (table index word : UInt32) :
    (m.setEntry table index word).memoryAllocBitmap = m.memoryAllocBitmap := rfl

@[simp] theorem entry_setEntry (m : Memory) (table index word : UInt32) :
    (m.setEntry table index word).entry table index = word :=
  wordAt_putWord _ _ (addressPlace_places _)

theorem entry_setEntry_of_ne (m : Memory) {table index other j : UInt32} (word : UInt32)
    (aligned : PageAligned table) (alignedOther : PageAligned other) (bound : index.toNat < 1024)
    (boundOther : j.toNat < 1024) (different : other ≠ table ∨ j ≠ index) :
    (m.setEntry table index word).entry other j = m.entry other j := by
  have here := entry_address aligned bound
  have there := entry_address alignedOther boundOther
  have distinct : other + 4 * j ≠ table + 4 * index := by
    intro equal
    have same := congrArg UInt32.toNat equal
    rw [here, there] at same
    simp only [PageAligned, pageSize] at aligned alignedOther
    rcases different with table' | index'
    · exact table' (UInt32.toNat_inj.mp (by omega))
    · exact index' (UInt32.toNat_inj.mp (by omega))
  simp only [PageAligned, pageSize] at aligned alignedOther
  exact wordAt_putWord_apart _ _ _ _ (addressPlace_apart (by omega) (by omega) distinct)

theorem setEntry_bytes (m : Memory) {table index : UInt32} (word a : UInt32)
    (aligned : PageAligned table) (bound : index.toNat < 1024) (outside : frameOf a ≠ frameOf table) :
    (m.setEntry table index word).bytes a = m.bytes a := by
  apply putWord_outside
  rintro k small rfl
  exact outside (entry_frame aligned bound small)

theorem entry_congr {m m' : Memory} {table index : UInt32} (aligned : PageAligned table)
    (bound : index.toNat < 1024)
    (agree : ∀ a, frameOf a = frameOf table → m'.bytes a = m.bytes a) :
    m'.entry table index = m.entry table index :=
  wordAt_congr fun _ small => agree _ (entry_frame aligned bound small)

def Taken (m : Memory) (n : Nat) : Prop := m.memoryAllocBitmap.bit n = true

def NextFree (m : Memory) (n : Nat) : Prop := m.memoryAllocBitmap.Least false n

def Covers (m : Memory) : Prop := m.memoryAllocBitmap.size = 2 ^ 20

end Memory

theorem pMalloc_nextFree {m : Memory} {n : Nat} (covers : m.Covers) (free : m.NextFree n) :
    pMalloc m = (UInt32.ofNat (n * pageSize),
      { m with memoryAllocBitmap := bitFree m.memoryAllocBitmap n true }) := by
  have whole : m.memoryAllocBitmap.size % 8 = 0 := by
    rw [covers]
    decide
  have present : (n : Int) ≠ -1 := by omega
  simp only [pMalloc, bitAlloc_least whole free, if_neg present, Int.toNat_natCast, Bool.not_false]

theorem pMalloc_full {m : Memory} (full : ¬∃ n, m.NextFree n) :
    pMalloc m = (0xFFFFFFFF, m) := by
  rcases m.memoryAllocBitmap.least_or_full false with free | full'
  · exact absurd free full
  · simp [pMalloc, bitAlloc_full full']

theorem frame_address {n : Nat} (bound : n < 2 ^ 20) :
    (UInt32.ofNat (n * pageSize)).toNat = n * pageSize := by
  rw [UInt32.toNat_ofNat']
  simp only [pageSize]
  omega

theorem frame_aligned (n : Nat) : PageAligned (UInt32.ofNat (n * pageSize)) := by
  rw [PageAligned, UInt32.toNat_ofNat']
  simp only [pageSize]
  omega

theorem frameOf_frame {n : Nat} (bound : n < 2 ^ 20) : frameOf (UInt32.ofNat (n * pageSize)) = n := by
  rw [frameOf, frame_address bound, Nat.mul_div_cancel _ (by decide)]

theorem frameOf_lt (a : UInt32) : frameOf a < 2 ^ 20 := by
  have bound := a.toNat_lt
  rw [frameOf, pageSize]
  omega

theorem aligned_eq {a b : UInt32} (first : PageAligned a) (second : PageAligned b)
    (same : frameOf a = frameOf b) : a = b := by
  apply UInt32.toNat_inj.mp
  simp only [PageAligned, frameOf, pageSize] at first second same
  omega

/-! ## Release of a frame -/

/-- An address from `0x80000000` on is a negative `int`. -/
theorem frame_tdiv {n : Nat} (bound : n < 2 ^ 20) :
    (UInt32.ofNat (n * pageSize)).toInt32.toInt.tdiv pageSize = if n < 2 ^ 19 then (n : Int) else n - 2 ^ 20 := by
  have value : (UInt32.ofNat (n * pageSize)).toInt32.toInt =
      BitVec.toInt (UInt32.ofNat (n * pageSize)).toBitVec := rfl
  have bits : (UInt32.ofNat (n * pageSize)).toBitVec.toNat = n * pageSize := frame_address bound
  have page : pageSize = 4096 := rfl
  rw [value, BitVec.toInt_eq_toNat_cond, bits, page]
  by_cases low : n < 2 ^ 19
  · rw [if_pos low, if_pos (by omega), Nat.cast_mul, Int.mul_tdiv_cancel _ (by decide)]
  · have negative : ((n * 4096 : Nat) : Int) - ((2 ^ 32 : Nat) : Int) = (n - 2 ^ 20) * 4096 := by
      push_cast
      ring
    rw [if_neg low, if_neg (by omega), negative]
    exact Int.mul_tdiv_cancel _ (by decide)

theorem pFree_pMalloc {m : Memory} {n : Nat} (covers : m.Covers) (free : m.NextFree n) :
    pFree (pMalloc m).2 (pMalloc m).1.toInt32 =
      ⟨m.bytes, bitFree (bitFree m.memoryAllocBitmap n true) (if n < 2 ^ 19 then (n : Int) else n - 2 ^ 20) false⟩ := by
  have bound : n < 2 ^ 20 := by
    rw [← covers]
    exact free.1
  rw [pMalloc_nextFree covers free, pFree, frame_tdiv bound]

theorem pFree_pMalloc_iff {m : Memory} {n : Nat} (covers : m.Covers) (free : m.NextFree n) :
    pFree (pMalloc m).2 (pMalloc m).1.toInt32 = m ↔ n < 2 ^ 19 := by
  rw [pFree_pMalloc covers free]
  have cleared := free.2.1
  constructor
  · intro restored
    by_contra high
    have bit := congrArg (fun m => m.memoryAllocBitmap.bit (n : Int)) restored
    have other : (n : Int) ≠ n - 2 ^ 20 := by omega
    simp only [if_neg high, bitFree_bit, if_neg other, if_pos, cleared] at bit
    cases bit
  · intro low
    have same : bitFree (bitFree m.memoryAllocBitmap n true) n false = m.memoryAllocBitmap := by
      refine Bitmap.ext_bit rfl fun k => ?_
      by_cases here : k = n
      · rw [here, bitFree_bit, if_pos rfl, cleared]
      · rw [bitFree_bit, if_neg here, bitFree_bit, if_neg here]
    rw [if_pos low, same]

/-- A frame that `p_malloc` hands out comes back with its address just when some frame below `0x80000000` was free. -/
theorem p_free_restores_iff {m : Memory} (covers : m.Covers) (succeeds : (pMalloc m).1 ≠ 0xFFFFFFFF) :
    pFree (pMalloc m).2 (pMalloc m).1.toInt32 = m ↔
      ∃ n : Nat, n < 2 ^ 19 ∧ m.memoryAllocBitmap.bit n = false := by
  have free : ∃ n, m.NextFree n := by
    by_contra full
    exact succeeds (congrArg Prod.fst (pMalloc_full full))
  obtain ⟨n, free⟩ := free
  rw [pFree_pMalloc_iff covers free]
  constructor
  · intro low
    exact ⟨n, low, free.2.1⟩
  · rintro ⟨k, low, cleared⟩
    by_contra high
    have set := free.2.2 k (by omega)
    rw [cleared] at set
    cases set

def memoryFullTo (n : Nat) : Memory := ⟨fun _ => 0, ⟨fun i => if i < n then 0xFF else 0, 2 ^ 20⟩⟩

theorem memoryFullTo_covers (n : Nat) : (memoryFullTo n).Covers := rfl

theorem memoryFullTo_nextFree {n : Nat} (inside : n < 2 ^ 17) : (memoryFullTo n).NextFree (8 * n) := by
  refine ⟨?_, ?_, fun earlier smaller => ?_⟩
  · change 8 * n < 2 ^ 20
    omega
  · have high : ¬(((8 * n : Nat) : Int) / 8 < n) := by omega
    rw [Bitmap.bit, memoryFullTo]
    dsimp only
    rw [if_neg high]
    exact Nat.zero_testBit _
  · have low : (earlier : Int) / 8 < n := by omega
    have place : ((earlier : Int) % 8).toNat < 8 := by omega
    rw [Bitmap.bit, memoryFullTo]
    dsimp only
    rw [if_pos low]
    change (2 ^ 8 - 1).testBit _ = true
    rw [Nat.testBit_two_pow_sub_one]
    exact decide_eq_true place

/-- The first frame behind the 2112 that the kernel and its tables have. -/
theorem p_free_restores_next :
    pFree (pMalloc (memoryFullTo 264)).2 (pMalloc (memoryFullTo 264)).1.toInt32 = memoryFullTo 264 := by
  have free := memoryFullTo_nextFree (show 264 < 2 ^ 17 by decide)
  have succeeds : (pMalloc (memoryFullTo 264)).1 ≠ 0xFFFFFFFF := by
    rw [pMalloc_nextFree (memoryFullTo_covers 264) free]
    decide
  exact (p_free_restores_iff (memoryFullTo_covers 264) succeeds).mpr ⟨8 * 264, by decide, free.2.1⟩

theorem p_free_keeps_high : (memoryFullTo (2 ^ 16)).Covers ∧ (pMalloc (memoryFullTo (2 ^ 16))).1 = 0x80000000 ∧
    pFree (pMalloc (memoryFullTo (2 ^ 16))).2 (pMalloc (memoryFullTo (2 ^ 16))).1.toInt32 ≠ memoryFullTo (2 ^ 16) := by
  have free := memoryFullTo_nextFree (show 2 ^ 16 < 2 ^ 17 by decide)
  refine ⟨memoryFullTo_covers _, ?_, fun restored => ?_⟩
  · rw [pMalloc_nextFree (memoryFullTo_covers _) free]
    rfl
  · exact absurd ((pFree_pMalloc_iff (memoryFullTo_covers _) free).mp restored) (by decide)

end WegOS
