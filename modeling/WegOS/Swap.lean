import WegOS.AddressSpaces
import WegOS.FileSystem

/-! Pages in the swap area, and the page fault that reads one in.

Stores go through the page tables of the active directory. `none` stands for a further page fault
while a page is read in, and for the endless loops of the debug build. -/

namespace WegOS

open LittleEndian CArray

def storeByte (m : Memory) (cr3 virtual : UInt32) (b : UInt8) : Option Memory :=
  if hasAddr m cr3 virtual then
    some { m with bytes := Function.update m.bytes (addrTranslate m cr3 virtual) b }
  else none

def storeBytes (cr3 : UInt32) : List UInt8 → UInt32 → Memory → Option Memory
  | [], _, m => some m
  | b :: rest, virtual, m => (storeByte m cr3 virtual b).bind (storeBytes cr3 rest (virtual + 1))

def readDisk (disk : Disk) (cr3 : UInt32) : Nat → UInt32 → UInt32 → Memory → Option Memory
  | 0, _, _, m => some m
  | sectorCount + 1, sector, buf, m =>
      (storeBytes cr3 ((List.range 512).map (disk sector).cell) buf m).bind
        (readDisk disk cr3 sectorCount (sector + 1) (buf + 512))

def swapSectorOf (m : Memory) (cr3 virtual : UInt32) : Option UInt32 :=
  if hasAddr m cr3 virtual then none
  else
    let pteDescInPde := m.entry cr3 (testbits virtual 22 32)
    if !testbit pteDescInPde pageTableP then some 0
    else some (m.entry (pteDescInPde &&& 0xFFFFF000) (testbits virtual 12 22) >>> 3)

/-- The active directory is at `cr3`. -/
def swapIn (m : Memory) (disk : Disk) (cr3 useful : UInt32) (flags : UInt16) : Option Memory :=
  if hasAddr m cr3 useful then none
  else do
    let swapSector ← swapSectorOf m cr3 useful
    let (_, m) := loadMemory m cr3 useful flags
    readDisk disk cr3 8 swapSector useful m

def onPageFault (m : Memory) (disk : Disk) (cr3 virtual _errorCode : UInt32) : Option Memory :=
  swapIn m disk cr3 virtual pageTableFlagKernelReadWrite

/-! ## Copies through page tables -/

def slotByte (disk : Disk) (sector : UInt32) (i : Nat) : UInt8 :=
  (disk (sector + UInt32.ofNat (i / 512))).cell (i % 512)

section Copies

variable {m m' : Memory} {cr3 : UInt32}

theorem storeBytes_append (xs ys : List UInt8) (virtual : UInt32) :
    storeBytes cr3 (xs ++ ys) virtual m =
      (storeBytes cr3 xs virtual m).bind (storeBytes cr3 ys (virtual + UInt32.ofNat xs.length)) := by
  induction xs generalizing virtual m with
  | nil =>
      rw [List.nil_append, storeBytes, Option.bind_some]
      congr 1
      exact (UInt32.add_zero virtual).symm
  | cons b rest ih =>
      have next : virtual + 1 + UInt32.ofNat rest.length = virtual + UInt32.ofNat (b :: rest).length := by
        rw [List.length_cons, Nat.add_comm, UInt32.ofNat_add, ← UInt32.add_assoc]
        rfl
      rw [List.cons_append, storeBytes, storeBytes]
      cases storeByte m cr3 virtual b with
      | none => rfl
      | some mid => rw [Option.bind_some, Option.bind_some, ih, next]

theorem slotByte_next (disk : Disk) (sector : UInt32) (i : Nat) :
    slotByte disk sector (512 + i) = slotByte disk (sector + 1) i := by
  have quotient : (512 + i) / 512 = 1 + i / 512 := by omega
  have rest : (512 + i) % 512 = i % 512 := by omega
  rw [slotByte, quotient, rest, UInt32.ofNat_add, ← UInt32.add_assoc]
  rfl

theorem slotByte_first (disk : Disk) (sector : UInt32) {i : Nat} (inside : i < 512) :
    slotByte disk sector i = (disk sector).cell i := by
  have zero : sector + UInt32.ofNat 0 = sector := UInt32.add_zero sector
  rw [slotByte, Nat.div_eq_of_lt inside, Nat.mod_eq_of_lt inside, zero]

theorem map_range_add {α : Type} (f : Nat → α) (a b : Nat) :
    (List.range (a + b)).map f = (List.range a).map f ++ (List.range b).map fun i => f (a + i) := by
  rw [List.range_add, List.map_append, List.map_map]
  rfl

theorem readDisk_eq (disk : Disk) (sectorCount : Nat) (sector buf : UInt32) :
    readDisk disk cr3 sectorCount sector buf m =
      storeBytes cr3 ((List.range (512 * sectorCount)).map (slotByte disk sector)) buf m := by
  induction sectorCount generalizing sector buf m with
  | zero => rfl
  | succ count ih =>
      have first : (List.range 512).map (disk sector).cell = (List.range 512).map (slotByte disk sector) :=
        List.map_congr_left fun i member => (slotByte_first disk sector (List.mem_range.mp member)).symm
      have next : (fun i => slotByte disk sector (512 + i)) = slotByte disk (sector + 1) :=
        funext (slotByte_next disk sector)
      have size : 512 * (count + 1) = 512 + 512 * count := by omega
      have long : UInt32.ofNat ((List.range 512).map (slotByte disk sector)).length = 512 := by
        rw [List.length_map, List.length_range]
        rfl
      rw [readDisk, size, map_range_add, storeBytes_append, first, next, long]
      exact congrArg _ (funext fun mid => ih (sector + 1) (buf + 512))

/-- The frame of the page is in no table of the directory, so that stores to it change no mapping. -/
structure Window (m : Memory) (cr3 page frame : UInt32) : Prop where
  aligned : PageAligned frame
  directory : PageAligned cr3
  unused : ¬UsedFrame m cr3 (frameOf frame)
  mapped : ∀ o : UInt32, o.toNat < 4096 →
    hasAddr m cr3 (page + o) = true ∧ addrTranslate m cr3 (page + o) = frame + o

theorem Window.same {page frame : UInt32} (window : Window m cr3 page frame)
    (agree : ∀ a, frameOf a ≠ frameOf frame → m'.bytes a = m.bytes a) : SameSpace m m' cr3 :=
  walk_frames window.directory fun a used => agree a fun inside => window.unused (inside ▸ used)

theorem Window.congr {page frame : UInt32} (window : Window m cr3 page frame)
    (agree : ∀ a, frameOf a ≠ frameOf frame → m'.bytes a = m.bytes a) : Window m' cr3 page frame where
  aligned := window.aligned
  directory := window.directory
  unused := by
    intro used
    apply window.unused
    refine used_congr (fun i inside => ?_) used
    exact Memory.entry_congr window.directory inside fun a here =>
      agree a fun there => window.unused (Or.inl (there.symm.trans here))
  mapped o small := by
    obtain ⟨has, translate⟩ := window.mapped o small
    obtain ⟨has', translate'⟩ := window.same agree (page + o)
    exact ⟨has'.trans has, (translate' has).trans translate⟩

theorem offset_frame {frame : UInt32} (aligned : PageAligned frame) {k : Nat} (small : k < 4096) :
    (frame + UInt32.ofNat k).toNat = frame.toNat + k := by
  have bound := frame.toNat_lt
  simp only [PageAligned, pageSize] at aligned
  rw [UInt32.toNat_add, UInt32.toNat_ofNat']
  omega

theorem storeBytes_window {page frame : UInt32} (window : Window m cr3 page frame) (xs : List UInt8) {k : Nat}
    (fits : k + xs.length ≤ 4096) :
    ∃ m', storeBytes cr3 xs (page + UInt32.ofNat k) m = some m' ∧ m'.memoryAllocBitmap = m.memoryAllocBitmap ∧
      ∀ a, m'.bytes a = if frameOf a = frameOf frame ∧ k ≤ a.toNat % 4096 ∧ a.toNat % 4096 < k + xs.length
        then xs.getD (a.toNat % 4096 - k) 0 else m.bytes a := by
  induction xs generalizing m k with
  | nil =>
      refine ⟨m, rfl, rfl, fun a => ?_⟩
      rw [List.length_nil, if_neg (by omega)]
  | cons b rest ih =>
      rw [List.length_cons] at fits
      have number : (UInt32.ofNat k).toNat = k := by
        rw [UInt32.toNat_ofNat']
        omega
      obtain ⟨has, translate⟩ := window.mapped (UInt32.ofNat k) (by omega)
      have next : page + UInt32.ofNat k + 1 = page + UInt32.ofNat (k + 1) := by
        rw [UInt32.ofNat_add, ← UInt32.add_assoc]
        rfl
      have place := offset_frame window.aligned (show k < 4096 by omega)
      have base := window.aligned
      simp only [PageAligned, pageSize] at base
      have inFrame : frameOf (frame + UInt32.ofNat k) = frameOf frame := by
        simp only [frameOf, pageSize, place]
        omega
      have agree : ∀ a, frameOf a ≠ frameOf frame →
          Function.update m.bytes (frame + UInt32.ofNat k) b a = m.bytes a := by
        intro a outside
        apply Function.update_of_ne
        rintro rfl
        exact outside inFrame
      have kept : Window { m with bytes := Function.update m.bytes (frame + UInt32.ofNat k) b } cr3 page frame :=
        window.congr agree
      obtain ⟨m', run, bitmap, bytes⟩ := ih kept (show k + 1 + rest.length ≤ 4096 by omega)
      refine ⟨m', ?_, bitmap, fun a => ?_⟩
      · rw [storeBytes, storeByte, if_pos has, Option.bind_some, next, translate]
        exact run
      · rw [bytes a, List.length_cons]
        by_cases here : a = frame + UInt32.ofNat k
        · have offset : a.toNat % 4096 = k := by
            rw [here, place]
            omega
          have same : frameOf a = frameOf frame := here ▸ inFrame
          rw [if_neg (by omega), if_pos ⟨same, by omega, by omega⟩, offset, Nat.sub_self, here]
          exact Function.update_self _ _ _
        · have away : ¬(frameOf a = frameOf frame ∧ a.toNat % 4096 = k) := by
            rintro ⟨same, offset⟩
            apply here
            apply UInt32.toNat_inj.mp
            simp only [frameOf, pageSize] at same
            rw [place]
            omega
          by_cases later : frameOf a = frameOf frame ∧ k + 1 ≤ a.toNat % 4096 ∧ a.toNat % 4096 < k + 1 + rest.length
          · have back : a.toNat % 4096 - k = a.toNat % 4096 - (k + 1) + 1 := by omega
            rw [if_pos later, if_pos ⟨later.1, by omega, by omega⟩, back, List.getD_cons_succ]
          · rw [if_neg later, if_neg (by omega)]
            exact Function.update_of_ne here _ _

theorem translate_offset (m : Memory) (cr3 virtual : UInt32) :
    (addrTranslate m cr3 virtual).toNat % 4096 = virtual.toNat % 4096 := by
  have aligned := page_mask_aligned (m.entry (m.table cr3 (testbits virtual 22 32)) (testbits virtual 12 22))
  have low := offset_mask virtual
  rw [addrTranslate_eq, UInt32.toNat_add]
  simp only [PageAligned, pageSize] at aligned low
  omega

/-- Stores keep the offset in the page, whatever they do to the tables. -/
theorem storeBytes_offset {xs : List UInt8} {virtual a : UInt32} (result : storeBytes cr3 xs virtual m = some m')
    (away : ∀ i < xs.length, a.toNat % 4096 ≠ (virtual.toNat + i) % 4096) : m'.bytes a = m.bytes a := by
  induction xs generalizing virtual m with
  | nil => rw [Option.some.inj result]
  | cons b rest ih =>
      rw [storeBytes, storeByte] at result
      split_ifs at result with has
      · rw [Option.bind_some] at result
        have later := ih result fun i inside => by
          have step := away (i + 1) (by rw [List.length_cons]; omega)
          rw [UInt32.toNat_add, UInt32.toNat_one]
          omega
        rw [later]
        apply Function.update_of_ne
        rintro rfl
        exact away 0 (Nat.zero_lt_succ _) (translate_offset m cr3 virtual)
      · rw [Option.bind_none] at result
        cases result

end Copies

/-! ## The page fault -/

/-- What `swap_sector_set` leaves in the entry of the page. -/
structure HasSlot (m : Memory) (cr3 v slot : UInt32) : Prop where
  table : present (m.entry cr3 (testbits v 22 32)) = true
  entry : m.entry (m.table cr3 (testbits v 22 32)) (testbits v 12 22) = slot <<< 3

/-- The page is there and holds the eight sectors, and all other pages lead where they led. -/
structure Brought (m : Memory) (disk : Disk) (cr3 v slot : UInt32) (m' : Memory) : Prop where
  page : ∀ o : UInt32, o.toNat < 4096 → hasAddr m' cr3 ((v &&& 0xFFFFF000) + o) = true ∧
    m'.bytes (addrTranslate m' cr3 ((v &&& 0xFFFFF000) + o)) = slotByte disk slot o.toNat
  mappings : ∀ w : UInt32, w &&& 0xFFFFF000 ≠ v &&& 0xFFFFF000 → hasAddr m' cr3 w = hasAddr m cr3 w ∧
    (hasAddr m cr3 w = true → addrTranslate m' cr3 w = addrTranslate m cr3 w)

/-- And no byte of another page has changed. -/
structure Served (m : Memory) (disk : Disk) (cr3 v slot : UInt32) (m' : Memory) : Prop
    extends Brought m disk cr3 v slot m' where
  bytes : ∀ w : UInt32, w &&& 0xFFFFF000 ≠ v &&& 0xFFFFF000 → hasAddr m cr3 w = true →
    m'.bytes (addrTranslate m cr3 w) = m.bytes (addrTranslate m cr3 w)

/-- No other page leads to the frame that `p_malloc` gives, nor to the page table of `v`. -/
def Unaliased (m : Memory) (cr3 v : UInt32) : Prop :=
  ∀ n, m.NextFree n → ∀ w : UInt32, w &&& 0xFFFFF000 ≠ v &&& 0xFFFFF000 → hasAddr m cr3 w = true →
    frameOf (addrTranslate m cr3 w) ≠ n ∧
      frameOf (addrTranslate m cr3 w) ≠ frameOf (m.table cr3 (testbits v 22 32))

theorem swapSectorSet_entry {m : Memory} {cr3 v : UInt32} (ok : DirectoryOk m cr3)
    (here : present (m.entry cr3 (testbits v 22 32)) = true) (slot : UInt32) :
    (swapSectorSet m cr3 v slot).entry cr3 (testbits v 22 32) = m.entry cr3 (testbits v 22 32) :=
  setEntry_table_entry ok (indexInPde_lt v) here (indexInPte_lt v) _ (indexInPde_lt v)

theorem swapSectorSet_hasSlot {m : Memory} {cr3 v : UInt32} (ok : DirectoryOk m cr3)
    (here : present (m.entry cr3 (testbits v 22 32)) = true) (slot : UInt32) :
    HasSlot (swapSectorSet m cr3 v slot) cr3 v slot := by
  have entry := swapSectorSet_entry ok here slot
  refine ⟨by rw [entry]; exact here, ?_⟩
  rw [Memory.table, entry]
  exact Memory.entry_setEntry _ _ _ _

theorem swapSectorSet_keeps {m : Memory} {cr3 v w : UInt32} (ok : DirectoryOk m cr3)
    (here : present (m.entry cr3 (testbits v 22 32)) = true) (slot : UInt32)
    (other : w &&& 0xFFFFF000 ≠ v &&& 0xFFFFF000) :
    hasAddr (swapSectorSet m cr3 v slot) cr3 w = hasAddr m cr3 w ∧
      (hasAddr m cr3 w = true → addrTranslate (swapSectorSet m cr3 v slot) cr3 w = addrTranslate m cr3 w) :=
  setEntry_table_keeps ok here _ other

theorem slot_back (slot : UInt32) : (slot <<< 3 >>> 3).toNat = slot.toNat % 2 ^ 29 := by
  have bound := slot.toNat_lt
  rw [UInt32.toNat_shiftRight, UInt32.toNat_shiftLeft, Nat.shiftRight_eq_div_pow, Nat.shiftLeft_eq]
  change slot.toNat * 2 ^ 3 % 2 ^ 32 / 2 ^ 3 = _
  omega

theorem slot_absent (slot : UInt32) : present (slot <<< 3) = false := by
  rw [present, testbit_eq _ (by decide), UInt32.toNat_shiftLeft, Nat.shiftLeft_eq]
  change (slot.toNat * 2 ^ 3 % 2 ^ 32).testBit 0 = false
  rw [Nat.testBit_zero, decide_eq_false_iff_not]
  omega

theorem addressPlace_zero (a : UInt32) : addressPlace a 0 = a := UInt32.add_zero a

theorem present_entry (m : Memory) (table index : UInt32) :
    present (m.entry table index) = (m.bytes (table + 4 * index)).toNat.testBit 0 := by
  have first : leByte (m.entry table index) 0 = m.bytes (addressPlace (table + 4 * index) 0) := by
    rw [Memory.entry, wordAt, leByte_leWord _ (by decide)]
  rw [addressPlace_zero] at first
  rw [← first, leByte_testBit, present, testbit_eq _ (by decide)]
  rfl

theorem entry_page_frame (word w : UInt32) :
    frameOf ((word &&& 0xFFFFF000) + (w &&& 0xFFF)) = frameOf (word &&& 0xFFFFF000) := by
  have aligned := page_mask_aligned word
  have low := offset_mask w
  have bound := (word &&& 0xFFFFF000).toNat_lt
  simp only [PageAligned, pageSize] at aligned low
  rw [frameOf, frameOf, UInt32.toNat_add]
  simp only [pageSize]
  omega

theorem page_split (w : UInt32) : (w &&& 0xFFFFF000) + (w &&& 0xFFF) = w := by
  have bound := w.toNat_lt
  apply UInt32.toNat_inj.mp
  rw [UInt32.toNat_add, page_mask, offset_mask]
  simp only [pageSize]
  omega

theorem page_start {v : UInt32} (start : PageAligned v) : v &&& 0xFFFFF000 = v := by
  apply UInt32.toNat_inj.mp
  simp only [PageAligned, pageSize] at start
  rw [page_mask, pageSize]
  omega

theorem exists_other (b : UInt8) : ∃ c, c ≠ b := by
  refine ⟨b + 1, fun same => ?_⟩
  have number := congrArg UInt8.toNat same
  rw [UInt8.toNat_add, UInt8.toNat_one] at number
  omega

section Fault

variable {m : Memory} {cr3 v slot : UInt32} {n : Nat} (covers : m.Covers) (ok : DirectoryOk m cr3)
  (given : HasSlot m cr3 v slot) (free : m.NextFree n)

include given in
theorem HasSlot.missing : hasAddr m cr3 v = false := by
  rw [hasAddr_eq, given.entry, slot_absent, Bool.and_false]

def loaded (m : Memory) (cr3 v : UInt32) : Memory := (loadMemory m cr3 v pageTableFlagKernelReadWrite).2

include given in
/-- The sectors that are read are those of the slot as it comes back from the entry. -/
theorem onPageFault_eq (disk : Disk) (e : UInt32) :
    onPageFault m disk cr3 v e = storeBytes cr3 ((List.range 4096).map (slotByte disk (slot <<< 3 >>> 3))) v
      (loaded m cr3 v) := by
  have missing := given.missing
  have there := given.table
  have sector : swapSectorOf m cr3 v = some (slot <<< 3 >>> 3) := by
    rw [present] at there
    have entry := given.entry
    rw [Memory.table] at entry
    simp only [swapSectorOf, missing, there, entry, Bool.false_eq_true, if_false, Bool.not_true]
  have read := @readDisk_eq (loaded m cr3 v) cr3 disk 8 (slot <<< 3 >>> 3) v
  have size : 512 * 8 = 4096 := rfl
  rw [size] at read
  rw [← read, onPageFault, swapIn, missing, if_neg (by decide), sector, loaded]
  cases loadMemory m cr3 v pageTableFlagKernelReadWrite
  simp only [Option.bind_eq_bind, Option.bind_some]

include covers given free in
theorem loaded_eq : loaded m cr3 v = Memory.setEntry (pMalloc m).2 (m.table cr3 (testbits v 22 32)) (testbits v 12 22)
    (UInt32.ofNat (n * pageSize) ||| pageTableFlagKernelReadWrite.toUInt32) := by
  have there : present ((pMalloc m).2.entry cr3 (testbits v 22 32)) = true := given.table
  have frame : (pMalloc m).1 = UInt32.ofNat (n * pageSize) := by rw [pMalloc_nextFree covers free]
  rw [loaded, loadMemory]
  exact (congrArg Prod.snd (setMmap_present there)).trans (by rw [frame]; rfl)

include covers given free in
theorem loaded_bytes {a : UInt32} (outside : frameOf a ≠ frameOf (m.table cr3 (testbits v 22 32))) :
    (loaded m cr3 v).bytes a = m.bytes a := by
  rw [loaded_eq covers given free]
  exact Memory.setEntry_bytes _ _ _ (table_aligned _ _ _) (indexInPte_lt v) outside

include covers given free in
theorem loaded_place {a : UInt32} (outside : ∀ k < 4, a ≠ addressPlace
    (m.table cr3 (testbits v 22 32) + 4 * testbits v 12 22) k) : (loaded m cr3 v).bytes a = m.bytes a := by
  rw [loaded_eq covers given free]
  exact putWord_outside _ _ _ _ outside

include covers ok given free

theorem loaded_maps : MapsPage m (loaded m cr3 v) cr3 v (UInt32.ofNat (n * pageSize)) := by
  have frame : (pMalloc m).1 = UInt32.ofNat (n * pageSize) := by rw [pMalloc_nextFree covers free]
  have taken : ∀ k, m.Taken k → (pMalloc m).2.Taken k := by
    rw [pMalloc_nextFree covers free]
    exact fun k before => (taken_bitFree m n k).mpr (Or.inr before)
  have maps := @setMmap_maps_of_present (pMalloc m).2 cr3 v (UInt32.ofNat (n * pageSize)) pageTableFlagKernelReadWrite
    (frame_aligned n) (by decide) (by decide) (ok.congr taken fun _ _ => rfl) given.table
  rw [← frame] at maps ⊢
  exact maps

theorem loaded_window : Window (loaded m cr3 v) cr3 (v &&& 0xFFFFF000) (UInt32.ofNat (n * pageSize)) where
  aligned := frame_aligned n
  directory := ok.aligned
  unused := by
    have frame := frameOf_frame (nextFree_lt covers free)
    intro used
    rw [frame] at used
    have entries : ∀ i : UInt32, i.toNat < 1024 → (loaded m cr3 v).entry cr3 i = m.entry cr3 i := by
      intro i inside
      apply Memory.entry_congr ok.aligned inside fun a here => loaded_bytes covers given free ?_
      rw [here]
      exact (ok.tableApart _ (indexInPde_lt v) given.table).symm
    exact nextFree_not_taken free (ok.used_taken (used_congr entries used))
  mapped o small := ((loaded_maps covers ok given free).1 o small).symm

/-- At the start of a page, the slot that is read goes to the new frame. -/
theorem fault_aligned (start : PageAligned v) (disk : Disk) (e : UInt32) :
    ∃ m', onPageFault m disk cr3 v e = some m' ∧
      (∀ o : UInt32, o.toNat < 4096 → hasAddr m' cr3 (v + o) = true ∧
        addrTranslate m' cr3 (v + o) = UInt32.ofNat (n * pageSize) + o) ∧
      (∀ w : UInt32, w &&& 0xFFFFF000 ≠ v → hasAddr m' cr3 w = hasAddr m cr3 w ∧
        (hasAddr m cr3 w = true → addrTranslate m' cr3 w = addrTranslate m cr3 w)) ∧
      ∀ a, m'.bytes a = if frameOf a = n then slotByte disk (slot <<< 3 >>> 3) (a.toNat % 4096)
        else (loaded m cr3 v).bytes a := by
  have window := loaded_window covers ok given free
  have maps := loaded_maps covers ok given free
  have base := page_start start
  rw [base] at window
  rw [MapsPage, base] at maps
  have zero : v + UInt32.ofNat 0 = v := UInt32.add_zero v
  obtain ⟨m', run, -, bytes⟩ := storeBytes_window window ((List.range 4096).map (slotByte disk (slot <<< 3 >>> 3)))
    (show 0 + _ ≤ 4096 by rw [List.length_map, List.length_range])
  rw [zero] at run
  have frame := frameOf_frame (nextFree_lt covers free)
  rw [frame] at bytes
  have agree : ∀ a, frameOf a ≠ frameOf (UInt32.ofNat (n * pageSize)) → m'.bytes a = (loaded m cr3 v).bytes a := by
    intro a outside
    rw [frame] at outside
    rw [bytes a, if_neg fun inside => outside inside.1]
  have space := window.same agree
  refine ⟨m', (onPageFault_eq given disk e).trans run, (window.congr agree).mapped, fun w other => ?_, fun a => ?_⟩
  · obtain ⟨has, translate⟩ := space w
    obtain ⟨has', translate'⟩ := maps.2 w other
    exact ⟨has.trans has', fun mapped => (translate (has'.trans mapped)).trans (translate' mapped)⟩
  · have low := Nat.mod_lt a.toNat (show 0 < 4096 by decide)
    rw [bytes a, List.length_map, List.length_range]
    by_cases inside : frameOf a = n
    · rw [if_pos ⟨inside, Nat.zero_le _, by omega⟩, if_pos inside, Nat.sub_zero, List.getD_eq_getElem?_getD,
        List.getElem?_map, List.getElem?_range low]
      rfl
    · rw [if_neg fun all => inside all.1, if_neg inside]

def filledDisk (c : UInt8) : Disk := fun _ => ofCells 512 fun _ => c

omit covers ok given free in
theorem slotByte_filled (c : UInt8) (sector : UInt32) (i : Nat) : slotByte (filledDisk c) sector i = c :=
  cell_ofCells (Nat.mod_lt _ (by decide))

/-- Behind the start of a page, the copy goes on in the next page, and its first byte there stays. -/
theorem fault_needs_start (e : UInt32) (serves : ∀ disk, ∃ m', onPageFault m disk cr3 v e = some m' ∧
    Served m disk cr3 v slot m') : PageAligned v := by
  by_contra middle
  have window := loaded_window covers ok given free
  have maps := loaded_maps covers ok given free
  have size : v.toNat < 2 ^ 32 := v.toNat_lt
  have mask := page_mask v
  obtain ⟨o, offset⟩ : ∃ o, v.toNat % 4096 = o := ⟨_, rfl⟩
  simp only [PageAligned, pageSize, offset] at middle
  have small : o < 4096 := offset ▸ Nat.mod_lt _ (by decide)
  rw [pageSize] at mask
  have here : (v &&& 0xFFFFF000) + UInt32.ofNat o = v := by
    apply UInt32.toNat_inj.mp
    rw [UInt32.toNat_add, mask, UInt32.toNat_ofNat']
    omega
  obtain ⟨next, nextEq⟩ : ∃ next, v + UInt32.ofNat (4096 - o) = next := ⟨_, rfl⟩
  have nextOffset : next.toNat % 4096 = 0 := by
    rw [← nextEq, UInt32.toNat_add, UInt32.toNat_ofNat']
    omega
  have other : next &&& 0xFFFFF000 ≠ v &&& 0xFFFFF000 := by
    intro same
    have number := congrArg UInt32.toNat same
    rw [page_mask, mask, pageSize, ← nextEq, UInt32.toNat_add, UInt32.toNat_ofNat'] at number
    omega
  -- Any disk whose bytes differ from the one that stands there.
  obtain ⟨c, differs⟩ : ∃ c, c ≠ m.bytes (addrTranslate m cr3 next) := exists_other _
  obtain ⟨m', run, served⟩ := serves (filledDisk c)
  have bytes : (List.range 4096).map (slotByte (filledDisk c) (slot <<< 3 >>> 3)) =
      List.replicate (4096 - o) c ++ c :: List.replicate (o - 1) c := by
    have whole : 4096 = (4096 - o) + ((o - 1) + 1) := by omega
    calc
      _ = List.replicate 4096 c := by
        rw [List.map_congr_left fun i _ => slotByte_filled c _ i, List.map_const', List.length_range]
      _ = List.replicate ((4096 - o) + ((o - 1) + 1)) c := congrArg (List.replicate · c) whole
      _ = _ := by rw [List.replicate_add, List.replicate_succ]
  rw [onPageFault_eq given, bytes, storeBytes_append] at run
  obtain ⟨mid, first, rest⟩ := Option.bind_eq_some_iff.mp run
  obtain ⟨mid', first', -, frame⟩ := storeBytes_window window (List.replicate (4096 - o) c)
    (show o + _ ≤ 4096 by rw [List.length_replicate]; omega)
  rw [here] at first'
  obtain rfl : mid = mid' := Option.some.inj (first.symm.trans first')
  have space : SameSpace (loaded m cr3 v) mid cr3 := by
    apply window.same
    intro a outside
    rw [frame a, if_neg fun inside => outside inside.1]
  rw [List.length_replicate, nextEq, storeBytes, storeByte] at rest
  obtain ⟨has, translate⟩ := space next
  obtain ⟨has', translate'⟩ := maps.2 next other
  split_ifs at rest with mapped
  · have before : hasAddr m cr3 next = true := has'.symm.trans (has.symm.trans mapped)
    have place : addrTranslate mid cr3 next = addrTranslate m cr3 next :=
      (translate (has'.trans before)).trans (translate' before)
    rw [Option.bind_some, place] at rest
    have kept := @storeBytes_offset _ _ _ _ _ (addrTranslate m cr3 next) rest fun i inside => by
      rw [translate_offset, nextOffset, UInt32.toNat_add, UInt32.toNat_one]
      rw [List.length_replicate] at inside
      omega
    rw [served.bytes next other before] at kept
    exact differs (kept.trans (Function.update_self _ _ _)).symm
  · rw [Option.bind_none] at rest
    cases rest

/-- A slot whose number does not fit in the entry comes back as another one. -/
theorem fault_needs_small (start : PageAligned v) (e : UInt32) (brings : ∀ disk, ∃ m',
    onPageFault m disk cr3 v e = some m' ∧ Brought m disk cr3 v slot m') : slot.toNat < 2 ^ 29 := by
  by_contra large
  have other : slot <<< 3 >>> 3 ≠ slot := by
    intro same
    have number := slot_back slot
    rw [same] at number
    omega
  have zero : ∀ x : UInt32, x + UInt32.ofNat (0 / 512) = x := UInt32.add_zero
  let disk : Disk := fun x => if x = slot then ofCells 512 fun _ => 1 else ofCells 512 fun _ => 0
  obtain ⟨m', run, brought⟩ := brings disk
  obtain ⟨m'', run', mapped, -, bytes⟩ := fault_aligned covers ok given free start disk e
  obtain rfl : m' = m'' := Option.some.inj (run.symm.trans run')
  have base := page_start start
  have right := (brought.page 0 (by decide)).2
  rw [base, (mapped 0 (by decide)).2, UInt32.add_zero, bytes, frameOf_frame (nextFree_lt covers free), if_pos rfl,
    frame_address (nextFree_lt covers free), show n * pageSize % 4096 = 0 from Nat.mul_mod_left n 4096, UInt32.toNat_zero,
    slotByte, slotByte, zero, zero] at right
  simp only [disk, if_neg other, if_true] at right
  rw [cell_ofCells (by decide), cell_ofCells (by decide)] at right
  exact absurd right (by decide)

/-- The stores to the new frame and to the entry of the page are seen through every page that leads there. -/
theorem fault_needs_unaliased (start : PageAligned v) (e : UInt32) (serves : ∀ disk, ∃ m',
    onPageFault m disk cr3 v e = some m' ∧ Served m disk cr3 v slot m') : Unaliased m cr3 v := by
  have base := page_start start
  intro k free' w other mapped
  obtain rfl := free'.unique free
  constructor
  · intro inside
    obtain ⟨c, differs⟩ := exists_other (m.bytes (addrTranslate m cr3 w))
    obtain ⟨m', run, served⟩ := serves (filledDisk c)
    obtain ⟨m'', run', -, -, bytes⟩ := fault_aligned covers ok given free' start (filledDisk c) e
    obtain rfl : m' = m'' := Option.some.inj (run.symm.trans run')
    have kept := served.bytes w other mapped
    rw [bytes, if_pos inside, slotByte_filled] at kept
    exact differs kept
  · intro inside
    -- The page of `w` is the page table, and shows the entry.
    obtain ⟨m', run, served⟩ := serves (filledDisk 0)
    obtain ⟨m'', run', -, -, bytes⟩ := fault_aligned covers ok given free' start (filledDisk 0) e
    obtain rfl : m' = m'' := Option.some.inj (run.symm.trans run')
    have index := indexInPte_lt v
    have four : UInt32.toNat 4 = 4 := by decide
    have offset : (4 * testbits v 12 22).toNat < 4096 := by
      rw [UInt32.toNat_mul, four]
      omega
    obtain ⟨pde, pte⟩ := (same_page_iff w _).mp (page_offset_mask w offset)
    have frame : m.entry (m.table cr3 (testbits w 22 32)) (testbits w 12 22) &&& 0xFFFFF000 =
        m.table cr3 (testbits v 22 32) := by
      apply aligned_eq (page_mask_aligned _) (table_aligned _ _ _)
      rw [← inside, addrTranslate_eq]
      exact (entry_page_frame _ w).symm
    have shown : hasAddr m cr3 ((w &&& 0xFFFFF000) + 4 * testbits v 12 22) = true := by
      rw [hasAddr_eq, pde, pte, ← hasAddr_eq]
      exact mapped
    have place : addrTranslate m cr3 ((w &&& 0xFFFFF000) + 4 * testbits v 12 22) =
        m.table cr3 (testbits v 22 32) + 4 * testbits v 12 22 := by
      rw [addrTranslate_eq, pde, pte, page_offset_low w offset, frame]
    have kept := served.bytes _ (by rw [page_offset_mask w offset]; exact other) shown
    have inTable : frameOf (m.table cr3 (testbits v 22 32) + 4 * testbits v 12 22) =
        frameOf (m.table cr3 (testbits v 22 32)) := by
      have first := entry_frame (table_aligned m cr3 (testbits v 22 32)) index (show 0 < 4 by decide)
      rw [addressPlace_zero] at first
      exact first
    have notNew : frameOf (m.table cr3 (testbits v 22 32)) ≠ k := by
      intro same
      exact nextFree_not_taken free' (same ▸ ok.tableTaken _ (indexInPde_lt v) given.table)
    rw [place, bytes, if_neg (by rw [inTable]; exact notNew)] at kept
    have before := present_entry m (m.table cr3 (testbits v 22 32)) (testbits v 12 22)
    have after := present_entry (loaded m cr3 v) (m.table cr3 (testbits v 22 32)) (testbits v 12 22)
    rw [kept, ← before, given.entry, slot_absent, loaded_eq covers given free', Memory.entry_setEntry, present,
      or_flags_present (frame_aligned k) (by decide)] at after
    exact absurd after (by decide)

theorem fault_brings (start : PageAligned v) (small : slot.toNat < 2 ^ 29) (disk : Disk) (e : UInt32) :
    ∃ m', onPageFault m disk cr3 v e = some m' ∧ Brought m disk cr3 v slot m' ∧ ∀ a, frameOf a ≠ n →
      (∀ k < 4, a ≠ addressPlace (m.table cr3 (testbits v 22 32) + 4 * testbits v 12 22) k) →
        m'.bytes a = m.bytes a := by
  have base := page_start start
  have back : slot <<< 3 >>> 3 = slot := by
    apply UInt32.toNat_inj.mp
    rw [slot_back]
    omega
  have bound := nextFree_lt covers free
  obtain ⟨m', run, mapped, mappings, bytes⟩ := fault_aligned covers ok given free start disk e
  refine ⟨m', run, ⟨fun o inside => ?_, ?_⟩, fun a notNew outside => ?_⟩
  · rw [base]
    obtain ⟨has, translate⟩ := mapped o inside
    have aligned := frame_aligned n
    have address : (UInt32.ofNat (n * pageSize) + o).toNat = n * pageSize + o.toNat := by
      rw [UInt32.toNat_add, frame_address bound]
      simp only [pageSize]
      omega
    have frame : frameOf (UInt32.ofNat (n * pageSize) + o) = n := by
      rw [frameOf, address]
      simp only [pageSize]
      omega
    refine ⟨has, ?_⟩
    rw [translate, bytes, if_pos frame, back, address]
    congr 1
    simp only [pageSize]
    omega
  · rw [base]
    exact mappings
  · rw [bytes, if_neg notNew, loaded_place covers given free outside]

end Fault

end WegOS
