import WegOS.TablePlaces
import WegOS.Swap

/-! Page tables with paging on.

The C code dereferences the physical addresses of directories and page tables, and the paging unit
takes them for virtual ones of the active directory. While all of them are below `ITSELF_END`, the
calls do what they do on physical memory. -/

namespace WegOS

open LittleEndian Transition

/-! ## Calls through the active directory -/

namespace Memory

/-- `((page_table_entry_t *)table)[index]`; `none` stands for a page fault. -/
def entryOn (m : Memory) (active table index : UInt32) : Option UInt32 :=
  (reach m active (table + 4 * index)).map fun place => wordAt m.bytes (addressPlace place)

def setEntryOn (m : Memory) (active table index word : UInt32) : Option Memory :=
  (reach m active (table + 4 * index)).map fun place =>
    { m with bytes := putWord m.bytes (addressPlace place) word }

end Memory

def hasAddrOn (m : Memory) (active cr3 virtual : UInt32) : Option Bool := do
  let pteDescInPde ← m.entryOn active cr3 (testbits virtual 22 32)
  if !testbit pteDescInPde pageTableP then pure false
  else do
    let entry ← m.entryOn active (pteDescInPde &&& 0xFFFFF000) (testbits virtual 12 22)
    pure (testbit entry pageTableP)

def addrTranslateOn (m : Memory) (active cr3 virtual : UInt32) : Option UInt32 := do
  let pageTable ← m.entryOn active cr3 (testbits virtual 22 32)
  let entry ← m.entryOn active (pageTable &&& 0xFFFFF000) (testbits virtual 12 22)
  pure ((entry &&& 0xFFFFF000) + (virtual &&& 0xFFF))

def setMmapOn (m : Memory) (active cr3 virtual physical : UInt32) (flags : UInt16) : Option (Bool × Memory) := do
  let indexInPde := testbits virtual 22 32
  let pde ← m.entryOn active cr3 indexInPde
  let result := testbit pde pageTableP
  let m ← if result then pure m
    else
      let (frame, m) := pMalloc m
      m.setEntryOn active cr3 indexInPde (frame ||| pageTableFlagUserReadWrite)
  let pteAddr ← m.entryOn active cr3 indexInPde
  let indexInPte := testbits virtual 12 22
  let m ← m.setEntryOn active (pteAddr &&& 0xFFFFF000) indexInPte (physical ||| flags.toUInt32)
  pure (result, m)

def loadMemoryOn (m : Memory) (active cr3 virtual : UInt32) (flags : UInt16) : Option (UInt32 × Memory) := do
  let (physical, m) := pMalloc m
  let (_, m) ← setMmapOn m active cr3 virtual physical flags
  pure (physical, m)

def swapSectorSetOn (m : Memory) (active cr3 virtual sector : UInt32) : Option Memory := do
  let pteDescInPde ← m.entryOn active cr3 (testbits virtual 22 32)
  m.setEntryOn active (pteDescInPde &&& 0xFFFFF000) (testbits virtual 12 22) (sector <<< 3)

def copyByteOn (active fromPd toPd : UInt32) (m : Memory) (i : Nat) : Option Memory := do
  let source ← reach m active (fromPd + UInt32.ofNat i)
  storeByte m active (toPd + UInt32.ofNat i) (m.bytes source)

def copyPtsOn (m : Memory) (active fromPd toPd : UInt32) : Option Memory :=
  (List.range pageSize).foldlM (copyByteOn active fromPd toPd) m

/-- `create_task`, whose only access to page tables is `copy_pts`. -/
def createTaskOn (image : KernelImage) (k : Kernel) (active flag eip esp ddl : UInt32) : Option (Nat × Kernel) := do
  let (pid, created) ← createTask image k flag eip esp ddl
  let (cr3, memory) := pMalloc k.memory
  let memory ← copyPtsOn memory active image.kernelPd cr3
  pure (pid, { created with memory := memory })

/-! ## Identity below `ITSELF_END` -/

section Below

variable {m : Memory} {active table index : UInt32} (identity : IdentityBelow m active)

include identity

theorem reach_below {a : UInt32} (below : a < itselfEnd) : reach m active a = some a := by
  obtain ⟨has, translate⟩ := identity a below
  rw [reach, if_pos has, translate]

theorem reach_entry (aligned : PageAligned table) (low : frameOf table < 65536) (bound : index.toNat < 1024) :
    reach m active (table + 4 * index) = some (table + 4 * index) := by
  have frame := entry_frame aligned bound (show 0 < 4 by decide)
  rw [addressPlace_zero] at frame
  exact reach_below identity ((below_itselfEnd _).mpr (frame ▸ low))

theorem entryOn_below (aligned : PageAligned table) (low : frameOf table < 65536) (bound : index.toNat < 1024) :
    m.entryOn active table index = some (m.entry table index) := by
  rw [Memory.entryOn, reach_entry identity aligned low bound]
  rfl

theorem setEntryOn_below (aligned : PageAligned table) (low : frameOf table < 65536) (bound : index.toNat < 1024)
    (word : UInt32) : m.setEntryOn active table index word = some (m.setEntry table index word) := by
  rw [Memory.setEntryOn, reach_entry identity aligned low bound]
  rfl

end Below

/-- The kernel's own directory leads nowhere above the identity map. -/
theorem Isolated.reach_high {m : Memory} {kernelPd a : UInt32} {dirs : List UInt32} (isolated : Isolated m kernelPd dirs)
    (above : itselfEnd ≤ a) : reach m kernelPd a = none := by
  have missing := isolated.kernelHigh _ (itselfEnd_index above) (indexInPde_lt a)
  have gone : hasAddr m kernelPd a = false := by rw [hasAddr_eq, missing, Bool.false_and]
  rw [reach, gone]
  rfl

theorem frame_above {m : Memory} {n : Nat} (covers : m.Covers) (free : m.NextFree n) (far : 65536 ≤ n) {j : UInt32}
    (inside : j.toNat < 1024) : itselfEnd ≤ UInt32.ofNat (n * pageSize) + 4 * j := by
  rw [← UInt32.not_lt, below_itselfEnd]
  have frame := entry_frame (frame_aligned n) inside (show 0 < 4 by decide)
  rw [addressPlace_zero, frameOf_frame (nextFree_lt covers free)] at frame
  omega

/-! ## Directories and tables in reach -/

/-- The invariant: all directories and their tables are below `ITSELF_END`, where every directory is the identity. -/
structure LowDirectories (m : Memory) (kernelPd : UInt32) (dirs : List UInt32) : Prop where
  isolated : Isolated m kernelPd dirs
  identity : IdentityBelow m kernelPd
  low : ∀ d ∈ kernelPd :: dirs, LowTables m d

section Calls

variable {m m' : Memory} {kernelPd active d v w p : UInt32} {dirs : List UInt32} {flags : UInt16}

theorem LowDirectories.everywhere (ok : LowDirectories m kernelPd dirs) (member : d ∈ kernelPd :: dirs) :
    IdentityBelow m d := by
  rcases List.mem_cons.mp member with rfl | task
  · exact ok.identity
  · exact ok.identity.shared (ok.isolated.shared d task)

theorem LowDirectories.identity_touch (ok : LowDirectories m kernelPd dirs) (member : d ∈ dirs)
    (touches : Touches m m' d) {e : UInt32} (other : e ∈ kernelPd :: dirs) : IdentityBelow m' e := by
  have isolated := ok.isolated.touch member touches
  have kernel := (ok.isolated.walk_touch member touches List.mem_cons_self (ok.isolated.kernelApart d member)).identity
    ok.identity
  rcases List.mem_cons.mp other with rfl | task
  · exact kernel
  · exact kernel.shared (isolated.shared e task)

theorem LowDirectories.touch (ok : LowDirectories m kernelPd dirs) (member : d ∈ dirs) (touches : Touches m m' d)
    (low : LowTables m' d) : LowDirectories m' kernelPd dirs where
  isolated := ok.isolated.touch member touches
  identity := ok.identity_touch member touches List.mem_cons_self
  low e other := by
    by_cases same : e = d
    · rw [same]
      exact low
    · exact (ok.low e other).congr fun i inside => ok.isolated.keep_entries member touches other same inside

section Reads

variable (ok : LowDirectories m kernelPd dirs) (here : active ∈ kernelPd :: dirs) (member : d ∈ kernelPd :: dirs)

include ok here member

theorem LowDirectories.entryOn {i : UInt32} (inside : i.toNat < 1024) :
    m.entryOn active d i = some (m.entry d i) :=
  entryOn_below (ok.everywhere here) (ok.isolated.ok member).aligned (ok.low d member _ (Or.inl rfl)) inside

omit here in
theorem LowDirectories.table_low {i : UInt32} (inside : i.toNat < 1024) (there : present (m.entry d i) = true) :
    frameOf (m.table d i) < 65536 := ok.low d member _ (Or.inr ⟨i, inside, there, rfl⟩)

theorem LowDirectories.tableOn {i j : UInt32} (inside : i.toNat < 1024) (there : present (m.entry d i) = true)
    (small : j.toNat < 1024) : m.entryOn active (m.table d i) j = some (m.entry (m.table d i) j) :=
  entryOn_below (ok.everywhere here) (table_aligned _ _ _) (ok.table_low member inside there) small

theorem LowDirectories.hasAddrOn_eq (w : UInt32) : hasAddrOn m active d w = some (hasAddr m d w) := by
  rw [hasAddrOn, ok.entryOn here member (indexInPde_lt w), hasAddr_eq]
  simp only [Option.bind_eq_bind, Option.bind_some, Option.pure_def]
  cases there : present (m.entry d (testbits w 22 32)) with
  | false =>
      rw [present] at there
      rw [there]
      rfl
  | true =>
      have entry := ok.tableOn here member (indexInPde_lt w) there (indexInPte_lt w)
      rw [Memory.table] at entry
      rw [present] at there
      rw [there, entry]
      rfl

theorem LowDirectories.addrTranslateOn_eq (mapped : hasAddr m d w = true) :
    addrTranslateOn m active d w = some (addrTranslate m d w) := by
  rw [hasAddr_eq, Bool.and_eq_true] at mapped
  have entry := ok.tableOn here member (indexInPde_lt w) mapped.1 (indexInPte_lt w)
  rw [Memory.table] at entry
  rw [addrTranslateOn, ok.entryOn here member (indexInPde_lt w)]
  simp only [Option.bind_eq_bind, Option.bind_some, entry]
  rfl

end Reads

section Stores

variable (ok : LowDirectories m kernelPd dirs) (here : active ∈ kernelPd :: dirs) (member : d ∈ dirs)

include ok here member

theorem LowDirectories.setTableOn {i j : UInt32} (inside : i.toNat < 1024) (there : present (m.entry d i) = true)
    (small : j.toNat < 1024) (word : UInt32) :
    m.setEntryOn active (m.table d i) j word = some (m.setEntry (m.table d i) j word) :=
  setEntryOn_below (ok.everywhere here) (table_aligned _ _ _)
    (ok.table_low (List.mem_cons_of_mem _ member) inside there) small word

omit here in
theorem LowDirectories.taken {n : Nat} (free : m.NextFree n) : LowDirectories (pMalloc m).2 kernelPd dirs :=
  ok.touch member (pMalloc_touches ok.isolated.covers (ok.isolated.directory d member) free)
    ((ok.low d (List.mem_cons_of_mem _ member)).congr fun _ _ => rfl)

theorem LowDirectories.storeTableOn {n : Nat} (free : m.NextFree n) {index : UInt32} (bound : index.toNat < 1024) :
    (pMalloc m).2.setEntryOn active d index (UInt32.ofNat (n * pageSize) ||| pageTableFlagUserReadWrite) =
      some (m.withTable d index n) := by
  have taken := ok.taken member free
  have inAll := List.mem_cons_of_mem kernelPd member
  rw [setEntryOn_below (taken.everywhere here) (taken.isolated.ok inAll).aligned (taken.low d inAll _ (Or.inl rfl))
    bound, pMalloc_nextFree ok.isolated.covers free]
  rfl

/-- With a new table, the entry of the page goes to where the active directory leads the physical address of the table. -/
theorem LowDirectories.setMmapOn_new {n : Nat} (free : m.NextFree n) (high : itselfEntries ≤ (testbits v 22 32).toNat)
    (missing : present (m.entry d (testbits v 22 32)) = false) (p : UInt32) (flags : UInt16) :
    setMmapOn m active d v p flags =
      ((m.withTable d (testbits v 22 32) n).setEntryOn active (UInt32.ofNat (n * pageSize)) (testbits v 12 22)
        (p ||| flags.toUInt32)).map fun m => (false, m) := by
  have inside := indexInPde_lt v
  have inAll := List.mem_cons_of_mem kernelPd member
  have covers := ok.isolated.covers
  have directory := ok.isolated.directory d member
  have first := ok.storeTableOn here member free inside
  rw [pMalloc_nextFree covers free] at first
  have identity := ok.identity_touch member (withTable_touches covers directory free high inside) here
  have entry := entryOn_below identity directory.aligned (ok.low d inAll _ (Or.inl rfl)) inside
  have table := withTable_table m d (testbits v 22 32) n
  rw [Memory.table] at table
  rw [setMmapOn, ok.entryOn here inAll inside]
  rw [present] at missing
  simp only [Option.bind_eq_bind, Option.bind_some, Option.pure_def, missing, Bool.false_eq_true, if_false,
    pMalloc_nextFree covers free, first, entry, table]
  exact (Option.map_eq_bind ..).symm

theorem LowDirectories.setMmapOn_eq (high : itselfEntries ≤ (testbits v 22 32).toNat)
    (succeeds : present (m.entry d (testbits v 22 32)) = false → ∃ n, m.NextFree n) (low : mapStaysLow m d v)
    (p : UInt32) (flags : UInt16) : setMmapOn m active d v p flags = some (setMmap m d v p flags) := by
  have inside := indexInPde_lt v
  have inAll := List.mem_cons_of_mem kernelPd member
  cases there : present (m.entry d (testbits v 22 32)) with
  | true =>
      have stored := ok.setTableOn here member inside there (indexInPte_lt v) (p ||| flags.toUInt32)
      rw [Memory.table] at stored
      rw [setMmapOn, ok.entryOn here inAll inside, setMmap_present there, Memory.table]
      rw [present] at there
      simp only [Option.bind_eq_bind, Option.bind_some, Option.pure_def, there, if_true,
        ok.entryOn here inAll inside, stored]
  | false =>
      obtain ⟨n, free⟩ := succeeds there
      have covers := ok.isolated.covers
      have small : frameOf (UInt32.ofNat (n * pageSize)) < 65536 := by
        rw [frameOf_frame (nextFree_lt covers free), nextFree_low free]
        rcases low with present | some
        · rw [there] at present
          cases present
        · exact some
      have identity := ok.identity_touch member
        (withTable_touches covers (ok.isolated.directory d member) free high inside) here
      rw [ok.setMmapOn_new here member free high there, setMmap_absent covers free there,
        setEntryOn_below identity (frame_aligned n) small (indexInPte_lt v)]
      rfl

omit here in
/-- Out of the kernel's reach, it meets a page fault. -/
theorem LowDirectories.setMmapOn_none {n : Nat} (free : m.NextFree n) (far : 65536 ≤ n)
    (high : itselfEntries ≤ (testbits v 22 32).toNat) (missing : present (m.entry d (testbits v 22 32)) = false)
    (p : UInt32) (flags : UInt16) : setMmapOn m kernelPd d v p flags = none := by
  have covers := ok.isolated.covers
  have touches := withTable_touches covers (ok.isolated.directory d member) free high (indexInPde_lt v)
  rw [ok.setMmapOn_new List.mem_cons_self member free high missing, Memory.setEntryOn,
    (ok.isolated.touch member touches).reach_high (frame_above covers free far (indexInPte_lt v))]
  rfl

omit here in
theorem LowDirectories.setMmap (high : itselfEntries ≤ (testbits v 22 32).toNat)
    (succeeds : present (m.entry d (testbits v 22 32)) = false → ∃ n, m.NextFree n) (low : mapStaysLow m d v)
    (p : UInt32) (flags : UInt16) : LowDirectories (setMmap m d v p flags).2 kernelPd dirs := by
  have directory := ok.isolated.directory d member
  have before := ok.low d (List.mem_cons_of_mem _ member)
  exact ok.touch member (setMmap_touches ok.isolated.covers directory high succeeds p flags)
    ((setMmap_low ok.isolated.covers directory before succeeds).mpr low)

theorem LowDirectories.loadMemoryOn_eq (high : itselfEntries ≤ (testbits v 22 32).toNat) (free : allocates m)
    (succeeds : mapAllocates (pMalloc m).2 d v) (low : mapStaysLow (pMalloc m).2 d v) (flags : UInt16) :
    loadMemoryOn m active d v flags = some (loadMemory m d v flags) := by
  obtain ⟨n, nextFree⟩ := allocates_nextFree free
  have mapped := (ok.taken member nextFree).setMmapOn_eq here member high (mapAllocates_nextFree succeeds) low
    (pMalloc m).1 flags
  rw [loadMemoryOn, loadMemory]
  simp only [mapped, Option.bind_eq_bind, Option.bind_some, Option.pure_def]

omit here in
theorem LowDirectories.loadMemory (high : itselfEntries ≤ (testbits v 22 32).toNat) (free : allocates m)
    (succeeds : mapAllocates (pMalloc m).2 d v) (low : mapStaysLow (pMalloc m).2 d v) (flags : UInt16) :
    LowDirectories (WegOS.loadMemory m d v flags).2 kernelPd dirs := by
  obtain ⟨n, nextFree⟩ := allocates_nextFree free
  exact (ok.taken member nextFree).setMmap member high (mapAllocates_nextFree succeeds) low (pMalloc m).1 flags

omit here in
theorem LowDirectories.swapSectorSet (high : itselfEntries ≤ (testbits v 22 32).toNat)
    (there : present (m.entry d (testbits v 22 32)) = true) (sector : UInt32) :
    LowDirectories (WegOS.swapSectorSet m d v sector) kernelPd dirs := by
  have directory := ok.isolated.directory d member
  refine ok.touch member (setEntry_touches ok.isolated.covers directory high (indexInPde_lt v) there
    (indexInPte_lt v) (sector <<< 3)) ((ok.low d (List.mem_cons_of_mem _ member)).congr fun i inside => ?_)
  exact setEntry_table_entry directory (indexInPde_lt v) there (indexInPte_lt v) _ inside

theorem LowDirectories.swapSectorSetOn_eq (there : present (m.entry d (testbits v 22 32)) = true) (sector : UInt32) :
    swapSectorSetOn m active d v sector = some (WegOS.swapSectorSet m d v sector) := by
  have stored := ok.setTableOn here member (indexInPde_lt v) there (indexInPte_lt v) (sector <<< 3)
  rw [Memory.table] at stored
  rw [swapSectorSetOn, ok.entryOn here (List.mem_cons_of_mem _ member) (indexInPde_lt v)]
  simp only [Option.bind_eq_bind, Option.bind_some, stored]
  rfl

end Stores

/-! ## The copy of the kernel's directory -/

def copyPtsUpTo (m : Memory) (fromPd toPd : UInt32) (k : Nat) : Memory :=
  { m with bytes := fun a => if (a - toPd).toNat < k then m.bytes (fromPd + (a - toPd)) else m.bytes a }

section Copy

variable {fromPd toPd : UInt32} {k : Nat}

theorem copyPtsUpTo_bytes (aligned : PageAligned toPd) (bound : k ≤ pageSize) {a : UInt32}
    (outside : frameOf a ≠ frameOf toPd) : (copyPtsUpTo m fromPd toPd k).bytes a = m.bytes a := by
  have far := (frameOf_sub aligned).not.mpr outside
  simp only [copyPtsUpTo, if_neg (show ¬(a - toPd).toNat < k by omega)]

theorem sub_offset {a : UInt32} (bound : k < pageSize) : (a - toPd).toNat = k ↔ a = toPd + UInt32.ofNat k := by
  have number : (UInt32.ofNat k).toNat = k := by
    rw [UInt32.toNat_ofNat']
    simp only [pageSize] at bound
    omega
  constructor
  · intro same
    have offset : a - toPd = UInt32.ofNat k := UInt32.toNat_inj.mp (same.trans number.symm)
    rw [← offset, UInt32.add_comm, UInt32.sub_add_cancel]
  · rintro rfl
    rw [UInt32.add_comm, UInt32.add_sub_cancel]
    exact number

theorem page_frame {page : UInt32} (aligned : PageAligned page) (bound : k < pageSize) :
    frameOf (page + UInt32.ofNat k) = frameOf page := by
  have place := offset_frame aligned bound
  simp only [PageAligned, pageSize] at aligned bound
  rw [frameOf, frameOf, place, pageSize]
  omega

theorem copyPtsUpTo_succ (alignedFrom : PageAligned fromPd) (alignedTo : PageAligned toPd)
    (apart : frameOf fromPd ≠ frameOf toPd) (bound : k < pageSize) :
    { copyPtsUpTo m fromPd toPd k with
      bytes := Function.update (copyPtsUpTo m fromPd toPd k).bytes (toPd + UInt32.ofNat k)
        ((copyPtsUpTo m fromPd toPd k).bytes (fromPd + UInt32.ofNat k)) } = copyPtsUpTo m fromPd toPd (k + 1) := by
  have source : (copyPtsUpTo m fromPd toPd k).bytes (fromPd + UInt32.ofNat k) = m.bytes (fromPd + UInt32.ofNat k) := by
    apply copyPtsUpTo_bytes alignedTo (Nat.le_of_lt bound)
    rw [page_frame alignedFrom bound]
    exact apart
  rw [source]
  simp only [copyPtsUpTo]
  congr 1
  funext a
  by_cases here : a = toPd + UInt32.ofNat k
  · have offset := (sub_offset bound).mpr here
    have back : fromPd + (a - toPd) = fromPd + UInt32.ofNat k := by
      rw [here, UInt32.add_comm toPd, UInt32.add_sub_cancel]
    rw [if_pos (show (a - toPd).toNat < k + 1 by omega), back, here, Function.update_self]
  · have offset := (sub_offset bound).not.mpr here
    rw [Function.update_of_ne here]
    by_cases before : (a - toPd).toNat < k
    · rw [if_pos before, if_pos (by omega)]
    · rw [if_neg before, if_neg (by omega)]

/-- The copy through the active directory, where both pages are the identity and the target is no table of it. -/
theorem copyPtsOn_eq (identity : IdentityBelow m active) (alignedActive : PageAligned active)
    (alignedFrom : PageAligned fromPd) (alignedTo : PageAligned toPd) (lowFrom : frameOf fromPd < 65536)
    (lowTo : frameOf toPd < 65536) (apart : frameOf fromPd ≠ frameOf toPd)
    (unused : ¬UsedFrame m active (frameOf toPd)) :
    copyPtsOn m active fromPd toPd = some (copyPts m fromPd toPd) := by
  have upTo : ∀ k ≤ pageSize, (List.range k).foldlM (copyByteOn active fromPd toPd) m =
      some (copyPtsUpTo m fromPd toPd k) := by
    intro k
    induction k with
    | zero =>
        intro _
        simp [copyPtsUpTo]
    | succ k ih =>
        intro bound
        have inside : k < pageSize := bound
        have same : SameSpace m (copyPtsUpTo m fromPd toPd k) active := by
          apply walk_frames alignedActive
          intro a used
          exact copyPtsUpTo_bytes alignedTo (Nat.le_of_lt inside) fun here => unused (here ▸ used)
        have still := same.identity identity
        have source := reach_below still ((below_itselfEnd (fromPd + UInt32.ofNat k)).mpr
          (by rw [page_frame alignedFrom inside]; exact lowFrom))
        obtain ⟨has, translate⟩ := still (toPd + UInt32.ofNat k) ((below_itselfEnd _).mpr
          (by rw [page_frame alignedTo inside]; exact lowTo))
        rw [List.range_succ, List.foldlM_append, ih (Nat.le_of_lt inside)]
        simp only [Option.bind_eq_bind, Option.bind_some, List.foldlM_cons, List.foldlM_nil, copyByteOn, source,
          storeByte, has, if_true, translate, copyPtsUpTo_succ alignedFrom alignedTo apart inside]
        rfl
  rw [copyPtsOn, upTo pageSize (Nat.le_refl _)]
  rfl

theorem copyPtsOn_none (gone : hasAddr m active toPd = false) : copyPtsOn m active fromPd toPd = none := by
  have zero : toPd + UInt32.ofNat 0 = toPd := UInt32.add_zero toPd
  have first : copyByteOn active fromPd toPd m 0 = none := by
    simp only [copyByteOn, storeByte, zero, gone, Bool.false_eq_true, if_false, Option.bind_eq_bind, Option.bind_fun_none]
  have range : List.range pageSize = 0 :: (List.range 4095).map Nat.succ := List.range_succ_eq_map
  rw [copyPtsOn, range, List.foldlM_cons, first]
  rfl

end Copy

theorem LowDirectories.createTaskOn_eq {image : KernelImage} {k : Kernel} {n : Nat}
    (ok : LowDirectories k.memory image.kernelPd dirs) (here : active ∈ image.kernelPd :: dirs)
    (free : k.memory.NextFree n) (small : n < 65536) (flag eip esp ddl : UInt32) :
    createTaskOn image k active flag eip esp ddl = createTask image k flag eip esp ddl := by
  have covers := ok.isolated.covers
  have frame := frameOf_frame (nextFree_lt covers free)
  have fresh := nextFree_not_taken free
  have frames : ∀ e ∈ image.kernelPd :: dirs, ¬UsedFrame k.memory e n :=
    fun e member used => fresh ((ok.isolated.ok member).used_taken used)
  have copied : copyPtsOn (pMalloc k.memory).2 active image.kernelPd (pMalloc k.memory).1 =
      some (copyPts (pMalloc k.memory).2 image.kernelPd (pMalloc k.memory).1) := by
    rw [pMalloc_nextFree covers free]
    have identity := (SameSpace.refl k.memory active).identity (ok.everywhere here)
    refine copyPtsOn_eq identity (ok.isolated.ok here).aligned image.kernelPd_aligned (frame_aligned n)
      (ok.low _ List.mem_cons_self _ (Or.inl rfl)) (by rw [frame]; exact small) ?_ ?_
    · rw [frame]
      exact fun same => frames _ List.mem_cons_self (Or.inl same.symm)
    · rw [frame]
      exact frames active here
  rw [createTaskOn]
  cases result : createTask image k flag eip esp ddl with
  | none => rfl
  | some created =>
      obtain ⟨pid, created⟩ := created
      obtain ⟨-, -, -, memory, -⟩ := createTask_eq result
      simp only [Option.bind_eq_bind, Option.bind_some, copied, ← memory, Option.pure_def]

/-- Without one, its copy meets a page fault while the kernel's directory is active. -/
theorem LowDirectories.createTaskOn_none {image : KernelImage} {k : Kernel} {n : Nat}
    (ok : LowDirectories k.memory image.kernelPd dirs) (free : k.memory.NextFree n) (far : 65536 ≤ n)
    (flag eip esp ddl : UInt32) : createTaskOn image k image.kernelPd flag eip esp ddl = none := by
  have covers := ok.isolated.covers
  have stuck : copyPtsOn (pMalloc k.memory).2 image.kernelPd image.kernelPd (pMalloc k.memory).1 = none := by
    have nowhere := ok.isolated.reach_high (frame_above covers free far (show (0 : UInt32).toNat < 1024 by decide))
    rw [show UInt32.ofNat (n * pageSize) + 4 * 0 = UInt32.ofNat (n * pageSize) from UInt32.add_zero _, reach] at nowhere
    rw [pMalloc_nextFree covers free]
    apply copyPtsOn_none
    split_ifs at nowhere with has
    exact Bool.eq_false_iff.mpr has
  rw [createTaskOn]
  cases createTask image k flag eip esp ddl with
  | none => rfl
  | some created => simp only [Option.bind_eq_bind, Option.bind_some, stuck, Option.bind_none]

end Calls

end WegOS
