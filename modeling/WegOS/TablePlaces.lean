import WegOS.AddressSpaces

/-! Where page directories and page tables are.

`set_mmap`, `has_addr` and `addr_translate` reach them through their physical addresses, which with
paging on are right below `ITSELF_END` only. -/

namespace WegOS

open Transition

def reach (m : Memory) (cr3 virtual : UInt32) : Option UInt32 :=
  if hasAddr m cr3 virtual then some (addrTranslate m cr3 virtual) else none

theorem reach_congr {m m' : Memory} {cr3 w : UInt32} (walk : hasAddr m' cr3 w = hasAddr m cr3 w ∧
    (hasAddr m cr3 w = true → addrTranslate m' cr3 w = addrTranslate m cr3 w)) : reach m' cr3 w = reach m cr3 w := by
  obtain ⟨has, translate⟩ := walk
  rw [reach, reach, has]
  split_ifs with there
  · rw [translate there]
  · rfl

theorem SameSpace.reach {m m' : Memory} {cr3 : UInt32} (same : SameSpace m m' cr3) (w : UInt32) :
    reach m' cr3 w = WegOS.reach m cr3 w := reach_congr (same w)

/-! ## The identity map -/

def IdentityBelow (m : Memory) (d : UInt32) : Prop :=
  ∀ a, a < itselfEnd → hasAddr m d a = true ∧ addrTranslate m d a = a

theorem itselfEnd_toNat : itselfEnd.toNat = 268435456 := by decide

section Identity

variable {m : Memory} {image : KernelImage} {kernelPd : UInt32}

theorem identity_page {k : Nat} (covers : m.Covers) (upTo : TablesTo m kernelPd k) (bound : k < 2 ^ 20)
    (succeeds : k % 1024 = 0 → ∃ n, m.NextFree n)
    (below : ∀ a : UInt32, a.toNat < k * 4096 → hasAddr m kernelPd a = true ∧ addrTranslate m kernelPd a = a)
    {a : UInt32} (inside : a.toNat < (k + 1) * 4096) :
    let next := (setMmap m kernelPd (UInt32.ofNat (k * pageSize)) (UInt32.ofNat (k * pageSize))
      pageTableFlagKernelReadWrite).2
    hasAddr next kernelPd a = true ∧ addrTranslate next kernelPd a = a := by
  intro next
  have address : (UInt32.ofNat (k * pageSize)).toNat = k * pageSize := frame_address bound
  have size : pageSize = 4096 := rfl
  obtain ⟨page, others⟩ := @setMmap_page m kernelPd (UInt32.ofNat (k * pageSize)) (UInt32.ofNat (k * pageSize))
    pageTableFlagKernelReadWrite (frame_aligned k) (by decide) (by decide) covers upTo.directory
    fun missing => succeeds ((upTo.missing bound).mp missing)
  by_cases earlier : a.toNat < k * 4096
  · obtain ⟨has, translate⟩ := below a earlier
    have other : a &&& 0xFFFFF000 ≠ UInt32.ofNat (k * pageSize) &&& 0xFFFFF000 := by
      intro same
      have number := congrArg UInt32.toNat same
      rw [page_mask, page_mask, address, size] at number
      omega
    obtain ⟨has', translate'⟩ := others a other has
    exact ⟨has', translate'.trans translate⟩
  · have offset : (a &&& 0xFFF).toNat < 4096 := by
      rw [offset_mask, size]
      omega
    have whole : (UInt32.ofNat (k * pageSize) &&& 0xFFFFF000) + (a &&& 0xFFF) = a := by
      apply UInt32.toNat_inj.mp
      rw [page_offset_toNat _ offset, address, offset_mask, size]
      omega
    have start : UInt32.ofNat (k * pageSize) + (a &&& 0xFFF) = a := by
      apply UInt32.toNat_inj.mp
      rw [UInt32.toNat_add, address, offset_mask, size]
      omega
    obtain ⟨translate, has⟩ := page (a &&& 0xFFF) offset
    rw [whole] at translate has
    exact ⟨has, translate.trans start⟩

theorem identity_loop {k : Nat} (mapped : IdentityMapped m kernelPd 0) (bound : k ≤ 65536) :
    ∀ a : UInt32, a.toNat < k * 4096 →
      hasAddr ((List.range k).foldl (fun m i => (setMmap m kernelPd (UInt32.ofNat (i * pageSize))
        (UInt32.ofNat (i * pageSize)) pageTableFlagKernelReadWrite).2) m) kernelPd a = true ∧
      addrTranslate ((List.range k).foldl (fun m i => (setMmap m kernelPd (UInt32.ofNat (i * pageSize))
        (UInt32.ofNat (i * pageSize)) pageTableFlagKernelReadWrite).2) m) kernelPd a = a := by
  induction k with
  | zero => exact fun a none => absurd none (by omega)
  | succ k ih =>
      intro a inside
      have before := mapped.loop (show k ≤ 65536 by omega)
      rw [List.range_succ, List.foldl_append, List.foldl_cons, List.foldl_nil]
      exact identity_page before.filled.covers before.upTo (by omega) (fun _ => ⟨_, before.nextFree (by omega)⟩)
        (ih (by omega)) inside

theorem memoryInit_identity (zeroed : Zeroed m image.kernelPd) :
    IdentityBelow (memoryInit m image.kernelPd) image.kernelPd := by
  have pages : (itselfEnd.toNat + (pageSize - 1)) / pageSize = 65536 := by decide
  intro a below
  have number := UInt32.lt_iff_toNat_lt.mp below
  rw [itselfEnd_toNat] at number
  rw [memoryInit, addMmapToItself, pages]
  exact identity_loop (memoryAllocInit_identityMapped zeroed) (Nat.le_refl _) a (by omega)

theorem IdentityBelow.shared {d : UInt32} (identity : IdentityBelow m kernelPd)
    (same : ∀ i : UInt32, i.toNat < itselfEntries → m.entry d i = m.entry kernelPd i) : IdentityBelow m d := by
  intro a below
  have number := UInt32.lt_iff_toNat_lt.mp below
  rw [itselfEnd_toNat] at number
  have entry := same (testbits a 22 32) (by
    rw [indexInPde_toNat, itselfEntries]
    omega)
  have table : m.table d (testbits a 22 32) = m.table kernelPd (testbits a 22 32) := by
    rw [Memory.table, entry, Memory.table]
  obtain ⟨has, translate⟩ := identity a below
  constructor
  · rw [hasAddr_eq, entry, table, ← hasAddr_eq]
    exact has
  · rw [addrTranslate_eq, table, ← addrTranslate_eq]
    exact translate

end Identity

/-! ## Directories and tables -/

def LowTables (m : Memory) (d : UInt32) : Prop := ∀ n, UsedFrame m d n → n < 65536

theorem LowTables.congr {m m' : Memory} {d : UInt32} (low : LowTables m d)
    (entries : ∀ i : UInt32, i.toNat < 1024 → m'.entry d i = m.entry d i) : LowTables m' d :=
  fun n used => low n (used_congr entries used)

/-- `set_mmap` needs no new table, or a frame below `ITSELF_END` is free for it. -/
def mapStaysLow (m : Memory) (d v : UInt32) : Prop :=
  present (m.entry d (testbits v 22 32)) = true ∨ ∃ n < 65536, ¬m.Taken n

section Call

variable {m : Memory} {d v p : UInt32} {flags : UInt16} {n : Nat}

theorem nextFree_least (free : m.NextFree n) {k : Nat} (notTaken : ¬m.Taken k) : n ≤ k := by
  by_contra before
  have earlier := free.2.2 k (by omega)
  exact notTaken (by simpa [Memory.Taken] using earlier)

theorem nextFree_low (free : m.NextFree n) : n < 65536 ↔ ∃ k < 65536, ¬m.Taken k := by
  constructor
  · exact fun low => ⟨n, low, nextFree_not_taken free⟩
  · intro some
    obtain ⟨k, low, notTaken⟩ := some
    exact Nat.lt_of_le_of_lt (nextFree_least free notTaken) low

theorem withTable_low (ok : DirectoryOk m d) (covers : m.Covers) (free : m.NextFree n) (low : LowTables m d)
    {index : UInt32} (bound : index.toNat < 1024) : LowTables (m.withTable d index n) d ↔ n < 65536 := by
  have frame := frameOf_frame (nextFree_lt covers free)
  constructor
  · intro later
    apply later n
    exact Or.inr ⟨index, bound, withTable_present m d index n, by rw [withTable_table, frame]⟩
  · intro small k used
    rcases used with itself | ⟨i, inside, here, table⟩
    · exact low k (Or.inl itself)
    · by_cases new : i = index
      · rw [table, new, withTable_table, frame]
        exact small
      · have entry := withTable_entry_of_ne (n := n) ok inside bound new
        rw [entry] at here
        rw [Memory.table, entry, ← Memory.table] at table
        exact low k (Or.inr ⟨i, inside, here, table⟩)

/-- `set_mmap` keeps the tables of its directory low exactly if the new one, if any, is. -/
theorem setMmap_low (covers : m.Covers) (ok : DirectoryOk m d) (low : LowTables m d)
    (succeeds : present (m.entry d (testbits v 22 32)) = false → ∃ n, m.NextFree n) :
    LowTables (setMmap m d v p flags).2 d ↔ mapStaysLow m d v := by
  cases here : present (m.entry d (testbits v 22 32)) with
  | true =>
      rw [setMmap_present here]
      refine iff_of_true (low.congr fun i inside => ?_) (Or.inl here)
      exact setEntry_table_entry ok (indexInPde_lt v) here (indexInPte_lt v) _ inside
  | false =>
      obtain ⟨n, free⟩ := succeeds here
      have entries : ∀ i : UInt32, i.toNat < 1024 →
          (setMmap m d v p flags).2.entry d i = (m.withTable d (testbits v 22 32) n).entry d i :=
        fun i inside => setMmap_absent_entry ok covers free here inside
      have same : LowTables (setMmap m d v p flags).2 d ↔ LowTables (m.withTable d (testbits v 22 32) n) d :=
        ⟨fun later => later.congr fun i inside => (entries i inside).symm, fun later => later.congr entries⟩
      rw [same, withTable_low ok covers free low (indexInPde_lt v), nextFree_low free, mapStaysLow, here]
      simp only [Bool.false_eq_true, false_or]

/-- The frame that `load_memory` maps is taken before the table. -/
theorem pMalloc_mapStaysLow (covers : m.Covers) (free : m.NextFree n) :
    mapStaysLow (pMalloc m).2 d v ↔
      present (m.entry d (testbits v 22 32)) = true ∨ ∃ j k, j < k ∧ k < 65536 ∧ ¬m.Taken j ∧ ¬m.Taken k := by
  rw [mapStaysLow, pMalloc_nextFree covers free]
  apply or_congr (Iff.rfl)
  constructor
  · intro some
    obtain ⟨k, low, notTaken⟩ := some
    rw [taken_bitFree, not_or] at notTaken
    have least := nextFree_least free notTaken.2
    exact ⟨n, k, by omega, low, nextFree_not_taken free, notTaken.2⟩
  · intro two
    obtain ⟨j, k, less, low, notTaken, notTaken'⟩ := two
    refine ⟨k, low, ?_⟩
    have least := nextFree_least free notTaken
    rw [taken_bitFree, not_or]
    exact ⟨by omega, notTaken'⟩

end Call

/-! ## Runs -/

def directories (image : KernelImage) (s : System) : List UInt32 := image.kernelPd :: s.live.map s.cr3

/-- Each directory and page table is below `ITSELF_END`, and whichever directory is active, its
addresses lead to itself. -/
def TablesReachable (image : KernelImage) (s : System) : Prop :=
  ∀ d ∈ directories image s, ∀ a, UsedFrame s.kernel.memory d (frameOf a) →
    a < itselfEnd ∧ ∀ e ∈ directories image s,
      hasAddr s.kernel.memory e a = true ∧ addrTranslate s.kernel.memory e a = a

/-- A call that needs a frame for a directory or a table finds one below `ITSELF_END`; `load_memory`
takes a frame for the page before. -/
def FramesLow (s : System) : MemEvent → Prop
  | .task (.create _ _ _ _) => ∃ n < 65536, ¬s.kernel.memory.Taken n
  | .task _ => True
  | .setMmap pid v _ _ => mapStaysLow s.kernel.memory (s.cr3 pid) v
  | .loadMemory pid v _ => present (s.kernel.memory.entry (s.cr3 pid) (testbits v 22 32)) = true ∨
      ∃ j k, j < k ∧ k < 65536 ∧ ¬s.kernel.memory.Taken j ∧ ¬s.kernel.memory.Taken k
  | .swapSectorSet _ _ _ => True

def AllLow (image : KernelImage) (s : System) : Prop := ∀ d ∈ directories image s, LowTables s.kernel.memory d

section Runs

variable {image : KernelImage} {s t : System}

theorem below_itselfEnd (a : UInt32) : a < itselfEnd ↔ frameOf a < 65536 := by
  rw [UInt32.lt_iff_toNat_lt, itselfEnd_toNat, frameOf]
  simp only [pageSize]
  omega

theorem Spaces.reachable_iff (ok : Spaces image s) (identity : IdentityBelow s.kernel.memory image.kernelPd) :
    TablesReachable image s ↔ AllLow image s := by
  have everywhere : ∀ e ∈ directories image s, IdentityBelow s.kernel.memory e := by
    intro e member
    rcases List.mem_cons.mp member with rfl | task
    · exact identity
    · exact identity.shared (ok.isolated.shared e task)
  constructor
  · intro reachable d member n used
    obtain ⟨a, rfl⟩ : ∃ a, n = frameOf a := by
      rcases used with itself | ⟨i, -, -, table⟩
      · exact ⟨d, itself⟩
      · exact ⟨_, table⟩
    exact (below_itselfEnd a).mp (reachable d member a used).left
  · intro low d member a used
    have below := (below_itselfEnd a).mpr (low d member _ used)
    exact ⟨below, fun e other => everywhere e other a below⟩

theorem Spaces.call_low (ok : Spaces image s) (low : AllLow image s) {a : Nat} (live : a ∈ s.live) {m : Memory}
    (touches : Touches s.kernel.memory m (s.cr3 a)) :
    AllLow image (s.withMemory m) ↔ LowTables m (s.cr3 a) := by
  have member := List.mem_map_of_mem (f := s.cr3) live
  constructor
  · exact fun all => all _ (List.mem_cons_of_mem _ member)
  · intro here e other
    by_cases same : e = s.cr3 a
    · rw [same]
      exact here
    · exact (low e other).congr fun i inside => ok.isolated.keep_entries member touches other same inside

theorem AllLow.quiet (low : AllLow image s) (memory : t.kernel.memory = s.kernel.memory)
    (live : ∀ pid ∈ t.live, pid ∈ s.live) (tss : ∀ pid, t.cr3 pid = s.cr3 pid) : AllLow image t := by
  intro d member
  rw [memory]
  apply low d
  rcases List.mem_cons.mp member with rfl | task
  · exact List.mem_cons_self
  · obtain ⟨pid, inside, rfl⟩ := List.mem_map.mp task
    rw [tss]
    exact List.mem_cons_of_mem _ (List.mem_map_of_mem (live pid inside))

theorem Spaces.create_entries (ok : Spaces image s) {flag eip esp ddl : UInt32} {pid n : Nat} {k : Kernel}
    (free : s.kernel.memory.NextFree n) (result : createTask image s.kernel flag eip esp ddl = some (pid, k)) :
    (k.taskManager.tasks pid).tss.cr3 = UInt32.ofNat (n * pageSize) ∧
      (∀ e ∈ directories image s, ∀ i : UInt32, i.toNat < 1024 →
        k.memory.entry e i = s.kernel.memory.entry e i) ∧
      ∀ i : UInt32, i.toNat < 1024 →
        k.memory.entry (UInt32.ofNat (n * pageSize)) i = s.kernel.memory.entry image.kernelPd i := by
  obtain ⟨-, -, -, memory, task, cr3, taskManager⟩ := createTask_eq result
  have address : (pMalloc s.kernel.memory).1 = UInt32.ofNat (n * pageSize) := by
    rw [pMalloc_nextFree ok.isolated.covers free]
  have frame : frameOf (UInt32.ofNat (n * pageSize)) = n := frameOf_frame (nextFree_lt ok.isolated.covers free)
  have aligned := frame_aligned n
  refine ⟨?_, ?_, ?_⟩
  · rw [taskManager, setTaskState_tss]
    simp only [Function.update_self, cr3, address]
  · intro e member i inside
    have old := ok.isolated.ok member
    rw [memory]
    refine Memory.entry_congr old.aligned inside fun b there => ?_
    rw [address, copyPts_bytes _ aligned]
    · rw [pMalloc_nextFree ok.isolated.covers free]
    · rw [there, frame]
      intro same
      exact nextFree_not_taken free (same ▸ old.taken)
  · intro i inside
    rw [memory, address, copyPts_entry _ aligned inside, pMalloc_nextFree ok.isolated.covers free]
    rfl

theorem Spaces.create_low (ok : Spaces image s) (low : AllLow image s) {flag eip esp ddl : UInt32} {pid : Nat}
    {k : Kernel} (free : allocates s.kernel.memory)
    (result : createTask image s.kernel flag eip esp ddl = some (pid, k)) :
    AllLow image ⟨k, pid :: s.live, s.exited.filter (· ≠ pid)⟩ ↔ ∃ n < 65536, ¬s.kernel.memory.Taken n := by
  obtain ⟨n, nextFree⟩ := allocates_nextFree free
  obtain ⟨-, -, undisturbed⟩ := ok.create free result
  obtain ⟨own, kept, copied⟩ := ok.create_entries nextFree result
  have frame : frameOf (UInt32.ofNat (n * pageSize)) = n := frameOf_frame (nextFree_lt ok.isolated.covers nextFree)
  rw [← nextFree_low nextFree]
  constructor
  · intro all
    have new := all (UInt32.ofNat (n * pageSize)) (by
      rw [directories, List.map_cons, System.cr3, own]
      exact List.mem_cons_of_mem _ List.mem_cons_self)
    exact new n (Or.inl frame.symm)
  · intro small d member
    rcases List.mem_cons.mp member with rfl | task
    · exact (low _ List.mem_cons_self).congr (kept _ List.mem_cons_self)
    · obtain ⟨b, inside, rfl⟩ := List.mem_map.mp task
      rcases List.mem_cons.mp inside with rfl | old
      · rw [System.cr3, own]
        intro j used
        rcases used with itself | ⟨i, bound, here, table⟩
        · rw [itself, frame]
          exact small
        · rw [copied i bound] at here
          rw [Memory.table, copied i bound, ← Memory.table] at table
          exact low _ List.mem_cons_self j (Or.inr ⟨i, bound, here, table⟩)
      · have there := List.mem_cons_of_mem image.kernelPd (List.mem_map_of_mem (f := s.cr3) old)
        rw [(undisturbed b old).cr3]
        exact (low _ there).congr (kept _ there)

/-- One event keeps all directories and tables low exactly if the frames it needs are. -/
theorem Spaces.step_low {event : MemEvent} (ok : Spaces image s) (low : AllLow image s)
    (step : MemStep image s event t) : AllLow image t ↔ FramesLow s event := by
  obtain ⟨allowed, result⟩ := step
  cases event with
  | task event =>
      cases event with
      | create flag eip esp ddl =>
          obtain ⟨⟨pid, k⟩, created, same⟩ := Option.bind_eq_some_iff.mp result
          obtain rfl := Option.some.inj same
          exact ok.create_low low allowed created
      | tick =>
          obtain ⟨tm, ticked, same⟩ := Option.bind_eq_some_iff.mp result
          obtain rfl := Option.some.inj same
          have tss := fun pid => congrArg Tss.cr3 (checkTaskAffairs_tss ticked pid)
          exact iff_of_true (low.quiet rfl (fun _ live => live) tss) trivial
      | sleep counter =>
          obtain ⟨tm, slept, same⟩ := Option.bind_eq_some_iff.mp result
          obtain rfl := Option.some.inj same
          have tss := fun pid => congrArg Tss.cr3 (sysSleep_tss slept pid)
          exact iff_of_true (low.quiet rfl (fun _ live => live) tss) trivial
      | exit code =>
          obtain ⟨k, exited, same⟩ := Option.bind_eq_some_iff.mp result
          obtain rfl := Option.some.inj same
          obtain ⟨memory, tss⟩ := sysExit_frame exited
          exact iff_of_true (low.quiet memory (fun _ live => List.mem_of_mem_filter live) fun pid =>
            congrArg Tss.cr3 (tss pid)) trivial
  | setMmap pid v p flags =>
      obtain rfl := Option.some.inj result
      obtain ⟨live, above, succeeds⟩ := allowed
      have found := mapAllocates_nextFree succeeds
      have here := low _ (List.mem_cons_of_mem _ (List.mem_map_of_mem (f := s.cr3) live))
      rw [ok.call_low low live (setMmap_touches ok.isolated.covers (ok.directory live) (itselfEnd_index above) found
        p flags)]
      exact setMmap_low ok.isolated.covers (ok.directory live) here found
  | loadMemory pid v flags =>
      obtain rfl := Option.some.inj result
      obtain ⟨live, above, free, succeeds⟩ := allowed
      obtain ⟨n, nextFree⟩ := allocates_nextFree free
      have found := mapAllocates_nextFree succeeds
      have first := pMalloc_touches ok.isolated.covers (ok.directory live) nextFree
      have second := setMmap_touches first.covers first.directory (itselfEnd_index above) found
        (pMalloc s.kernel.memory).1 flags
      have here := low _ (List.mem_cons_of_mem _ (List.mem_map_of_mem (f := s.cr3) live))
      have taken : LowTables (pMalloc s.kernel.memory).2 (s.cr3 pid) := here.congr fun _ _ => rfl
      exact ((ok.call_low low live (first.trans second)).trans
        (setMmap_low first.covers first.directory taken found)).trans (pMalloc_mapStaysLow ok.isolated.covers nextFree)
  | swapSectorSet pid v sector =>
      obtain rfl := Option.some.inj result
      obtain ⟨live, above, there⟩ := allowed
      have touches := setEntry_touches ok.isolated.covers (ok.directory live) (itselfEnd_index above)
        (indexInPde_lt v) there (indexInPte_lt v) (sector <<< 3)
      have here := low _ (List.mem_cons_of_mem _ (List.mem_map_of_mem (f := s.cr3) live))
      refine iff_of_true ((ok.call_low low live touches).mpr (here.congr fun i inside => ?_)) trivial
      exact setEntry_table_entry (ok.directory live) (indexInPde_lt v) there (indexInPte_lt v) _ inside

theorem memStart_memory (image : KernelImage) (k : Kernel) :
    (memStart image k).kernel.memory = memoryInit k.memory image.kernelPd := by simp only [memStart]

theorem memStart_low {k : Kernel} (zeroed : Zeroed k.memory image.kernelPd) : AllLow image (memStart image k) := by
  intro d member n used
  have only : directories image (memStart image k) = [image.kernelPd] := by
    simp only [directories, memStart, List.map_nil]
  rw [only, List.mem_singleton] at member
  rw [memStart_memory, member] at used
  have taken := (memoryInit_isolated zeroed).kernel.used_taken used
  have filled := memStart_filled zeroed
  rw [memStart_memory] at filled
  have inside : n < 2 ^ 20 := by
    rcases used with itself | ⟨i, -, -, table⟩
    · rw [itself]
      exact frameOf_lt _
    · rw [table]
      exact frameOf_lt _
  have small := (filled.taken n inside).mp taken
  omega

theorem SameSpace.identity {m m' : Memory} {d : UInt32} (same : SameSpace m m' d) (identity : IdentityBelow m d) :
    IdentityBelow m' d := by
  intro a below
  obtain ⟨has, translate⟩ := identity a below
  obtain ⟨has', translate'⟩ := same a
  exact ⟨has'.trans has, (translate' has).trans translate⟩

structure LowSpaces (image : KernelImage) (s : System) : Prop where
  spaces : Spaces image s
  identity : IdentityBelow s.kernel.memory image.kernelPd
  low : AllLow image s

theorem LowSpaces.step {event : MemEvent} (ok : LowSpaces image s) (low : FramesLow s event)
    (step : MemStep image s event t) : LowSpaces image t := by
  obtain ⟨after, kernel, -⟩ := ok.spaces.step step
  exact ⟨after, kernel.identity ok.identity, (ok.spaces.step_low ok.low step).mpr low⟩

theorem memStart_lowSpaces {k : Kernel} (zeroed : Zeroed k.memory image.kernelPd)
    (unused : k.taskManager.pidQueueSleeping.head = 0 ∧ k.taskManager.pidQueueSleeping.tail = 0) :
    LowSpaces image (memStart image k) :=
  ⟨memStart_spaces zeroed unused, by rw [memStart_memory]; exact memoryInit_identity zeroed, memStart_low zeroed⟩

/-- In every run whose calls find their frames below `ITSELF_END`, all directories and page tables are
reached through their physical addresses; and the next call keeps that exactly if it finds its frames there, too. -/
theorem tables_reachable {k : Kernel} {events : List MemEvent} (zeroed : Zeroed k.memory image.kernelPd)
    (unused : k.taskManager.pidQueueSleeping.head = 0 ∧ k.taskManager.pidQueueSleeping.tail = 0)
    (run : Run (Guarded (MemStep image) FramesLow) (memStart image k) events s) :
    TablesReachable image s ∧ ∀ event t, MemStep image s event t → (TablesReachable image t ↔ FramesLow s event) := by
  have ok : LowSpaces image s := run.invariant (memStart_lowSpaces zeroed unused) fun _ _ _ before step =>
    before.step step.left step.right
  refine ⟨(ok.spaces.reachable_iff ok.identity).mpr ok.low, fun event t step => ?_⟩
  obtain ⟨after, kernel, -⟩ := ok.spaces.step step
  rw [after.reachable_iff (kernel.identity ok.identity), ok.spaces.step_low ok.low step]

end Runs

/-! ## Two runs -/

theorem sampleKernel_start : LowSpaces sampleImage (memStart sampleImage sampleKernel) :=
  memStart_lowSpaces sampleKernel_zeroed ⟨rfl, rfl⟩

theorem sampleKernel_createLow :
    FramesLow (memStart sampleImage sampleKernel) (.task (.create 1 0x400000 0x500000 9)) :=
  ⟨2112, by decide, (memStart_filled sampleKernel_zeroed).not_taken (by decide) (Nat.le_refl _)⟩

theorem tables_reachable_one : ∃ s, s.live = [5] ∧ TablesReachable sampleImage s := by
  obtain ⟨s, created, live, -⟩ := sampleKernel_created
  exact ⟨s, live, (tables_reachable sampleKernel_zeroed ⟨rfl, rfl⟩
    (Run.single ⟨sampleKernel_createLow, created⟩)).1⟩

section Exhaust

variable {image : KernelImage} {s : System} {pid n : Nat} {v : UInt32}

/-- A table at `ITSELF_END` or above is out of reach. -/
theorem setMmap_unreachable (ok : Spaces image s) (live : pid ∈ s.live) (filled : s.kernel.memory.Filled n)
    (bound : n < 2 ^ 20) (high : 65536 ≤ n)
    (missing : present (s.kernel.memory.entry (s.cr3 pid) (testbits v 22 32)) = false) (p : UInt32) (flags : UInt16) :
    ¬TablesReachable image (s.withMemory (setMmap s.kernel.memory (s.cr3 pid) v p flags).2) := by
  intro reachable
  have free := filled.nextFree bound
  have directory := ok.directory live
  have table := @setMmap_absent_table _ _ v p flags n directory filled.covers free missing
  have entry := @setMmap_absent_entry _ _ v p flags n directory filled.covers free missing _ (indexInPde_lt v)
  have used : UsedFrame (setMmap s.kernel.memory (s.cr3 pid) v p flags).2 (s.cr3 pid)
      (frameOf (UInt32.ofNat (n * pageSize))) := by
    refine Or.inr ⟨testbits v 22 32, indexInPde_lt v, ?_, by rw [table]⟩
    rw [entry]
    exact withTable_present _ _ _ _
  have below := (reachable _ (List.mem_cons_of_mem _ (List.mem_map_of_mem (f := s.cr3) live)) _ used).left
  rw [below_itselfEnd, frameOf_frame bound] at below
  omega

theorem setMmap_takes (ok : Spaces image s) (live : pid ∈ s.live) (above : itselfEnd ≤ v)
    (filled : s.kernel.memory.Filled n) (bound : n < 2 ^ 20)
    (missing : present (s.kernel.memory.entry (s.cr3 pid) (testbits v 22 32)) = false) (p : UInt32) (flags : UInt16) :
    ∃ t, MemStep image s (.setMmap pid v p flags) t ∧ t.live = s.live ∧ t.cr3 = s.cr3 ∧
      t.kernel.memory = (setMmap s.kernel.memory (s.cr3 pid) v p flags).2 ∧
      t.kernel.memory.Filled (n + 1) ∧ present (t.kernel.memory.entry (s.cr3 pid) (testbits v 22 32)) = true ∧
      ∀ d ∈ directories image s, ∀ i : UInt32, i.toNat < 1024 → (d = s.cr3 pid → i ≠ testbits v 22 32) →
        t.kernel.memory.entry d i = s.kernel.memory.entry d i := by
  have free := filled.nextFree bound
  have directory := ok.directory live
  refine ⟨s.withMemory (setMmap s.kernel.memory (s.cr3 pid) v p flags).2,
    ⟨⟨live, above, Or.inr (filled.allocates bound)⟩, rfl⟩, rfl, rfl, rfl, ?_, ?_, ?_⟩
  · change Memory.Filled (setMmap s.kernel.memory (s.cr3 pid) v p flags).2 (n + 1)
    rw [setMmap_absent filled.covers free missing]
    exact ⟨filled.covers, filled.take.taken⟩
  · change present ((setMmap s.kernel.memory (s.cr3 pid) v p flags).2.entry _ _) = true
    rw [setMmap_absent_entry directory filled.covers free missing (indexInPde_lt v)]
    exact withTable_present _ _ _ _
  · intro d member i inside other
    change (setMmap s.kernel.memory (s.cr3 pid) v p flags).2.entry _ _ = _
    by_cases own : d = s.cr3 pid
    · rw [own, setMmap_absent_entry directory filled.covers free missing inside]
      exact withTable_entry_of_ne directory inside (indexInPde_lt v) (other own)
    · exact ok.isolated.keep_entries (List.mem_map_of_mem live) (setMmap_touches filled.covers directory
        (itselfEnd_index above) (fun _ => ⟨n, free⟩) p flags) member own inside

theorem loadMemory_takes (ok : Spaces image s) (live : pid ∈ s.live) (above : itselfEnd ≤ v)
    (filled : s.kernel.memory.Filled n) (bound : n < 2 ^ 20)
    (here : present (s.kernel.memory.entry (s.cr3 pid) (testbits v 22 32)) = true) (flags : UInt16) :
    ∃ t, MemStep image s (.loadMemory pid v flags) t ∧ t.live = s.live ∧ t.cr3 = s.cr3 ∧
      t.kernel.memory.Filled (n + 1) ∧ (∀ d ∈ directories image s, ∀ i : UInt32, i.toNat < 1024 →
        t.kernel.memory.entry d i = s.kernel.memory.entry d i) ∧
      ∀ w, w &&& 0xFFFFF000 ≠ v &&& 0xFFFFF000 →
        reach t.kernel.memory (s.cr3 pid) w = reach s.kernel.memory (s.cr3 pid) w := by
  have free := filled.nextFree bound
  have first := pMalloc_touches filled.covers (ok.directory live) free
  have taken : Memory.Filled (pMalloc s.kernel.memory).2 (n + 1) := by
    rw [pMalloc_nextFree filled.covers free]
    exact filled.take
  have there : present ((pMalloc s.kernel.memory).2.entry (s.cr3 pid) (testbits v 22 32)) = true := here
  have stored : (loadMemory s.kernel.memory (s.cr3 pid) v flags).2 =
      (pMalloc s.kernel.memory).2.setEntry ((pMalloc s.kernel.memory).2.table (s.cr3 pid) (testbits v 22 32))
        (testbits v 12 22) ((pMalloc s.kernel.memory).1 ||| flags.toUInt32) := by
    rw [loadMemory]
    exact congrArg Prod.snd (setMmap_present there)
  refine ⟨s.withMemory (loadMemory s.kernel.memory (s.cr3 pid) v flags).2,
    ⟨⟨live, above, filled.allocates bound, Or.inl there⟩, rfl⟩, rfl, rfl, ?_, ?_, ?_⟩
  · change Memory.Filled (loadMemory s.kernel.memory (s.cr3 pid) v flags).2 (n + 1)
    rw [stored]
    exact ⟨taken.covers, taken.taken⟩
  · intro d member i inside
    change (loadMemory s.kernel.memory (s.cr3 pid) v flags).2.entry _ _ = _
    have kept := first.trans (setEntry_touches first.covers first.directory (itselfEnd_index above) (indexInPde_lt v)
      there (indexInPte_lt v) ((pMalloc s.kernel.memory).1 ||| flags.toUInt32))
    rw [stored]
    by_cases own : d = s.cr3 pid
    · rw [own, setEntry_table_entry first.directory (indexInPde_lt v) there (indexInPte_lt v) _ inside]
      rfl
    · exact ok.isolated.keep_entries (List.mem_map_of_mem live) kept member own inside
  · intro w other
    change reach (loadMemory s.kernel.memory (s.cr3 pid) v flags).2 _ w = reach (pMalloc s.kernel.memory).2 _ w
    rw [stored]
    exact reach_congr (setEntry_table_keeps first.directory there _ other)

theorem loadMemory_run (ok : Spaces image s) (live : pid ∈ s.live) (above : itselfEnd ≤ v)
    (filled : s.kernel.memory.Filled n)
    (here : present (s.kernel.memory.entry (s.cr3 pid) (testbits v 22 32)) = true) (flags : UInt16) {calls : Nat}
    (bound : n + calls ≤ 2 ^ 20) :
    ∃ t, Run (Guarded (MemStep image) FramesLow) s (List.replicate calls (.loadMemory pid v flags)) t ∧
      Spaces image t ∧ t.live = s.live ∧ t.cr3 = s.cr3 ∧ t.kernel.memory.Filled (n + calls) ∧
      (∀ d ∈ directories image s, ∀ i : UInt32, i.toNat < 1024 →
        t.kernel.memory.entry d i = s.kernel.memory.entry d i) ∧
      ∀ w, w &&& 0xFFFFF000 ≠ v &&& 0xFFFFF000 →
        reach t.kernel.memory (s.cr3 pid) w = reach s.kernel.memory (s.cr3 pid) w := by
  induction calls with
  | zero => exact ⟨s, Run.refl s, ok, rfl, rfl, filled, fun _ _ _ _ => rfl, fun _ _ => rfl⟩
  | succ calls ih =>
      obtain ⟨mid, run, spaces, liveMid, cr3, filledMid, entries, pages⟩ := ih (by omega)
      have same : directories image mid = directories image s := by rw [directories, liveMid, cr3, directories]
      have there : present (mid.kernel.memory.entry (mid.cr3 pid) (testbits v 22 32)) = true := by
        rw [cr3, entries _ (List.mem_cons_of_mem _ (List.mem_map_of_mem live)) _ (indexInPde_lt v)]
        exact here
      obtain ⟨t, step, liveT, cr3T, filledT, entriesT, pagesT⟩ :=
        loadMemory_takes spaces (liveMid.symm ▸ live) above filledMid (by omega) there flags
      rw [cr3] at cr3T pagesT
      rw [same] at entriesT
      refine ⟨t, ?_, (spaces.step step).1, liveT.trans liveMid, cr3T, filledT,
        fun d member i inside => (entriesT d member i inside).trans (entries d member i inside),
        fun w other => (pagesT w other).trans (pages w other)⟩
      rw [List.replicate_succ']
      exact Run.tail run ⟨Or.inl there, step⟩

end Exhaust

theorem created_missing {image : KernelImage} {s t : System} {flag eip esp ddl : UInt32} (ok : Spaces image s)
    (created : MemStep image s (.task (.create flag eip esp ddl)) t) {pid : Nat} (live : t.live = pid :: s.live)
    {i : UInt32} (high : itselfEntries ≤ i.toNat) (inside : i.toNat < 1024) :
    present (t.kernel.memory.entry (t.cr3 pid) i) = false := by
  obtain ⟨n, nextFree⟩ := allocates_nextFree created.left
  obtain ⟨⟨new, k⟩, result, same⟩ := Option.bind_eq_some_iff.mp created.right
  obtain rfl := Option.some.inj same
  obtain rfl := List.head_eq_of_cons_eq live
  obtain ⟨own, -, copied⟩ := ok.create_entries nextFree result
  rw [System.cr3, own, copied i inside]
  exact ok.isolated.kernelHigh i high inside

theorem created_entries {image : KernelImage} {s t : System} {flag eip esp ddl : UInt32} (ok : Spaces image s)
    (created : MemStep image s (.task (.create flag eip esp ddl)) t) {d : UInt32} (member : d ∈ directories image s)
    {i : UInt32} (inside : i.toNat < 1024) : t.kernel.memory.entry d i = s.kernel.memory.entry d i := by
  obtain ⟨n, nextFree⟩ := allocates_nextFree created.left
  obtain ⟨⟨new, k⟩, result, same⟩ := Option.bind_eq_some_iff.mp created.right
  obtain rfl := Option.some.inj same
  obtain ⟨-, kept, -⟩ := ok.create_entries nextFree result
  exact kept d member i inside

/-- The first task has no page table above the identity map. -/
theorem sampleKernel_first : ∃ s, Guarded (MemStep sampleImage) FramesLow (memStart sampleImage sampleKernel)
      (.task (.create 1 0x400000 0x500000 9)) s ∧
    LowSpaces sampleImage s ∧ s.live = [5] ∧ s.kernel.memory.Filled 2113 ∧
    s.kernel.gdt = Function.update sampleKernel.gdt 5 (makeGdtDescForTss (sampleImage.tssAddress 5) dplKernel) ∧
    ∀ v : UInt32, itselfEnd ≤ v → present (s.kernel.memory.entry (s.cr3 5) (testbits v 22 32)) = false := by
  obtain ⟨s, created, live, filled, gdt⟩ := sampleKernel_created
  exact ⟨s, ⟨sampleKernel_createLow, created⟩, sampleKernel_start.step sampleKernel_createLow created, live, filled,
    gdt, fun v above =>
      created_missing sampleKernel_start.spaces created live (itselfEnd_index above) (indexInPde_lt v)⟩

/-- One page is loaded again and again until all frames below `ITSELF_END` are taken; the next page
table is out of reach. -/
theorem table_out_of_reach : ∃ events t, Run (MemStep sampleImage) (memStart sampleImage sampleKernel) events t ∧
    ¬TablesReachable sampleImage t := by
  obtain ⟨one, created, okOne, live, filledOne, -, missing⟩ := sampleKernel_first
  have five : 5 ∈ one.live := by
    rw [live]
    exact List.mem_cons_self
  -- The first table.
  obtain ⟨two, mapped, liveTwo, cr3Two, -, filledTwo, here, others⟩ :=
    setMmap_takes okOne.spaces five (by decide) filledOne (by decide) (missing 0x10000000 (by decide)) 0 7
  have five' : 5 ∈ two.live := by
    rw [liveTwo]
    exact five
  have spaces := (okOne.spaces.step mapped).1
  -- The frames 2114 to 65535.
  rw [← cr3Two] at here
  obtain ⟨full, run, spacesFull, liveFull, cr3Full, filledFull, entries, -⟩ :=
    @loadMemory_run _ _ _ _ 0x10000000 spaces five' (by decide) filledTwo here 7 63422 (by decide)
  have run := run.mono fun _ _ _ step => step.2
  have liveFull : 5 ∈ full.live := liveFull.symm ▸ five'
  have second : present (full.kernel.memory.entry (full.cr3 5) (testbits 0x10400000 22 32)) = false := by
    rw [cr3Full, entries _ (List.mem_cons_of_mem _ (List.mem_map_of_mem five')) _ (indexInPde_lt _), cr3Two,
      others _ (List.mem_cons_of_mem _ (List.mem_map_of_mem five)) _ (indexInPde_lt _) (fun _ => by decide)]
    exact missing 0x10400000 (by decide)
  have last : MemStep sampleImage full (.setMmap 5 0x10400000 0 7)
      (full.withMemory (setMmap full.kernel.memory (full.cr3 5) 0x10400000 0 7).2) :=
    ⟨⟨liveFull, by decide, Or.inr (filledFull.allocates (by decide))⟩, rfl⟩
  have whole := (((Run.single created.2).trans (Run.single mapped)).trans run).trans (Run.single last)
  exact ⟨_, _, whole, setMmap_unreachable spacesFull liveFull filledFull (by decide) (by decide) second 0 7⟩

end WegOS
