import WegOS.ActiveDirectory

/-! Runs with paging on.

Each call is made while the directory of some task, or the kernel's, is the active one. -/

namespace WegOS

open LittleEndian Transition

structure PagedEvent where
  active : UInt32
  event : MemEvent

def pagedStep (image : KernelImage) (s : System) (e : PagedEvent) : Option System :=
  match e.event with
  | .task (.create flag eip esp ddl) => do
      let (pid, k) ← createTaskOn image s.kernel e.active flag eip esp ddl
      pure ⟨k, pid :: s.live, s.exited.filter (· ≠ pid)⟩
  | .task event => step image s event
  | .setMmap pid v p flags => do
      let (_, m) ← setMmapOn s.kernel.memory e.active (s.cr3 pid) v p flags
      pure (s.withMemory m)
  | .loadMemory pid v flags => do
      let (_, m) ← loadMemoryOn s.kernel.memory e.active (s.cr3 pid) v flags
      pure (s.withMemory m)
  | .swapSectorSet pid v sector => do
      let m ← swapSectorSetOn s.kernel.memory e.active (s.cr3 pid) v sector
      pure (s.withMemory m)

def PagedStep (image : KernelImage) (s : System) (e : PagedEvent) (t : System) : Prop :=
  e.active ∈ directories image s ∧ Allowed s e.event ∧ pagedStep image s e = some t

/-- The frames that the call needs for directories and tables are found below `ITSELF_END`. -/
def FindsLow (s : System) (e : PagedEvent) : Prop := FramesLow s e.event

section Steps

variable {image : KernelImage} {s t : System}

theorem LowSpaces.directories (ok : LowSpaces image s) :
    LowDirectories s.kernel.memory image.kernelPd (s.live.map s.cr3) :=
  ⟨ok.spaces.isolated, ok.identity, ok.low⟩

theorem LowSpaces.pagedStep_eq {e : PagedEvent} (ok : LowSpaces image s) (here : e.active ∈ WegOS.directories image s)
    (allowed : Allowed s e.event) (low : FindsLow s e) : pagedStep image s e = memStep image s e.event := by
  have found := ok.directories
  obtain ⟨active, event⟩ := e
  cases event with
  | task event =>
      cases event with
      | create flag eip esp ddl =>
          obtain ⟨n, free⟩ := allocates_nextFree allowed
          have created := found.createTaskOn_eq here free ((nextFree_low free).mpr low) flag eip esp ddl
          simp only [pagedStep, memStep, WegOS.step, created]
      | tick => rfl
      | sleep counter => rfl
      | exit code => rfl
  | setMmap pid v p flags =>
      obtain ⟨live, above, succeeds⟩ := allowed
      have mapped := found.setMmapOn_eq here (List.mem_map_of_mem live) (itselfEnd_index above)
        (mapAllocates_nextFree succeeds) low p flags
      simp only [pagedStep, memStep, mapped, Option.bind_eq_bind, Option.bind_some, Option.pure_def]
  | loadMemory pid v flags =>
      obtain ⟨live, above, free, succeeds⟩ := allowed
      obtain ⟨n, nextFree⟩ := allocates_nextFree free
      have loaded := found.loadMemoryOn_eq here (List.mem_map_of_mem live) (itselfEnd_index above) free succeeds
        ((pMalloc_mapStaysLow ok.spaces.isolated.covers nextFree).mpr low) flags
      simp only [pagedStep, memStep, loaded, Option.bind_eq_bind, Option.bind_some, Option.pure_def]
  | swapSectorSet pid v sector =>
      obtain ⟨live, above, there⟩ := allowed
      have stored := found.swapSectorSetOn_eq here (List.mem_map_of_mem live) there sector
      simp only [pagedStep, memStep, stored, Option.bind_eq_bind, Option.bind_some, Option.pure_def]

theorem LowSpaces.of_paged {e : PagedEvent} (ok : LowSpaces image s)
    (taken : Guarded (PagedStep image) FindsLow s e t) :
    LowSpaces image t ∧ Guarded (MemStep image) FramesLow s e.event t := by
  obtain ⟨low, here, allowed, result⟩ := taken
  rw [ok.pagedStep_eq here allowed low] at result
  exact ⟨ok.step low ⟨allowed, result⟩, low, allowed, result⟩

/-- The kernel's directory may always be the active one. -/
theorem LowSpaces.to_paged {event : MemEvent} (ok : LowSpaces image s)
    (taken : Guarded (MemStep image) FramesLow s event t) :
    LowSpaces image t ∧ Guarded (PagedStep image) FindsLow s ⟨image.kernelPd, event⟩ t := by
  obtain ⟨low, allowed, result⟩ := taken
  have here : image.kernelPd ∈ WegOS.directories image s := List.mem_cons_self
  exact ⟨ok.step low ⟨allowed, result⟩, low, here, allowed,
    (@LowSpaces.pagedStep_eq _ _ ⟨image.kernelPd, event⟩ ok here allowed low).trans result⟩

/-- The runs with paging on are runs on physical memory. -/
theorem LowSpaces.run {events : List PagedEvent} (ok : LowSpaces image s)
    (run : Run (Guarded (PagedStep image) FindsLow) s events t) :
    LowSpaces image t ∧ Run (Guarded (MemStep image) FramesLow) s (events.map PagedEvent.event) t :=
  run.relabelled ok fun _ _ _ before taken => before.of_paged taken

theorem LowSpaces.paged {events : List MemEvent} (ok : LowSpaces image s)
    (run : Run (Guarded (MemStep image) FramesLow) s events t) :
    LowSpaces image t ∧
      Run (Guarded (PagedStep image) FindsLow) s (events.map fun event => ⟨image.kernelPd, event⟩) t :=
  run.relabelled ok fun _ _ _ before taken => before.to_paged taken

end Steps

/-! ## Isolation -/

/-- Whatever is active before and after, `has_addr` on directory `d` comes back with the same answer, and
`addr_translate` with the same address where the answer is yes. -/
structure Unchanged (image : KernelImage) (s t : System) (d : UInt32) : Prop where
  has : ∀ before ∈ directories image s, ∀ after ∈ directories image t, ∀ w,
    ∃ answer, hasAddrOn s.kernel.memory before d w = some answer ∧ hasAddrOn t.kernel.memory after d w = some answer
  translate : ∀ before ∈ directories image s, ∀ after ∈ directories image t, ∀ w,
    hasAddrOn s.kernel.memory before d w = some true →
      ∃ a, addrTranslateOn s.kernel.memory before d w = some a ∧ addrTranslateOn t.kernel.memory after d w = some a

section Isolation

variable {image : KernelImage} {s t : System}

theorem SameSpace.unchanged {d : UInt32} (same : SameSpace s.kernel.memory t.kernel.memory d)
    (before : LowSpaces image s) (after : LowSpaces image t) (here : d ∈ directories image s)
    (there : d ∈ directories image t) : Unchanged image s t d where
  has b inside a inside' w :=
    ⟨hasAddr s.kernel.memory d w, before.directories.hasAddrOn_eq inside here w,
      (after.directories.hasAddrOn_eq inside' there w).trans (congrArg some (same w).1)⟩
  translate b inside a inside' w mapped := by
    rw [before.directories.hasAddrOn_eq inside here w] at mapped
    have yes := Option.some.inj mapped
    obtain ⟨has, translate⟩ := same w
    exact ⟨addrTranslate s.kernel.memory d w, before.directories.addrTranslateOn_eq inside here yes,
      (after.directories.addrTranslateOn_eq inside' there (has.trans yes)).trans (congrArg some (translate yes))⟩

/-- In every run after `memory_init` whose frames for directories and tables are found below `ITSELF_END`, the
calls that are not on the directory of task `b` change no address of the space of `b`, and no call changes the
kernel's space. Distinct tasks have distinct directories. -/
theorem address_spaces_isolated {k : Kernel} {before calls : List PagedEvent} {b : Nat}
    (zeroed : Zeroed k.memory image.kernelPd)
    (unused : k.taskManager.pidQueueSleeping.head = 0 ∧ k.taskManager.pidQueueSleeping.tail = 0)
    (reached : Run (Guarded (PagedStep image) FindsLow) (memStart image k) before s) (live : b ∈ s.live)
    (run : Run (Guarded (PagedStep image) FindsLow) s calls t) (spared : ∀ e ∈ calls, Spares b e.event) :
    (∀ a ∈ s.live, a ≠ b → s.cr3 a ≠ s.cr3 b) ∧ t.cr3 b = s.cr3 b ∧ Unchanged image s t (s.cr3 b) ∧
      Unchanged image s t image.kernelPd := by
  have ok := ((memStart_lowSpaces zeroed unused).run reached).1
  obtain ⟨after, flat⟩ := ok.run run
  obtain ⟨-, kernel, others⟩ := ok.spaces.run (flat.mono fun _ _ _ taken => taken.2)
  have undisturbed := others b live fun event member => by
    obtain ⟨e, inside, rfl⟩ := List.mem_map.mp member
    exact spared e inside
  have here : s.cr3 b ∈ directories image s := List.mem_cons_of_mem _ (List.mem_map_of_mem live)
  have there : s.cr3 b ∈ directories image t := by
    rw [← undisturbed.cr3]
    exact List.mem_cons_of_mem _ (List.mem_map_of_mem undisturbed.live)
  exact ⟨fun a liveA different same => different (ok.spaces.distinct a liveA b live same), undisturbed.cr3,
    undisturbed.space.unchanged ok after here there,
    kernel.unchanged ok after List.mem_cons_self List.mem_cons_self⟩

end Isolation

/-! ## Two tasks -/

theorem sampleKernel_two_low : ∃ events s, Run (Guarded (MemStep sampleImage) FramesLow)
    (memStart sampleImage sampleKernel) events s ∧ LowSpaces sampleImage s ∧ s.live = [6, 5] ∧
      s.kernel.memory.Filled 2114 ∧ ∀ pid ∈ s.live, ∀ i : UInt32, itselfEntries ≤ i.toNat → i.toNat < 1024 →
        present (s.kernel.memory.entry (s.cr3 pid) i) = false := by
  obtain ⟨one, s, first, liveOne, filledOne, second, live, filled⟩ := sampleKernel_two
  have secondLow : FramesLow one (.task (.create 1 0x410000 0x510000 9)) :=
    ⟨2113, by decide, filledOne.not_taken (by decide) (Nat.le_refl _)⟩
  have okOne := sampleKernel_start.step sampleKernel_createLow first
  have five : 5 ∈ one.live := by
    rw [liveOne]
    exact List.mem_cons_self
  have kept : s.cr3 5 = one.cr3 5 := ((okOne.spaces.step second).2.2 5 five trivial).cr3
  refine ⟨_, s, (Run.single ⟨sampleKernel_createLow, first⟩).trans (Run.single ⟨secondLow, second⟩), okOne.step secondLow second,
    live, filled, fun pid inside i high bound => ?_⟩
  rw [live] at inside
  rcases List.mem_cons.mp inside with rfl | old
  · exact created_missing okOne.spaces second (by rw [live, liveOne]) high bound
  · obtain rfl := List.mem_singleton.mp old
    rw [kept, created_entries okOne.spaces second (List.mem_cons_of_mem _ (List.mem_map_of_mem five)) bound]
    exact created_missing sampleKernel_start.spaces first liveOne high bound

/-- Two tasks, the second of which maps a page while the directory of the first is active. -/
theorem address_spaces_isolated_two : ∃ s t, s.live = [6, 5] ∧
    Run (Guarded (PagedStep sampleImage) FindsLow) s [⟨s.cr3 5, .setMmap 6 0x10000000 0x5000 7⟩] t ∧
      Unchanged sampleImage s t (s.cr3 5) := by
  obtain ⟨events, s, flat, low, live, filled, -⟩ := sampleKernel_two_low
  obtain ⟨ok, reached⟩ := sampleKernel_start.paged flat
  have five : 5 ∈ s.live := by
    rw [live]
    decide
  have here : s.cr3 5 ∈ directories sampleImage s := List.mem_cons_of_mem _ (List.mem_map_of_mem five)
  have call : MemStep sampleImage s (.setMmap 6 0x10000000 0x5000 7)
      (s.withMemory (setMmap s.kernel.memory (s.cr3 6) 0x10000000 0x5000 7).2) :=
    ⟨⟨by rw [live]; decide, by decide, Or.inr (filled.allocates (by decide))⟩, rfl⟩
  have found : FramesLow s (.setMmap 6 0x10000000 0x5000 7) :=
    Or.inr ⟨2114, by decide, filled.not_taken (by decide) (Nat.le_refl _)⟩
  have run : Run (Guarded (PagedStep sampleImage) FindsLow) s [⟨s.cr3 5, .setMmap 6 0x10000000 0x5000 7⟩] _ :=
    Run.single ⟨found, here, call.1,
      (@LowSpaces.pagedStep_eq _ _ ⟨s.cr3 5, .setMmap 6 0x10000000 0x5000 7⟩ ok here call.1 found).trans call.2⟩
  exact ⟨s, _, live, run, (address_spaces_isolated sampleKernel_zeroed ⟨rfl, rfl⟩ reached five run
    (by simp [Spares])).2.2.1⟩

/-! ## A table at `ITSELF_END` -/

section High

variable {m : Memory} {kernelPd d e v w : UInt32} {dirs : List UInt32} {n : Nat}

theorem withTable_reach (ok : DirectoryOk m d) (bound : (testbits v 22 32).toNat < 1024)
    (other : testbits w 22 32 ≠ testbits v 22 32) : reach (m.withTable d (testbits v 22 32) n) d w = reach m d w := by
  refine reach_congr (walk_congr (withTable_entry_of_ne ok (indexInPde_lt w) bound other) fun there => ?_)
  exact Memory.entry_setEntry_of_ne _ _ ok.aligned (table_aligned _ _ _) bound (indexInPte_lt w)
    (Or.inl fun equal => ok.tableApart _ (indexInPde_lt w) there (congrArg frameOf equal))

variable (ok : LowDirectories m kernelPd dirs) (member : d ∈ dirs) (high : itselfEntries ≤ (testbits v 22 32).toNat)
  (free : m.NextFree n)

include ok member high free

/-- The entry that `set_mmap` stores with its own directory active goes to where that directory leads the physical
address of the new table. -/
theorem setMmapOn_own (missing : present (m.entry d (testbits v 22 32)) = false) {table : UInt32}
    (new : table = UInt32.ofNat (n * pageSize))
    (other : testbits (table + 4 * testbits v 12 22) 22 32 ≠ testbits v 22 32)
    {place : UInt32} (shown : reach m d (table + 4 * testbits v 12 22) = some place) (p : UInt32) (flags : UInt16) :
    setMmapOn m d d v p flags = some (false, { m.withTable d (testbits v 22 32) n with
      bytes := putWord (m.withTable d (testbits v 22 32) n).bytes (addressPlace place) (p ||| flags.toUInt32) }) := by
  have directory := ok.isolated.directory d member
  rw [ok.setMmapOn_new (List.mem_cons_of_mem _ member) member free high missing, ← new, Memory.setEntryOn,
    withTable_reach directory (indexInPde_lt v) other, shown]
  rfl

/-- A word that lands in a page table of another directory is what its page leads to from then on. -/
theorem overwritten_translate (other : e ∈ dirs) (different : e ≠ d)
    (there : present (m.entry e (testbits w 22 32)) = true) (highW : itselfEntries ≤ (testbits w 22 32).toNat)
    (word : UInt32) :
    addrTranslateOn
      ((m.withTable d (testbits v 22 32) n).setEntry (m.table e (testbits w 22 32)) (testbits w 12 22) word) kernelPd e
      w = some ((word &&& 0xFFFFF000) + (w &&& 0xFFF)) := by
  have inE := List.mem_cons_of_mem kernelPd other
  have touches := withTable_touches ok.isolated.covers (ok.isolated.directory d member) free high (indexInPde_lt v)
  have directory := ok.isolated.ok inE
  have own : OwnFrame m e (frameOf (m.table e (testbits w 22 32))) :=
    Or.inr ⟨_, highW, indexInPde_lt w, there, rfl⟩
  have kernel : SameSpace (m.withTable d (testbits v 22 32) n)
      ((m.withTable d (testbits v 22 32) n).setEntry (m.table e (testbits w 22 32)) (testbits w 12 22) word)
      kernelPd := by
    refine walk_frames ok.isolated.kernel.aligned fun a used => ?_
    refine Memory.setEntry_bytes _ _ _ (table_aligned _ _ _) (indexInPte_lt w) fun inside => ?_
    rw [inside] at used
    have before := used_congr (fun i bound => ok.isolated.keep_entries member touches List.mem_cons_self
      (ok.isolated.kernelApart d member) bound) used
    exact ok.isolated.apart e other kernelPd List.mem_cons_self (ok.isolated.kernelApart e other) _ own before
  have identity := kernel.identity (ok.identity_touch member touches List.mem_cons_self)
  have entry :
      ((m.withTable d (testbits v 22 32) n).setEntry (m.table e (testbits w 22 32)) (testbits w 12 22) word).entry e
        (testbits w 22 32) = m.entry e (testbits w 22 32) := by
    rw [Memory.entry_setEntry_of_ne _ _ (table_aligned _ _ _) directory.aligned (indexInPte_lt w) (indexInPde_lt w)
      (Or.inl fun equal => directory.tableApart _ (indexInPde_lt w) there (congrArg frameOf equal.symm))]
    exact ok.isolated.keep_entries member touches inE different (indexInPde_lt w)
  have table := entryOn_below identity (table_aligned m e (testbits w 22 32))
    (ok.table_low inE (indexInPde_lt w) there) (indexInPte_lt w)
  rw [Memory.entry_setEntry, Memory.table] at table
  rw [addrTranslateOn, entryOn_below identity directory.aligned (ok.low e inE _ (Or.inl rfl)) (indexInPde_lt w), entry]
  simp only [Option.bind_eq_bind, Option.bind_some, Memory.table, table]
  rfl

end High

/-- All frames below `ITSELF_END` are taken. Frame `0xFFFF` is a page of task 5 at `0x10000000`, and the page table
for `0x20000000` of task 6. -/
theorem sampleKernel_full : ∃ events s, Run (Guarded (MemStep sampleImage) FramesLow)
    (memStart sampleImage sampleKernel) events s ∧ LowSpaces sampleImage s ∧ s.live = [6, 5] ∧
      s.kernel.memory.Filled 65536 ∧ reach s.kernel.memory (s.cr3 5) 0x10000000 = some 0x0FFFF000 ∧
      present (s.kernel.memory.entry (s.cr3 5) (testbits 0x10400000 22 32)) = false ∧
      present (s.kernel.memory.entry (s.cr3 6) (testbits 0x20000000 22 32)) = true ∧
      s.kernel.memory.table (s.cr3 6) (testbits 0x20000000 22 32) = 0x0FFFF000 ∧
      reach s.kernel.memory (s.cr3 6) 0x20000000 = some 0x5000 := by
  obtain ⟨events, s, run, ok, live, filled, missing⟩ := sampleKernel_two_low
  have five : 5 ∈ s.live := by
    rw [live]
    decide
  have six : 6 ∈ s.live := by
    rw [live]
    decide
  have inFive : s.cr3 5 ∈ directories sampleImage s := List.mem_cons_of_mem _ (List.mem_map_of_mem five)
  have inSix : s.cr3 6 ∈ directories sampleImage s := List.mem_cons_of_mem _ (List.mem_map_of_mem six)
  have apart : s.cr3 6 ≠ s.cr3 5 := fun same => absurd (ok.spaces.distinct 6 six 5 five same) (by decide)
  -- The page of task 5.
  obtain ⟨one, mapped, liveOne, cr3One, memoryOne, filledOne, hereOne, othersOne⟩ :=
    setMmap_takes ok.spaces five (show itselfEnd ≤ 0x10000000 by decide) filled (by decide)
      (missing 5 five _ (by decide) (by decide)) 0x0FFFF000 7
  have lowOne : FramesLow s (.setMmap 5 0x10000000 0x0FFFF000 7) :=
    Or.inr ⟨2114, by decide, filled.not_taken (by decide) (Nat.le_refl _)⟩
  have pageOne : reach one.kernel.memory (s.cr3 5) 0x10000000 = some 0x0FFFF000 := by
    obtain ⟨translate, has⟩ := @setMmap_absent_maps s.kernel.memory (s.cr3 5) 0x10000000 0x0FFFF000 7 (by decide)
      (by decide) (by decide) 2114 (ok.spaces.directory five) filled.covers (filled.nextFree (by decide))
      (missing 5 five _ (by decide) (by decide)) 0 (by decide)
    rw [memoryOne, reach]
    exact (if_pos has).trans (congrArg some translate)
  have okOne := ok.step lowOne mapped
  -- The frames 2115 to 65534.
  rw [← cr3One] at hereOne
  obtain ⟨two, loads, spacesTwo, liveTwo, cr3Two, filledTwo, entriesTwo, pagesTwo⟩ :=
    @loadMemory_run _ _ _ _ 0x10001000 okOne.spaces (liveOne.symm ▸ five) (by decide) filledOne hereOne 7 63420
      (by decide)
  have okTwo : LowSpaces sampleImage two := loads.invariant okOne fun _ _ _ before step => before.step step.1 step.2
  have liveTwo := liveTwo.trans liveOne
  have cr3Two := cr3Two.trans cr3One
  have sameOne : directories sampleImage one = directories sampleImage s := by
    rw [directories, liveOne, cr3One, directories]
  rw [sameOne] at entriesTwo
  rw [cr3One] at pagesTwo
  have missingTwo : present (two.kernel.memory.entry (two.cr3 6) (testbits 0x20000000 22 32)) = false := by
    rw [cr3Two, entriesTwo _ inSix _ (indexInPde_lt _),
      othersOne _ inSix _ (indexInPde_lt _) fun same => absurd same apart]
    exact missing 6 six _ (by decide) (by decide)
  -- The page table of task 6.
  have sixTwo : 6 ∈ two.live := liveTwo.symm ▸ six
  have fiveTwo : 5 ∈ two.live := liveTwo.symm ▸ five
  obtain ⟨full, last, liveFull, cr3Full, memoryFull, filledFull, hereFull, othersFull⟩ :=
    setMmap_takes spacesTwo sixTwo (show itselfEnd ≤ 0x20000000 by decide) filledTwo (by decide) missingTwo 0x5000 7
  have lowFull : FramesLow two (.setMmap 6 0x20000000 0x5000 7) :=
    Or.inr ⟨65535, by decide, filledTwo.not_taken (by decide) (Nat.le_refl _)⟩
  have sameTwo : directories sampleImage two = directories sampleImage s := by
    rw [directories, liveTwo, cr3Two, directories]
  rw [sameTwo] at othersFull
  have undisturbed := ((spacesTwo.step last).2.2 5 fiveTwo (show (6 : Nat) ≠ 5 by decide)).space
  refine ⟨_, full, ((run.trans (Run.single ⟨lowOne, mapped⟩)).trans loads).trans (Run.single ⟨lowFull, last⟩),
    okTwo.step lowFull last, liveFull.trans (liveTwo.trans live), filledFull, ?_, ?_, ?_, ?_, ?_⟩
  · rw [cr3Full, undisturbed.reach, cr3Two, pagesTwo _ (by decide)]
    exact pageOne
  · rw [cr3Full, cr3Two, othersFull _ inFive _ (indexInPde_lt _) (fun same => absurd (cr3Two ▸ same) apart.symm),
      entriesTwo _ inFive _ (indexInPde_lt _), othersOne _ inFive _ (indexInPde_lt _) fun _ => by decide]
    exact missing 5 five _ (by decide) (by decide)
  · rw [cr3Full]
    exact hereFull
  · rw [cr3Full, memoryFull, setMmap_absent_table (spacesTwo.directory sixTwo) filledTwo.covers
      (filledTwo.nextFree (by decide)) missingTwo]
    rfl
  · obtain ⟨translate, has⟩ := @setMmap_absent_maps two.kernel.memory (two.cr3 6) 0x20000000 0x5000 7 (by decide)
      (by decide) (by decide) 65535 (spacesTwo.directory sixTwo) filledTwo.covers (filledTwo.nextFree (by decide))
      missingTwo 0 (by decide)
    rw [cr3Full, memoryFull, reach]
    exact (if_pos has).trans (congrArg some translate)

/-- With the directory of task 5 active, a `set_mmap` on it changes a page of task 6. -/
theorem set_mmap_changes_other_space : ∃ events s t,
    Run (Guarded (PagedStep sampleImage) FindsLow) (memStart sampleImage sampleKernel) events s ∧ s.live = [6, 5] ∧
      PagedStep sampleImage s ⟨s.cr3 5, .setMmap 5 0x10400000 0 7⟩ t ∧
      hasAddrOn s.kernel.memory sampleImage.kernelPd (s.cr3 6) 0x20000000 = some true ∧
      addrTranslateOn s.kernel.memory sampleImage.kernelPd (s.cr3 6) 0x20000000 = some 0x5000 ∧
      addrTranslateOn t.kernel.memory sampleImage.kernelPd (s.cr3 6) 0x20000000 = some 0 := by
  obtain ⟨events, s, flat, ok, live, filled, shown, missing, there, table, before⟩ := sampleKernel_full
  have run := (sampleKernel_start.paged flat).2
  have five : 5 ∈ s.live := by
    rw [live]
    decide
  have six : 6 ∈ s.live := by
    rw [live]
    decide
  have apart : s.cr3 6 ≠ s.cr3 5 := fun same => absurd (ok.spaces.distinct 6 six 5 five same) (by decide)
  have inFive := List.mem_map_of_mem (f := s.cr3) five
  have inSix := List.mem_map_of_mem (f := s.cr3) six
  have free := filled.nextFree (by decide)
  have stored := setMmapOn_own ok.directories inFive (show itselfEntries ≤ (testbits 0x10400000 22 32).toNat by decide)
    free missing (show 0x10000000 = UInt32.ofNat (65536 * pageSize) from rfl) (by decide) shown 0 7
  have mapped : hasAddr s.kernel.memory (s.cr3 6) 0x20000000 = true ∧
      addrTranslate s.kernel.memory (s.cr3 6) 0x20000000 = 0x5000 := by
    rw [reach] at before
    split_ifs at before with has
    exact ⟨has, Option.some.inj before⟩
  have later := overwritten_translate ok.directories inFive
    (show itselfEntries ≤ (testbits 0x10400000 22 32).toNat by decide) free inSix apart there (by decide) 7
  rw [table] at later
  refine ⟨_, s, s.withMemory _, run, live, ⟨List.mem_cons_of_mem _ inFive,
    ⟨five, by decide, Or.inr (filled.allocates (by decide))⟩, ?_⟩, ?_, ?_, later⟩
  · simp only [pagedStep, stored, Option.bind_eq_bind, Option.bind_some, Option.pure_def]
    rfl
  · exact (ok.directories.hasAddrOn_eq List.mem_cons_self (List.mem_cons_of_mem _ inSix) _).trans
      (congrArg some mapped.1)
  · exact (ok.directories.addrTranslateOn_eq List.mem_cons_self (List.mem_cons_of_mem _ inSix) mapped.1).trans
      (congrArg some mapped.2)

end WegOS
