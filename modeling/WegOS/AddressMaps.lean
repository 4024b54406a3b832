import WegOS.PagedRuns

/-! Address spaces as maps from pages to frames, over every run. -/

namespace WegOS

open Transition LittleEndian

/-! ## Maps -/

/-- From the first address of a page to the one of its frame. -/
abbrev PageMap := UInt32 → Option UInt32

def pageOf (v : UInt32) : UInt32 := v &&& 0xFFFFF000

def identityMap : PageMap := fun page => if page < itselfEnd then some page else none

def Follows (m : Memory) (cr3 : UInt32) (pages : PageMap) : Prop :=
  ∀ w, reach m cr3 w = (pages (pageOf w)).map (· + (w &&& 0xFFF))

section Walk

variable {m m' : Memory} {cr3 v p : UInt32} {pages : PageMap}

theorem offset_lt (a : UInt32) : (a &&& 0xFFF).toNat < 4096 := by
  rw [offset_mask]
  exact Nat.mod_lt _ (by decide)

theorem pageOf_above {a : UInt32} : itselfEnd ≤ pageOf a ↔ itselfEnd ≤ a := by
  rw [UInt32.le_iff_toNat_le, UInt32.le_iff_toNat_le, itselfEnd_toNat, pageOf, page_mask, pageSize]
  omega

theorem Follows.same (follows : Follows m cr3 pages) (same : SameSpace m m' cr3) : Follows m' cr3 pages :=
  fun w => (same.reach w).trans (follows w)

theorem Follows.mapped (follows : Follows m cr3 pages) (maps : MapsPage m m' cr3 v p) :
    Follows m' cr3 (Function.update pages (pageOf v) (some p)) := by
  intro w
  by_cases same : pageOf w = pageOf v
  · obtain ⟨translate, has⟩ := maps.1 (w &&& 0xFFF) (offset_lt w)
    have here : (v &&& 0xFFFFF000) + (w &&& 0xFFF) = w := by
      rw [← pageOf, ← same]
      exact page_split w
    rw [here] at translate has
    rw [reach, if_pos has, translate, same, Function.update_self]
    rfl
  · rw [Function.update_of_ne same, ← follows w]
    exact reach_congr (maps.2 w same)

/-- A page whose entry has no present bit any more. -/
theorem Follows.unmap (follows : Follows m cr3 pages) (ok : DirectoryOk m cr3)
    (here : present (m.entry cr3 (testbits v 22 32)) = true) {word : UInt32} (absent : present word = false) :
    Follows (m.setEntry (m.table cr3 (testbits v 22 32)) (testbits v 12 22) word) cr3
      (Function.update pages (pageOf v) none) := by
  have keep : ∀ w, (m.setEntry (m.table cr3 (testbits v 22 32)) (testbits v 12 22) word).entry cr3
      (testbits w 22 32) = m.entry cr3 (testbits w 22 32) := fun w =>
    setEntry_table_entry ok (indexInPde_lt v) here (indexInPte_lt v) word (indexInPde_lt w)
  intro w
  by_cases same : pageOf w = pageOf v
  · obtain ⟨pde, pte⟩ := (same_page_iff v w).mp same
    have gone : hasAddr (m.setEntry (m.table cr3 (testbits v 22 32)) (testbits v 12 22) word) cr3 w = false := by
      have table : (m.setEntry (m.table cr3 (testbits v 22 32)) (testbits v 12 22) word).table cr3
          (testbits v 22 32) = m.table cr3 (testbits v 22 32) := congrArg (· &&& 0xFFFFF000) (keep v)
      rw [hasAddr_eq, pde, pte, table, Memory.entry_setEntry, absent, Bool.and_false]
    rw [reach, gone, same, Function.update_self]
    rfl
  · rw [Function.update_of_ne same, ← follows w]
    exact reach_congr (setEntry_table_keeps ok here word same)

end Walk

/-! ## Free frames -/

def Blank (m : Memory) : Prop := ∀ a, ¬m.Taken (frameOf a) → m.bytes a = 0

section Blank

variable {m : Memory} {d v p : UInt32} {flags : UInt16} {n : Nat}

theorem Blank.entry (blank : Blank m) (free : ¬m.Taken n) (bound : n < 2 ^ 20) {j : UInt32} (inside : j.toNat < 1024) :
    present (m.entry (UInt32.ofNat (n * pageSize)) j) = false := by
  have zero : m.entry (UInt32.ofNat (n * pageSize)) j = leWord fun _ => 0 := by
    refine leWord_congr fun k small => blank _ ?_
    rw [entry_frame (frame_aligned n) inside small, frameOf_frame bound]
    exact free
  rw [zero]
  decide

theorem Blank.take (blank : Blank m) (covers : m.Covers) (free : m.NextFree n) : Blank (pMalloc m).2 := by
  rw [pMalloc_nextFree covers free]
  exact fun a open' => blank a fun taken => open' ((taken_bitFree m n _).mpr (Or.inr taken))

theorem Blank.store (blank : Blank m) {table j word : UInt32} (aligned : PageAligned table) (inside : j.toNat < 1024)
    (taken : m.Taken (frameOf table)) : Blank (m.setEntry table j word) := by
  intro a open'
  rw [m.setEntry_bytes word a aligned inside fun same => open' (same ▸ taken)]
  exact blank a open'

theorem Blank.setMmap (blank : Blank m) (covers : m.Covers) (ok : DirectoryOk m d)
    (succeeds : present (m.entry d (testbits v 22 32)) = false → ∃ n, m.NextFree n) :
    Blank (setMmap m d v p flags).2 := by
  cases here : present (m.entry d (testbits v 22 32)) with
  | true =>
      rw [setMmap_present here]
      exact blank.store (table_aligned _ _ _) (indexInPte_lt v) (ok.tableTaken _ (indexInPde_lt v) here)
  | false =>
      obtain ⟨n, free⟩ := succeeds here
      have own : ∀ k, m.Taken k → Memory.Taken (m.withTable d (testbits v 22 32) n) k :=
        fun k taken => (taken_bitFree m n k).mpr (Or.inr taken)
      have first := @Blank.store _ (blank.take covers free) d (testbits v 22 32)
        (UInt32.ofNat (n * pageSize) ||| pageTableFlagUserReadWrite) ok.aligned (indexInPde_lt v)
      rw [pMalloc_nextFree covers free] at first
      rw [setMmap_absent covers free here]
      refine (first (own _ ok.taken)).store (frame_aligned n) (indexInPte_lt v) ?_
      rw [frameOf_frame (nextFree_lt covers free)]
      exact (taken_bitFree m n n).mpr (Or.inl rfl)

theorem Blank.setMmap_maps (blank : Blank m) (covers : m.Covers) (ok : DirectoryOk m d) (aligned : PageAligned p)
    (small : flags.toNat < 4096) (mapped : testbit flags.toUInt32 pageTableP = true)
    (succeeds : present (m.entry d (testbits v 22 32)) = false → ∃ n, m.NextFree n) :
    MapsPage m (WegOS.setMmap m d v p flags).2 d v p := by
  cases here : present (m.entry d (testbits v 22 32)) with
  | true => exact setMmap_maps_of_present aligned small mapped ok here
  | false =>
      obtain ⟨n, free⟩ := succeeds here
      refine (setMmap_maps_of_absent aligned small mapped ok covers free here).mpr fun j inside _ => ?_
      exact blank.entry (nextFree_not_taken free) (nextFree_lt covers free) inside

end Blank

/-! ## The kernel's own map -/

section Kernel

variable {m : Memory} {image : KernelImage} {kernelPd : UInt32}

theorem identity_blank {k : Nat} (mapped : IdentityMapped m kernelPd 0) (blank : Blank m) (bound : k ≤ 65536) :
    Blank ((List.range k).foldl (fun m i => (setMmap m kernelPd (UInt32.ofNat (i * pageSize))
      (UInt32.ofNat (i * pageSize)) pageTableFlagKernelReadWrite).2) m) := by
  induction k with
  | zero => exact blank
  | succ k ih =>
      have before := mapped.loop (show k ≤ 65536 by omega)
      rw [List.range_succ, List.foldl_append, List.foldl_cons, List.foldl_nil]
      exact (ih (by omega)).setMmap before.filled.covers before.directory fun _ => ⟨_, before.nextFree (by omega)⟩

theorem memoryInit_blank (zeroed : Zeroed m image.kernelPd)
    (blank : ∀ a, kernelFrames ≤ frameOf a → m.bytes a = 0) : Blank (memoryInit m image.kernelPd) := by
  have pages : (itselfEnd.toNat + (pageSize - 1)) / pageSize = 65536 := by decide
  have mapped := memoryAllocInit_identityMapped zeroed
  rw [memoryInit, addMmapToItself, pages]
  refine identity_blank mapped (fun a free => ?_) (Nat.le_refl _)
  have outside := mt (mapped.filled.taken (frameOf a) (frameOf_lt a)).mpr free
  obtain ⟨bitmap, result, -⟩ := memoryAllocInit_eq m
  rw [result]
  exact blank a (by omega)

theorem memoryInit_follows (zeroed : Zeroed m image.kernelPd) :
    Follows (memoryInit m image.kernelPd) image.kernelPd identityMap := by
  intro w
  have side : pageOf w < itselfEnd ↔ w < itselfEnd := by
    rw [← UInt32.not_le, ← UInt32.not_le, pageOf_above]
  by_cases below : w < itselfEnd
  · obtain ⟨has, translate⟩ := memoryInit_identity zeroed w below
    rw [reach, if_pos has, translate, identityMap, if_pos (side.mpr below), Option.map_some, pageOf, page_split]
  · have above := UInt32.not_lt.mp below
    have missing := (memoryInit_isolated zeroed).kernelHigh _ (itselfEnd_index above) (indexInPde_lt w)
    have gone : hasAddr (memoryInit m image.kernelPd) image.kernelPd w = false := by
      rw [hasAddr_eq, missing, Bool.false_and]
    rw [reach, gone, identityMap, if_neg (mt side.mp below)]
    rfl

end Kernel

/-! ## Runs -/

structure Mapped where
  system : System
  maps : Nat → PageMap

def mapPage (maps : Nat → PageMap) (pid : Nat) (v : UInt32) (frame : Option UInt32) : Nat → PageMap :=
  Function.update maps pid (Function.update (maps pid) (pageOf v) frame)

theorem mapPage_self (maps : Nat → PageMap) (pid : Nat) (v : UInt32) (frame : Option UInt32) :
    mapPage maps pid v frame pid (pageOf v) = frame := by
  rw [mapPage, Function.update_self, Function.update_self]

theorem mapPage_other (maps : Nat → PageMap) {pid other : Nat} {v w : UInt32} (frame : Option UInt32)
    (different : ¬(other = pid ∧ w = pageOf v)) : mapPage maps pid v frame other w = maps other w := by
  by_cases task : other = pid
  · subst task
    rw [mapPage, Function.update_self, Function.update_of_ne fun same => different ⟨rfl, same⟩]
  · rw [mapPage, Function.update_of_ne task]

/-- A new task has the kernel's map; the calls change one page each. -/
def Mapped.note (s : Mapped) (event : MemEvent) (system : System) : Mapped :=
  ⟨system,
    match event with
    | .task (.create ..) => Function.update s.maps (getPidEmpty s.system.kernel.gdt) identityMap
    | .task _ => s.maps
    | .setMmap pid v p _ => mapPage s.maps pid v (some p)
    | .loadMemory pid v _ => mapPage s.maps pid v (some (pMalloc s.system.kernel.memory).1)
    | .swapSectorSet pid v _ => mapPage s.maps pid v none⟩

/-- Frames begin at pages, and the flags are flags and have the present bit. -/
def Proper : MemEvent → Prop
  | .setMmap _ _ p flags => PageAligned p ∧ flags.toNat < 4096 ∧ testbit flags.toUInt32 pageTableP = true
  | .loadMemory _ _ flags => flags.toNat < 4096 ∧ testbit flags.toUInt32 pageTableP = true
  | _ => True

def MappedStep (image : KernelImage) (s : Mapped) (event : MemEvent) (t : Mapped) : Prop :=
  Proper event ∧ ∃ system, MemStep image s.system event system ∧ t = s.note event system

def PagedMappedStep (image : KernelImage) (s : Mapped) (e : PagedEvent) (t : Mapped) : Prop :=
  Proper e.event ∧ ∃ system, Guarded (PagedStep image) FindsLow s.system e system ∧ t = s.note e.event system

def mappedStart (image : KernelImage) (k : Kernel) : Mapped := ⟨memStart image k, fun _ => identityMap⟩

structure Charted (image : KernelImage) (s : Mapped) : Prop where
  spaces : Spaces image s.system
  blank : Blank s.system.kernel.memory
  kernel : Follows s.system.kernel.memory image.kernelPd identityMap
  own : ∀ pid ∈ s.system.live, Follows s.system.kernel.memory (s.system.cr3 pid) (s.maps pid)

section Runs

variable {image : KernelImage} {s t : Mapped} {system : System}

/-- An event of the scheduler creates a task, or leaves memory and the directories alone. -/
theorem step_cases {before after : System} {event : Event} (result : step image before event = some after) :
    (∃ flag eip esp ddl k, event = .create flag eip esp ddl ∧
      createTask image before.kernel flag eip esp ddl = some (getPidEmpty before.kernel.gdt, k) ∧
      after = ⟨k, getPidEmpty before.kernel.gdt :: before.live,
        before.exited.filter (· ≠ getPidEmpty before.kernel.gdt)⟩) ∨
    (∀ flag eip esp ddl, event ≠ .create flag eip esp ddl) ∧ after.kernel.memory = before.kernel.memory ∧
      (∀ pid ∈ after.live, pid ∈ before.live) ∧ ∀ pid, after.cr3 pid = before.cr3 pid := by
  cases event with
  | create flag eip esp ddl =>
      obtain ⟨⟨pid, k⟩, created, same⟩ := Option.bind_eq_some_iff.mp result
      obtain rfl := Option.some.inj same
      obtain ⟨-, rfl, -⟩ := createTask_eq created
      exact Or.inl ⟨flag, eip, esp, ddl, k, rfl, created, rfl⟩
  | tick =>
      obtain ⟨tm, ticked, same⟩ := Option.bind_eq_some_iff.mp result
      obtain rfl := Option.some.inj same
      exact Or.inr ⟨fun _ _ _ _ => Event.noConfusion, rfl, fun _ live => live,
        fun pid => congrArg Tss.cr3 (checkTaskAffairs_tss ticked pid)⟩
  | sleep counter =>
      obtain ⟨tm, slept, same⟩ := Option.bind_eq_some_iff.mp result
      obtain rfl := Option.some.inj same
      exact Or.inr ⟨fun _ _ _ _ => Event.noConfusion, rfl, fun _ live => live,
        fun pid => congrArg Tss.cr3 (sysSleep_tss slept pid)⟩
  | exit code =>
      obtain ⟨k, exited, same⟩ := Option.bind_eq_some_iff.mp result
      obtain rfl := Option.some.inj same
      obtain ⟨memory, tss⟩ := sysExit_frame exited
      exact Or.inr ⟨fun _ _ _ _ => Event.noConfusion, memory, fun _ live => List.mem_of_mem_filter live,
        fun pid => congrArg Tss.cr3 (tss pid)⟩

theorem note_quiet {event : Event} (quiet : ∀ flag eip esp ddl, event ≠ .create flag eip esp ddl) :
    s.note (.task event) system = ⟨system, s.maps⟩ := by
  cases event with
  | create flag eip esp ddl => exact absurd rfl (quiet flag eip esp ddl)
  | tick => rfl
  | sleep counter => rfl
  | exit code => rfl

theorem Charted.quiet (ok : Charted image s) (spaces : Spaces image system)
    (memory : system.kernel.memory = s.system.kernel.memory) (live : ∀ pid ∈ system.live, pid ∈ s.system.live)
    (cr3 : ∀ pid, system.cr3 pid = s.system.cr3 pid) : Charted image ⟨system, s.maps⟩ := by
  refine ⟨spaces, ?_, ?_, fun pid inside => ?_⟩
  · rw [memory]
    exact ok.blank
  · rw [memory]
    exact ok.kernel
  · rw [memory, cr3]
    exact ok.own pid (live pid inside)

theorem Charted.call (ok : Charted image s) {a : Nat} (live : a ∈ s.system.live) {m : Memory} {pages : PageMap}
    (touches : Touches s.system.kernel.memory m (s.system.cr3 a)) (blank : Blank m)
    (follows : Follows m (s.system.cr3 a) pages) :
    Charted image ⟨s.system.withMemory m, Function.update s.maps a pages⟩ := by
  obtain ⟨spaces, kernel, others⟩ := ok.spaces.call live touches
  refine ⟨spaces, blank, ok.kernel.same kernel, fun b inside => ?_⟩
  change Follows m (s.system.cr3 b) (Function.update s.maps a pages b)
  by_cases own : b = a
  · subst own
    rw [Function.update_self]
    exact follows
  · rw [Function.update_of_ne own]
    exact (ok.own b inside).same (others b inside (Ne.symm own)).space

theorem Blank.create {k k' : Kernel} {flag eip esp ddl : UInt32} {pid n : Nat} (blank : Blank k.memory)
    (covers : k.memory.Covers) (free : k.memory.NextFree n)
    (result : createTask image k flag eip esp ddl = some (pid, k')) : Blank k'.memory := by
  obtain ⟨-, -, -, memory, -⟩ := createTask_eq result
  rw [memory, pMalloc_nextFree covers free]
  intro a open'
  have other : frameOf a ≠ frameOf (UInt32.ofNat (n * pageSize)) := by
    intro same
    rw [frameOf_frame (nextFree_lt covers free)] at same
    exact open' ((taken_bitFree _ n _).mpr (Or.inl same))
  rw [copyPts_bytes _ (frame_aligned n) other]
  exact blank a fun taken => open' ((taken_bitFree _ n _).mpr (Or.inr taken))

theorem reach_entries {m : Memory} {d d' w : UInt32}
    (entries : ∀ i : UInt32, i.toNat < 1024 → m.entry d i = m.entry d' i) : reach m d w = reach m d' w := by
  have entry := entries _ (indexInPde_lt w)
  have table : m.table d (testbits w 22 32) = m.table d' (testbits w 22 32) := congrArg (· &&& 0xFFFFF000) entry
  rw [reach, reach, hasAddr_eq, hasAddr_eq, addrTranslate_eq, addrTranslate_eq, entry, table]

theorem Charted.create (ok : Charted image s) {flag eip esp ddl : UInt32} {pid : Nat} {k : Kernel}
    (free : allocates s.system.kernel.memory)
    (result : createTask image s.system.kernel flag eip esp ddl = some (pid, k)) :
    Charted image ⟨⟨k, pid :: s.system.live, s.system.exited.filter (· ≠ pid)⟩,
      Function.update s.maps pid identityMap⟩ := by
  obtain ⟨n, nextFree⟩ := allocates_nextFree free
  obtain ⟨spaces, kernel, others⟩ := ok.spaces.create free result
  obtain ⟨cr3, kept, copied⟩ := ok.spaces.create_entries nextFree result
  have fresh : pid ∉ s.system.live := (List.nodup_cons.mp spaces.consistent.placed.nodup).1
  have after := ok.kernel.same kernel
  refine ⟨spaces, ok.blank.create ok.spaces.isolated.covers nextFree result, after, fun b inside => ?_⟩
  change Follows k.memory (k.taskManager.tasks b).tss.cr3 (Function.update s.maps pid identityMap b)
  by_cases own : b = pid
  · subst own
    have entries : ∀ i : UInt32, i.toNat < 1024 →
        k.memory.entry (UInt32.ofNat (n * pageSize)) i = k.memory.entry image.kernelPd i :=
      fun i small => (copied i small).trans (kept _ List.mem_cons_self i small).symm
    rw [Function.update_self]
    intro w
    rw [cr3, reach_entries entries]
    exact after w
  · have old : b ∈ s.system.live := List.mem_of_ne_of_mem own inside
    have undisturbed := others b old
    have kept := (ok.own b old).same undisturbed.space
    rw [← undisturbed.cr3] at kept
    rw [Function.update_of_ne own]
    exact kept

theorem Charted.step {event : MemEvent} (ok : Charted image s) (taken : MappedStep image s event t) :
    Charted image t := by
  obtain ⟨proper, system, step, rfl⟩ := taken
  have spaces := (ok.spaces.step step).1
  obtain ⟨allowed, result⟩ := step
  have covers := ok.spaces.isolated.covers
  cases event with
  | task event =>
      rcases step_cases result with ⟨flag, eip, esp, ddl, k, rfl, created, rfl⟩ | ⟨quiet, memory, live, cr3⟩
      · exact ok.create allowed created
      · rw [note_quiet quiet]
        exact ok.quiet spaces memory live cr3
  | setMmap pid v p flags =>
      obtain rfl := Option.some.inj result
      obtain ⟨live, above, succeeds⟩ := allowed
      obtain ⟨aligned, small, mapped⟩ := proper
      have directory := ok.spaces.directory live
      have found := mapAllocates_nextFree succeeds
      exact ok.call live (setMmap_touches covers directory (itselfEnd_index above) found p flags)
        (ok.blank.setMmap covers directory found)
        ((ok.own pid live).mapped (ok.blank.setMmap_maps covers directory aligned small mapped found))
  | loadMemory pid v flags =>
      obtain rfl := Option.some.inj result
      obtain ⟨live, above, free, succeeds⟩ := allowed
      obtain ⟨small, mapped⟩ := proper
      obtain ⟨n, nextFree⟩ := allocates_nextFree free
      have first := pMalloc_touches covers (ok.spaces.directory live) nextFree
      have found := mapAllocates_nextFree succeeds
      have second := setMmap_touches first.covers first.directory (itselfEnd_index above) found
        (pMalloc s.system.kernel.memory).1 flags
      have blank := ok.blank.take covers nextFree
      have aligned : PageAligned (pMalloc s.system.kernel.memory).1 := by
        rw [pMalloc_nextFree covers nextFree]
        exact frame_aligned n
      have before : Follows (pMalloc s.system.kernel.memory).2 (s.system.cr3 pid) (s.maps pid) := by
        have own := ok.own pid live
        rw [pMalloc_nextFree covers nextFree]
        exact own
      exact ok.call live (first.trans second) (blank.setMmap first.covers first.directory found)
        (before.mapped (blank.setMmap_maps first.covers first.directory aligned small mapped found))
  | swapSectorSet pid v sector =>
      obtain rfl := Option.some.inj result
      obtain ⟨live, above, here⟩ := allowed
      have directory := ok.spaces.directory live
      exact ok.call live (setEntry_touches covers directory (itselfEnd_index above) (indexInPde_lt v) here
        (indexInPte_lt v) _)
        (ok.blank.store (table_aligned _ _ _) (indexInPte_lt v) (directory.tableTaken _ (indexInPde_lt v) here))
        ((ok.own pid live).unmap directory here (slot_absent sector))

theorem LowSpaces.of_mapped {e : PagedEvent} (ok : LowSpaces image s.system) (taken : PagedMappedStep image s e t) :
    LowSpaces image t.system ∧ MappedStep image s e.event t := by
  obtain ⟨proper, system, step, rfl⟩ := taken
  obtain ⟨after, flat⟩ := ok.of_paged step
  exact ⟨after, proper, system, flat.2, rfl⟩

theorem LowSpaces.to_mapped {event : MemEvent} (ok : LowSpaces image s.system) (low : FramesLow s.system event)
    (taken : MappedStep image s event t) : PagedMappedStep image s ⟨image.kernelPd, event⟩ t := by
  obtain ⟨proper, system, step, rfl⟩ := taken
  exact ⟨proper, system, (ok.to_paged ⟨low, step⟩).2, rfl⟩

theorem mappedStart_charted {k : Kernel} (zeroed : Zeroed k.memory image.kernelPd)
    (unused : k.taskManager.pidQueueSleeping.head = 0 ∧ k.taskManager.pidQueueSleeping.tail = 0)
    (blank : ∀ a, kernelFrames ≤ frameOf a → k.memory.bytes a = 0) : Charted image (mappedStart image k) := by
  have memory : (mappedStart image k).system.kernel.memory = memoryInit k.memory image.kernelPd :=
    memStart_memory image k
  have nobody : (mappedStart image k).system.live = [] := by
    rw [mappedStart, memStart]
  refine ⟨memStart_spaces zeroed unused, ?_, ?_, ?_⟩
  · rw [memory]
    exact memoryInit_blank zeroed blank
  · rw [memory]
    exact memoryInit_follows zeroed
  · rw [nobody]
    exact fun _ inside => absurd inside List.not_mem_nil

/-- On blank memory, in every run after `memory_init` whose tables are below `ITSELF_END`, each task's directory leads
every address to where the calls on it say: the last call on its page counts, and pages without a call are the
kernel's. -/
theorem address_maps {k : Kernel} {events : List PagedEvent} (zeroed : Zeroed k.memory image.kernelPd)
    (unused : k.taskManager.pidQueueSleeping.head = 0 ∧ k.taskManager.pidQueueSleeping.tail = 0)
    (blank : ∀ a, kernelFrames ≤ frameOf a → k.memory.bytes a = 0)
    (run : Run (PagedMappedStep image) (mappedStart image k) events t) :
    Follows t.system.kernel.memory image.kernelPd identityMap ∧
    ∀ pid ∈ t.system.live, Follows t.system.kernel.memory (t.system.cr3 pid) (t.maps pid) := by
  obtain ⟨-, ok⟩ : LowSpaces image t.system ∧ Charted image t := by
    apply @Run.invariant _ _ _ (fun s => LowSpaces image s.system ∧ Charted image s) _ _ _ run
      ⟨memStart_lowSpaces zeroed unused, mappedStart_charted zeroed unused blank⟩
    intro _ _ _ before step
    obtain ⟨after, flat⟩ := before.1.of_mapped step
    exact ⟨after, before.2.step flat⟩
  exact ⟨ok.kernel, ok.own⟩

theorem sampleKernel_mapped : ∃ s : System, s.live = [5] ∧ s.kernel.memory.Filled 2113 ∧ LowSpaces sampleImage s ∧
    PagedMappedStep sampleImage (mappedStart sampleImage sampleKernel)
      ⟨sampleImage.kernelPd, .task (.create 1 0x400000 0x500000 9)⟩ ⟨s, fun _ => identityMap⟩ := by
  obtain ⟨s, created, live, filled, -⟩ := sampleKernel_created
  have noted : MappedStep sampleImage (mappedStart sampleImage sampleKernel) (.task (.create 1 0x400000 0x500000 9))
      ⟨s, fun _ => identityMap⟩ := by
    refine ⟨trivial, s, created, ?_⟩
    rw [Mapped.note, mappedStart, Function.update_eq_self_iff.mpr rfl]
  exact ⟨s, live, filled, sampleKernel_start.step sampleKernel_createLow created,
    LowSpaces.to_mapped sampleKernel_start sampleKernel_createLow noted⟩

theorem address_maps_page : ∃ (events : List PagedEvent) (t : Mapped),
    Run (PagedMappedStep sampleImage) (mappedStart sampleImage sampleKernel) events t ∧
      reach t.system.kernel.memory (t.system.cr3 5) 0x10000123 = some 0x5123 ∧
      reach t.system.kernel.memory (t.system.cr3 5) 0x10001123 = none := by
  obtain ⟨s, live, filled, ok, created⟩ := sampleKernel_mapped
  have five : 5 ∈ s.live := by
    rw [live]
    exact List.mem_cons_self
  have call : MemStep sampleImage s (.setMmap 5 0x10000000 0x5000 7)
      (s.withMemory (setMmap s.kernel.memory (s.cr3 5) 0x10000000 0x5000 7).2) :=
    ⟨⟨five, by decide, Or.inr (filled.allocates (by decide))⟩, rfl⟩
  have mapped : MappedStep sampleImage ⟨s, fun _ => identityMap⟩ (.setMmap 5 0x10000000 0x5000 7)
      ⟨s.withMemory (setMmap s.kernel.memory (s.cr3 5) 0x10000000 0x5000 7).2,
        mapPage (fun _ => identityMap) 5 0x10000000 (some 0x5000)⟩ :=
    ⟨⟨by decide, by decide, by decide⟩, _, call, rfl⟩
  have low : FramesLow s (.setMmap 5 0x10000000 0x5000 7) :=
    Or.inr ⟨2113, by decide, filled.not_taken (by decide) (Nat.le_refl _)⟩
  have run := (Run.single created).trans (Run.single (LowSpaces.to_mapped ok low mapped))
  have follows := (address_maps sampleKernel_zeroed ⟨rfl, rfl⟩ (fun _ _ => rfl) run).2 5 five
  dsimp only at follows
  rw [mapPage, Function.update_self] at follows
  refine ⟨_, _, run, (follows _).trans ?_, (follows _).trans ?_⟩
  · decide
  · decide

/-! ## Frames of their own -/

/-- Above the identity map, no frame is mapped twice, and none holds a directory or a page table. -/
structure Private (image : KernelImage) (s : Mapped) : Prop where
  backed : ∀ a ∈ s.system.live, ∀ v p, itselfEnd ≤ v → s.maps a v = some p →
    s.system.kernel.memory.Taken (frameOf p) ∧ PageAligned p ∧
      ∀ d ∈ directories image s.system, ¬UsedFrame s.system.kernel.memory d (frameOf p)
  once : ∀ a ∈ s.system.live, ∀ b ∈ s.system.live, ∀ v w p, itselfEnd ≤ v → itselfEnd ≤ w →
    s.maps a v = some p → s.maps b w = some p → a = b ∧ v = w

theorem Spaces.used_after {s : System} (ok : Spaces image s) {a : Nat} (live : a ∈ s.live) {m : Memory}
    (touches : Touches s.kernel.memory m (s.cr3 a)) {d : UInt32} (member : d ∈ directories image s) {n : Nat}
    (used : UsedFrame m d n) : UsedFrame s.kernel.memory d n ∨ ¬s.kernel.memory.Taken n := by
  have inside := List.mem_map_of_mem (f := s.cr3) live
  by_cases own : d = s.cr3 a
  · subst own
    rcases touches.used used with before | gained
    · exact Or.inl before
    · exact (touches.gained n gained).imp OwnFrame.used id
  · exact Or.inl (used_congr (fun i bound => ok.isolated.keep_entries inside touches member own bound) used)

theorem Private.call (ok : Private image s) (spaces : Spaces image s.system) {a : Nat} (live : a ∈ s.system.live)
    {m : Memory} (touches : Touches s.system.kernel.memory m (s.system.cr3 a)) :
    Private image ⟨s.system.withMemory m, s.maps⟩ := by
  refine ⟨fun b inside v p above mapped => ?_, ok.once⟩
  obtain ⟨taken, aligned, apart⟩ := ok.backed b inside v p above mapped
  refine ⟨touches.taken _ taken, aligned, fun d member used => ?_⟩
  rcases spaces.used_after live touches member used with before | free
  · exact apart d member before
  · exact free taken

theorem Private.quiet (ok : Private image s) (memory : system.kernel.memory = s.system.kernel.memory)
    (live : ∀ pid ∈ system.live, pid ∈ s.system.live) (cr3 : ∀ pid, system.cr3 pid = s.system.cr3 pid) :
    Private image ⟨system, s.maps⟩ := by
  refine ⟨fun a inside v p above mapped => ?_, fun a inA b inB => ok.once a (live a inA) b (live b inB)⟩
  obtain ⟨taken, aligned, apart⟩ := ok.backed a (live a inside) v p above mapped
  rw [memory]
  refine ⟨taken, aligned, fun d member => apart d ?_⟩
  rcases List.mem_cons.mp member with rfl | task
  · exact List.mem_cons_self
  · obtain ⟨b, there, rfl⟩ := List.mem_map.mp task
    rw [cr3]
    exact List.mem_cons_of_mem _ (List.mem_map_of_mem (live b there))

theorem Private.put (ok : Private image s) {a : Nat} {v : UInt32} {frame : Option UInt32}
    (fresh : ∀ p, frame = some p → s.system.kernel.memory.Taken (frameOf p) ∧ PageAligned p ∧
      (∀ d ∈ directories image s.system, ¬UsedFrame s.system.kernel.memory d (frameOf p)) ∧
      ∀ b ∈ s.system.live, ∀ w, itselfEnd ≤ w → s.maps b w ≠ some p) :
    Private image ⟨s.system, mapPage s.maps a v frame⟩ := by
  have cases' : ∀ b w p, mapPage s.maps a v frame b w = some p →
      (b = a ∧ w = pageOf v ∧ frame = some p) ∨ s.maps b w = some p := by
    intro b w p mapped
    by_cases here : b = a ∧ w = pageOf v
    · obtain ⟨rfl, rfl⟩ := here
      rw [mapPage_self] at mapped
      exact Or.inl ⟨rfl, rfl, mapped⟩
    · rw [mapPage_other _ _ here] at mapped
      exact Or.inr mapped
  refine ⟨fun b inside w p above mapped => ?_, fun b inB c inC w x p aboveW aboveX first second => ?_⟩
  · rcases cases' b w p mapped with ⟨-, -, new⟩ | old
    · obtain ⟨taken, aligned, apart, -⟩ := fresh p new
      exact ⟨taken, aligned, apart⟩
    · exact ok.backed b inside w p above old
  · rcases cases' b w p first with ⟨rfl, rfl, new⟩ | old
    · rcases cases' c x p second with ⟨rfl, rfl, -⟩ | old
      · exact ⟨rfl, rfl⟩
      · exact absurd old ((fresh p new).2.2.2 c inC x aboveX)
    · rcases cases' c x p second with ⟨rfl, rfl, new⟩ | older
      · exact absurd old ((fresh p new).2.2.2 b inB w aboveW)
      · exact ok.once b inB c inC w x p aboveW aboveX old older

theorem Private.create (ok : Private image s) (spaces : Spaces image s.system) {flag eip esp ddl : UInt32} {pid : Nat}
    {k : Kernel} (free : allocates s.system.kernel.memory)
    (result : createTask image s.system.kernel flag eip esp ddl = some (pid, k)) :
    Private image ⟨⟨k, pid :: s.system.live, s.system.exited.filter (· ≠ pid)⟩,
      Function.update s.maps pid identityMap⟩ := by
  obtain ⟨n, nextFree⟩ := allocates_nextFree free
  obtain ⟨-, -, others⟩ := spaces.create free result
  obtain ⟨cr3, kept, copied⟩ := spaces.create_entries nextFree result
  obtain ⟨-, -, -, memory, -⟩ := createTask_eq result
  have bound := nextFree_lt spaces.isolated.covers nextFree
  have taken : ∀ j, s.system.kernel.memory.Taken j → k.memory.Taken j := by
    intro j before
    rw [memory, pMalloc_nextFree spaces.isolated.covers nextFree]
    exact (taken_bitFree _ n j).mpr (Or.inr before)
  have above : ∀ a ∈ pid :: s.system.live, ∀ v p, itselfEnd ≤ v →
      Function.update s.maps pid identityMap a v = some p → a ∈ s.system.live ∧ s.maps a v = some p := by
    intro a inside v p high mapped
    by_cases own : a = pid
    · rw [own, Function.update_self, identityMap, if_neg (UInt32.not_lt.mpr high)] at mapped
      cases mapped
    · rw [Function.update_of_ne own] at mapped
      exact ⟨List.mem_of_ne_of_mem own inside, mapped⟩
  refine ⟨fun a inside v p high mapped => ?_, fun a inA b inB v w p highV highW first second => ?_⟩
  · obtain ⟨old, before⟩ := above a inside v p high mapped
    obtain ⟨held, aligned, apart⟩ := ok.backed a old v p high before
    refine ⟨taken _ held, aligned, fun d member used => ?_⟩
    rcases List.mem_cons.mp member with rfl | task
    · exact apart _ List.mem_cons_self (used_congr (kept _ List.mem_cons_self) used)
    · obtain ⟨b, there, rfl⟩ := List.mem_map.mp task
      rcases List.mem_cons.mp there with rfl | older
      · change UsedFrame k.memory (k.taskManager.tasks b).tss.cr3 (frameOf p) at used
        rw [cr3] at used
        rcases copied_used copied used with itself | shared
        · rw [frameOf_frame bound] at itself
          exact nextFree_not_taken nextFree (itself ▸ held)
        · exact apart _ List.mem_cons_self shared
      · have place := List.mem_cons_of_mem image.kernelPd (List.mem_map_of_mem (f := s.system.cr3) older)
        rw [(others b older).cr3] at used
        exact apart _ place (used_congr (kept _ place) used)
  · obtain ⟨oldA, beforeA⟩ := above a inA v p highV first
    obtain ⟨oldB, beforeB⟩ := above b inB w p highW second
    exact ok.once a oldA b oldB v w p highV highW beforeA beforeB

theorem Private.load (ok : Private image s) (spaces : Spaces image s.system) {a : Nat} {v : UInt32} {flags : UInt16}
    (live : a ∈ s.system.live) (above : itselfEnd ≤ v) (free : allocates s.system.kernel.memory)
    (succeeds : mapAllocates (pMalloc s.system.kernel.memory).2 (s.system.cr3 a) v) :
    Private image ⟨s.system.withMemory (loadMemory s.system.kernel.memory (s.system.cr3 a) v flags).2,
      mapPage s.maps a v (some (pMalloc s.system.kernel.memory).1)⟩ := by
  obtain ⟨n, nextFree⟩ := allocates_nextFree free
  have covers := spaces.isolated.covers
  have first := pMalloc_touches covers (spaces.directory live) nextFree
  have second := setMmap_touches first.covers first.directory (itselfEnd_index above)
    (mapAllocates_nextFree succeeds) (pMalloc s.system.kernel.memory).1 flags
  have middle := (spaces.call live first).1
  have loaded : (loadMemory s.system.kernel.memory (s.system.cr3 a) v flags).2 =
      (setMmap (pMalloc s.system.kernel.memory).2 (s.system.cr3 a) v (pMalloc s.system.kernel.memory).1 flags).2 := rfl
  rw [loaded]
  generalize (setMmap (pMalloc s.system.kernel.memory).2 (s.system.cr3 a) v (pMalloc s.system.kernel.memory).1
    flags).2 = m at second ⊢
  have after : Private image ⟨s.system.withMemory m, s.maps⟩ := (ok.call spaces live first).call middle live second
  have held : Memory.Taken (pMalloc s.system.kernel.memory).2 n := by
    rw [pMalloc_nextFree covers nextFree]
    exact (taken_bitFree _ n n).mpr (Or.inl rfl)
  have unused : ¬s.system.kernel.memory.Taken n := nextFree_not_taken nextFree
  have address : (pMalloc s.system.kernel.memory).1 = UInt32.ofNat (n * pageSize) := by
    rw [pMalloc_nextFree covers nextFree]
  have frame : frameOf (UInt32.ofNat (n * pageSize)) = n := frameOf_frame (nextFree_lt covers nextFree)
  refine after.put fun p new => ?_
  obtain rfl := Option.some.inj new
  rw [address, frame]
  refine ⟨second.taken n held, frame_aligned n, fun d member used => ?_, fun b inside w high mapped => ?_⟩
  · rcases middle.used_after live second member used with before | open'
    · have entries : ∀ i : UInt32, i.toNat < 1024 →
          (pMalloc s.system.kernel.memory).2.entry d i = s.system.kernel.memory.entry d i := by
        rw [pMalloc_nextFree covers nextFree]
        exact fun _ _ => rfl
      exact unused ((spaces.isolated.ok member).used_taken (used_congr entries before))
    · exact open' held
  · have backed := (ok.backed b inside w _ high mapped).1
    rw [frame] at backed
    exact unused backed

def OwnFrames : MemEvent → Prop
  | .setMmap .. => False
  | _ => True

theorem Private.step {event : MemEvent} (ok : Private image s) (spaces : Spaces image s.system)
    (own : OwnFrames event) (taken : MappedStep image s event t) : Private image t := by
  obtain ⟨-, system, step, rfl⟩ := taken
  obtain ⟨allowed, result⟩ := step
  cases event with
  | task event =>
      rcases step_cases result with ⟨flag, eip, esp, ddl, k, rfl, created, rfl⟩ | ⟨quiet, memory, live, cr3⟩
      · exact ok.create spaces allowed created
      · rw [note_quiet quiet]
        exact ok.quiet memory live cr3
  | setMmap pid v p flags => exact absurd own id
  | loadMemory pid v flags =>
      obtain rfl := Option.some.inj result
      obtain ⟨live, above, free, succeeds⟩ := allowed
      exact ok.load spaces live above free succeeds
  | swapSectorSet pid v sector =>
      obtain rfl := Option.some.inj result
      obtain ⟨live, above, here⟩ := allowed
      have touches := setEntry_touches spaces.isolated.covers (spaces.directory live) (itselfEnd_index above)
        (indexInPde_lt v) here (indexInPte_lt v) (sector <<< 3)
      exact (ok.call spaces live touches).put fun _ new => nomatch new

theorem Follows.frame {m : Memory} {cr3 v x : UInt32} {pages : PageMap} (follows : Follows m cr3 pages)
    (reached : reach m cr3 v = some x) : ∃ p, pages (pageOf v) = some p ∧ (PageAligned p → frameOf x = frameOf p) := by
  rw [follows v, Option.map_eq_some_iff] at reached
  obtain ⟨p, found, rfl⟩ := reached
  refine ⟨p, found, fun aligned => ?_⟩
  have bound := p.toNat_lt
  rw [frameOf, frameOf, UInt32.toNat_add, offset_mask]
  simp only [PageAligned, pageSize] at aligned ⊢
  omega

theorem mappedStart_private {k : Kernel} : Private image (mappedStart image k) := by
  have nobody : (mappedStart image k).system.live = [] := by
    rw [mappedStart, memStart]
  refine ⟨?_, ?_⟩
  · rw [nobody]
    exact fun _ inside => absurd inside List.not_mem_nil
  · rw [nobody]
    exact fun _ inside => absurd inside List.not_mem_nil

/-- In every run whose tables are below `ITSELF_END` and in which tasks get their frames from `load_memory`, no two
pages above the identity map, of one task or of two, lead to one frame, and none leads to a page directory or a page
table. -/
theorem frames_private {k : Kernel} {events : List PagedEvent} (zeroed : Zeroed k.memory image.kernelPd)
    (unused : k.taskManager.pidQueueSleeping.head = 0 ∧ k.taskManager.pidQueueSleeping.tail = 0)
    (blank : ∀ a, kernelFrames ≤ frameOf a → k.memory.bytes a = 0)
    (run : Run (fun s e t => OwnFrames e.event ∧ PagedMappedStep image s e t) (mappedStart image k) events t) :
    ∀ a ∈ t.system.live, ∀ v x, itselfEnd ≤ v → reach t.system.kernel.memory (t.system.cr3 a) v = some x →
      (∀ d ∈ directories image t.system, ¬UsedFrame t.system.kernel.memory d (frameOf x)) ∧
      ∀ b ∈ t.system.live, ∀ w y, itselfEnd ≤ w → reach t.system.kernel.memory (t.system.cr3 b) w = some y →
        frameOf x = frameOf y → a = b ∧ pageOf v = pageOf w := by
  obtain ⟨-, charted, ok⟩ : LowSpaces image t.system ∧ Charted image t ∧ Private image t := by
    apply @Run.invariant _ _ _ (fun s => LowSpaces image s.system ∧ Charted image s ∧ Private image s) _ _ _ run
      ⟨memStart_lowSpaces zeroed unused, mappedStart_charted zeroed unused blank, mappedStart_private⟩
    intro _ _ _ before step
    obtain ⟨after, flat⟩ := before.1.of_mapped step.2
    exact ⟨after, before.2.1.step flat, before.2.2.step before.2.1.spaces step.1 flat⟩
  intro a inA v x aboveV reached
  obtain ⟨p, found, frame⟩ := (charted.own a inA).frame reached
  obtain ⟨-, aligned, apart⟩ := ok.backed a inA _ p (pageOf_above.mpr aboveV) found
  refine ⟨?_, fun b inB w y aboveW reachedY same => ?_⟩
  · rw [frame aligned]
    exact apart
  · obtain ⟨q, foundQ, frameQ⟩ := (charted.own b inB).frame reachedY
    obtain ⟨-, alignedQ, -⟩ := ok.backed b inB _ q (pageOf_above.mpr aboveW) foundQ
    rw [frame aligned, frameQ alignedQ] at same
    obtain rfl := aligned_eq aligned alignedQ same
    exact ok.once a inA b inB _ _ p (pageOf_above.mpr aboveV) (pageOf_above.mpr aboveW) found foundQ

theorem frames_private_load : ∃ (events : List PagedEvent) (t : Mapped) (x : UInt32),
    Run (fun s e t => OwnFrames e.event ∧ PagedMappedStep sampleImage s e t) (mappedStart sampleImage sampleKernel)
      events t ∧
    reach t.system.kernel.memory (t.system.cr3 5) 0x10000000 = some x ∧
    ∀ d ∈ directories sampleImage t.system, ¬UsedFrame t.system.kernel.memory d (frameOf x) := by
  obtain ⟨s, live, filled, ok, created⟩ := sampleKernel_mapped
  have five : 5 ∈ s.live := by
    rw [live]
    exact List.mem_cons_self
  have next := filled.nextFree (by decide)
  have second : allocates (pMalloc s.kernel.memory).2 := by
    rw [pMalloc_nextFree filled.covers next]
    exact filled.take.allocates (by decide)
  have call : MemStep sampleImage s (.loadMemory 5 0x10000000 7)
      (s.withMemory (loadMemory s.kernel.memory (s.cr3 5) 0x10000000 7).2) :=
    ⟨⟨five, by decide, filled.allocates (by decide), Or.inr second⟩, rfl⟩
  have loaded : MappedStep sampleImage ⟨s, fun _ => identityMap⟩ (.loadMemory 5 0x10000000 7)
      ⟨s.withMemory (loadMemory s.kernel.memory (s.cr3 5) 0x10000000 7).2,
        mapPage (fun _ => identityMap) 5 0x10000000 (some (pMalloc s.kernel.memory).1)⟩ :=
    ⟨⟨by decide, by decide⟩, _, call, rfl⟩
  have low : FramesLow s (.loadMemory 5 0x10000000 7) :=
    Or.inr ⟨2113, 2114, by decide, by decide, filled.not_taken (by decide) (Nat.le_refl _),
      filled.not_taken (by decide) (by decide)⟩
  have start : LowSpaces sampleImage (mappedStart sampleImage sampleKernel).system := sampleKernel_start
  have first := (LowSpaces.of_mapped start created).2
  have charted := ((mappedStart_charted sampleKernel_zeroed ⟨rfl, rfl⟩ fun _ _ => rfl).step first).step loaded
  have reached := charted.own 5 five 0x10000000
  have ownCreate : OwnFrames (.task (.create 1 0x400000 0x500000 9)) := trivial
  have ownLoad : OwnFrames (.loadMemory 5 0x10000000 7) := trivial
  have run : Run (fun s e t => OwnFrames e.event ∧ PagedMappedStep sampleImage s e t)
      (mappedStart sampleImage sampleKernel) _ _ :=
    (Run.single ⟨ownCreate, created⟩).trans (Run.single ⟨ownLoad, LowSpaces.to_mapped ok low loaded⟩)
  dsimp only at reached
  rw [mapPage, Function.update_self, Function.update_self, Option.map_some] at reached
  exact ⟨_, _, _, run, reached,
    (frames_private sampleKernel_zeroed ⟨rfl, rfl⟩ (fun _ _ => rfl) run 5 five _ _ (by decide) reached).1⟩

end Runs

end WegOS
