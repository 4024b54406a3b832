import WegOS.PageFault

/-! Which swap slots a page fault reads.

Beside a run, the slots that `swap_sector_set` records for each page of each task are noted, and the word that was
stored last in the entry of the page. -/

namespace WegOS

open Transition

/-! ## The sectors that are read -/

def slotSectors (slot : UInt32) : List UInt32 := (List.range 8).map fun k => slot + UInt32.ofNat k

def faultSectors (m : Memory) (cr3 virtual : UInt32) : List UInt32 :=
  (swapSectorOfOn m cr3 cr3 virtual).elim [] slotSectors

/-- Only sectors of one of the slots are read; without a slot none is, and no page is installed. -/
def FaultRespects (disk : Disk) (m : Memory) (cr3 virtual errorCode : UInt32) (slots : List UInt32) : Prop :=
  if slots = [] then
    faultSectors m cr3 virtual = [] ∧
      ∀ m', onPageFaultOn m disk cr3 virtual errorCode = some m' → hasAddr m' cr3 virtual = false
  else ∃ slot ∈ slots, ∀ sector ∈ faultSectors m cr3 virtual, sector ∈ slotSectors slot

section Sectors

theorem mem_slotSectors {slot sector : UInt32} : sector ∈ slotSectors slot ↔ (sector - slot).toNat < 8 := by
  rw [slotSectors, List.mem_map]
  constructor
  · rintro ⟨k, inside, rfl⟩
    have small := List.mem_range.mp inside
    rw [UInt32.add_comm, UInt32.add_sub_cancel, UInt32.toNat_ofNat']
    omega
  · intro inside
    refine ⟨(sector - slot).toNat, List.mem_range.mpr inside, ?_⟩
    rw [UInt32.ofNat_toNat, UInt32.add_comm, UInt32.sub_add_cancel]

theorem slotSectors_subset {a b : UInt32} : (∀ sector ∈ slotSectors a, sector ∈ slotSectors b) ↔ a = b := by
  constructor
  · intro inside
    have first := mem_slotSectors.mp (inside a (mem_slotSectors.mpr (by rw [UInt32.sub_self]; decide)))
    have last := mem_slotSectors.mp (inside (a + 7) (mem_slotSectors.mpr (by
      rw [UInt32.add_comm, UInt32.add_sub_cancel]
      decide)))
    have smallA := a.toNat_lt
    have smallB := b.toNat_lt
    have seven : UInt32.toNat 7 = 7 := rfl
    apply UInt32.toNat_inj.mp
    rw [UInt32.toNat_sub] at first last
    rw [UInt32.toNat_add, seven] at last
    omega
  · rintro rfl
    exact fun _ member => member

end Sectors

/-! ## Entries of pages -/

structure HasWord (m : Memory) (cr3 v word : UInt32) : Prop where
  table : present (m.entry cr3 (testbits v 22 32)) = true
  entry : m.entry (m.table cr3 (testbits v 22 32)) (testbits v 12 22) = word

section Words

variable {m m' : Memory} {cr3 v w p word : UInt32} {flags : UInt16}

theorem HasWord.congr (given : HasWord m cr3 v word)
    (directory : m'.entry cr3 (testbits v 22 32) = m.entry cr3 (testbits v 22 32))
    (table : m'.entry (m.table cr3 (testbits v 22 32)) (testbits v 12 22) =
      m.entry (m.table cr3 (testbits v 22 32)) (testbits v 12 22)) : HasWord m' cr3 v word where
  table := by
    rw [directory]
    exact given.table
  entry := by
    rw [Memory.table, directory, ← Memory.table, table]
    exact given.entry

theorem HasWord.frames (given : HasWord m cr3 v word) (aligned : PageAligned cr3)
    (agree : ∀ a, UsedFrame m cr3 (frameOf a) → m'.bytes a = m.bytes a) : HasWord m' cr3 v word := by
  apply given.congr
  · exact Memory.entry_congr aligned (indexInPde_lt v) fun a inside => agree a (Or.inl inside)
  · exact Memory.entry_congr (table_aligned _ _ _) (indexInPte_lt v) fun a inside =>
      agree a (Or.inr ⟨_, indexInPde_lt v, given.table, inside⟩)

theorem HasWord.same_page (given : HasWord m cr3 v word) (same : w &&& 0xFFFFF000 = v &&& 0xFFFFF000) :
    HasWord m cr3 w word := by
  obtain ⟨pde, pte⟩ := (same_page_iff v w).mp same
  constructor
  · rw [pde]
    exact given.table
  · rw [pde, pte]
    exact given.entry

theorem setMmap_hasWord (covers : m.Covers) (ok : DirectoryOk m cr3)
    (succeeds : present (m.entry cr3 (testbits v 22 32)) = false → ∃ n, m.NextFree n) :
    HasWord (setMmap m cr3 v p flags).2 cr3 v (p ||| flags.toUInt32) := by
  refine ⟨setMmap_table_present covers ok succeeds, ?_⟩
  cases here : present (m.entry cr3 (testbits v 22 32)) with
  | true =>
      rw [setMmap_present here]
      have entry := @setEntry_table_entry m cr3 ok _ (indexInPde_lt v) here _ (indexInPte_lt v) (p ||| flags.toUInt32) _
        (indexInPde_lt v)
      have table : Memory.table (m.setEntry (m.table cr3 (testbits v 22 32)) (testbits v 12 22) (p ||| flags.toUInt32))
          cr3 (testbits v 22 32) = m.table cr3 (testbits v 22 32) := congrArg (· &&& 0xFFFFF000) entry
      dsimp only
      rw [table]
      exact Memory.entry_setEntry _ _ _ _
  | false =>
      obtain ⟨n, free⟩ := succeeds here
      rw [setMmap_absent_table ok covers free here, setMmap_absent covers free here]
      exact Memory.entry_setEntry _ _ _ _

theorem HasWord.setMmap_other (given : HasWord m cr3 w word) (covers : m.Covers) (ok : DirectoryOk m cr3)
    (succeeds : present (m.entry cr3 (testbits v 22 32)) = false → ∃ n, m.NextFree n)
    (other : w &&& 0xFFFFF000 ≠ v &&& 0xFFFFF000) : HasWord (setMmap m cr3 v p flags).2 cr3 w word := by
  obtain ⟨directory, table⟩ := @WegOS.setMmap_other m cr3 v p flags covers ok succeeds w given.table other
  exact given.congr directory table

theorem swapSectorSet_hasWord (ok : DirectoryOk m cr3) (here : present (m.entry cr3 (testbits v 22 32)) = true)
    (slot : UInt32) : HasWord (swapSectorSet m cr3 v slot) cr3 v (slot <<< 3) :=
  ⟨(swapSectorSet_hasSlot ok here slot).table, (swapSectorSet_hasSlot ok here slot).entry⟩

theorem HasWord.swapSectorSet_other (given : HasWord m cr3 w word) (ok : DirectoryOk m cr3)
    (here : present (m.entry cr3 (testbits v 22 32)) = true) (slot : UInt32)
    (other : w &&& 0xFFFFF000 ≠ v &&& 0xFFFFF000) : HasWord (swapSectorSet m cr3 v slot) cr3 w word :=
  given.congr (setEntry_table_entry ok (indexInPde_lt v) here (indexInPte_lt v) _ (indexInPde_lt w))
    (setEntry_table_other ok here _ given.table other)

theorem HasWord.sector (given : HasWord m cr3 v word) (missing : hasAddr m cr3 v = false) :
    swapSectorOf m cr3 v = some (word >>> 3) := by
  have here : testbit (m.entry cr3 (testbits v 22 32)) pageTableP = true := given.table
  have entry := given.entry
  rw [Memory.table] at entry
  simp only [swapSectorOf, missing, here, entry, Bool.false_eq_true, if_false, Bool.not_true]

section Fault

variable {kernelPd : UInt32} {dirs : List UInt32} (ok : LowDirectories m kernelPd dirs) (member : cr3 ∈ kernelPd :: dirs)
  (missing : hasAddr m cr3 v = false)

include ok member missing

theorem fault_reads : faultSectors m cr3 v ≠ [] := by
  rw [faultSectors, ok.swapSectorOfOn_eq member member]
  simp only [swapSectorOf, missing, Bool.false_eq_true, if_false]
  split_ifs <;> simp [slotSectors]

/-- Some slot has been recorded, and the entry shifts back to it. -/
theorem HasWord.respects_iff (given : HasWord m cr3 v word) (disk : Disk) (e : UInt32) (slots : List UInt32) :
    FaultRespects disk m cr3 v e slots ↔ word >>> 3 ∈ slots := by
  unfold FaultRespects
  split_ifs with empty
  · rw [empty]
    exact iff_of_false (fun none => fault_reads ok member missing none.1) List.not_mem_nil
  · rw [faultSectors, ok.swapSectorOfOn_eq member member, given.sector missing, Option.elim_some]
    constructor
    · rintro ⟨slot, inside, sectors⟩
      rwa [slotSectors_subset.mp sectors]
    · exact fun inside => ⟨_, inside, fun _ sector => sector⟩

end Fault

end Words

/-! ## Notes beside a run -/

/-- Of one page: the word that was stored last in its entry, and the slots recorded for it. -/
structure PageNotes where
  last : Option UInt32
  slots : List UInt32

structure Noted where
  system : System
  notes : Nat → UInt32 → PageNotes

def Noted.put (s : Noted) (pid : Nat) (v word : UInt32) (recorded : List UInt32) : Nat → UInt32 → PageNotes :=
  let page := v &&& 0xFFFFF000
  Function.update s.notes pid (Function.update (s.notes pid) page ⟨some word, recorded ++ (s.notes pid page).slots⟩)

def Noted.after (s : Noted) : MemEvent → Nat → UInt32 → PageNotes
  | .task (.create _ _ _ _) => Function.update s.notes (getPidEmpty s.system.kernel.gdt) fun _ => ⟨none, []⟩
  | .task _ => s.notes
  | .setMmap pid v p flags => s.put pid v (p ||| flags.toUInt32) []
  | .loadMemory pid v flags => s.put pid v ((pMalloc s.system.kernel.memory).1 ||| flags.toUInt32) []
  | .swapSectorSet pid v sector => s.put pid v (sector <<< 3) [sector]

def NotedStep (image : KernelImage) (s : Noted) (e : PagedEvent) (t : Noted) : Prop :=
  Guarded (PagedStep image) FindsLow s.system e t.system ∧ t.notes = s.after e.event

def notedStart (image : KernelImage) (k : Kernel) : Noted := ⟨memStart image k, fun _ _ => ⟨none, []⟩⟩

def Noted.of (s : Noted) (pid : Nat) (v : UInt32) : PageNotes := s.notes pid (v &&& 0xFFFFF000)

structure NotesTrue (image : KernelImage) (s : Noted) : Prop where
  spaces : Spaces image s.system
  word : ∀ pid ∈ s.system.live, ∀ v word, (s.of pid v).last = some word →
    HasWord s.system.kernel.memory (s.system.cr3 pid) v word
  slots : ∀ pid v, (s.of pid v).last = none → (s.of pid v).slots = []

section Notes

variable {image : KernelImage} {s t : Noted}

theorem Noted.of_mk (system : System) (notes : Nat → UInt32 → PageNotes) (b : Nat) (v : UInt32) :
    Noted.of ⟨system, notes⟩ b v = notes b (v &&& 0xFFFFF000) := rfl

theorem put_self {pid : Nat} {v w word : UInt32} {recorded : List UInt32} (system : System)
    (same : w &&& 0xFFFFF000 = v &&& 0xFFFFF000) :
    Noted.of ⟨system, s.put pid v word recorded⟩ pid w = ⟨some word, recorded ++ (s.of pid v).slots⟩ := by
  rw [Noted.of_mk, Noted.put, Function.update_self, same, Function.update_self]
  rfl

theorem put_other {pid b : Nat} {v w word : UInt32} {recorded : List UInt32} (system : System)
    (other : b ≠ pid ∨ w &&& 0xFFFFF000 ≠ v &&& 0xFFFFF000) :
    Noted.of ⟨system, s.put pid v word recorded⟩ b w = s.of b w := by
  by_cases task : b = pid
  · have page := other.resolve_left (not_not.mpr task)
    rw [task, Noted.of_mk, Noted.put, Function.update_self, Function.update_of_ne page]
    rfl
  · rw [Noted.of_mk, Noted.put, Function.update_of_ne task]
    rfl

theorem created_self (system : System) (flag eip esp ddl v : UInt32) :
    Noted.of ⟨system, s.after (.task (.create flag eip esp ddl))⟩ (getPidEmpty s.system.kernel.gdt) v = ⟨none, []⟩ := by
  rw [Noted.of_mk, Noted.after, Function.update_self]

theorem created_other (system : System) (flag eip esp ddl v : UInt32) {b : Nat}
    (other : b ≠ getPidEmpty s.system.kernel.gdt) :
    Noted.of ⟨system, s.after (.task (.create flag eip esp ddl))⟩ b v = s.of b v := by
  rw [Noted.of_mk, Noted.after, Function.update_of_ne other]
  rfl

/-- A call that stores `word` in the entry of a page of one task. -/
theorem NotesTrue.call (ok : NotesTrue image s) {pid : Nat} (live : pid ∈ s.system.live) {v word : UInt32}
    {recorded : List UInt32} {m' : Memory} (touches : Touches s.system.kernel.memory m' (s.system.cr3 pid))
    (stored : HasWord m' (s.system.cr3 pid) v word)
    (others : ∀ w old, w &&& 0xFFFFF000 ≠ v &&& 0xFFFFF000 →
      HasWord s.system.kernel.memory (s.system.cr3 pid) w old → HasWord m' (s.system.cr3 pid) w old) :
    NotesTrue image ⟨s.system.withMemory m', s.put pid v word recorded⟩ := by
  have member := List.mem_map_of_mem (f := s.system.cr3) live
  refine ⟨(ok.spaces.call live touches).1, fun b liveB w old noted => ?_, fun b w unnoted => ?_⟩
  · change HasWord m' (s.system.cr3 b) w old
    by_cases task : b = pid
    · subst task
      by_cases page : w &&& 0xFFFFF000 = v &&& 0xFFFFF000
      · rw [put_self _ page] at noted
        obtain rfl := Option.some.inj noted
        exact stored.same_page page
      · rw [put_other _ (Or.inr page)] at noted
        exact others w old page (ok.word b live w old noted)
    · rw [put_other _ (Or.inl task)] at noted
      have different : s.system.cr3 b ≠ s.system.cr3 pid :=
        fun same => task (ok.spaces.distinct b liveB pid live same)
      apply (ok.word b liveB w old noted).frames (ok.spaces.directory liveB).aligned
      intro a used
      exact ok.spaces.isolated.keep_bytes member touches
        (List.mem_cons_of_mem _ (List.mem_map_of_mem liveB)) different used
  · by_cases here : b = pid ∧ w &&& 0xFFFFF000 = v &&& 0xFFFFF000
    · rw [here.1, put_self _ here.2] at unnoted
      cases unnoted
    · rw [put_other _ (not_and_or.mp here)] at unnoted ⊢
      exact ok.slots b w unnoted

theorem NotesTrue.quiet (ok : NotesTrue image s) {system : System} (spaces : Spaces image system)
    (memory : system.kernel.memory = s.system.kernel.memory) (live : ∀ pid ∈ system.live, pid ∈ s.system.live)
    (cr3 : ∀ pid, system.cr3 pid = s.system.cr3 pid) : NotesTrue image ⟨system, s.notes⟩ where
  spaces := spaces
  word pid inside v word noted := by
    change HasWord system.kernel.memory (system.cr3 pid) v word
    rw [memory, cr3]
    exact ok.word pid (live pid inside) v word noted
  slots := ok.slots

theorem NotesTrue.create (ok : NotesTrue image s) {flag eip esp ddl : UInt32} {pid : Nat} {k : Kernel}
    (free : allocates s.system.kernel.memory)
    (result : createTask image s.system.kernel flag eip esp ddl = some (pid, k)) :
    NotesTrue image ⟨⟨k, pid :: s.system.live, s.system.exited.filter (· ≠ pid)⟩,
      s.after (.task (.create flag eip esp ddl))⟩ := by
  obtain ⟨spaces, -, undisturbed⟩ := ok.spaces.create free result
  obtain ⟨-, chosen, -, memory, -⟩ := createTask_eq result
  obtain ⟨n, nextFree⟩ := allocates_nextFree free
  have covers := ok.spaces.isolated.covers
  have bytes : ∀ a, s.system.kernel.memory.Taken (frameOf a) → k.memory.bytes a = s.system.kernel.memory.bytes a := by
    intro a taken
    rw [memory, pMalloc_nextFree covers nextFree, copyPts_bytes _ (frame_aligned n)]
    rw [frameOf_frame (nextFree_lt covers nextFree)]
    exact fun same => nextFree_not_taken nextFree (same ▸ taken)
  refine ⟨spaces, fun b live v word noted => ?_, fun b v unnoted => ?_⟩
  · by_cases new : b = getPidEmpty s.system.kernel.gdt
    · rw [new, created_self] at noted
      cases noted
    · rw [created_other _ _ _ _ _ _ new] at noted
      have old : b ∈ s.system.live := List.mem_of_ne_of_mem (chosen ▸ new) live
      rw [(undisturbed b old).cr3]
      have directory := ok.spaces.directory old
      exact (ok.word b old v word noted).frames directory.aligned fun a used => bytes a (directory.used_taken used)
  · by_cases new : b = getPidEmpty s.system.kernel.gdt
    · rw [new, created_self]
    · rw [created_other _ _ _ _ _ _ new] at unnoted ⊢
      exact ok.slots b v unnoted

theorem NotesTrue.step {event : MemEvent} (ok : NotesTrue image s) (moved : MemStep image s.system event t.system)
    (noted : t.notes = s.after event) : NotesTrue image t := by
  obtain ⟨system, notes⟩ := t
  obtain rfl := noted
  have spaces := (ok.spaces.step moved).1
  obtain ⟨allowed, result⟩ := moved
  cases event with
  | task event =>
      cases event with
      | create flag eip esp ddl =>
          obtain ⟨⟨pid, k⟩, created, same⟩ := Option.bind_eq_some_iff.mp result
          obtain rfl := Option.some.inj same
          exact ok.create allowed created
      | tick =>
          obtain ⟨tm, ticked, same⟩ := Option.bind_eq_some_iff.mp result
          obtain rfl := Option.some.inj same
          exact ok.quiet spaces rfl (fun _ live => live) fun pid => congrArg Tss.cr3 (checkTaskAffairs_tss ticked pid)
      | sleep counter =>
          obtain ⟨tm, slept, same⟩ := Option.bind_eq_some_iff.mp result
          obtain rfl := Option.some.inj same
          exact ok.quiet spaces rfl (fun _ live => live) fun pid => congrArg Tss.cr3 (sysSleep_tss slept pid)
      | exit code =>
          obtain ⟨k, exited, same⟩ := Option.bind_eq_some_iff.mp result
          obtain rfl := Option.some.inj same
          obtain ⟨memory, tss⟩ := sysExit_frame exited
          exact ok.quiet spaces memory (fun _ live => List.mem_of_mem_filter live) fun pid => congrArg Tss.cr3 (tss pid)
  | setMmap pid v p flags =>
      obtain rfl := Option.some.inj result
      obtain ⟨live, above, succeeds⟩ := allowed
      have covers := ok.spaces.isolated.covers
      have directory := ok.spaces.directory live
      have free := mapAllocates_nextFree succeeds
      exact ok.call live (setMmap_touches covers directory (itselfEnd_index above) free p flags)
        (setMmap_hasWord covers directory free) fun w old other given => given.setMmap_other covers directory free other
  | loadMemory pid v flags =>
      obtain rfl := Option.some.inj result
      obtain ⟨live, above, frame, succeeds⟩ := allowed
      obtain ⟨n, nextFree⟩ := allocates_nextFree frame
      have first := pMalloc_touches ok.spaces.isolated.covers (ok.spaces.directory live) nextFree
      have free := mapAllocates_nextFree succeeds
      have second := setMmap_touches first.covers first.directory (itselfEnd_index above) free
        (pMalloc s.system.kernel.memory).1 flags
      refine ok.call live (first.trans second) (setMmap_hasWord first.covers first.directory free)
        fun w old other given => ?_
      have kept : HasWord (pMalloc s.system.kernel.memory).2 (s.system.cr3 pid) w old := given.congr rfl rfl
      exact kept.setMmap_other first.covers first.directory free other
  | swapSectorSet pid v sector =>
      obtain rfl := Option.some.inj result
      obtain ⟨live, above, here⟩ := allowed
      have directory := ok.spaces.directory live
      exact ok.call live (setEntry_touches ok.spaces.isolated.covers directory (itselfEnd_index above)
        (indexInPde_lt v) here (indexInPte_lt v) _) (swapSectorSet_hasWord directory here sector)
        fun w old other given => given.swapSectorSet_other directory here sector other

theorem notedStart_true {k : Kernel} (zeroed : Zeroed k.memory image.kernelPd)
    (unused : k.taskManager.pidQueueSleeping.head = 0 ∧ k.taskManager.pidQueueSleeping.tail = 0) :
    NotesTrue image (notedStart image k) where
  spaces := memStart_spaces zeroed unused
  word _ none := absurd none List.not_mem_nil
  slots _ _ _ := rfl

/-- The notes stay true while the directories and their tables stay in reach. -/
theorem notes_run {k : Kernel} {events : List PagedEvent} (zeroed : Zeroed k.memory image.kernelPd)
    (unused : k.taskManager.pidQueueSleeping.head = 0 ∧ k.taskManager.pidQueueSleeping.tail = 0)
    (run : Run (NotedStep image) (notedStart image k) events s) : NotesTrue image s ∧ LowSpaces image s.system := by
  apply @Run.invariant _ _ _ (fun s => NotesTrue image s ∧ LowSpaces image s.system) _ _ _ run
    ⟨notedStart_true zeroed unused, memStart_lowSpaces zeroed unused⟩
  intro s e t before step
  obtain ⟨low, found, moved⟩ := before.2.of_paged step.1
  exact ⟨before.1.step moved step.2, low⟩

/-- In every run of the calls that build address spaces, with the frames for directories and tables found below
`ITSELF_END`, a fault on a page that is not present reads a slot of that page just when the word stored last in its
entry shifts back to a slot recorded for it. -/
theorem on_page_fault_slots_iff {k : Kernel} {events : List PagedEvent} (zeroed : Zeroed k.memory image.kernelPd)
    (unused : k.taskManager.pidQueueSleeping.head = 0 ∧ k.taskManager.pidQueueSleeping.tail = 0)
    (run : Run (NotedStep image) (notedStart image k) events s) {pid : Nat} (live : pid ∈ s.system.live) {v : UInt32}
    (missing : hasAddr s.system.kernel.memory (s.system.cr3 pid) v = false) (disk : Disk) (e : UInt32) :
    FaultRespects disk s.system.kernel.memory (s.system.cr3 pid) v e (s.of pid v).slots ↔
      ∃ word, (s.of pid v).last = some word ∧ word >>> 3 ∈ (s.of pid v).slots := by
  obtain ⟨ok, low⟩ := notes_run zeroed unused run
  have member := List.mem_cons_of_mem image.kernelPd (List.mem_map_of_mem (f := s.system.cr3) live)
  cases last : (s.of pid v).last with
  | none =>
      rw [ok.slots pid v last]
      refine iff_of_false (fun respects => ?_) (by simp)
      rw [FaultRespects, if_pos rfl] at respects
      exact fault_reads low.directories member missing respects.1
  | some word =>
      rw [(ok.word pid live v word last).respects_iff low.directories member missing]
      simp

end Notes

theorem LowSpaces.noted {image : KernelImage} {s : Noted} {t : System} {event : MemEvent}
    (ok : LowSpaces image s.system) (taken : Guarded (MemStep image) FramesLow s.system event t) :
    NotedStep image s ⟨image.kernelPd, event⟩ ⟨t, s.after event⟩ := ⟨(ok.to_paged taken).2, rfl⟩

/-- A new task: its page has no table, and nothing is noted. -/
theorem created_noted : ∃ s : Noted,
    Run (NotedStep sampleImage) (notedStart sampleImage sampleKernel)
        [⟨sampleImage.kernelPd, .task (.create 1 0x400000 0x500000 9)⟩] s ∧
      LowSpaces sampleImage s.system ∧ s.system.live = [5] ∧ s.system.kernel.memory.Filled 2113 ∧
      present (s.system.kernel.memory.entry (s.system.cr3 5) (testbits 0x80000000 22 32)) = false ∧
      s.of 5 0x80000000 = ⟨none, []⟩ := by
  have start : LowSpaces sampleImage (notedStart sampleImage sampleKernel).system := sampleKernel_start
  obtain ⟨s, created, ok, live, filled, -, absent⟩ := sampleKernel_first
  have unnoted := @created_self (notedStart sampleImage sampleKernel) s 1 0x400000 0x500000 9 0x80000000
  rw [show getPidEmpty (notedStart sampleImage sampleKernel).system.kernel.gdt = 5 from sampleKernel_pid] at unnoted
  exact ⟨⟨s, _⟩, Run.single (start.noted created), ok, live, filled, absent 0x80000000 (by decide), unnoted⟩

theorem on_page_fault_slots_one : ∃ s : Noted, s.system.live = [5] ∧ (s.of 5 0x80000000).slots = [40] ∧
    ∀ disk e, FaultRespects disk s.system.kernel.memory (s.system.cr3 5) 0x80000000 e (s.of 5 0x80000000).slots := by
  obtain ⟨one, first, ok, live, filled, absent, unnoted⟩ := created_noted
  have five : 5 ∈ one.system.live := by
    rw [live]
    exact List.mem_cons_self
  obtain ⟨two, mapped, liveTwo, cr3Two, -, -, here, -⟩ :=
    setMmap_takes ok.spaces five (by decide) filled (by decide) absent 0 0
  have low : FramesLow one.system (.setMmap 5 0x80000000 0 0) :=
    Or.inr ⟨2113, by decide, filled.not_taken (by decide) (Nat.le_refl _)⟩
  have okTwo := ok.step low mapped
  rw [← liveTwo] at five live
  rw [← cr3Two] at here
  have swapped : MemStep sampleImage two (.swapSectorSet 5 0x80000000 40)
      (two.withMemory (swapSectorSet two.kernel.memory (two.cr3 5) 0x80000000 40)) :=
    ⟨⟨five, by decide, here⟩, rfl⟩
  have missing := (swapSectorSet_hasSlot (okTwo.spaces.directory five) here 40).missing
  have second := ok.noted ⟨low, mapped⟩
  have noted : Noted.of ⟨two, one.after (.setMmap 5 0x80000000 0 0)⟩ 5 0x80000000 = ⟨some 0, []⟩ := by
    rw [Noted.after, put_self two rfl, unnoted]
    rfl
  generalize one.after (.setMmap 5 0x80000000 0 0) = notes at second noted
  have third := @LowSpaces.noted _ ⟨two, notes⟩ _ (.swapSectorSet 5 0x80000000 40) okTwo ⟨trivial, swapped⟩
  have recorded : Noted.of ⟨two.withMemory (swapSectorSet two.kernel.memory (two.cr3 5) 0x80000000 40),
      Noted.after ⟨two, notes⟩ (.swapSectorSet 5 0x80000000 40)⟩ 5 0x80000000 = ⟨some 320, [40]⟩ := by
    rw [Noted.after, put_self _ rfl, noted]
    rfl
  have run := (first.trans (Run.single second)).trans (Run.single third)
  refine ⟨_, live, congrArg PageNotes.slots recorded, fun disk e => ?_⟩
  refine (on_page_fault_slots_iff sampleKernel_zeroed ⟨rfl, rfl⟩ run five missing disk e).mpr
    ⟨_, congrArg PageNotes.last recorded, ?_⟩
  rw [recorded]
  decide

/-- The first fault of a new task, on a page without a slot. -/
theorem on_page_fault_unswapped : ∃ (events : List PagedEvent) (s : Noted),
    Run (NotedStep sampleImage) (notedStart sampleImage sampleKernel) events s ∧ 5 ∈ s.system.live ∧
      hasAddr s.system.kernel.memory (s.system.cr3 5) 0x80000000 = false ∧ (s.of 5 0x80000000).slots = [] ∧
      ∀ disk e, ¬FaultRespects disk s.system.kernel.memory (s.system.cr3 5) 0x80000000 e (s.of 5 0x80000000).slots := by
  obtain ⟨s, run, ok, live, -, absent, unnoted⟩ := created_noted
  have five : 5 ∈ s.system.live := by
    rw [live]
    exact List.mem_cons_self
  have missing : hasAddr s.system.kernel.memory (s.system.cr3 5) 0x80000000 = false := by
    rw [hasAddr_eq, absent, Bool.false_and]
  refine ⟨_, s, run, five, missing, congrArg PageNotes.slots unnoted, fun disk e => ?_⟩
  rw [unnoted, FaultRespects, if_pos rfl]
  exact fun respects => fault_reads ok.directories (List.mem_cons_of_mem _ (List.mem_map_of_mem five)) missing respects.1

end WegOS
