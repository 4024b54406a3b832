import WegOS.AddressMaps
import WegOS.FaultSlots
import WegOS.Execve
import WegOS.FileContents

/-! What tasks read at the addresses of their own: the files of programs, page faults, and stores. -/

namespace WegOS

open LittleEndian Transition

/-! ## The system -/

/-- The byte to be read at an address, where it is said. -/
abbrev TaskMemory := UInt32 → Option UInt8

/-- A file from `TEMP_CODE_START` on, and zeros in the page of the stack. -/
def programMemory (file : List UInt8) : TaskMemory := fun a =>
  if pageOf a = pageOf initEspVma then some 0 else file[(a - tempCodeStart).toNat]?

structure Programs where
  machine : Machine
  live : List Nat
  exited : List Nat
  own : Nat → TaskMemory

def Programs.system (s : Programs) : System := ⟨s.machine.kernel, s.live, s.exited⟩

def Programs.memory (s : Programs) : Memory := s.machine.kernel.memory

def Programs.cr3 (s : Programs) (pid : Nat) : UInt32 := s.system.cr3 pid

def Machine.withMemory (machine : Machine) (m : Memory) : Machine :=
  { machine with kernel := { machine.kernel with memory := m } }

def Programs.withMemory (s : Programs) (m : Memory) : Programs := { s with machine := s.machine.withMemory m }

/-- The events of the scheduler and `sys_execve` with the directory at `active`, the page fault at the start of a page
of a task, and the store of a byte by a task. -/
inductive ProgramEvent
  | task (active : UInt32) (event : Event)
  | execve (active : UInt32) (locals : Locals) (codeBuf : Nat → UInt8) (fileCached : FileCached)
      (components : List (List UInt8))
  | fault (pid : Nat) (page errorCode : UInt32)
  | store (pid : Nat) (a : UInt32) (b : UInt8)

/-- Nothing is said of the memory of a task that `create_task` makes. -/
def ownAfter (s : Programs) : Event → Nat → TaskMemory
  | .create .. => Function.update s.own (getPidEmpty s.machine.kernel.gdt) fun _ => none
  | _ => s.own

def programStep (image : KernelImage) (s : Programs) : ProgramEvent → Option Programs
  | .task active event => do
      let t ← pagedStep image s.system ⟨active, .task event⟩
      pure ⟨{ s.machine with kernel := t.kernel }, t.live, t.exited, ownAfter s event⟩
  | .execve active locals codeBuf fileCached components => do
      let machine ← sysExecveOn image s.machine active locals codeBuf fileCached (joinPath components)
      let file ← resolve s.machine.disk (rootFcb s.machine.disk) components
      let pid := getPidEmpty s.machine.kernel.gdt
      let own := programMemory (contentList s.machine.disk file)
      pure ⟨machine, pid :: s.live, s.exited.filter (· ≠ pid), Function.update s.own pid own⟩
  | .fault pid page errorCode => do
      let m ← onPageFaultOn s.memory s.machine.disk (s.cr3 pid) page errorCode
      pure (s.withMemory m)
  | .store pid a b => do
      let m ← storeByte s.memory (s.cr3 pid) a b
      pure { s.withMemory m with own := Function.update s.own pid (Function.update (s.own pid) a (some b)) }

/-- The path leads to a well-formed file of one page at most, and there are a descriptor, a slot, and five frames, four
of them below `ITSELF_END`. -/
structure Startable (s : Programs) (components : List (List UInt8)) : Prop where
  path : Path components
  along : Along s.machine.disk (rootFcb s.machine.disk) components (IsDirectory s.machine.disk)
  file : ∃ f, resolve s.machine.disk (rootFcb s.machine.disk) components = some f ∧
    WellFormed s.machine.disk f (sectorsOf s.machine.disk f) ∧ f.size ≤ tempCodeSizeMax
  descriptor : getPidEmpty s.machine.kernel.gdt < maxGdtTerms
  frames : 5 ≤ freeFrames s.memory
  low : 4 ≤ lowFrames s.memory
  swap : s.machine.swapNext.toNat + 8 ≤ 2 ^ 29

/-- Tasks fault and store above the identity map, no allocation fails, and the frames for directories and tables are
found below `ITSELF_END`. -/
def Possible (image : KernelImage) (s : Programs) : ProgramEvent → Prop
  | .task active (.create ..) => active ∈ directories image s.system ∧ 0 < lowFrames s.memory
  | .task _ _ => True
  | .execve active _ _ _ components => active ∈ directories image s.system ∧ Startable s components
  | .fault pid page _ => pid ∈ s.live ∧ itselfEnd ≤ page ∧ PageAligned page ∧ 2 ≤ freeFrames s.memory ∧
      mapStaysLow (pMalloc s.memory).2 (s.cr3 pid) page
  | .store pid a _ => pid ∈ s.live ∧ itselfEnd ≤ a

def ProgramStep (image : KernelImage) : Programs → ProgramEvent → Programs → Prop :=
  Guarded (fun s event t => programStep image s event = some t) (Possible image)

def programStart (image : KernelImage) (k : Kernel) (disk : Disk) : Programs :=
  ⟨⟨(memStart image k).kernel, disk, diskSwapStartSector⟩, [], [], fun _ _ => none⟩

structure Reads (machine : Machine) (cr3 a : UInt32) (b : UInt8) : Prop where
  there : hasAddr machine.kernel.memory cr3 a = true →
    machine.kernel.memory.bytes (addrTranslate machine.kernel.memory cr3 a) = b
  fault : hasAddr machine.kernel.memory cr3 a = false → 0 < freeFrames machine.kernel.memory → ∀ e, ∃ m,
    onPageFaultOn machine.kernel.memory machine.disk cr3 (pageOf a) e = some m ∧ hasAddr m cr3 a = true ∧
      m.bytes (addrTranslate m cr3 a) = b

/-! ## Where a byte is -/

/-- In the frame of its page, or in the slot that the entry of its page holds. -/
inductive Kept (machine : Machine) (cr3 a : UInt32) (b : UInt8) : Option UInt32 → Prop
  | frame {p : UInt32} : machine.kernel.memory.bytes (p + (a &&& 0xFFF)) = b → Kept machine cr3 a b (some p)
  | slot {slot : UInt32} : HasWord machine.kernel.memory cr3 a (slot <<< 3) →
      slot.toNat + 8 ≤ machine.swapNext.toNat → slotByte machine.disk slot (a &&& 0xFFF).toNat = b →
      Kept machine cr3 a b none

section Kept

variable {machine machine' : Machine} {m : Memory} {cr3 a v : UInt32} {b : UInt8} {pages : PageMap}

theorem pageOf_aligned (a : UInt32) : PageAligned (pageOf a) := page_mask_aligned a

theorem pageOf_pageOf (a : UInt32) : pageOf (pageOf a) = pageOf a := page_start (pageOf_aligned a)

theorem page_add {page o : UInt32} (start : PageAligned page) (small : o.toNat < 4096) :
    pageOf (page + o) = page ∧ (page + o) &&& 0xFFF = o := by
  have bound := page.toNat_lt
  simp only [PageAligned, pageSize] at start
  constructor
  · apply UInt32.toNat_inj.mp
    rw [pageOf, page_mask, UInt32.toNat_add, pageSize]
    omega
  · apply UInt32.toNat_inj.mp
    rw [offset_mask, UInt32.toNat_add, pageSize]
    omega

theorem frameOf_offset {p : UInt32} (aligned : PageAligned p) (a : UInt32) :
    frameOf (p + (a &&& 0xFFF)) = frameOf p := by
  have low := offset_lt a
  have bound := p.toNat_lt
  simp only [PageAligned, pageSize] at aligned
  rw [frameOf, frameOf, UInt32.toNat_add]
  simp only [pageSize]
  omega

theorem Follows.there (follows : Follows m cr3 pages) {p : UInt32} (page : pages (pageOf a) = some p) :
    hasAddr m cr3 a = true ∧ addrTranslate m cr3 a = p + (a &&& 0xFFF) := by
  have found := follows a
  rw [page, Option.map_some, reach] at found
  split_ifs at found with has
  exact ⟨has, Option.some.inj found⟩

theorem Follows.missing (follows : Follows m cr3 pages) : pages (pageOf a) = none ↔ hasAddr m cr3 a = false := by
  have found := follows a
  cases page : pages (pageOf a) with
  | none =>
      rw [page, Option.map_none, reach] at found
      split_ifs at found with has
      exact iff_of_true rfl (Bool.eq_false_iff.mpr has)
  | some p => exact iff_of_false (Option.some_ne_none p) (by rw [(follows.there page).1]; decide)

theorem Kept.keep {frame : Option UInt32} (kept : Kept machine cr3 a b frame)
    (bytes : ∀ p, frame = some p → machine'.kernel.memory.bytes (p + (a &&& 0xFFF)) =
      machine.kernel.memory.bytes (p + (a &&& 0xFFF)))
    (word : ∀ slot : UInt32, frame = none → HasWord machine.kernel.memory cr3 a (slot <<< 3) →
      HasWord machine'.kernel.memory cr3 a (slot <<< 3))
    (next : machine.swapNext.toNat ≤ machine'.swapNext.toNat)
    (disk : ∀ slot : UInt32, slot.toNat + 8 ≤ machine.swapNext.toNat → ∀ i < 4096,
      slotByte machine'.disk slot i = slotByte machine.disk slot i) : Kept machine' cr3 a b frame := by
  cases kept with
  | frame byte => exact Kept.frame ((bytes _ rfl).trans byte)
  | slot given inside byte =>
      exact Kept.slot (word _ rfl given) (inside.trans next) ((disk _ inside _ (offset_lt a)).trans byte)

theorem Kept.memory {frame : Option UInt32} (kept : Kept machine cr3 a b frame)
    (bytes : ∀ p, frame = some p → m.bytes (p + (a &&& 0xFFF)) = machine.kernel.memory.bytes (p + (a &&& 0xFFF)))
    (word : ∀ slot : UInt32, frame = none → HasWord machine.kernel.memory cr3 a (slot <<< 3) →
      HasWord m cr3 a (slot <<< 3)) : Kept (machine.withMemory m) cr3 a b frame :=
  kept.keep bytes word (Nat.le_refl _) fun _ _ _ _ => rfl

theorem slot_kept {slot : UInt32} (small : slot.toNat < 2 ^ 29) : slot <<< 3 >>> 3 = slot := by
  apply UInt32.toNat_inj.mp
  rw [slot_back]
  omega

theorem Kept.reads {kernelPd : UInt32} {dirs : List UInt32} (kept : Kept machine cr3 a b (pages (pageOf a)))
    (low : LowDirectories machine.kernel.memory kernelPd dirs) (member : cr3 ∈ dirs)
    (follows : Follows machine.kernel.memory cr3 pages) (slots : machine.swapNext.toNat ≤ 2 ^ 29) :
    Reads machine cr3 a b := by
  generalize frame : pages (pageOf a) = place at kept
  cases kept with
  | frame byte =>
      obtain ⟨has, translate⟩ := follows.there frame
      refine ⟨fun _ => by rw [translate, byte], fun missing => ?_⟩
      rw [has] at missing
      cases missing
  | slot given inside byte =>
      have missing := follows.missing.mp frame
      refine ⟨fun has => ?_, fun _ free e => ?_⟩
      · rw [missing] at has
        cases has
      · have page := given.same_page (pageOf_pageOf a)
        have covers := low.isolated.covers
        obtain ⟨n, least⟩ := least_of_free free
        obtain ⟨m, run, filled⟩ := fault_fills covers (low.isolated.directory cr3 member) ⟨page.table, page.entry⟩ free
          (pageOf_aligned a) (by omega) machine.disk e
        obtain ⟨has, same⟩ := filled _ (offset_lt a)
        rw [UInt32.ofNat_toNat, pageOf, page_split] at has same
        exact ⟨m, (low.slot_fault member ⟨page.table, page.entry⟩ (nextFree_allocates covers least) _ e).trans run, has,
          same.trans byte⟩

end Kept

/-! ## Pages and frames -/

theorem Isolated.congr {m m' : Memory} {kernelPd : UInt32} {dirs : List UInt32} (isolated : Isolated m kernelPd dirs)
    (bitmap : m'.memoryAllocBitmap = m.memoryAllocBitmap)
    (entries : ∀ d ∈ kernelPd :: dirs, ∀ i : UInt32, i.toNat < 1024 → m'.entry d i = m.entry d i) :
    Isolated m' kernelPd dirs := by
  have taken : ∀ n, m.Taken n → m'.Taken n := by
    intro n before
    rw [Memory.Taken, bitmap]
    exact before
  have task : ∀ d ∈ dirs, ∀ i : UInt32, i.toNat < 1024 → m'.entry d i = m.entry d i :=
    fun d member => entries d (List.mem_cons_of_mem _ member)
  have kernel := entries kernelPd List.mem_cons_self
  exact
    { covers := by
        rw [Memory.Covers, bitmap]
        exact isolated.covers
      kernel := isolated.kernel.congr taken kernel
      kernelHigh := by
        intro i low bound
        rw [kernel i bound]
        exact isolated.kernelHigh i low bound
      kernelApart := isolated.kernelApart
      directory := fun d member => (isolated.directory d member).congr taken (task d member)
      shared := by
        intro d member i low
        have bound : i.toNat < 1024 := low.trans (by decide)
        rw [task d member i bound, kernel i bound]
        exact isolated.shared d member i low
      apart := fun d member e other different n own used => isolated.apart d member e other different n
        (own_congr (task d member) own) (used_congr (entries e other) used) }

theorem LowDirectories.congr {m m' : Memory} {kernelPd : UInt32} {dirs : List UInt32} (low : LowDirectories m kernelPd dirs)
    (bitmap : m'.memoryAllocBitmap = m.memoryAllocBitmap)
    (bytes : ∀ d ∈ kernelPd :: dirs, ∀ a, UsedFrame m d (frameOf a) → m'.bytes a = m.bytes a) :
    LowDirectories m' kernelPd dirs := by
  have entries : ∀ d ∈ kernelPd :: dirs, ∀ i : UInt32, i.toNat < 1024 → m'.entry d i = m.entry d i :=
    fun d member i bound =>
      Memory.entry_congr (low.isolated.ok member).aligned bound fun a inside => bytes d member a (Or.inl inside)
  refine ⟨low.isolated.congr bitmap entries, ?_, fun d member => (low.low d member).congr (entries d member)⟩
  exact (walk_frames low.isolated.kernel.aligned (bytes kernelPd List.mem_cons_self)).identity low.identity

structure Paged (image : KernelImage) (s : Mapped) : Prop where
  charted : Charted image s
  apart : Private image s

/-- What `load_memory` does for page `v` of a task: a frame of its own, of zeros. -/
structure Gets (image : KernelImage) (s : Mapped) (pid : Nat) (v p : UInt32) (m : Memory) : Prop where
  paged : Paged image ⟨s.system.withMemory m, mapPage s.maps pid v (some p)⟩
  touches : Touches s.system.kernel.memory m (s.system.cr3 pid)
  aligned : PageAligned p
  fresh : ¬s.system.kernel.memory.Taken (frameOf p)
  zeros : ∀ a, frameOf a = frameOf p → m.bytes a = 0

section Paged

variable {image : KernelImage} {s : Mapped} {pid : Nat} {v : UInt32}

theorem Paged.fill (ok : Paged image s) {m : Memory} {p : UInt32} (taken : s.system.kernel.memory.Taken (frameOf p))
    (apart : ∀ d ∈ directories image s.system, ¬UsedFrame s.system.kernel.memory d (frameOf p))
    (bitmap : m.memoryAllocBitmap = s.system.kernel.memory.memoryAllocBitmap)
    (agree : ∀ a, frameOf a ≠ frameOf p → m.bytes a = s.system.kernel.memory.bytes a) :
    Paged image ⟨s.system.withMemory m, s.maps⟩ := by
  obtain ⟨⟨spaces, blank, kernel, own⟩, private'⟩ := ok
  have bytes : ∀ d ∈ directories image s.system, ∀ a, UsedFrame s.system.kernel.memory d (frameOf a) →
      m.bytes a = s.system.kernel.memory.bytes a :=
    fun d member a used => agree a fun same => apart d member (same ▸ used)
  have entries : ∀ d ∈ directories image s.system, ∀ i : UInt32, i.toNat < 1024 →
      m.entry d i = s.system.kernel.memory.entry d i := fun d member i bound =>
    Memory.entry_congr (spaces.isolated.ok member).aligned bound fun a inside => bytes d member a (Or.inl inside)
  have same : ∀ d ∈ directories image s.system, SameSpace s.system.kernel.memory m d :=
    fun d member => walk_frames (spaces.isolated.ok member).aligned (bytes d member)
  have still : ∀ n, Memory.Taken m n ↔ s.system.kernel.memory.Taken n := by
    intro n
    rw [Memory.Taken, bitmap, Memory.Taken]
  have consistent : Consistent (s.system.withMemory m) :=
    ⟨spaces.consistent.placed, spaces.consistent.described, spaces.consistent.gone⟩
  refine ⟨⟨⟨consistent, spaces.isolated.congr bitmap entries, spaces.distinct⟩, ?_, ?_, ?_⟩, ?_, private'.once⟩
  · intro a open'
    have unused := mt (still _).mpr open'
    rw [show (s.system.withMemory m).kernel.memory.bytes a = m.bytes a from rfl]
    rw [agree a fun here => unused (here ▸ taken)]
    exact blank a unused
  · exact kernel.same (same _ List.mem_cons_self)
  · exact fun b live => (own b live).same (same _ (List.mem_cons_of_mem _ (List.mem_map_of_mem live)))
  · intro b live w q above mapped
    obtain ⟨held, aligned, free⟩ := private'.backed b live w q above mapped
    exact ⟨(still _).mpr held, aligned, fun d member used => free d member (used_congr (entries d member) used)⟩

theorem Paged.load (ok : Paged image s) (live : pid ∈ s.system.live) (above : itselfEnd ≤ v)
    (free : 2 ≤ freeFrames s.system.kernel.memory) : ∃ p, Gets image s pid v p
      (loadMemory s.system.kernel.memory (s.system.cr3 pid) v pageTableFlagKernelReadWrite).2 := by
  have covers := ok.charted.spaces.isolated.covers
  have directory := ok.charted.spaces.directory live
  obtain ⟨n, least⟩ := least_of_free (show 0 < freeFrames s.system.kernel.memory by omega)
  have first := pMalloc_touches covers directory least
  have left := pMalloc_frames covers (show 0 < freeFrames s.system.kernel.memory by omega)
  have next : 0 < freeFrames (pMalloc s.system.kernel.memory).2 := by omega
  obtain ⟨k, second⟩ := least_of_free next
  have one := nextFree_allocates covers least
  have two : mapAllocates (pMalloc s.system.kernel.memory).2 (s.system.cr3 pid) v :=
    Or.inr (nextFree_allocates first.covers second)
  have step : MappedStep image s (.loadMemory pid v pageTableFlagKernelReadWrite)
      ⟨s.system.withMemory (loadMemory s.system.kernel.memory (s.system.cr3 pid) v pageTableFlagKernelReadWrite).2,
        mapPage s.maps pid v (some (pMalloc s.system.kernel.memory).1)⟩ :=
    ⟨⟨by decide, by decide⟩, _, ⟨⟨live, above, one, two⟩, rfl⟩, rfl⟩
  have address : (pMalloc s.system.kernel.memory).1 = UInt32.ofNat (n * pageSize) := by
    rw [pMalloc_nextFree covers least]
  have frame : frameOf (pMalloc s.system.kernel.memory).1 = n := by
    rw [address, frameOf_frame (nextFree_lt covers least)]
  have touches := setMmap_touches first.covers first.directory (itselfEnd_index above) (frames_nextFree next)
    (pMalloc s.system.kernel.memory).1 pageTableFlagKernelReadWrite
  refine ⟨_, ⟨ok.charted.step step, ok.apart.load ok.charted.spaces live above one two⟩, first.trans touches,
    address ▸ frame_aligned n, frame ▸ nextFree_not_taken least, fun a inside => ?_⟩
  rw [frame] at inside
  have bytes : (pMalloc s.system.kernel.memory).2.bytes = s.system.kernel.memory.bytes := by
    rw [pMalloc_nextFree covers least]
  have held : Memory.Taken (pMalloc s.system.kernel.memory).2 (frameOf a) := by
    rw [inside, pMalloc_nextFree covers least]
    exact (taken_bitFree _ n n).mpr (Or.inl rfl)
  have unused : ¬OwnFrame (pMalloc s.system.kernel.memory).2 (s.system.cr3 pid) (frameOf a) := by
    intro own
    rw [inside] at own
    refine nextFree_not_taken least (directory.used_taken (used_congr (fun i bound => ?_) own.used))
    rw [pMalloc_nextFree covers least]
    rfl
  calc
    _ = (pMalloc s.system.kernel.memory).2.bytes a := touches.bytes a unused held
    _ = s.system.kernel.memory.bytes a := by rw [bytes]
    _ = 0 := ok.charted.blank a (by rw [inside]; exact nextFree_not_taken least)

theorem mapPage_start (maps : Nat → PageMap) (pid : Nat) (frame : Option UInt32) (start : PageAligned v) :
    mapPage maps pid v frame pid v = frame := by
  have mapped := mapPage_self maps pid v frame
  rwa [show pageOf v = v from page_start start] at mapped

theorem mapPage_mapPage (maps : Nat → PageMap) (first second : Option UInt32) :
    mapPage (mapPage maps pid v first) pid v second = mapPage maps pid v second := by
  rw [mapPage, mapPage, mapPage, Function.update_self, Function.update_idem, Function.update_idem]

/-- The new frame is allocated and holds no table. -/
theorem Gets.backed {p : UInt32} {m : Memory} (gets : Gets image s pid v p m) (live : pid ∈ s.system.live)
    (above : itselfEnd ≤ v) (start : PageAligned v) :
    m.Taken (frameOf p) ∧ ∀ d ∈ directories image s.system, ¬UsedFrame m d (frameOf p) := by
  obtain ⟨taken, -, apart⟩ := gets.paged.apart.backed pid live v p above (mapPage_start s.maps pid _ start)
  exact ⟨taken, apart⟩

theorem Gets.window {p : UInt32} {m : Memory} (gets : Gets image s pid v p m) (ok : Paged image s)
    (live : pid ∈ s.system.live) (above : itselfEnd ≤ v) (start : PageAligned v) :
    Window m (s.system.cr3 pid) v p where
  aligned := gets.aligned
  directory := (ok.charted.spaces.directory live).aligned
  unused := (gets.backed live above start).2 _ (List.mem_cons_of_mem _ (List.mem_map_of_mem live))
  mapped := by
    intro o small
    obtain ⟨inside, offset⟩ := page_add start small
    have found := @Follows.there _ _ (v + o) _ (gets.paged.charted.own pid live) p
      (by rw [inside]; exact mapPage_start s.maps pid _ start)
    rw [offset] at found
    exact found

/-- What the three calls of `sys_execve` do: the code is left to the slot, and the stack gets a page of zeros. -/
structure Prepared (image : KernelImage) (s : Mapped) (pid : Nat) (slot p : UInt32) (m : Memory) : Prop where
  paged : Paged image ⟨s.system.withMemory m,
    mapPage (mapPage s.maps pid tempCodeStart none) pid initEspVma (some p)⟩
  touches : Touches s.system.kernel.memory m (s.system.cr3 pid)
  code : HasWord m (s.system.cr3 pid) tempCodeStart (slot <<< 3)
  aligned : PageAligned p
  zeros : ∀ a, frameOf a = frameOf p → m.bytes a = 0

/-- A mapping of the page of the code to 0, and then the slot in its entry: the page has no frame. -/
theorem Paged.leave (ok : Paged image s) (live : pid ∈ s.system.live) (slot : UInt32)
    (free : 0 < freeFrames s.system.kernel.memory) {m m' : Memory}
    (mapped : (setMmap s.system.kernel.memory (s.system.cr3 pid) tempCodeStart 0 pageTableFlagKernelReadWrite).2 = m)
    (left : swapSectorSet m (s.system.cr3 pid) tempCodeStart slot = m') :
    Paged image ⟨s.system.withMemory m', mapPage s.maps pid tempCodeStart none⟩ ∧
      Touches s.system.kernel.memory m' (s.system.cr3 pid) ∧
      freeFrames s.system.kernel.memory ≤ freeFrames m' + 1 := by
  have covers := ok.charted.spaces.isolated.covers
  have directory := ok.charted.spaces.directory live
  have above : itselfEnd ≤ tempCodeStart := by decide
  have one : mapAllocates s.system.kernel.memory (s.system.cr3 pid) tempCodeStart := by
    obtain ⟨n, least⟩ := least_of_free free
    exact Or.inr (nextFree_allocates covers least)
  have taken : MappedStep image s (.setMmap pid tempCodeStart 0 pageTableFlagKernelReadWrite) _ :=
    ⟨⟨by decide, by decide, by decide⟩, _, ⟨⟨live, above, one⟩, rfl⟩, rfl⟩
  have charted := ok.charted.step taken
  have first := setMmap_touches covers directory (itselfEnd_index above) (frames_nextFree free) 0
    pageTableFlagKernelReadWrite
  have fewer := @setMmap_frames _ (s.system.cr3 pid) tempCodeStart 0 pageTableFlagKernelReadWrite covers free
  have there := @setMmap_table_present _ (s.system.cr3 pid) tempCodeStart 0 pageTableFlagKernelReadWrite covers
    directory (frames_nextFree free)
  have apart := ok.apart.call ok.charted.spaces live first
  have spaces := (ok.charted.spaces.call live first).1
  change Charted image ⟨s.system.withMemory _, mapPage s.maps pid tempCodeStart (some 0)⟩ at charted
  rw [mapped] at charted first fewer there apart spaces
  have swapped : MappedStep image ⟨s.system.withMemory m, mapPage s.maps pid tempCodeStart (some 0)⟩
      (.swapSectorSet pid tempCodeStart slot) _ := ⟨trivial, _, ⟨⟨live, above, there⟩, rfl⟩, rfl⟩
  have charted := charted.step swapped
  have second : Touches m (swapSectorSet m (s.system.cr3 pid) tempCodeStart slot) (s.system.cr3 pid) :=
    setEntry_touches first.covers first.directory (itselfEnd_index above) (indexInPde_lt tempCodeStart) there
      (indexInPte_lt tempCodeStart) (slot <<< 3)
  have same : freeFrames (swapSectorSet m (s.system.cr3 pid) tempCodeStart slot) = freeFrames m := rfl
  change Charted image ⟨s.system.withMemory (swapSectorSet m (s.system.cr3 pid) tempCodeStart slot),
    mapPage (mapPage s.maps pid tempCodeStart (some 0)) pid tempCodeStart none⟩ at charted
  rw [mapPage_mapPage] at charted
  rw [left] at charted second same
  refine ⟨⟨charted, (apart.call spaces live second).put fun _ new => by cases new⟩, first.trans second, ?_⟩
  omega

theorem Paged.prepare (ok : Paged image s) (live : pid ∈ s.system.live) (slot : UInt32)
    (free : 4 ≤ freeFrames s.system.kernel.memory) :
    ∃ p, Prepared image s pid slot p (prepare s.system.kernel.memory (s.system.cr3 pid) slot) := by
  have covers := ok.charted.spaces.isolated.covers
  have directory := ok.charted.spaces.directory live
  have given := (prepare_spec covers directory slot free).2.2.1
  rw [WegOS.prepare] at given ⊢
  generalize mapped : (setMmap s.system.kernel.memory (s.system.cr3 pid) tempCodeStart 0
    pageTableFlagKernelReadWrite).2 = m at given ⊢
  generalize left : swapSectorSet m (s.system.cr3 pid) tempCodeStart slot = swapped at given ⊢
  obtain ⟨paged, touches, frames⟩ :=
    ok.leave live slot (show 0 < freeFrames s.system.kernel.memory by omega) mapped left
  obtain ⟨p, gets⟩ := @Paged.load image _ pid initEspVma paged live (by decide)
    (show 2 ≤ freeFrames swapped by omega)
  exact ⟨p, gets.paged, touches.trans gets.touches, ⟨given.table, given.entry⟩, gets.aligned, gets.zeros⟩

/-- The page is in a new frame, which has the sectors of the slot that the entry of the page gives. -/
structure FaultServed (image : KernelImage) (s : Mapped) (disk : Disk) (pid : Nat) (page slot p : UInt32) (m : Memory) :
    Prop where
  paged : Paged image ⟨s.system.withMemory m, mapPage s.maps pid page (some p)⟩
  sector : swapSectorOf s.system.kernel.memory (s.system.cr3 pid) page = some slot
  bitmap : m.memoryAllocBitmap = (loaded s.system.kernel.memory (s.system.cr3 pid) page).memoryAllocBitmap
  bytes : ∀ a, m.bytes a = if frameOf a = frameOf p then slotByte disk slot (a.toNat % 4096)
    else (loaded s.system.kernel.memory (s.system.cr3 pid) page).bytes a

theorem Paged.fault (ok : Paged image s) {page e : UInt32} {disk : Disk} {m : Memory} (live : pid ∈ s.system.live)
    (above : itselfEnd ≤ page) (start : PageAligned page) (free : 2 ≤ freeFrames s.system.kernel.memory)
    (run : onPageFault s.system.kernel.memory disk (s.system.cr3 pid) page e = some m) :
    s.maps pid page = none ∧ ∃ slot p,
      Gets image s pid page p (loaded s.system.kernel.memory (s.system.cr3 pid) page) ∧
        FaultServed image s disk pid page slot p m := by
  have base : pageOf page = page := page_start start
  rw [onPageFault, swapIn] at run
  split_ifs at run with has
  obtain ⟨slot, sector, run⟩ := Option.bind_eq_some_iff.mp run
  obtain ⟨p, gets⟩ := ok.load live above free
  change readDisk disk _ 8 slot page (loaded s.system.kernel.memory (s.system.cr3 pid) page) = some m at run
  change Gets image s pid page p (loaded s.system.kernel.memory (s.system.cr3 pid) page) at gets
  obtain ⟨taken, apart⟩ := gets.backed live above start
  have size : 512 * 8 = 4096 := rfl
  have zero : page + UInt32.ofNat 0 = page := UInt32.add_zero page
  rw [readDisk_eq, size] at run
  obtain ⟨stored, result, bitmap, bytes⟩ := storeBytes_window (gets.window ok live above start)
    ((List.range 4096).map (slotByte disk slot))
    (show 0 + _ ≤ 4096 by rw [List.length_map, List.length_range])
  rw [zero] at result
  obtain rfl := Option.some.inj (result.symm.trans run)
  have byte : ∀ a, stored.bytes a = if frameOf a = frameOf p then slotByte disk slot (a.toNat % 4096)
      else (loaded s.system.kernel.memory (s.system.cr3 pid) page).bytes a := by
    intro a
    have low := Nat.mod_lt a.toNat (show 0 < 4096 by decide)
    rw [bytes a, List.length_map, List.length_range]
    by_cases inside : frameOf a = frameOf p
    · rw [if_pos ⟨inside, Nat.zero_le _, by omega⟩, if_pos inside, Nat.sub_zero, List.getD_eq_getElem?_getD,
        List.getElem?_map, List.getElem?_range low]
      rfl
    · rw [if_neg fun all => inside all.1, if_neg inside]
  have paged := gets.paged.fill taken apart bitmap fun a outside => by
    rw [byte a, if_neg outside]
    rfl
  refine ⟨?_, slot, p, gets, paged, sector, bitmap, byte⟩
  have missing := @Follows.missing _ _ page _ (ok.charted.own pid live)
  rw [base] at missing
  exact missing.mpr (Bool.eq_false_iff.mpr has)

end Paged

/-! ## Runs -/

structure Keeps (image : KernelImage) (s : Programs) (maps : Nat → PageMap) : Prop where
  paged : Paged image ⟨s.system, maps⟩
  slots : s.machine.swapNext.toNat ≤ 2 ^ 29
  bytes : ∀ pid ∈ s.live, ∀ a b, s.own pid a = some b →
    itselfEnd ≤ a ∧ Kept s.machine (s.cr3 pid) a b (maps pid (pageOf a))

section Keeps

variable {image : KernelImage} {s t : Programs} {maps : Nat → PageMap} {pid : Nat} {m : Memory} {a : UInt32} {b : UInt8}

theorem Keeps.backed (ok : Keeps image s maps) (live : pid ∈ s.live) (above : itselfEnd ≤ a) {p : UInt32}
    (frame : maps pid (pageOf a) = some p) : frameOf (p + (a &&& 0xFFF)) = frameOf p ∧ s.memory.Taken (frameOf p) ∧
      PageAligned p ∧ ∀ d ∈ directories image s.system, ¬UsedFrame s.memory d (frameOf p) := by
  obtain ⟨taken, aligned, apart⟩ := ok.paged.apart.backed pid live _ p (pageOf_above.mpr above) frame
  exact ⟨frameOf_offset aligned a, taken, aligned, apart⟩

theorem Keeps.once (ok : Keeps image s maps) {other : Nat} {a' p q : UInt32} (live : pid ∈ s.live)
    (member : other ∈ s.live) (above : itselfEnd ≤ a) (above' : itselfEnd ≤ a') (page : maps pid (pageOf a) = some p)
    (frame : maps other (pageOf a') = some q) (same : q + (a' &&& 0xFFF) = p + (a &&& 0xFFF)) :
    other = pid ∧ a' = a := by
  obtain ⟨place, -, aligned, -⟩ := ok.backed live above page
  obtain ⟨place', -, aligned', -⟩ := ok.backed member above' frame
  have frames : frameOf q = frameOf p := by rw [← place', same, place]
  obtain rfl := aligned_eq aligned' aligned frames
  obtain ⟨task, pages⟩ := ok.paged.apart.once other member pid live _ _ q (pageOf_above.mpr above')
    (pageOf_above.mpr above) frame page
  refine ⟨task, ?_⟩
  calc
    a' = pageOf a' + (a' &&& 0xFFF) := (page_split a').symm
    _ = pageOf a + (a &&& 0xFFF) := by rw [pages, (UInt32.add_right_inj q).mp same]
    _ = a := page_split a

theorem Keeps.cr3_mem (live : pid ∈ s.live) : s.cr3 pid ∈ directories image s.system :=
  List.mem_cons_of_mem _ (List.mem_map_of_mem live)

/-- A call on the directory of one task keeps the bytes of the others, and those of its own that it keeps in
their slots. -/
theorem Keeps.touch (ok : Keeps image s maps) (live : pid ∈ s.live) (touches : Touches s.memory m (s.cr3 pid))
    {other : Nat} (member : other ∈ s.live) (known : s.own other a = some b)
    (own : other = pid → maps pid (pageOf a) = none → ∀ slot : UInt32, HasWord s.memory (s.cr3 pid) a (slot <<< 3) →
      HasWord m (s.cr3 pid) a (slot <<< 3)) :
    Kept (s.machine.withMemory m) (s.cr3 other) a b (maps other (pageOf a)) := by
  obtain ⟨above, kept⟩ := ok.bytes other member a b known
  have spaces := ok.paged.charted.spaces
  refine kept.memory (fun p frame => ?_) (fun slot frame given => ?_)
  · obtain ⟨inFrame, taken, -, apart⟩ := ok.backed member above frame
    apply touches.bytes
    · rw [inFrame]
      exact fun used => apart _ (Keeps.cr3_mem live) used.used
    · rw [inFrame]
      exact taken
  · by_cases same : other = pid
    · subst same
      exact own rfl frame slot given
    · have different : s.cr3 other ≠ s.cr3 pid := fun equal => same (spaces.distinct other member pid live equal)
      refine given.frames (spaces.directory member).aligned fun x used => ?_
      exact spaces.isolated.keep_bytes (List.mem_map_of_mem live) touches (Keeps.cr3_mem member) different used

theorem Kept.fill {machine : Machine} {cr3 p : UInt32} {frame : Option UInt32} (kept : Kept machine cr3 a b frame)
    (aligned : PageAligned cr3) (unused : ¬UsedFrame machine.kernel.memory cr3 (frameOf p))
    (agree : ∀ x, frameOf x ≠ frameOf p → m.bytes x = machine.kernel.memory.bytes x)
    (other : ∀ q, frame = some q → m.bytes (q + (a &&& 0xFFF)) = machine.kernel.memory.bytes (q + (a &&& 0xFFF))) :
    Kept (machine.withMemory m) cr3 a b frame :=
  kept.memory other fun _ _ given => given.frames aligned fun x used => agree x fun same => unused (same ▸ used)

theorem Keeps.store (ok : Keeps image s maps) (live : pid ∈ s.live) (above : itselfEnd ≤ a)
    (stored : storeByte s.memory (s.cr3 pid) a b = some m) :
    Keeps image { s.withMemory m with own := Function.update s.own pid (Function.update (s.own pid) a (some b)) }
      maps := by
  rw [storeByte] at stored
  split_ifs at stored with has
  obtain rfl := Option.some.inj stored
  have follows := ok.paged.charted.own pid live
  cases page : maps pid (pageOf a) with
  | none =>
      have missing := follows.missing.mp page
      change hasAddr s.memory (s.cr3 pid) a = false at missing
      rw [has] at missing
      cases missing
  | some p =>
      obtain ⟨inFrame, taken, aligned, apart⟩ := ok.backed live above page
      have translate : addrTranslate s.memory (s.cr3 pid) a = p + (a &&& 0xFFF) := (follows.there page).2
      rw [translate]
      have agree : ∀ x, frameOf x ≠ frameOf p → Function.update s.memory.bytes (p + (a &&& 0xFFF)) b x =
          s.memory.bytes x := by
        intro x outside
        apply Function.update_of_ne
        rintro rfl
        exact outside inFrame
      refine ⟨ok.paged.fill taken apart rfl agree, ok.slots, fun other member a' b' known => ?_⟩
      by_cases here : other = pid ∧ a' = a
      · obtain ⟨rfl, rfl⟩ := here
        dsimp only at known
        rw [Function.update_self, Function.update_self] at known
        obtain rfl := Option.some.inj known
        rw [page]
        exact ⟨above, Kept.frame (Function.update_self _ _ _)⟩
      · have old : s.own other a' = some b' := by
          dsimp only at known
          by_cases task : other = pid
          · subst task
            rwa [Function.update_self, Function.update_of_ne fun same => here ⟨rfl, same⟩] at known
          · rwa [Function.update_of_ne task] at known
        obtain ⟨above', kept⟩ := ok.bytes other member a' b' old
        refine ⟨above', kept.fill (ok.paged.charted.spaces.directory member).aligned
          (apart _ (Keeps.cr3_mem member)) agree fun q frame => ?_⟩
        apply Function.update_of_ne
        exact fun same => here (ok.once live member above above' page frame same)

theorem FaultServed.brings {p slot : UInt32}
    (served : FaultServed image ⟨s.system, maps⟩ s.machine.disk pid (pageOf a) slot p m) (aligned : PageAligned p)
    (kept : Kept s.machine (s.cr3 pid) a b none) (slots : s.machine.swapNext.toNat ≤ 2 ^ 29) :
    Kept (s.machine.withMemory m) (s.cr3 pid) a b (some p) := by
  cases kept with
  | @slot given word inside byte =>
      have page := word.same_page (pageOf_pageOf a)
      have missing : hasAddr s.memory (s.cr3 pid) (pageOf a) = false := HasSlot.missing ⟨page.table, page.entry⟩
      have same : slot = given :=
        Option.some.inj (served.sector.symm.trans ((page.sector missing).trans (by rw [slot_kept (by omega)])))
      have offset : (p + (a &&& 0xFFF)).toNat % 4096 = (a &&& 0xFFF).toNat := by
        have parts := (page_add aligned (offset_lt a)).2
        rw [← congrArg UInt32.toNat parts, offset_mask]
        rfl
      refine Kept.frame ((served.bytes _).trans ?_)
      rw [if_pos (frameOf_offset aligned a), offset, same]
      exact byte

/-- A page fault changes nothing that a task reads. -/
theorem Keeps.fault (ok : Keeps image s maps) {page e : UInt32} (live : pid ∈ s.live) (above : itselfEnd ≤ page)
    (start : PageAligned page) (free : 2 ≤ freeFrames s.memory)
    (run : onPageFault s.memory s.machine.disk (s.cr3 pid) page e = some m) :
    ∃ maps', Keeps image (s.withMemory m) maps' := by
  have spaces := ok.paged.charted.spaces
  have base : pageOf page = page := page_start start
  obtain ⟨missing, slot, p, gets, served⟩ := ok.paged.fault live above start free run
  change maps pid page = none at missing
  refine ⟨mapPage maps pid page (some p), served.paged, ok.slots, fun other member a b known => ?_⟩
  obtain ⟨above', kept⟩ := ok.bytes other member a b known
  refine ⟨above', ?_⟩
  change Kept (s.machine.withMemory m) (s.cr3 other) a b (mapPage maps pid page (some p) other (pageOf a))
  by_cases here : other = pid ∧ pageOf a = page
  · obtain ⟨rfl, rfl⟩ := here
    rw [missing] at kept
    rw [mapPage_start maps other _ start]
    exact served.brings gets.aligned kept ok.slots
  · rw [mapPage_other maps (some p) (base.symm ▸ here)]
    have apart := (gets.backed live above start).2
    have first := ok.touch live gets.touches member known fun task _ given word => by
      have other : a &&& 0xFFFFF000 ≠ page &&& 0xFFFFF000 := fun same => here ⟨task, same.trans base⟩
      have kept := @HasSlot.loadMemory _ (s.cr3 pid) a pageTableFlagKernelReadWrite page given
        ⟨word.table, word.entry⟩ spaces.isolated.covers (spaces.directory live) other free
      exact ⟨kept.table, kept.entry⟩
    refine first.fill (spaces.directory member).aligned (apart _ (Keeps.cr3_mem member)) (fun x outside => ?_)
      fun q frame => ?_
    · exact (served.bytes x).trans (if_neg outside)
    · obtain ⟨place, taken, -⟩ := ok.backed member above' frame
      refine (served.bytes _).trans (if_neg fun same => gets.fresh ?_)
      rw [← same, place]
      exact taken

theorem createTask_bytes {k k' : Kernel} {flag eip esp ddl : UInt32} (covers : k.memory.Covers)
    (free : allocates k.memory) (result : createTask image k flag eip esp ddl = some (pid, k')) :
    freeFrames k'.memory + 1 = freeFrames k.memory ∧
      ∀ a, k.memory.Taken (frameOf a) → k'.memory.bytes a = k.memory.bytes a := by
  obtain ⟨n, nextFree⟩ := allocates_nextFree free
  obtain ⟨-, -, -, memory, -⟩ := createTask_eq result
  rw [memory]
  constructor
  · rw [pMalloc_nextFree covers nextFree]
    exact freeSectors_mark nextFree.1 nextFree.2.1
  · intro a taken
    rw [pMalloc_nextFree covers nextFree, copyPts_bytes _ (frame_aligned n)]
    rw [frameOf_frame (nextFree_lt covers nextFree)]
    exact fun same => nextFree_not_taken nextFree (same ▸ taken)

theorem Keeps.create (ok : Keeps image s maps) {flag eip esp ddl : UInt32} {k : Kernel} (free : allocates s.memory)
    (result : createTask image s.machine.kernel flag eip esp ddl = some (pid, k)) :
    Keeps image ⟨{ s.machine with kernel := k }, pid :: s.live, s.exited.filter (· ≠ pid),
      Function.update s.own pid fun _ => none⟩ (Function.update maps pid identityMap) := by
  have spaces : Spaces image s.system := ok.paged.charted.spaces
  obtain ⟨-, -, undisturbed⟩ := spaces.create free result
  obtain ⟨-, bytes⟩ := createTask_bytes spaces.isolated.covers free result
  refine ⟨⟨ok.paged.charted.create free result, ok.paged.apart.create spaces free result⟩, ok.slots,
    fun other member a b known => ?_⟩
  dsimp only at known
  by_cases new : other = pid
  · rw [new, Function.update_self] at known
    cases known
  · rw [Function.update_of_ne new] at known
    have old : other ∈ s.live := List.mem_of_ne_of_mem new member
    obtain ⟨above, kept⟩ := ok.bytes other old a b known
    have cr3 := (undisturbed other old).cr3
    refine ⟨above, ?_⟩
    rw [Function.update_of_ne new]
    change Kept _ (System.cr3 ⟨k, pid :: s.live, s.exited.filter (· ≠ pid)⟩ other) a b _
    rw [show System.cr3 ⟨k, pid :: s.live, s.exited.filter (· ≠ pid)⟩ other = s.cr3 other from cr3]
    refine kept.keep (fun p frame => ?_) (fun slot _ given => ?_) (Nat.le_refl _) fun _ _ _ _ => rfl
    · obtain ⟨place, taken, -⟩ := ok.backed old above frame
      apply bytes
      rw [place]
      exact taken
    · exact given.frames (spaces.directory old).aligned fun x used =>
        bytes x ((spaces.directory old).used_taken used)

theorem Keeps.quiet (ok : Keeps image s maps) {system : System} (spaces : Spaces image system)
    (memory : system.kernel.memory = s.memory) (live : ∀ pid ∈ system.live, pid ∈ s.live)
    (cr3 : ∀ pid, system.cr3 pid = s.cr3 pid) :
    Keeps image ⟨{ s.machine with kernel := system.kernel }, system.live, system.exited, s.own⟩ maps := by
  refine ⟨⟨ok.paged.charted.quiet spaces memory live cr3, ok.paged.apart.quiet memory live cr3⟩, ok.slots,
    fun pid inside a b known => ?_⟩
  obtain ⟨above, kept⟩ := ok.bytes pid (live pid inside) a b known
  refine ⟨above, ?_⟩
  change Kept _ (system.cr3 pid) a b _
  rw [cr3]
  refine kept.keep (fun p _ => ?_) (fun slot _ given => ?_) (Nat.le_refl _) fun _ _ _ _ => rfl
  · exact congrArg (fun m => m.bytes (p + (a &&& 0xFFF))) memory
  · exact given.frames (ok.paged.charted.spaces.directory (live pid inside)).aligned fun x _ =>
      congrArg (fun m => m.bytes x) memory

theorem execved_disk (machine : Machine) (k : Kernel) (code : Nat → UInt8) :
    (execved machine k code).disk = writeDiskSectors machine.disk 8 machine.swapNext code := rfl

theorem slotByte_execved {machine : Machine} {k : Kernel} {code : Nat → UInt8} {i : Nat} (inside : i < 4096) :
    slotByte (execved machine k code).disk machine.swapNext i = code i := by
  rw [execved_disk]
  exact slotByte_writeDiskSectors (by decide) inside

theorem slotByte_earlier {machine : Machine} {k : Kernel} {code : Nat → UInt8} {slot : UInt32}
    (bound : machine.swapNext.toNat + 8 ≤ 2 ^ 29) (earlier : slot.toNat + 8 ≤ machine.swapNext.toNat) {i : Nat}
    (inside : i < 4096) : slotByte (execved machine k code).disk slot i = slotByte machine.disk slot i := by
  rw [execved_disk, slotByte, slotByte, writeDiskSectors_outside]
  intro k small same
  have number := congrArg UInt32.toNat same
  rw [UInt32.toNat_add, UInt32.toNat_add, UInt32.toNat_ofNat', UInt32.toNat_ofNat'] at number
  omega

theorem code_page {i : Nat} (inside : (a - tempCodeStart).toNat = i) (small : i < 4096) :
    pageOf a = tempCodeStart ∧ (a &&& 0xFFF).toNat = i := by
  have place : a = tempCodeStart + UInt32.ofNat i := by
    rw [← inside, UInt32.ofNat_toNat, UInt32.add_comm, UInt32.sub_add_cancel]
  have number : (UInt32.ofNat i).toNat = i := by
    rw [UInt32.toNat_ofNat']
    omega
  have start : PageAligned tempCodeStart := by decide
  obtain ⟨page, offset⟩ := page_add start (show (UInt32.ofNat i).toNat < 4096 by omega)
  rw [place, page, offset, number]
  exact ⟨rfl, rfl⟩

theorem Prepared.kept {before : Mapped} {machine : Machine} {slot p : UInt32} {file : List UInt8}
    (prepared : Prepared image before pid slot p machine.kernel.memory)
    (next : slot.toNat + 8 ≤ machine.swapNext.toNat) (small : file.length ≤ 4096)
    (code : ∀ i, (inside : i < file.length) → slotByte machine.disk slot i = file[i])
    (known : programMemory file a = some b) :
    itselfEnd ≤ a ∧ Kept machine (before.system.cr3 pid) a b
      (mapPage (mapPage before.maps pid tempCodeStart none) pid initEspVma (some p) pid (pageOf a)) := by
  rw [programMemory] at known
  split_ifs at known with stack
  · obtain rfl := Option.some.inj known
    rw [stack, mapPage_self]
    refine ⟨pageOf_above.mp (stack ▸ by decide), Kept.frame (prepared.zeros _ ?_)⟩
    exact frameOf_offset prepared.aligned a
  · obtain ⟨inside, byte⟩ := List.getElem?_eq_some_iff.mp known
    obtain ⟨page, offset⟩ := @code_page a _ rfl (inside.trans_le small)
    rw [mapPage_other _ _ fun same => stack same.2, page, mapPage_start _ _ _ (by decide)]
    refine ⟨pageOf_above.mp (page ▸ by decide), Kept.slot (prepared.code.same_page ?_) next ?_⟩
    · exact page.trans (show tempCodeStart = tempCodeStart &&& 0xFFFFF000 by decide)
    · rw [offset, code _ inside]
      exact byte

theorem Keeps.execve (ok : Keeps image s maps) {code : Nat → UInt8} {k : Kernel} {f : FileT}
    (small : f.size ≤ tempCodeSizeMax)
    (bytes : ∀ i < f.size, code i = byteOf s.machine.disk (sectorsOf s.machine.disk f) i)
    (frames : 5 ≤ freeFrames s.memory) (bound : s.machine.swapNext.toNat + 8 ≤ 2 ^ 29)
    (created : createTask image s.machine.kernel taskFlagKernel tempCodeStart initEspVma 0xFF =
      some (getPidEmpty s.machine.kernel.gdt, k)) :
    let pid := getPidEmpty s.machine.kernel.gdt
    ∃ maps', Keeps image ⟨execved s.machine k code, pid :: s.live, s.exited.filter (· ≠ pid),
      Function.update s.own pid (programMemory (contentList s.machine.disk f))⟩ maps' := by
  intro pid
  have covers : s.memory.Covers := ok.paged.charted.spaces.isolated.covers
  obtain ⟨n, least⟩ := least_of_free (show 0 < freeFrames s.memory by omega)
  have free := nextFree_allocates covers least
  obtain ⟨left, -⟩ := createTask_bytes covers free created
  change freeFrames k.memory + 1 = freeFrames s.memory at left
  have first := ok.create free created
  have live : pid ∈ pid :: s.live := List.mem_cons_self
  obtain ⟨p, prepared⟩ := first.paged.prepare live s.machine.swapNext (show 4 ≤ freeFrames k.memory by omega)
  have next : (s.machine.swapNext + 8).toNat = s.machine.swapNext.toNat + 8 := by
    rw [UInt32.toNat_add, show UInt32.toNat 8 = 8 from rfl]
    omega
  refine ⟨_, prepared.paged, next ▸ bound, fun other member a b known => ?_⟩
  dsimp only at known ⊢
  by_cases new : other = pid
  · rw [new, Function.update_self] at known
    rw [new]
    refine @Prepared.kept _ _ _ _ _ (execved s.machine k code) _ _ _ prepared next.ge ?_ (fun i inside => ?_) known
    · rw [contentList_length]
      exact small
    · rw [contentList_length] at inside
      rw [slotByte_execved (inside.trans_le small), bytes i inside]
      simp only [contentList, List.getElem_map, List.getElem_range]
  · rw [Function.update_of_ne new] at known
    rw [mapPage_other _ _ fun same => new same.1, mapPage_other _ _ fun same => new same.1]
    have old : other ∈ s.live := List.mem_of_ne_of_mem new member
    have before : Function.update s.own (pid) (fun _ => none) other a = some b := by
      rw [Function.update_of_ne new]
      exact known
    have kept := first.touch live prepared.touches member before fun same => absurd same new
    dsimp only at kept
    rw [Function.update_of_ne new] at kept ⊢
    refine ⟨(ok.bytes other old a b known).1, kept.keep (fun _ _ => rfl) (fun _ _ given => given) ?_ ?_⟩
    · exact (Nat.le_add_right _ 8).trans next.ge
    · exact fun slot earlier i inside => slotByte_earlier bound earlier inside

theorem ownAfter_quiet {event : Event} (quiet : ∀ flag eip esp ddl, event ≠ .create flag eip esp ddl) :
    ownAfter s event = s.own := by
  cases event with
  | create flag eip esp ddl => exact absurd rfl (quiet flag eip esp ddl)
  | tick => rfl
  | sleep counter => rfl
  | exit code => rfl

/-- In reach, an event of the scheduler does what it does on physical memory. -/
theorem task_low {active : UInt32} {event : Event} {system : System} (low : LowSpaces image s.system)
    (possible : Possible image s (.task active event))
    (step : pagedStep image s.system ⟨active, .task event⟩ = some system) :
    Guarded (MemStep image) FramesLow s.system (.task event) system := by
  cases event with
  | create flag eip esp ddl =>
      obtain ⟨here, some⟩ := possible
      have found : FindsLow s.system ⟨active, .task (.create flag eip esp ddl)⟩ := freeBelow_pos.mp some
      obtain ⟨n, free⟩ := lowFrames_nextFree low.spaces.isolated.covers some
      have allowed : Allowed s.system (.task (.create flag eip esp ddl)) :=
        nextFree_allocates low.spaces.isolated.covers free
      rw [low.pagedStep_eq here allowed found] at step
      exact ⟨found, allowed, step⟩
  | tick => exact ⟨trivial, trivial, step⟩
  | sleep counter => exact ⟨trivial, trivial, step⟩
  | exit code => exact ⟨trivial, trivial, step⟩

theorem Keeps.fault_low (ok : Keeps image s maps) (low : LowSpaces image s.system) {page e : UInt32} (live : pid ∈ s.live)
    (above : itselfEnd ≤ page) (start : PageAligned page) (free : 2 ≤ freeFrames s.memory)
    (stays : mapStaysLow (pMalloc s.memory).2 (s.cr3 pid) page)
    (run : onPageFaultOn s.memory s.machine.disk (s.cr3 pid) page e = some m) :
    onPageFault s.memory s.machine.disk (s.cr3 pid) page e = some m ∧
      LowDirectories m image.kernelPd (s.live.map s.cr3) := by
  have member := List.mem_map_of_mem (f := s.cr3) live
  have covers := low.spaces.isolated.covers
  have high := itselfEnd_index above
  obtain ⟨n, least⟩ := least_of_free (show 0 < freeFrames s.memory by omega)
  have left := pMalloc_frames covers (show 0 < freeFrames s.memory by omega)
  obtain ⟨k, second⟩ := least_of_free (show 0 < freeFrames (pMalloc s.memory).2 by
    change freeFrames (pMalloc s.memory).2 + 1 = freeFrames s.memory at left
    omega)
  have one := nextFree_allocates covers least
  have two : mapAllocates (pMalloc s.memory).2 (s.cr3 pid) page :=
    Or.inr (nextFree_allocates (low.directories.taken member least).isolated.covers second)
  have flat := (low.directories.onPageFaultOn_eq member high one two stays s.machine.disk e).symm.trans run
  obtain ⟨-, slot, p, gets, served⟩ := ok.paged.fault live above start free flat
  have loads := low.directories.loadMemory member high one two stays pageTableFlagKernelReadWrite
  refine ⟨flat, loads.congr served.bitmap fun d inside a used => (served.bytes a).trans (if_neg fun same => ?_)⟩
  exact (gets.backed live above start).2 d inside (same ▸ used)

theorem Keeps.store_low (ok : Keeps image s maps) (low : LowSpaces image s.system) (live : pid ∈ s.live)
    (above : itselfEnd ≤ a) (stored : storeByte s.memory (s.cr3 pid) a b = some m) :
    LowDirectories m image.kernelPd (s.live.map s.cr3) := by
  rw [storeByte] at stored
  split_ifs at stored with has
  obtain rfl := Option.some.inj stored
  have follows := ok.paged.charted.own pid live
  cases page : maps pid (pageOf a) with
  | none =>
      have missing := follows.missing.mp page
      change hasAddr s.memory (s.cr3 pid) a = false at missing
      rw [has] at missing
      cases missing
  | some p =>
      obtain ⟨inFrame, -, -, apart⟩ := ok.backed live above page
      have translate : addrTranslate s.memory (s.cr3 pid) a = p + (a &&& 0xFFF) := (follows.there page).2
      rw [translate]
      refine low.directories.congr rfl fun d member x used => Function.update_of_ne ?_ _ _
      rintro rfl
      exact apart d member (inFrame ▸ used)

theorem Keeps.step {event : ProgramEvent} (ok : Keeps image s maps) (low : LowSpaces image s.system)
    (taken : ProgramStep image s event t) : (∃ maps', Keeps image t maps') ∧ LowSpaces image t.system := by
  obtain ⟨possible, result⟩ := taken
  cases event with
  | task active event =>
      obtain ⟨system, moved, same⟩ := Option.bind_eq_some_iff.mp result
      obtain rfl := Option.some.inj same
      obtain ⟨found, allowed, step⟩ := task_low low possible moved
      refine ⟨?_, low.step found ⟨allowed, step⟩⟩
      rcases step_cases step with ⟨flag, eip, esp, ddl, k, rfl, created, rfl⟩ | ⟨quiet, memory, live, cr3⟩
      · exact ⟨_, ok.create allowed created⟩
      · rw [ownAfter_quiet quiet]
        exact ⟨maps, ok.quiet (ok.paged.charted.spaces.step ⟨allowed, step⟩).1 memory live cr3⟩
  | execve active locals codeBuf fileCached components =>
      obtain ⟨here, startable⟩ := possible
      obtain ⟨machine, executed, rest⟩ := Option.bind_eq_some_iff.mp result
      obtain ⟨f, resolved, same⟩ := Option.bind_eq_some_iff.mp rest
      obtain rfl := Option.some.inj same
      obtain ⟨g, found, wellFormed, small⟩ := startable.file
      obtain rfl := Option.some.inj (resolved.symm.trans found)
      obtain ⟨k, created⟩ := createTask_some image taskFlagKernel tempCodeStart initEspVma 0xFF startable.descriptor
      obtain ⟨code, bytes, runs⟩ :=
        sysExecve_execved startable.path startable.along resolved wellFormed small locals codeBuf fileCached created
      have flat := (low.sysExecveOn_eq here startable.low locals codeBuf fileCached _).symm.trans executed
      obtain rfl := Option.some.inj (flat.symm.trans runs)
      obtain ⟨maps', keeps⟩ := ok.execve small bytes startable.frames startable.swap created
      have reach := (low.prepared startable.low created s.machine.swapNext).1
      exact ⟨⟨maps', keeps⟩, keeps.paged.charted.spaces, reach.identity, reach.low⟩
  | fault pid page errorCode =>
      obtain ⟨m, run, same⟩ := Option.bind_eq_some_iff.mp result
      obtain rfl := Option.some.inj same
      obtain ⟨live, above, start, free, stays⟩ := possible
      obtain ⟨flat, reach⟩ := ok.fault_low low live above start free stays run
      obtain ⟨maps', keeps⟩ := ok.fault live above start free flat
      exact ⟨⟨maps', keeps⟩, keeps.paged.charted.spaces, reach.identity, reach.low⟩
  | store pid a b =>
      obtain ⟨m, stored, same⟩ := Option.bind_eq_some_iff.mp result
      obtain rfl := Option.some.inj same
      have keeps := ok.store possible.1 possible.2 stored
      have reach := ok.store_low low possible.1 possible.2 stored
      exact ⟨⟨maps, keeps⟩, keeps.paged.charted.spaces, reach.identity, reach.low⟩

theorem programStart_keeps {k : Kernel} {disk : Disk} (zeroed : Zeroed k.memory image.kernelPd)
    (unused : k.taskManager.pidQueueSleeping.head = 0 ∧ k.taskManager.pidQueueSleeping.tail = 0)
    (blank : ∀ a, kernelFrames ≤ frameOf a → k.memory.bytes a = 0) :
    Keeps image (programStart image k disk) fun _ => identityMap where
  paged := ⟨mappedStart_charted zeroed unused blank, mappedStart_private⟩
  slots := show diskSwapStartSector.toNat ≤ 2 ^ 29 by decide
  bytes := fun _ inside => absurd inside List.not_mem_nil

/-- In every run of programs that are started, fault at the starts of pages and store, with any directory active when
they are started, each task reads at its own addresses what it stored there last, and before that its file and the
zeros of its stack: at once where the page is there, and else through the page fault. -/
theorem tasks_own_memory {k : Kernel} {disk : Disk} {events : List ProgramEvent}
    (zeroed : Zeroed k.memory image.kernelPd)
    (unused : k.taskManager.pidQueueSleeping.head = 0 ∧ k.taskManager.pidQueueSleeping.tail = 0)
    (blank : ∀ a, kernelFrames ≤ frameOf a → k.memory.bytes a = 0)
    (run : Run (ProgramStep image) (programStart image k disk) events t) :
    ∀ pid ∈ t.live, ∀ a b, t.own pid a = some b → Reads t.machine (t.cr3 pid) a b := by
  obtain ⟨⟨maps, ok⟩, low⟩ : (∃ maps, Keeps image t maps) ∧ LowSpaces image t.system := by
    apply @Run.invariant _ _ _ (fun s => (∃ maps, Keeps image s maps) ∧ LowSpaces image s.system) _ _ _ run
      ⟨⟨_, programStart_keeps zeroed unused blank⟩, memStart_lowSpaces zeroed unused⟩
    intro s event t before step
    obtain ⟨⟨maps, ok⟩, low⟩ := before
    exact ok.step low step
  intro pid live a b known
  obtain ⟨-, kept⟩ := ok.bytes pid live a b known
  exact kept.reads low.directories (List.mem_map_of_mem live) (ok.paged.charted.own pid live) ok.slots

end Keeps

theorem sampleTree_startable {kernel : Kernel} (frames : 5 ≤ freeFrames kernel.memory)
    (low : 4 ≤ lowFrames kernel.memory) (pid : getPidEmpty kernel.gdt = 5) :
    Startable ⟨⟨kernel, sampleTree, diskSwapStartSector⟩, [], [], fun _ _ => none⟩ [[97]] := by
  obtain ⟨path, along, resolved, wellFormed, small⟩ := sampleTree_program
  exact
    { path := path
      along := along
      file := ⟨_, resolved, wellFormed, small⟩
      descriptor := pid.trans_lt (by decide)
      frames := frames
      low := low
      swap := show diskSwapStartSector.toNat + 8 ≤ 2 ^ 29 by decide }

/-- The program of the file `a` of the sample tree, before its first fault. -/
theorem sampleTree_started : ∃ s, ProgramStep sampleImage (programStart sampleImage sampleKernel sampleTree)
      (.execve sampleImage.kernelPd sampleLocals (fun _ => 0) sampleCached [[97]]) s ∧
    s.live = [5] ∧ s.own 5 = programMemory (contentList sampleTree (entry sampleTree (rootFcb sampleTree) 0)) ∧
    2 ≤ freeFrames s.memory ∧ present (s.memory.entry (s.cr3 5) (testbits tempCodeStart 22 32)) = true ∧
    ∃ m, onPageFaultOn s.memory s.machine.disk (s.cr3 5) tempCodeStart 0 = some m ∧
      hasAddr m (s.cr3 5) tempCodeStart = true := by
  have filled := memStart_filled sampleKernel_zeroed
  have frames := filled.frames (k := 6) (by decide)
  have low := @Memory.Filled.freeBelow _ _ 4 65536 filled (by decide) (by decide)
  have spaces := sampleKernel_start
  have pid := sampleKernel_pid
  have start : memStart sampleImage sampleKernel = ⟨(memStart sampleImage sampleKernel).kernel, [], []⟩ := rfl
  rw [start] at spaces
  rw [programStart]
  generalize (memStart sampleImage sampleKernel).kernel = kernel at frames low spaces pid ⊢
  have startable := sampleTree_startable (show 5 ≤ freeFrames kernel.memory by omega) low pid
  obtain ⟨path, along, resolved, wellFormed, small⟩ := sampleTree_program
  have here : sampleImage.kernelPd ∈ directories sampleImage ⟨kernel, [], []⟩ := List.mem_cons_self
  have sector : diskSwapStartSector.toNat < 2 ^ 29 := by decide
  obtain ⟨k, code, executed, started, given, left⟩ := @LowSpaces.starts sampleImage
    ⟨kernel, sampleTree, diskSwapStartSector⟩ [] [] sampleImage.kernelPd [[97]] (entry sampleTree (rootFcb sampleTree) 0)
    (sectorsOf sampleTree (entry sampleTree (rootFcb sampleTree) 0)) path along resolved wellFormed small spaces
    (show getPidEmpty kernel.gdt < maxGdtTerms by rw [pid]; decide) (show 5 ≤ freeFrames kernel.memory by omega) sector
    sampleLocals (fun _ => 0) sampleCached here low
  dsimp only at started given left
  rw [pid] at started given left
  obtain ⟨m, served, bytes⟩ := started.fault 0
  have memory : (execved ⟨kernel, sampleTree, diskSwapStartSector⟩ k code).kernel.memory =
      prepare k.memory (k.taskManager.tasks 5).tss.cr3 diskSwapStartSector := by
    rw [← pid]
    rfl
  have size : 0 < (entry sampleTree (rootFcb sampleTree) 0).size := by decide +kernel
  refine ⟨⟨execved ⟨kernel, sampleTree, diskSwapStartSector⟩ k code, [5], [], Function.update (fun _ _ => none) 5
    (programMemory (contentList sampleTree (entry sampleTree (rootFcb sampleTree) 0)))⟩, ⟨⟨here, startable⟩, ?_⟩, rfl,
    ?_, ?_, ?_, m, served, (bytes 0 size).1⟩
  · change programStep _ _ _ = some _
    rw [programStep]
    dsimp only
    rw [executed, resolved, pid]
    rfl
  · dsimp only
    rw [Function.update_self]
  · rw [Programs.memory, memory]
    omega
  · rw [Programs.memory, memory]
    exact given.table

/-- It faults, and stores over the first byte of its file. -/
theorem tasks_own_memory_program : ∃ t b,
    Run (ProgramStep sampleImage) (programStart sampleImage sampleKernel sampleTree)
        [.execve sampleImage.kernelPd sampleLocals (fun _ => 0) sampleCached [[97]], .fault 5 tempCodeStart 0,
          .store 5 tempCodeStart 9] t ∧
      5 ∈ t.live ∧ (contentList sampleTree (entry sampleTree (rootFcb sampleTree) 0))[1]? = some b ∧
      Reads t.machine (t.cr3 5) tempCodeStart 9 ∧ Reads t.machine (t.cr3 5) (tempCodeStart + 1) b := by
  obtain ⟨s, executed, live, own, frames, table, m, served, there⟩ := sampleTree_started
  have five : 5 ∈ s.live := by
    rw [live]
    exact List.mem_cons_self
  have fault : ProgramStep sampleImage s (.fault 5 tempCodeStart 0) (s.withMemory m) :=
    ⟨⟨five, by decide, by decide, frames, Or.inl table⟩, by simp only [programStep, served, Option.bind_eq_bind,
      Option.bind_some, Option.pure_def]⟩
  obtain ⟨m', stored⟩ : ∃ m', storeByte m (s.cr3 5) tempCodeStart 9 = some m' := ⟨_, if_pos there⟩
  have store : ProgramStep sampleImage (s.withMemory m) (.store 5 tempCodeStart 9)
      { (s.withMemory m).withMemory m' with
        own := Function.update s.own 5 (Function.update (s.own 5) tempCodeStart (some 9)) } := by
    refine ⟨⟨five, by decide⟩, ?_⟩
    change (storeByte m (s.cr3 5) tempCodeStart 9).bind _ = _
    rw [stored]
    rfl
  have run := ((Run.single executed).trans (Run.single fault)).trans (Run.single store)
  have reads := tasks_own_memory sampleKernel_zeroed ⟨rfl, rfl⟩ (fun _ _ => rfl) run 5 five
  have long : 1 < (contentList sampleTree (entry sampleTree (rootFcb sampleTree) 0)).length := by
    rw [contentList_length]
    decide +kernel
  have byte := List.getElem?_eq_getElem long
  have stack : pageOf (tempCodeStart + 1) ≠ pageOf initEspVma := by decide
  refine ⟨_, _, run, five, byte, reads _ _ ?_, reads _ _ ?_⟩ <;> dsimp only
  · rw [Function.update_self, Function.update_self]
  · rw [Function.update_self, Function.update_of_ne (show tempCodeStart + 1 ≠ tempCodeStart by decide), own,
      programMemory, if_neg stack]
    exact byte

end WegOS
