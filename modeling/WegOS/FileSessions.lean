import WegOS.FileContents
import WegOS.Execve
import WegOS.RootHandle

/-! The files of a directory over restarts of the system, with the allocation table kept on the disk. -/

namespace WegOS

open LittleEndian CArray BlockChain Transition

/-! ## The table on the disk -/

def kernelDest : UInt32 := 128
def kernelMaxSize : UInt32 := 512

def allocTableSector : UInt32 := kernelDest + kernelMaxSize
def allocTableSectors : Nat := 1024 - 640

def saveAllocTable (fs : FileSystem) : FileSystem :=
  { fs with disk := writeDiskSectors fs.disk allocTableSectors allocTableSector fun i => fs.fileAllocBitmap.bits i }

/-- `read_disk` to the array that the bitmap is bound to. -/
def loadAllocTable (fs : FileSystem) : FileSystem :=
  let bits := fun (i : Int) =>
    if 0 ≤ i ∧ i < 512 * allocTableSectors then slotByte fs.disk allocTableSector i.toNat
    else fs.fileAllocBitmap.bits i
  { fs with fileAllocBitmap := ⟨bits, fs.fileAllocBitmap.size⟩ }

/-- The table is saved before the power goes off, and loaded after `fs_init`. -/
def restart (fs : FileSystem) (around : Int → UInt8) (block : Nat → UInt8) : FileSystem :=
  loadAllocTable (fsInit false (saveAllocTable fs).disk around block)

def OnTable (s : UInt32) : Prop := allocTableSector ≤ s ∧ s < sectorWithRootFcb

section Table

variable {fs : FileSystem} {around : Int → UInt8} {block : Nat → UInt8} {s : UInt32}

theorem saveAllocTable_outside (off : ¬OnTable s) : (saveAllocTable fs).disk s = fs.disk s := by
  have first : allocTableSector.toNat = 640 := by decide
  have last : sectorWithRootFcb.toNat = 1024 := by decide
  have count : allocTableSectors = 384 := by decide
  rw [saveAllocTable]
  generalize allocTableSectors = n at count ⊢
  refine writeDiskSectors_outside fun k small same => off ?_
  rw [same, OnTable, UInt32.le_iff_toNat_le, UInt32.lt_iff_toNat_lt, UInt32.toNat_add, UInt32.toNat_ofNat', first, last]
  omega

theorem loadAllocTable_bits (fs : FileSystem) {i : Int} (inside : 0 ≤ i ∧ i < 512 * allocTableSectors) :
    (loadAllocTable fs).fileAllocBitmap.bits i = slotByte fs.disk allocTableSector i.toNat := if_pos inside

theorem fsInit_disk (disk : Disk) : (fsInit false disk around block).disk = disk := rfl

theorem restart_disk : (restart fs around block).disk = (saveAllocTable fs).disk := by
  rw [restart, loadAllocTable, fsInit_disk]

theorem restart_outside (off : ¬OnTable s) : (restart fs around block).disk s = fs.disk s := by
  rw [restart_disk]
  exact saveAllocTable_outside off

theorem restart_size : (restart fs around block).fileAllocBitmap.size = fsAllocTableBits := rfl

theorem restart_bit {n : Nat} (inside : n < fsAllocTableBits) :
    (restart fs around block).fileAllocBitmap.bit n = fs.fileAllocBitmap.bit n := by
  have byte : 0 ≤ (n : Int) / 8 ∧ (n : Int) / 8 < 512 * allocTableSectors := by
    simp only [fsAllocTableBits, allocTableSectors] at inside ⊢
    omega
  have index : ((n : Int) / 8).toNat < 512 * allocTableSectors := by omega
  have read : (restart fs around block).fileAllocBitmap.bits ((n : Int) / 8) =
      fs.fileAllocBitmap.bits ((n : Int) / 8) := by
    rw [restart, loadAllocTable_bits _ byte, fsInit_disk, saveAllocTable,
      slotByte_writeDiskSectors (by decide) index, Int.toNat_of_nonneg byte.1]
  rw [Bitmap.bit, Bitmap.bit, read]

theorem restart_marked (size : fs.fileAllocBitmap.size = fsAllocTableBits) :
    Marked (restart fs around block).fileAllocBitmap s ↔ Marked fs.fileAllocBitmap s := by
  rw [Marked, Marked, size, restart_size]
  exact and_congr_right fun inside => by rw [restart_bit inside]

end Table

/-! ## Sectors in use -/

def used (components : List (List UInt8)) (s : Shared) : Set UInt32 :=
  { x | x ∈ homeSectors s.fs.disk components s.dirCached.file ∨ ∃ f ∈ s.files, x ∈ sectorsOf s.fs.disk f }

structure SetAside (sectors : Set UInt32) (components : List (List UInt8)) (s : Shared) : Prop where
  table : ∀ x, OnTable x → x ∈ sectors
  marked : ∀ x ∈ sectors, Marked s.fs.fileAllocBitmap x
  apart : ∀ x ∈ used components s, x ∉ sectors

def tableSectors : Set UInt32 := { x | OnTable x }

section Calls

variable {components : List (List UInt8)} {s t : Shared} {sectors : Set UInt32}

theorem Shared.Sound.create_used (sound : s.Sound components) {locals : Locals} {fileName : List UInt8}
    {fileType : FileType} (fits : CreateFits s locals fileName fileType)
    (taken : SharedStep s (.create locals fileName fileType) t) :
    ∃ news, Allocated news s.fs.fileAllocBitmap t.fs.fileAllocBitmap ∧
      ∀ x ∈ used components t, x ∈ used components s ∨ x ∈ news := by
  obtain ⟨j, inside, place⟩ := sound.place
  obtain ⟨keeper, held, above, -⟩ := sound.kept.keeper locals
  have creatable := sound.creatable fits held above inside place
  obtain ⟨fs', dirCached', news, run, created⟩ :=
    creatable.sysCreate_spec fits.valid fileType fits.tail fits.links fun parent => Or.inr (fits.root parent)
  obtain rfl : (⟨fs', dirCached', s.files ++ [createdFile locals fileName fileType (fileAlloc s.fs).1], s.handles⟩ :
      Shared) = t := by
    simp only [SharedStep, sharedStep, run] at taken
    exact Option.some.inj taken
  refine ⟨(fileAlloc s.fs).1 :: news, created.allocated, fun x member => ?_⟩
  rcases member with home | ⟨f, listed, own⟩
  · rcases keeper.within created.saved x home with inner | own
    · exact Or.inl (Or.inl (above_home (above x inner)))
    · rw [created.sectors] at own
      exact (List.mem_append.mp own).imp (fun old => Or.inl (Or.inr (Or.inl old))) (List.mem_cons_of_mem _)
  · rcases List.mem_append.mp listed with old | young
    · have before := sound.own f old
      have same : ∀ y ∈ sectorsOf s.fs.disk f, fs'.disk y = s.fs.disk y := by
        intro y inner
        have fresh := created.allocated.not_mem (before.marked y inner).2
        apply created.frame y
        · rintro rfl
          exact fresh List.mem_cons_self
        · rw [created.sectors, List.mem_append, not_or]
          exact ⟨fun there => before.apart y inner (Or.inr (Or.inl there)),
            fun there => fresh (List.mem_cons_of_mem _ there)⟩
        · exact fun up => before.apart y inner (above_home (above y up))
      rw [sectorsOf_congr same] at own
      exact Or.inl (Or.inr ⟨f, old, own⟩)
    · rw [List.mem_singleton.mp young, createdFile_sectors, List.mem_singleton] at own
      exact Or.inr (own ▸ List.mem_cons_self)

theorem Shared.Sound.write_used (sound : s.Sound components) {handle file : Nat} {cached : FileCached}
    (opened : s.handles[handle]? = some (file, cached)) {locals : Locals} {buf : Nat → UInt8} {length : Nat}
    (fits : WriteFits s file cached buf length) (taken : SharedStep s (.write handle locals buf length) t) :
    ∃ news, Allocated news s.fs.fileAllocBitmap t.fs.fileAllocBitmap ∧
      ∀ x ∈ used components t, x ∈ used components s ∨ x ∈ news := by
  obtain ⟨hasParent, parent, f, latest, seek, here⟩ := sound.handles handle file cached opened
  obtain rfl : f = cached.file := Option.some.inj (latest.symm.trans fits.latest)
  have member := List.mem_of_getElem? latest
  have inside : cached.pathState.indexInParentDir < entryCount s.dirCached.file := by
    have bound := (List.getElem?_eq_some_iff.mp fits.current).1
    rwa [entries_length] at bound
  obtain ⟨fs', cached', news, run, written⟩ :=
    (sound.writable fits locals hasParent parent inside seek here).sysWrite_spec buf hasParent fits.tail
      fits.links
  have held : EntryHeld s.fs.disk components s.dirCached.file cached.pathState.indexInParentDir fs'.disk cached'.file :=
    written.kept
  obtain rfl : (⟨fs', s.dirCached, s.files.set file cached'.file, s.handles.set handle (file, cached')⟩ :
      Shared) = t := by
    simp only [SharedStep, sharedStep, opened, Option.bind_eq_bind, Option.bind_some, run] at taken
    exact Option.some.inj taken
  refine ⟨news, written.allocated, fun x member' => ?_⟩
  rcases member' with home | ⟨g, listed, own⟩
  · exact Or.inl (Or.inl (held.homeSectors_subset sound.home home))
  · obtain ⟨i, there⟩ := List.mem_iff_getElem?.mp listed
    rcases getElem?_set_cases there with ⟨-, rfl⟩ | ⟨other, old⟩
    · rw [written.wellFormed.sectorsOf_eq] at own
      exact (List.mem_append.mp own).imp_left fun old => Or.inr ⟨cached.file, member, old⟩
    · have before := sound.own g (List.mem_of_getElem? old)
      have same : ∀ y ∈ sectorsOf s.fs.disk g, fs'.disk y = s.fs.disk y := fun y inner =>
        written.frame y (sound.elsewhere latest old other written.allocated y inner) (before.apart y inner)
      rw [sectorsOf_congr same] at own
      exact Or.inl (Or.inr ⟨g, List.mem_of_getElem? old, own⟩)

theorem SetAside.call (aside : SetAside sectors components s) (sound : s.Sound components) {call : SharedCall}
    (fits : Fits s call) (taken : SharedStep s call t) : SetAside sectors components t := by
  obtain ⟨news, allocated, grown⟩ : ∃ news, Allocated news s.fs.fileAllocBitmap t.fs.fileAllocBitmap ∧
      ∀ x ∈ used components t, x ∈ used components s ∨ x ∈ news := by
    cases call with
    | create locals fileName fileType => exact sound.create_used fits taken
    | write handle locals buf length =>
        obtain ⟨file, cached, opened, fits⟩ := fits
        exact sound.write_used opened fits taken
  refine ⟨aside.table, fun x member => ?_, fun x member inside => ?_⟩
  · exact allocated.marked sound.size (Or.inl (aside.marked x member))
  · rcases grown x member with old | new
    · exact aside.apart x old inside
    · exact allocated.not_mem (aside.marked x inside).2 new

end Calls

/-! ## Handles that are loaded -/

section Loads

variable {components : List (List UInt8)} {s : Shared} {disk disk' : Disk} {dir : FileT} {path : FilePathState}
  {cached old : FileCached} {locals : Locals}

theorem along_homeSectors (same : ∀ x ∈ homeSectors disk components dir, disk' x = disk x) :
    Along disk (rootFcb disk) components fun d => ∀ x ∈ sectorsOf disk d, disk' x = disk x :=
  fun first c rest split d reached x member => same x (Or.inr (Or.inr ⟨first, c, rest, d, split, reached, member⟩))

theorem Home.frame (home : Home disk components dir)
    (same : ∀ x ∈ homeSectors disk components dir, disk' x = disk x) : Home disk' components dir := by
  have own : ∀ x ∈ sectorsOf disk dir, disk' x = disk x := fun x member => same x (Or.inr (Or.inl member))
  exact home.congr (same _ (Or.inl rfl)) (along_homeSectors same) (sectorsOf_congr own) (home.directory.congr own)

theorem Home.homeSectors_subset (home : Home disk components dir)
    (same : ∀ x ∈ homeSectors disk components dir, disk' x = disk x) {x : UInt32}
    (member : x ∈ homeSectors disk' components dir) : x ∈ homeSectors disk components dir := by
  rcases member with root | own | ⟨first, c, rest, d, rfl, reached, inner⟩
  · exact Or.inl root
  · rw [sectorsOf_congr fun y there => same y (Or.inr (Or.inl there))] at own
    exact Or.inr (Or.inl own)
  · have along := along_homeSectors same
    rw [rootFcb_congr (same _ (Or.inl rfl)), resolve_congr home.along.left along.left] at reached
    rw [sectorsOf_congr (along first c rest rfl d reached)] at inner
    exact Or.inr (Or.inr ⟨first, c, rest, d, rfl, reached, inner⟩)

theorem DirKept.loaded (kept : DirKept disk path dir components) (home : Home disk components dir)
    (loaded : Loaded disk components cached) :
    cached.file = dir ∧ DirKept disk cached.pathState dir components := by
  have same : cached.file = dir := Option.some.inj (loaded.file.symm.trans home.reached)
  refine ⟨same, ?_⟩
  cases kept with
  | root hasParent held => exact DirKept.root loaded.hasParent held
  | @entry init c parent above long hasParent name found held =>
      obtain ⟨name', other, reached, found'⟩ := loaded.parent init c rfl
      obtain rfl := Option.some.inj (above.reached.symm.trans reached)
      have index : path.indexInParentDir = cached.pathState.indexInParentDir :=
        Option.some.inj (found.symm.trans found')
      rw [index] at held
      exact DirKept.entry above long (loaded.hasParent.trans (by simp)) name' found' held

theorem Loaded.start (loaded : Loaded disk components cached) {sectors : List UInt32}
    (wellFormed : WellFormed disk cached.file sectors) :
    sectors[nthBlock cached.ioState.writeSeek]? = some cached.ioState.writeSector := by
  have first : sectors[nthBlock 0]? = some cached.file.firstSector := wellFormed.first
  rw [loaded.ioState]
  exact first

theorem Loaded.sound {fs : FileSystem} {files : List FileT} (loaded : Loaded fs.disk components cached)
    (size : fs.fileAllocBitmap.size = fsAllocTableBits) (home : Home fs.disk components cached.file)
    (kept : DirKept fs.disk cached.pathState cached.file components)
    (wellFormed : WellFormed fs.disk cached.file (sectorsOf fs.disk cached.file))
    (marked : ∀ x ∈ homeSectors fs.disk components cached.file, Marked fs.fileAllocBitmap x)
    (own : ∀ f ∈ files, OwnSectors fs components cached.file f)
    (disjoint : ∀ (i j : Nat) f g, i ≠ j → files[i]? = some f → files[j]? = some g →
      (sectorsOf fs.disk f).Disjoint (sectorsOf fs.disk g)) : Shared.Sound components ⟨fs, cached, files, []⟩ where
  size := size
  home := home
  kept := kept
  wellFormed := wellFormed
  marked := marked
  place := ⟨0, Nat.zero_le _, congrArg FileIoState.writeSeek loaded.ioState⟩
  here := loaded.start wellFormed
  own := own
  disjoint := disjoint
  handles := by
    intro k number other there
    simp at there

theorem Shared.Sound.load (sound : s.Sound components) {file : Nat} {c : List UInt8} (long : Path (components ++ [c]))
    (result : loadFileCached s.fs.disk locals (joinPath (components ++ [c])) old = some (.success, cached))
    (latest : s.files[file]? = some cached.file) :
    Shared.Sound components { s with handles := s.handles ++ [(file, cached)] } := by
  have loaded := loaded_of_success long sound.home.below result
  have own := sound.own cached.file (List.mem_of_getElem? latest)
  refine { sound with handles := fun k number other there => ?_ }
  rw [List.getElem?_append] at there
  split_ifs at there
  · obtain ⟨hasParent, parent, cursor⟩ := sound.handles k number other there
    exact ⟨hasParent, parent, cursor⟩
  · obtain ⟨small, same⟩ := List.getElem?_eq_some_iff.mp there
    rw [List.getElem_singleton] at same
    obtain ⟨rfl, rfl⟩ := Prod.mk.inj same
    refine ⟨loaded.hasParent.trans (by simp), (loaded.parent components c rfl).1, cached.file, latest, ?_,
      loaded.start own.wellFormed⟩
    rw [loaded.ioState]
    exact Nat.zero_le _

end Loads

/-! ## Sessions -/

inductive SessionEvent
  | call (call : SharedCall)
  | load (file : Nat) (locals : Locals) (component : List UInt8) (old : FileCached)
  | restart (locals : Locals) (around : Int → UInt8) (block : Nat → UInt8) (old : FileCached)

/-- `load` opens file number `file` under its name. After a restart there is a new handle on the directory, and
no other. -/
inductive SessionStep (components : List (List UInt8)) (s : Shared) : SessionEvent → Shared → Prop
  | call {call : SharedCall} {t : Shared} : SharedStep s call t → SessionStep components s (.call call) t
  | load {file : Nat} {locals : Locals} {component : List UInt8} {old cached : FileCached} :
      loadFileCached s.fs.disk locals (joinPath (components ++ [component])) old = some (.success, cached) →
      s.files[file]? = some cached.file →
      SessionStep components s (.load file locals component old) { s with handles := s.handles ++ [(file, cached)] }
  | restart {locals : Locals} {around : Int → UInt8} {block : Nat → UInt8} {old dirCached : FileCached} :
      loadFileCached (restart s.fs around block).disk locals (joinPath components) old = some (.success, dirCached) →
      SessionStep components s (.restart locals around block old)
        ⟨restart s.fs around block, dirCached, s.files, []⟩

/-- Paths are as long as the kernel takes them. -/
def SessionFits (components : List (List UInt8)) (s : Shared) : SessionEvent → Prop
  | .call call => Fits s call
  | .load _ _ component _ => Path (components ++ [component])
  | .restart .. => True

def FileStore.session (store : FileStore) : SessionEvent → Option FileStore
  | .call call => store.step call
  | .load file .. => some { store with cursors := store.cursors ++ [(file, 0)] }
  | .restart .. => some { store with cursors := [] }

section Sessions

variable {components : List (List UInt8)} {s t : Shared} {sectors : Set UInt32}

theorem Shared.Sound.restarted (sound : s.Sound components) (aside : SetAside sectors components s)
    {locals : Locals} {around : Int → UInt8} {block : Nat → UInt8} {old dirCached : FileCached}
    (result : loadFileCached (restart s.fs around block).disk locals (joinPath components) old =
      some (.success, dirCached)) :
    Shared.Sound components ⟨restart s.fs around block, dirCached, s.files, []⟩ ∧
    SetAside sectors components ⟨restart s.fs around block, dirCached, s.files, []⟩ ∧
    (∀ f ∈ s.files, contentList (restart s.fs around block).disk f = contentList s.fs.disk f) ∧
    entries ⟨restart s.fs around block, dirCached, s.files, []⟩ = entries s := by
  have same : ∀ x ∈ used components s, (restart s.fs around block).disk x = s.fs.disk x :=
    fun x member => restart_outside fun on => aside.apart x member (aside.table x on)
  have marks : ∀ {x}, Marked s.fs.fileAllocBitmap x → Marked (restart s.fs around block).fileAllocBitmap x :=
    fun marked => (restart_marked sound.size).mpr marked
  have size : (restart s.fs around block).fileAllocBitmap.size = fsAllocTableBits := restart_size
  generalize restart s.fs around block = fs at same marks size result ⊢
  have homeSame : ∀ x ∈ homeSectors s.fs.disk components s.dirCached.file, fs.disk x = s.fs.disk x :=
    fun x member => same x (Or.inl member)
  have fileSame : ∀ f ∈ s.files, ∀ x ∈ sectorsOf s.fs.disk f, fs.disk x = s.fs.disk x :=
    fun f member x inner => same x (Or.inr ⟨f, member, inner⟩)
  have chains : ∀ f ∈ s.files, sectorsOf fs.disk f = sectorsOf s.fs.disk f :=
    fun f member => sectorsOf_congr (fileSame f member)
  have home := sound.home.frame homeSame
  have way : ∀ {x}, x ∈ homeSectors fs.disk components s.dirCached.file →
      x ∈ homeSectors s.fs.disk components s.dirCached.file :=
    fun member => sound.home.homeSectors_subset homeSame member
  have wellFormed := sound.wellFormed.congr fun x member => homeSame x (Or.inr (Or.inl member))
  have framed := sound.kept.frame fun x above => homeSame x (above_home above)
  obtain ⟨again, loads, -, loaded⟩ := loadFileCached_resolved locals home.path home.along home.reached old
  obtain rfl := (Prod.mk.inj (Option.some.inj (result.symm.trans loads))).2
  obtain ⟨file, kept⟩ := framed.loaded home loaded
  rw [← sectorsOf_congr fun x member => homeSame x (Or.inr (Or.inl member))] at wellFormed
  refine ⟨?_, ⟨aside.table, fun x member => marks (aside.marked x member), ?_⟩, fun f member =>
    contentList_congr (sound.own f member).wellFormed.toReadable (fileSame f member), ?_⟩
  · refine loaded.sound size (file ▸ home) (file ▸ kept) (file ▸ wellFormed)
      (fun x member => marks (sound.marked x (way (file ▸ member)))) ?_ ?_
    · intro f member
      have own := sound.own f member
      refine ⟨?_, ?_, ?_⟩
      · rw [chains f member]
        exact own.wellFormed.congr (fileSame f member)
      · rw [chains f member]
        exact fun x inner => marks (own.marked x inner)
      · rw [chains f member]
        exact fun x inner up => own.apart x inner (way (file ▸ up))
    · intro i j f g different first second
      rw [chains f (List.mem_of_getElem? first), chains g (List.mem_of_getElem? second)]
      exact sound.disjoint i j f g different first second
  · rintro x (up | ⟨f, member, inner⟩)
    · exact aside.apart x (Or.inl (way (file ▸ up)))
    · rw [chains f member] at inner
      exact aside.apart x (Or.inr ⟨f, member, inner⟩)
  · rw [entries, entries]
    dsimp only
    rw [file]
    refine List.map_congr_left fun k inside => ?_
    exact entry_congr (fun x member => homeSame x (Or.inr (Or.inl member))) sound.home.directory
      (List.mem_range.mp inside)

theorem Shared.Sound.session (sound : s.Sound components) (aside : SetAside sectors components s)
    {event : SessionEvent} (fits : SessionFits components s event) (taken : SessionStep components s event t) :
    t.Sound components ∧ SetAside sectors components t ∧ s.store.session event = some t.store := by
  cases taken with
  | call taken =>
      obtain ⟨u, same, soundU, -⟩ := sound.step fits
      obtain rfl := Option.some.inj (same.symm.trans taken)
      exact ⟨soundU, aside.call sound fits taken, sound.store_step fits taken⟩
  | load result latest =>
      refine ⟨sound.load fits result latest, ⟨aside.table, aside.marked, aside.apart⟩, ?_⟩
      have seek := congrArg FileIoState.writeSeek (loaded_of_success fits sound.home.below result).ioState
      simp only [FileStore.session, Shared.store, List.map_append, List.map_cons, List.map_nil, seek]
  | restart result =>
      obtain ⟨soundT, asideT, contents, -⟩ := sound.restarted aside result
      refine ⟨soundT, asideT, ?_⟩
      simp only [FileStore.session, Shared.store, List.map_congr_left contents, List.map_nil]

theorem Shared.Sound.sessions {events : List SessionEvent} (sound : s.Sound components)
    (aside : SetAside sectors components s)
    (run : Run (Guarded (SessionStep components) (SessionFits components)) s events t) :
    (t.Sound components ∧ SetAside sectors components t) ∧
      events.foldlM FileStore.session s.store = some t.store := by
  apply @Run.viewed _ _ _ _ _ _ (fun s => s.Sound components ∧ SetAside sectors components s) _ _ _ run
    ⟨sound, aside⟩
  rintro s event t ⟨soundS, asideS⟩ ⟨fits, taken⟩
  obtain ⟨soundT, asideT, step⟩ := soundS.session asideS fits taken
  exact ⟨⟨soundT, asideT⟩, step⟩

/-- In every run of creations, writes, loads and restarts, in which the table is saved before each restart and
loaded after it, the files on the disk go through the same steps as lists of bytes that a restart does not
touch, and every file reads as its list. -/
theorem files_survive_restarts {events : List SessionEvent} (sound : s.Sound components)
    (aside : SetAside sectors components s)
    (run : Run (Guarded (SessionStep components) (SessionFits components)) s events t) :
    events.foldlM FileStore.session s.store = some t.store ∧
      ∀ (file : Nat) f content, t.files[file]? = some f → t.store.contents[file]? = some content →
        ∀ buf, ∃ buf', readAll t.fs.disk f buf = some buf' ∧ (List.range f.size).map buf' = content := by
  obtain ⟨⟨soundT, -⟩, follows⟩ := sound.sessions aside run
  exact ⟨follows, fun file f content there listed buf => soundT.reads there listed buf⟩

theorem Shared.Sound.session_entries (sound : s.Sound components) (aside : SetAside sectors components s)
    (each : OneEntryEach s) {event : SessionEvent} (fits : SessionFits components s event)
    (taken : SessionStep components s event t) : OneEntryEach t := by
  cases taken with
  | call taken =>
      obtain ⟨u, same, -, own⟩ := sound.step fits
      obtain rfl := Option.some.inj (same.symm.trans taken)
      exact own.keeps each
  | load result latest => exact each
  | restart result =>
      obtain ⟨-, -, -, same⟩ := sound.restarted aside result
      rw [OneEntryEach, same]
      exact each

theorem Shared.Sound.restarts (sound : s.Sound components) (aside : SetAside sectors components s) (locals : Locals)
    (around : Int → UInt8) (block : Nat → UInt8) (old : FileCached) :
    ∃ t, SessionStep components s (.restart locals around block old) t := by
  have home : Home (restart s.fs around block).disk components s.dirCached.file :=
    sound.home.frame fun x member => restart_outside fun on =>
      aside.apart x (Or.inl member) (aside.table x on)
  obtain ⟨dirCached, result, -⟩ := loadFileCached_resolved locals home.path home.along home.reached old
  exact ⟨_, SessionStep.restart result⟩

/-- A file is found under a name that no other file of the directory has. -/
theorem Shared.Sound.loads (sound : s.Sound components) (each : OneEntryEach s) {file : Nat} {f : FileT}
    {c : List UInt8} (there : s.files[file]? = some f) (name : f.name = some c)
    (alone : ∀ g ∈ s.files, g.name = some c → g = f) (long : Path (components ++ [c])) (locals : Locals)
    (old : FileCached) : ∃ t, SessionStep components s (.load file locals c old) t := by
  have member : f ∈ entries s := each.mem_iff.mpr (List.mem_of_getElem? there)
  rw [entries, List.mem_map] at member
  obtain ⟨k, inside, here⟩ := member
  have found : (lookup s.fs.disk s.dirCached.file c).isSome = true := by
    rw [lookup, List.find?_isSome]
    exact ⟨k, inside, by simp [here, name]⟩
  obtain ⟨i, first⟩ := Option.isSome_iff_exists.mp found
  obtain ⟨named, within, -⟩ := lookup_eq_some.mp first
  have own : entry s.fs.disk s.dirCached.file i = f := by
    apply alone _ _ named
    apply each.mem_iff.mp
    rw [entries]
    exact List.mem_map_of_mem (List.mem_range.mpr within)
  obtain ⟨cached, result, same, -⟩ := sound.home.load long first locals old
  rw [own] at same
  exact ⟨_, SessionStep.load result (same ▸ there)⟩

/-- After any such run the next restart finds the directory again, and every file whose name no other one has
is found under it. -/
theorem files_found_again {events : List SessionEvent} (sound : s.Sound components)
    (aside : SetAside sectors components s) (each : OneEntryEach s)
    (run : Run (Guarded (SessionStep components) (SessionFits components)) s events t) :
    (∀ locals around block old, ∃ u, SessionStep components t (.restart locals around block old) u) ∧
    ∀ (file : Nat) f c, t.files[file]? = some f → f.name = some c → (∀ g ∈ t.files, g.name = some c → g = f) →
      Path (components ++ [c]) → ∀ locals old, ∃ u, SessionStep components t (.load file locals c old) u := by
  obtain ⟨soundT, asideT, eachT⟩ : t.Sound components ∧ SetAside sectors components t ∧ OneEntryEach t := by
    apply @Run.invariant _ _ _ (fun s => s.Sound components ∧ SetAside sectors components s ∧ OneEntryEach s) _ _ _ run
      ⟨sound, aside, each⟩
    rintro s event t ⟨soundS, asideS, eachS⟩ ⟨fits, taken⟩
    obtain ⟨soundT, asideT, -⟩ := soundS.session asideS fits taken
    exact ⟨soundT, asideT, soundS.session_entries asideS eachS fits taken⟩
  exact ⟨soundT.restarts asideT, fun file f c there name alone long locals old =>
    soundT.loads eachT there name alone long locals old⟩

end Sessions

/-! ## The first start -/

def rootFile (block : Nat → UInt8) : FileT where
  fileName := ofCells fileNameMaxLength (strcpy block [114, 111, 111, 116])
  firstSector := 1025
  lastSector := 1025
  sectorCount := 1
  fileSize := 84
  fileType := FileType.directory.code

/-- The entry that `fs_test` puts in the root; `block` is what the local variable holds before it is set. -/
def usrFile (block : Nat → UInt8) : FileT where
  fileName := ofCells fileNameMaxLength (strcpy block [117, 115, 114])
  firstSector := 1026
  lastSector := 1026
  sectorCount := 1
  fileSize := Int32.ofNat validDataSizeInBlock
  fileType := FileType.normal.code

def fsTest (fs : FileSystem) (block : Nat → UInt8) : FileSystem :=
  let data := memcpy (putWord block (arrayPlace 508) 0xFFFFFFFF) 0 (usrFile block).bytes fileTSize
  { disk := writeDisk fs.disk 1025 data, fileAllocBitmap := bitFree fs.fileAllocBitmap 1026 true }

/-- `fs_init` of a build with `FS_INIT`, and `fs_test`. -/
def firstStart (disk : Disk) (around : Int → UInt8) (block testBlock : Nat → UInt8) : FileSystem :=
  fsTest (fsInit true disk around block) testBlock

def firstSectors : Set UInt32 := { x | x < 1024 ∨ x = 1026 }

section FirstStart

variable (disk : Disk) (around : Int → UInt8) (block testBlock : Nat → UInt8)

theorem fileAt_saved (target : Nat → UInt8) (f : FileT) {i : Nat} (small : i < fileTSize) :
    (ofCells 512 (memcpy target 0 f.bytes fileTSize) : CArray UInt8 512).cell i = f.bytes i := by
  rw [cell_ofCells (small.trans (by decide)), memcpy_inside (Nat.zero_le i) (by omega), Nat.sub_zero]

theorem fsInit_first_disk : (fsInit true disk around block).disk = writeDisk disk sectorWithRootFcb
    (memcpy (putWord block (arrayPlace 508) 0xFFFFFFFF) 0 (rootFile block).bytes fileTSize) := by
  simp only [fsInit, rootInit, rootFile, if_true]

theorem fsTest_disk (fs : FileSystem) : (fsTest fs testBlock).disk = writeDisk fs.disk 1025
    (memcpy (putWord testBlock (arrayPlace 508) 0xFFFFFFFF) 0 (usrFile testBlock).bytes fileTSize) := rfl

theorem firstStart_root : rootFcb (firstStart disk around block testBlock).disk = rootFile block := by
  have other : sectorWithRootFcb ≠ 1025 := by decide
  apply fileAt_eq
  intro i small
  rw [Nat.zero_add, firstStart, fsTest_disk, writeDisk, Function.update_of_ne other, fsInit_first_disk, writeDisk,
    Function.update_self, fileAt_saved _ _ small]

theorem rootFile_sectors : sectorsOf disk (rootFile block) = [1025] := rfl

theorem firstStart_entry :
    entry (firstStart disk around block testBlock).disk (rootFile block) 0 = usrFile testBlock := by
  apply fileAt_eq
  intro i small
  have within : i < 508 := small.trans (by decide)
  have byte : byteOf (firstStart disk around block testBlock).disk [1025] (fileTSize * 0 + i) =
      ((firstStart disk around block testBlock).disk 1025).cell i := by
    have here := @byteOf_at (firstStart disk around block testBlock).disk [1025] 0 i 1025 rfl within
    rwa [Nat.mul_comm] at here
  rw [rootFile_sectors, byte, firstStart, fsTest_disk, writeDisk, Function.update_self, fileAt_saved _ _ small]

theorem usrFile_name : (usrFile testBlock).name = some [117, 115, 114] :=
  createdFile_name { sampleLocals with newFile := testBlock } ⟨by decide, by decide⟩ .normal 1026

theorem rootFile_directory : IsDirectory (firstStart disk around block testBlock).disk (rootFile block) where
  positive := by
    change (0 : Int32) ≤ 84
    decide
  room := by
    change nthBlock (Int32.toNatClampNeg 84) < 1
    decide
  small := by
    change Int32.toNatClampNeg 84 ≤ filesSize
    decide
  named i inside := by
    change i < Int32.toNatClampNeg 84 / 84 at inside
    have zero : i = 0 := by
      have one : Int32.toNatClampNeg 84 / 84 = 1 := by decide
      omega
    rw [zero, firstStart_entry, usrFile_name]
    exact ⟨_, rfl⟩

theorem fsTest_marked {fs : FileSystem} (filled : fs.fileAllocBitmap.FilledTo 1026) :
    (fsTest fs testBlock).fileAllocBitmap.size = fsAllocTableBits ∧
      ∀ x : UInt32, x.toNat ≤ 1026 → Marked (fsTest fs testBlock).fileAllocBitmap x := by
  have kept : (fsTest fs testBlock).fileAllocBitmap.size = fsAllocTableBits := filled.size
  have bitmap : (fsTest fs testBlock).fileAllocBitmap = bitFree fs.fileAllocBitmap 1026 true := rfl
  refine ⟨kept, fun x low => ?_⟩
  have inside : x.toNat < fsAllocTableBits := low.trans_lt (by decide)
  refine ⟨kept ▸ inside, ?_⟩
  rw [bitmap, bitFree_bit, filled.bit _ inside]
  split_ifs with last
  · rfl
  · have below : x.toNat < 1026 := by omega
    exact decide_eq_true below

theorem firstStart_marked : (firstStart disk around block testBlock).fileAllocBitmap.size = fsAllocTableBits ∧
    ∀ x : UInt32, x.toNat ≤ 1026 → Marked (firstStart disk around block testBlock).fileAllocBitmap x :=
  fsTest_marked testBlock (fsInit_filledTo true disk around block)

/-- The root after the first start is as the calls need it, whatever was on the disk and in memory. -/
theorem firstStart_sound {locals : Locals} {old dirCached : FileCached}
    (result : loadFileCached (firstStart disk around block testBlock).disk locals [] old = some (.success, dirCached)) :
    Shared.Sound [] ⟨firstStart disk around block testBlock, dirCached, [], []⟩ ∧
      SetAside firstSectors [] ⟨firstStart disk around block testBlock, dirCached, [], []⟩ := by
  have root := firstStart_root disk around block testBlock
  have directory := rootFile_directory disk around block testBlock
  obtain ⟨size, marked⟩ := firstStart_marked disk around block testBlock
  generalize firstStart disk around block testBlock = fs at root directory size marked result ⊢
  have sectors : sectorsOf fs.disk (rootFile block) = [1025] := rootFile_sectors fs.disk block
  have home : Home fs.disk [] (rootFile block) :=
    { path := ⟨fun _ none => absurd none List.not_mem_nil, by decide⟩
      along := along_nil
      reached := congrArg some root
      directory := directory
      nodup := sectors ▸ List.nodup_singleton _
      clear := along_nil
      apart := by
        rw [sectors]
        decide }
  obtain ⟨again, loads, file, loaded⟩ := loadFileCached_resolved locals home.path home.along home.reached old
  obtain rfl := (Prod.mk.inj (Option.some.inj (result.symm.trans loads))).2
  have wellFormed : WellFormed fs.disk (rootFile block) (sectorsOf fs.disk (rootFile block)) := by
    refine wellFormed_of_check ⟨directory.positive, directory.room, ?_, home.nodup⟩
    rw [sectors]
    rfl
  have way : ∀ x ∈ homeSectors fs.disk [] (rootFile block), x = 1024 ∨ x = 1025 := by
    rintro x (rfl | own | ⟨first, c, rest, d, split, -⟩)
    · exact Or.inl rfl
    · rw [sectors] at own
      exact Or.inr (List.mem_singleton.mp own)
    · simp at split
  refine ⟨?_, fun x on => Or.inl on.2, fun x member => marked x ?_, ?_⟩
  · refine loaded.sound size (file ▸ home) (DirKept.root loaded.hasParent (root.trans file.symm))
      (file ▸ wellFormed) ?_ (fun f member => absurd member List.not_mem_nil) ?_
    · intro x member
      apply marked
      rcases way x (file ▸ member) with rfl | rfl <;> decide
    · intro i j f g _ first
      simp at first
  · rcases member with low | rfl
    · have below := UInt32.lt_iff_toNat_lt.mp low
      exact (Nat.le_of_lt below).trans (by decide)
    · decide
  · rintro x (up | ⟨f, member, -⟩)
    · rcases way x (file ▸ up) with rfl | rfl
      · unfold firstSectors
        decide
      · unfold firstSectors
        decide
    · exact absurd member List.not_mem_nil

/-- From the first start on, on any disk, the files of the root go through the steps of lists of bytes in every
run of creations, writes, loads and restarts, and the sectors of the kernel, of the table and of `usr` stay marked
and out of use. -/
theorem first_start_runs (locals : Locals) (old : FileCached) :
    ∃ dirCached, loadFileCached (firstStart disk around block testBlock).disk locals [] old =
        some (.success, dirCached) ∧
      ∀ events t, Run (Guarded (SessionStep []) (SessionFits []))
          ⟨firstStart disk around block testBlock, dirCached, [], []⟩ events t →
        events.foldlM FileStore.session ⟨[], []⟩ = some t.store ∧
        (∀ x : UInt32, x < 1024 ∨ x = 1026 → Marked t.fs.fileAllocBitmap x) ∧
        ∀ x ∈ used [] t, 1024 ≤ x ∧ x ≠ 1026 := by
  obtain ⟨dirCached, result, -⟩ := loadFileCached_root (firstStart disk around block testBlock).disk locals old
  obtain ⟨sound, aside⟩ := firstStart_sound disk around block testBlock result
  refine ⟨dirCached, result, fun events t run => ?_⟩
  obtain ⟨⟨soundT, asideT⟩, follows⟩ := sound.sessions aside run
  refine ⟨follows, fun x member => asideT.marked x member, fun x member => ?_⟩
  have apart := asideT.apart x member
  rw [firstSectors, Set.mem_ofPred_eq, not_or] at apart
  exact ⟨UInt32.not_lt.mp apart.1, apart.2⟩

end FirstStart

theorem first_start_restart : ∃ dirCached t,
    Run (Guarded (SessionStep []) (SessionFits []))
      ⟨firstStart sampleDisk (fun _ => 0) (fun _ => 0) (fun _ => 0), dirCached, [], []⟩
      [.restart sampleLocals (fun _ => 0) (fun _ => 0) sampleCached] t ∧ t.store = ⟨[], []⟩ := by
  obtain ⟨dirCached, result, runs⟩ := first_start_runs sampleDisk (fun _ => 0) (fun _ => 0) (fun _ => 0) sampleLocals
    sampleCached
  obtain ⟨sound, aside⟩ := firstStart_sound sampleDisk (fun _ => 0) (fun _ => 0) (fun _ => 0) result
  obtain ⟨t, step⟩ := sound.restarts aside sampleLocals (fun _ => 0) (fun _ => 0) sampleCached
  have fits : SessionFits [] ⟨firstStart sampleDisk (fun _ => 0) (fun _ => 0) (fun _ => 0), dirCached, [], []⟩
      (.restart sampleLocals (fun _ => 0) (fun _ => 0) sampleCached) := trivial
  have run : Run (Guarded (SessionStep []) (SessionFits [])) _ _ t := Run.single ⟨fits, step⟩
  exact ⟨dirCached, t, run, (Option.some.inj (runs _ t run).1).symm⟩

/-! ## A byte in the file `a`, and a restart -/

theorem sampleShared_aside : SetAside tableSectors [] sampleShared := by
  refine ⟨fun x on => on, fun x on => ?_, fun x member => ?_⟩
  · have below : x.toNat < 1024 := UInt32.lt_iff_toNat_lt.mp on.2
    have bits : sampleFs.fileAllocBitmap.bits = fun i => if 0 ≤ i ∧ i < 129 then 0xFF else 0 := by rw [sampleFs]
    have inner : ((x.toNat : Int) % 8).toNat < 8 := by omega
    refine ⟨below.trans (by decide), ?_⟩
    change sampleFs.fileAllocBitmap.bit x.toNat = true
    rw [Bitmap.bit, bits]
    dsimp only
    rw [if_pos (by omega)]
    generalize ((x.toNat : Int) % 8).toNat = j at inner
    interval_cases j <;> rfl
  · have certificate : ([1024, 1025, 1026, 1027, 1028] : List UInt32).all (fun x => 1024 ≤ x) = true := by decide
    have high : ∀ x ∈ ([1024, 1025, 1026, 1027, 1028] : List UInt32), ¬OnTable x := fun x listed on =>
      absurd (of_decide_eq_true (List.all_eq_true.mp certificate x listed)) (UInt32.not_le.mpr on.2)
    apply high
    rcases member with (rfl | own | ⟨first, c, rest, d, split, -⟩) | ⟨f, listed, own⟩
    · exact List.mem_cons_self
    · have sectors : sectorsOf sampleShared.fs.disk sampleShared.dirCached.file = [1025] := by decide +kernel
      rw [sectors] at own
      rw [List.mem_singleton.mp own]
      decide
    · simp at split
    · have certificate : (sampleShared.files.all fun f => (sectorsOf sampleShared.fs.disk f).all fun x =>
          [1024, 1025, 1026, 1027, 1028].contains x) = true := by decide +kernel
      have sectors := List.all_eq_true.mp (List.all_eq_true.mp certificate f listed) x own
      exact List.contains_iff_mem.mp sectors

def sampleRestarted : SessionEvent := .restart sampleLocals (fun _ => 0) (fun _ => 0) sampleCached

theorem files_survive_restarts_two : ∃ t,
    Run (Guarded (SessionStep []) (SessionFits [])) sampleShared [.call sampleByte, .call sampleNew, sampleRestarted] t ∧
      ([sampleByte, sampleNew].foldlM FileStore.step sampleShared.store).map
        (fun store => { store with cursors := [] }) = some t.store := by
  obtain ⟨r, byte, -⟩ := sampleShared_sound.1.step sampleByte_fits
  have fitsByte : SessionFits [] sampleShared (.call sampleByte) := sampleByte_fits
  have one : SessionStep [] sampleShared (.call sampleByte) r := SessionStep.call byte
  obtain ⟨soundR, asideR, -⟩ := sampleShared_sound.1.session sampleShared_aside fitsByte one
  obtain ⟨s, new, -⟩ := soundR.step (sampleNew_fits byte)
  have fitsNew : SessionFits [] r (.call sampleNew) := sampleNew_fits byte
  have two : SessionStep [] r (.call sampleNew) s := SessionStep.call new
  obtain ⟨soundS, asideS, -⟩ := soundR.session asideR fitsNew two
  obtain ⟨t, three⟩ := soundS.restarts asideS sampleLocals (fun _ => 0) (fun _ => 0) sampleCached
  have first : Run (Guarded (SessionStep []) (SessionFits [])) sampleShared [.call sampleByte] r :=
    Run.single ⟨fitsByte, one⟩
  have calls : Run (Guarded (SessionStep []) (SessionFits [])) sampleShared [.call sampleByte, .call sampleNew] s :=
    Run.tail first ⟨fitsNew, two⟩
  have run : Run (Guarded (SessionStep []) (SessionFits [])) sampleShared
      [.call sampleByte, .call sampleNew, sampleRestarted] t := Run.tail calls ⟨trivial, three⟩
  have result := (files_survive_restarts sampleShared_sound.1 sampleShared_aside run).1
  refine ⟨t, run, ?_⟩
  simp only [List.foldlM_cons, List.foldlM_nil, sampleRestarted, FileStore.session, Option.bind_eq_bind,
    Option.pure_def, Option.bind_some] at result ⊢
  cases byte : sampleShared.store.step sampleByte with
  | none => simp [byte] at result
  | some store =>
      cases new : store.step sampleNew with
      | none => simp [byte, new] at result
      | some store' => simpa [byte, new] using result

theorem files_found_again_load : ∃ t u,
    Run (Guarded (SessionStep []) (SessionFits [])) sampleShared [sampleRestarted] t ∧
      SessionStep [] t (.load 0 sampleLocals [97] sampleCached) u := by
  obtain ⟨t, step⟩ :=
    sampleShared_sound.1.restarts sampleShared_aside sampleLocals (fun _ => 0) (fun _ => 0) sampleCached
  have run : Run (Guarded (SessionStep []) (SessionFits [])) sampleShared [sampleRestarted] t :=
    Run.single ⟨trivial, step⟩
  have files : t.files = sampleShared.files := by
    cases step
    rfl
  obtain ⟨-, loads⟩ := files_found_again sampleShared_sound.1 sampleShared_aside sampleShared_sound.2 run
  rw [files] at loads
  have there : sampleShared.files[0]? = some sampleFile := congrArg some sampleShared_first
  have other : (entry sampleTree (rootFcb sampleTree) 1).name ≠ some [97] := by decide +kernel
  have named : ∀ g ∈ sampleShared.files, g.name = some [97] → g = sampleFile := by
    intro g member name
    have count : entryCount (rootFcb sampleTree) = 2 := by decide +kernel
    obtain ⟨k, inside, rfl⟩ := List.mem_map.mp member
    change k ∈ List.range (entryCount (rootFcb sampleTree)) at inside
    rw [count, List.mem_range] at inside
    interval_cases k
    · exact sampleShared_first
    · exact absurd name other
  obtain ⟨u, load⟩ := loads 0 sampleFile [97] there (by decide) named
    ⟨by unfold Component; decide, by decide⟩ sampleLocals sampleCached
  exact ⟨t, u, run, load⟩

end WegOS
