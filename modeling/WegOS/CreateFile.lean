import WegOS.WriteFile

/-! `sys_create`: a new entry is inserted in a directory. -/

namespace WegOS

open LittleEndian CArray BlockChain

def createdFile (locals : Locals) (fileName : List UInt8) (fileType : FileType) (sector : UInt32) : FileT where
  fileName := ofCells fileNameMaxLength (strcpy locals.newFile fileName)
  firstSector := sector
  lastSector := sector
  sectorCount := 1
  fileSize := 0
  fileType := fileType.code

/-- A string as it is passed to `sys_create`: it fits in `file_name`, and its characters are not zero. -/
structure FileName (fileName : List UInt8) : Prop where
  short : fileName.length < fileNameMaxLength
  clean : 0 ∉ fileName

inductive DirectoryCall
  | write (buf : Nat → UInt8) (length : Nat)
  | create (fileName : List UInt8) (fileType : FileType)

def DirectoryCall.run (fs : FileSystem) (locals : Locals) (cached : FileCached) :
    DirectoryCall → Option (FileSystem × FileCached)
  | .write buf length => sysWrite fs locals cached buf length
  | .create fileName fileType => sysCreate fs locals cached fileName fileType

def DirectoryCall.unsaved (fs : FileSystem) (locals : Locals) (cached : FileCached) :
    DirectoryCall → Option (FileSystem × FileCached)
  | .write buf length => unsavedWrite fs locals cached buf length
  | .create fileName fileType =>
      if fileNameMaxLength ≤ fileName.length then none
      else
        let (sector, fs) := fileAlloc fs
        let block := putWord locals.newFileBlock (arrayPlace 508) 0xFFFFFFF
        unsavedWrite { fs with disk := writeDisk fs.disk sector block } locals cached
          (createdFile locals fileName fileType sector).bytes fileTSize

theorem DirectoryCall.run_save (fs : FileSystem) (locals : Locals) (cached : FileCached) (call : DirectoryCall) :
    call.run fs locals cached = (call.unsaved fs locals cached).bind (save locals) := by
  cases call with
  | write buf length => exact sysWrite_save fs locals cached buf length
  | create fileName fileType =>
      simp only [DirectoryCall.run, DirectoryCall.unsaved, sysCreate]
      split_ifs
      · rfl
      · exact sysWrite_save _ locals cached _ fileTSize

theorem unsaved_create {fs : FileSystem} {locals : Locals} {dirCached : FileCached} {fileName : List UInt8}
    (short : fileName.length < fileNameMaxLength) (fileType : FileType) {sector : UInt32} {bitmap : Bitmap}
    (alloc : fileAlloc fs = (sector, { fs with fileAllocBitmap := bitmap })) :
    (DirectoryCall.create fileName fileType).unsaved fs locals dirCached =
      unsavedWrite ⟨writeDisk fs.disk sector (putWord locals.newFileBlock (arrayPlace 508) 0xFFFFFFF), bitmap⟩ locals
        dirCached (createdFile locals fileName fileType sector).bytes fileTSize := by
  simp only [DirectoryCall.unsaved, if_neg (Nat.not_le.mpr short), alloc]

/-- The call gets to its last write-back, and the path in `parent_dir_name` leads somewhere on the disk then. -/
def RootLeads (fs : FileSystem) (locals : Locals) (cached : FileCached) (call : DirectoryCall) : Prop :=
  ∃ unsaved, call.unsaved fs locals cached = some unsaved ∧
    NameLeads unsaved.1.disk locals cached.pathState.parentDirName

theorem createdFile_name (locals : Locals) {fileName : List UInt8} (valid : FileName fileName)
    (fileType : FileType) (sector : UInt32) :
    (createdFile locals fileName fileType sector).name = some fileName := by
  have short := valid.short
  have cell : ∀ i ≤ fileName.length,
      (createdFile locals fileName fileType sector).fileName.cell i = fileName.getD i 0 := by
    intro i inside
    calc
      _ = strcpy locals.newFile fileName i := cell_ofCells (by omega)
      _ = fileName.getD i 0 := memcpy_inside (Nat.zero_le i) (by omega)
  apply cstr_eq short valid.clean
  · intro i inside
    rw [Nat.zero_add, cell i (Nat.le_of_lt inside), List.getD_eq_getElem?_getD, List.getElem?_eq_getElem inside,
      Option.getD_some]
  · rw [Nat.zero_add, cell _ (Nat.le_refl _), List.getD_eq_getElem?_getD,
      List.getElem?_eq_none (Nat.le_refl _), Option.getD_none]

theorem inserted_entry (old buf : Nat → UInt8) (j k : Nat) {i : Nat} (small : i < fileTSize) :
    inserted old buf (fileTSize * j) fileTSize (fileTSize * k + i) =
      if k < j then old (fileTSize * k + i) else if k = j then buf i else old (fileTSize * (k - 1) + i) := by
  have unit : ∀ m, fileTSize * m = 84 * m := fun _ => rfl
  change i < 84 at small
  unfold inserted
  rcases Nat.lt_trichotomy k j with before | rfl | behind
  · rw [if_pos (by simp only [unit]; omega), if_pos before]
  · rw [if_neg (by omega), if_pos (by simp only [fileTSize]; omega), if_neg (Nat.lt_irrefl k), if_pos rfl,
      Nat.add_sub_cancel_left]
  · rw [if_neg (by simp only [unit]; omega), if_neg (by simp only [fileTSize]; omega),
      if_neg (by omega), if_neg (by omega)]
    congr 1
    simp only [fileTSize]
    omega

theorem entry_inserted {disk disk' : Disk} {dir dir' new : FileT} {j k : Nat}
    (content : ∀ i < dir.size + fileTSize, byteOf disk' (sectorsOf disk' dir') i =
      inserted (byteOf disk (sectorsOf disk dir)) new.bytes (fileTSize * j) fileTSize i)
    (inside : k ≤ entryCount dir) :
    entry disk' dir' k =
      if k < j then entry disk dir k else if k = j then new else entry disk dir (k - 1) := by
  have fits : fileTSize * k ≤ dir.size :=
    Nat.le_trans (Nat.mul_le_mul_left fileTSize inside) (Nat.mul_div_le _ _)
  have bytes : ∀ i < fileTSize, byteOf disk' (sectorsOf disk' dir') (fileTSize * k + i) = _ :=
    fun i small => (content _ (by omega)).trans (inserted_entry _ _ j k small)
  split_ifs with before here
  · exact fileAt_congr fun i small => by rw [bytes i small, if_pos before]
  · exact fileAt_eq fun i small => by rw [bytes i small, if_neg before, if_pos here]
  · exact fileAt_congr fun i small => by rw [bytes i small, if_neg before, if_neg here]

structure Creatable {locals : Locals} {components : List (List UInt8)} (fs : FileSystem)
    (dirCached : FileCached) (keeper : DirKeeper locals dirCached.pathState components) (j : Nat) : Prop where
  kept : keeper.holds fs.disk dirCached.file
  directory : IsDirectory fs.disk dirCached.file
  wellFormed : WellFormed fs.disk dirCached.file (sectorsOf fs.disk dirCached.file)
  size : fs.fileAllocBitmap.size = fsAllocTableBits
  marked : ∀ s ∈ sectorsOf fs.disk dirCached.file, Marked fs.fileAllocBitmap s
  keeperMarked : ∀ s ∈ keeper.sectors, fs.fileAllocBitmap.bit s.toNat = true
  apart : ∀ s ∈ sectorsOf fs.disk dirCached.file, s ∉ keeper.sectors
  enough : 1 + (nthBlock (dirCached.file.size + fileTSize) + 1 - dirCached.file.sectorCount.toNat) ≤
    freeSectors fs.fileAllocBitmap
  place : dirCached.ioState.writeSeek = fileTSize * j
  inside : j ≤ entryCount dirCached.file
  here : (sectorsOf fs.disk dirCached.file)[nthBlock dirCached.ioState.writeSeek]? =
    some dirCached.ioState.writeSector
  fits : dirCached.file.size - dirCached.ioState.writeSeek + fileTSize ≤ tempSize
  small : dirCached.file.size + fileTSize ≤ filesSize

structure EntryInserted {locals : Locals} {components : List (List UInt8)} (fs : FileSystem)
    (dirCached : FileCached) (keeper : DirKeeper locals dirCached.pathState components) (j : Nat) (new : FileT)
    (fs' : FileSystem) (dirCached' : FileCached) (news : List UInt32) (f : FileT) : Prop where
  pathState : dirCached'.pathState = dirCached.pathState
  fileType : dirCached'.file.fileType = dirCached.file.fileType
  grown : dirCached'.file.size = dirCached.file.size + fileTSize
  sectors : sectorsOf fs'.disk dirCached'.file = sectorsOf fs.disk dirCached.file ++ news
  wellFormed : WellFormed fs'.disk dirCached'.file (sectorsOf fs'.disk dirCached'.file)
  directory : IsDirectory fs'.disk dirCached'.file
  kept : keeper.holds fs'.disk f
  follows : Grown f dirCached'.file
  apart : ∀ s ∈ sectorsOf fs'.disk dirCached'.file, s ∉ keeper.sectors
  entries : ∀ k ≤ entryCount dirCached.file, entry fs'.disk dirCached'.file k =
    if k < j then entry fs.disk dirCached.file k else if k = j then new
    else entry fs.disk dirCached.file (k - 1)
  allocated : Allocated (new.firstSector :: news) fs.fileAllocBitmap fs'.fileAllocBitmap
  needed : news.length = nthBlock (dirCached.file.size + fileTSize) + 1 - dirCached.file.sectorCount.toNat
  outside : new.firstSector ∉ sectorsOf fs'.disk dirCached'.file
  frame : ∀ s, s ≠ new.firstSector → s ∉ sectorsOf fs'.disk dirCached'.file → s ∉ keeper.sectors →
    fs'.disk s = fs.disk s
  newLink : nextSector (fs'.disk new.firstSector) = 0xFFFFFFF
  seek : dirCached'.ioState.writeSeek = fileTSize * (j + 1)
  here : (sectorsOf fs'.disk dirCached'.file)[nthBlock dirCached'.ioState.writeSeek]? =
    some dirCached'.ioState.writeSector

structure Created {locals : Locals} {components : List (List UInt8)} (fs : FileSystem)
    (dirCached : FileCached) (keeper : DirKeeper locals dirCached.pathState components) (j : Nat) (new : FileT)
    (fs' : FileSystem) (dirCached' : FileCached) (news : List UInt32) : Prop
    extends EntryInserted fs dirCached keeper j new fs' dirCached' news dirCached'.file where
  saved : keeper.saved fs'.disk dirCached'.file
  home : Home fs'.disk components dirCached'.file

theorem entryCount_grown {dir dir' : FileT} (grown : dir'.size = dir.size + fileTSize) :
    entryCount dir' = entryCount dir + 1 := by
  rw [entryCount, grown, entryCount]
  exact Nat.add_div_right _ (by decide)

section Create

variable {locals : Locals} {components : List (List UInt8)} {fs : FileSystem} {dirCached : FileCached}
  {keeper : DirKeeper locals dirCached.pathState components} {j : Nat}

/-- The bytes that come to stand on links are those of entries that move up. -/
theorem linksKept_entries {chain : List UInt32} {size w : Nat} {old : Nat → UInt8}
    (links : LinksKept chain size w fileTSize fun i => old (i - fileTSize)) (new : FileT) :
    LinksKept chain size w fileTSize (inserted old new.bytes w fileTSize) := by
  apply links.congr
  intro i behind _
  have moved : w + fileTSize ≤ i := by
    simp only [nthBlock_eq, fileTSize] at behind ⊢
    omega
  rw [inserted, if_neg (by omega), if_neg (by omega)]

theorem Creatable.seek_inside (creatable : Creatable fs dirCached keeper j) :
    dirCached.ioState.writeSeek ≤ dirCached.file.size := by
  rw [creatable.place]
  exact Nat.le_trans (Nat.mul_le_mul_left _ creatable.inside) (Nat.mul_div_le _ _)

theorem writeDisk_allocated {disk : Disk} {sector : UInt32} {old bitmap : Bitmap}
    (allocated : Allocated [sector] old bitmap) (block : Nat → UInt8) {s : UInt32} (marked : old.bit s.toNat = true) :
    writeDisk disk sector block s = disk s := by
  apply Function.update_of_ne
  rintro rfl
  exact allocated.not_mem marked (by simp)

theorem Creatable.writable (creatable : Creatable fs dirCached keeper j) {sector : UInt32} {bitmap : Bitmap}
    (allocated : Allocated [sector] fs.fileAllocBitmap bitmap) (block : Nat → UInt8) :
    Writable ⟨writeDisk fs.disk sector block, bitmap⟩ dirCached keeper.toKeeper (sectorsOf fs.disk dirCached.file)
      fileTSize where
  kept := keeper.frame creatable.kept fun s inner => writeDisk_allocated allocated block (creatable.keeperMarked s inner)
  wellFormed := creatable.wellFormed.congr fun s member =>
    writeDisk_allocated allocated block (creatable.marked s member).2
  size := allocated.size
  marked := by
    intro s member
    exact allocated.marked creatable.size (Or.inl (creatable.marked s member))
  keeperMarked := fun s inner => (allocated.marks s).mpr (Or.inl (creatable.keeperMarked s inner))
  apart := creatable.apart
  enough := by
    have total := creatable.enough
    have left := allocated.free
    rw [List.length_singleton] at left
    change nthBlock (dirCached.file.size + fileTSize) + 1 - (sectorsOf fs.disk dirCached.file).length ≤
      freeSectors bitmap
    rw [creatable.wellFormed.count]
    omega
  inside := creatable.seek_inside
  here := creatable.here
  fits := creatable.fits

theorem IsDirectory.inserted {disk disk' : Disk} {dir dir' : FileT} {chain : List UInt32} {new : FileT}
    (directory : IsDirectory disk dir) (wellFormed : WellFormed disk' dir' chain)
    (grown : dir'.size = dir.size + fileTSize) (small : dir.size + fileTSize ≤ filesSize) (inside : j ≤ entryCount dir)
    (named : ∃ name, new.name = some name)
    (entries : ∀ k ≤ entryCount dir, entry disk' dir' k =
      if k < j then entry disk dir k else if k = j then new else entry disk dir (k - 1)) :
    IsDirectory disk' dir' where
  positive := wellFormed.positive
  room := by
    rw [← wellFormed.count]
    exact wellFormed.room
  small := by rwa [grown]
  named := by
    intro k within
    rw [entryCount_grown grown] at within
    rw [entries k (Nat.le_of_lt_succ within)]
    split_ifs with before here
    · exact directory.named k (Nat.lt_of_lt_of_le before inside)
    · exact named
    · exact directory.named (k - 1) (by omega)

theorem Creatable.inserted (creatable : Creatable fs dirCached keeper j) {fileName : List UInt8}
    (valid : FileName fileName) (fileType : FileType) {sector : UInt32} {bitmap : Bitmap}
    (allocated : Allocated [sector] fs.fileAllocBitmap bitmap) {fs' : FileSystem} {dirCached' : FileCached}
    {news : List UInt32} {f : FileT}
    (written : Written
      ⟨writeDisk fs.disk sector (putWord locals.newFileBlock (arrayPlace 508) 0xFFFFFFF), bitmap⟩ dirCached
      keeper.toKeeper (sectorsOf fs.disk dirCached.file) (createdFile locals fileName fileType sector).bytes fileTSize
      fs' dirCached' news f) :
    EntryInserted fs dirCached keeper j (createdFile locals fileName fileType sector) fs' dirCached' news f := by
  let block := putWord locals.newFileBlock (arrayPlace 508) 0xFFFFFFF
  let new := createdFile locals fileName fileType sector
  let chain := sectorsOf fs.disk dirCached.file
  have bytes : ∀ i < dirCached.file.size,
      byteOf (writeDisk fs.disk sector block) chain i = byteOf fs.disk chain i := fun i small =>
    byteOf_congr (creatable.directory.byte_inside (Nat.le_of_lt small)) fun s member =>
      writeDisk_allocated allocated block (creatable.marked s member).2
  have inside := creatable.seek_inside
  have sectors := written.wellFormed.sectorsOf_eq
  have entries : ∀ k ≤ entryCount dirCached.file, entry fs'.disk dirCached'.file k =
      if k < j then entry fs.disk dirCached.file k else if k = j then new
      else entry fs.disk dirCached.file (k - 1) := by
    intro k within
    apply entry_inserted _ within
    intro i small
    rw [sectors, written.content i small, ← creatable.place]
    exact inserted_congr _ inside bytes small
  have young : ∀ s, fs.fileAllocBitmap.bit s.toNat = true → s ≠ sector := by
    rintro s marked rfl
    exact allocated.not_mem marked (List.mem_singleton.mpr rfl)
  have outside : sector ∉ chain ++ news := by
    rw [List.mem_append, not_or]
    refine ⟨fun old => young sector (creatable.marked sector old).2 rfl, ?_⟩
    exact written.allocated.not_mem ((allocated.marks sector).mpr (Or.inr (List.mem_singleton.mpr rfl)))
  exact
    { pathState := written.pathState
      fileType := written.fileType
      grown := written.grown
      sectors := sectors
      wellFormed := by rw [sectors]; exact written.wellFormed
      directory := creatable.directory.inserted written.wellFormed written.grown creatable.small creatable.inside
        ⟨fileName, createdFile_name locals valid fileType sector⟩ entries
      kept := written.kept
      follows := written.follows
      apart := by rw [sectors]; exact written.apart
      entries := entries
      allocated := allocated.trans written.allocated
      needed := by rw [written.needed, creatable.wellFormed.count]
      outside := by rw [sectors]; exact outside
      frame := by
        intro s other outside away
        rw [sectors] at outside
        exact (written.frame s outside away).trans (Function.update_of_ne other _ _)
      newLink := by
        change nextSector (fs'.disk sector) = 0xFFFFFFF
        rw [written.frame sector outside fun inner => young sector (creatable.keeperMarked sector inner) rfl]
        change nextSector (writeDisk fs.disk sector block sector) = 0xFFFFFFF
        rw [writeDisk, Function.update_self]
        calc
          _ = wordAt block (arrayPlace 508) := wordAt_congr fun k small =>
            cell_ofCells (by simp only [arrayPlace, Nat.cast_id]; omega)
          _ = 0xFFFFFFF := wordAt_putWord _ _ (arrayPlace_places _)
      seek := by rw [written.seek, creatable.place, Nat.mul_succ]
      here := by rw [sectors]; exact written.here }

theorem expandedFor_nil (fs : FileSystem) (locals : Locals) {cached : FileCached}
    (hasParent : cached.pathState.hasParent = false) (name : cached.pathState.parentDirName = []) (n : Nat) :
    ∃ result, expandedFor fs locals cached n = some result := by
  have stores : ∀ disk f, ∃ disk', storeFileCached disk locals ⟨f, cached.ioState, cached.pathState⟩ = some disk' := by
    intro disk f
    have leads : NameLeads disk locals cached.pathState.parentDirName := name ▸ nameLeads_nil disk locals
    exact ⟨_, (@storeFileCached_root disk locals ⟨f, cached.ioState, cached.pathState⟩ hasParent).1 leads⟩
  simp only [expandedFor]
  split_ifs
  · obtain ⟨disk, stored⟩ := stores _ _
    exact ⟨_, Option.bind_eq_some_iff.mpr ⟨disk, stored, rfl⟩⟩
  · exact ⟨_, rfl⟩

theorem Creatable.unsaved_spec (creatable : Creatable fs dirCached keeper j) {fileName : List UInt8}
    (valid : FileName fileName) (fileType : FileType)
    (tail : TailFits dirCached.file dirCached.ioState)
    (links : LinksKept (grownChain (fileAlloc fs).2.fileAllocBitmap (sectorsOf fs.disk dirCached.file)
      (dirCached.file.size + fileTSize)) dirCached.file.size dirCached.ioState.writeSeek
      fileTSize fun i => byteOf fs.disk (sectorsOf fs.disk dirCached.file) (i - fileTSize))
    (ends : dirCached.pathState.hasParent = false → dirCached.pathState.parentDirName = [] ∨
      ∃ unsaved, (DirectoryCall.create fileName fileType).unsaved fs locals dirCached = some unsaved) :
    ∃ fs' dirCached' news f,
      (DirectoryCall.create fileName fileType).unsaved fs locals dirCached = some (fs', dirCached') ∧
      EntryInserted fs dirCached keeper j (createdFile locals fileName fileType (fileAlloc fs).1) fs' dirCached' news f ∧
      (∀ disk, storeFileCached fs'.disk locals dirCached' = some disk →
        EntryInserted fs dirCached keeper j (createdFile locals fileName fileType (fileAlloc fs).1)
          { fs' with disk := disk } dirCached' news dirCached'.file) ∧
      f.fileSize = dirCached.file.fileSize ∧ f.sectorCount = dirCached'.file.sectorCount := by
  have total := creatable.enough
  obtain ⟨sector, bitmap, alloc, allocated⟩ := fileAlloc_spec creatable.size (by omega)
  let block := putWord locals.newFileBlock (arrayPlace 508) 0xFFFFFFF
  let new := createdFile locals fileName fileType sector
  let chain := sectorsOf fs.disk dirCached.file
  have bytes : ∀ i < dirCached.file.size,
      byteOf (writeDisk fs.disk sector block) chain i = byteOf fs.disk chain i := fun i small =>
    byteOf_congr (creatable.directory.byte_inside (Nat.le_of_lt small)) fun s member =>
      writeDisk_allocated allocated block (creatable.marked s member).2
  rw [unsaved_create valid.short fileType alloc] at ends ⊢
  rw [alloc] at links ⊢
  obtain ⟨fs', dirCached', news, f, run, written, size, count⟩ :=
    (creatable.writable allocated block).unsaved_spec new.bytes tail
      ((linksKept_entries links new).congr fun i _ small => inserted_congr _ creatable.seek_inside bytes small)
      fun root => by
        rcases ends root with name | ⟨unsaved, reached⟩
        · exact expandedFor_nil _ locals root name _
        obtain ⟨expanded, expansion, -⟩ := Option.bind_eq_some_iff.mp reached
        exact ⟨expanded, expansion⟩
  refine ⟨fs', dirCached', news, f, run, creatable.inserted valid fileType allocated written, fun disk stored => ?_,
    size, count⟩
  exact creatable.inserted valid fileType allocated (written.save stored)

theorem EntryInserted.saved {new : FileT} {fs' : FileSystem} {dirCached' : FileCached} {news : List UInt32} {f : FileT}
    (inserted : EntryInserted fs dirCached keeper j new fs' dirCached' news f)
    (leads : dirCached.pathState.hasParent = false →
      NameLeads fs'.disk locals dirCached.pathState.parentDirName) {disk : Disk}
    (stored : storeFileCached fs'.disk locals dirCached' = some disk) : keeper.saved disk dirCached'.file := by
  obtain ⟨file', io', path'⟩ := dirCached'
  obtain rfl : path' = dirCached.pathState := inserted.pathState
  exact keeper.saves file' io' inserted.kept inserted.follows leads stored

theorem EntryInserted.ends {new : FileT} {fs' : FileSystem} {dirCached' : FileCached} {news : List UInt32} {f : FileT}
    (inserted : EntryInserted fs dirCached keeper j new fs' dirCached' news f)
    (leads : dirCached.pathState.hasParent = false →
      NameLeads fs'.disk locals dirCached.pathState.parentDirName) :
    ∃ disk, storeFileCached fs'.disk locals dirCached' = some disk := by
  obtain ⟨file', io', path'⟩ := dirCached'
  obtain rfl : path' = dirCached.pathState := inserted.pathState
  cases parent : dirCached.pathState.hasParent with
  | true => exact keeper.ends parent file' io' inserted.kept inserted.follows
  | false =>
      exact ⟨_, (@storeFileCached_root fs'.disk locals ⟨file', io', dirCached.pathState⟩ parent).1 (leads parent)⟩

/-- `sys_create` inserts the new entry where the write cursor of the directory stands. -/
theorem Creatable.sysCreate_spec (creatable : Creatable fs dirCached keeper j) {fileName : List UInt8}
    (valid : FileName fileName) (fileType : FileType)
    (tail : TailFits dirCached.file dirCached.ioState)
    (links : LinksKept (grownChain (fileAlloc fs).2.fileAllocBitmap (sectorsOf fs.disk dirCached.file)
      (dirCached.file.size + fileTSize)) dirCached.file.size dirCached.ioState.writeSeek
      fileTSize fun i => byteOf fs.disk (sectorsOf fs.disk dirCached.file) (i - fileTSize))
    (root : dirCached.pathState.hasParent = false → dirCached.pathState.parentDirName = [] ∨
      RootLeads fs locals dirCached (.create fileName fileType)) :
    ∃ fs' dirCached' news, sysCreate fs locals dirCached fileName fileType = some (fs', dirCached') ∧
      Created fs dirCached keeper j (createdFile locals fileName fileType (fileAlloc fs).1) fs' dirCached' news := by
  obtain ⟨fs', dirCached', news, f, reached, inserted, stores, -⟩ := creatable.unsaved_spec valid fileType tail links
    fun parent => (root parent).imp_right fun ⟨unsaved, reached, _⟩ => ⟨unsaved, reached⟩
  have leads : dirCached.pathState.hasParent = false →
      NameLeads fs'.disk locals dirCached.pathState.parentDirName := by
    intro parent
    rcases root parent with name | ⟨unsaved, again, leads⟩
    · exact name ▸ nameLeads_nil fs'.disk locals
    obtain rfl := Option.some.inj (reached.symm.trans again)
    exact leads
  obtain ⟨disk, stored⟩ := inserted.ends leads
  have saved := inserted.saved leads stored
  have after := stores disk stored
  refine ⟨{ fs' with disk := disk }, dirCached', news, ?_, ?_⟩
  · change DirectoryCall.run fs locals dirCached (.create fileName fileType) = _
    rw [DirectoryCall.run_save, reached, Option.bind_some, save, stored]
    rfl
  · exact
      { after with
        saved := saved
        home := keeper.leads saved after.directory after.wellFormed.nodup after.apart }

end Create

/-- Where the FCB of a directory of the tree is kept. In the sector of the root it may be behind the one in the
handle. -/
theorem Volume.dirKeeper {fs : FileSystem} (volume : Volume fs) (locals : Locals)
    {components : List (List UInt8)} (path : Path components) (through : ThroughDirectories fs.disk components)
    {cached : FileCached} (handle : Handle fs.disk components cached) :
    ∃ keeper : DirKeeper locals cached.pathState components,
      keeper.holds fs.disk cached.file ∧
      (∀ s ∈ keeper.sectors, fs.fileAllocBitmap.bit s.toNat = true) ∧
      (∀ s ∈ keeper.sectors, s = sectorWithRootFcb ∨ ∃ p d, p.length < components.length ∧
        node fs.disk (rootFcb fs.disk) p = some d ∧ d.fileType = FileType.directory.code ∧
          s ∈ sectorsOf fs.disk d) ∧
      sectorWithRootFcb ∈ keeper.sectors ∧
      ∀ disk f, components = [] → keeper.holds disk f → Grown cached.file (rootFcb disk) ∧ Grown (rootFcb disk) f := by
  rcases List.eq_nil_or_concat' components with rfl | ⟨init, c, rfl⟩
  · have held : rootFcb fs.disk = cached.file := Option.some.inj handle.file
    refine ⟨rootDirKeeper locals handle.hasParent cached.file, ?_, ?_, fun s inner => Or.inl inner, rfl,
      fun disk f _ held => held⟩
    · rw [← held]
      exact ⟨Grown.refl _, Grown.refl _⟩
    · rintro s rfl
      exact volume.rootMarked.2
  · obtain ⟨dir, parent⟩ := volume.parentEntry path through handle
    refine ⟨entryDirKeeper parent.home locals parent.hasParent parent.name path parent.found, parent.held, ?_, ?_,
      Or.inl rfl, fun disk f none => by simp at none⟩
    · exact fun s inner => (volume.homeMarked through.left parent.reached parent.directory inner).2
    · intro s inner
      rcases homeSectors_place through.left parent.reached parent.directory inner with rfl | ⟨p, d, shallow, rest⟩
      · exact Or.inl rfl
      · exact Or.inr ⟨p, d, by rw [List.length_append, List.length_singleton]; omega, rest⟩

/-! ## What the paths lead to afterwards -/

/-- After a creation, the path of the new name leads to a file of that name and type, and every
path to an entry that was there leads to it as before. -/
structure CreatedAt (fs : FileSystem) (components : List (List UInt8)) (fileName : List UInt8)
    (fileType : FileType) (fs' : FileSystem) : Prop where
  new : ∀ locals old, ∃ cached,
    loadFileCached fs'.disk locals (joinPath (components ++ [fileName])) old = some (.success, cached) ∧
      cached.file.name = some fileName ∧ cached.file.fileType = fileType.code ∧ cached.file.fileSize = 0
  others : ∀ c f, Component c → resolve fs.disk (rootFcb fs.disk) (components ++ [c]) = some f →
    ∀ locals old, ∃ cached,
      loadFileCached fs'.disk locals (joinPath (components ++ [c])) old = some (.success, cached) ∧
        cached.file = f

def LastShadowed (disk : Disk) (dir : FileT) : Prop :=
  0 < entryCount dir ∧ ∀ c, Component c → lookup disk dir c ≠ some (entryCount dir - 1)

/-- The last store of the root comes to an end, and it gets to the sector of the root, unless nothing that can
be found is lost when it does not. -/
def RootKeepsEntries (fs : FileSystem) (locals : Locals) (cached : FileCached) (call : DirectoryCall) : Prop :=
  ∃ unsaved, call.unsaved fs locals cached = some unsaved ∧
    (NameLeads unsaved.1.disk locals cached.pathState.parentDirName ∨
      LastShadowed fs.disk cached.file ∧ ∃ disk, storeFileCached unsaved.1.disk locals unsaved.2 = some disk)

/-- With the new entry in front of the others, all of them are found, or all but the last. -/
theorem createdAt_iff {fs fs' : FileSystem} {components : List (List UInt8)} {dir dir' new : FileT}
    {fileName : List UInt8} {fileType : FileType} (reached : resolve fs.disk (rootFcb fs.disk) components = some dir)
    (unused : lookup fs.disk dir fileName = none) (path : Path (components ++ [fileName]))
    (home : Home fs'.disk components dir') (named : new.name = some fileName)
    (made : new.fileType = fileType.code ∧ new.fileSize = 0)
    (count : entryCount dir' = entryCount dir ∨ entryCount dir' = entryCount dir + 1)
    (first : 0 < entryCount dir' → entry fs'.disk dir' 0 = new)
    (later : ∀ k, k + 1 < entryCount dir' → entry fs'.disk dir' (k + 1) = entry fs.disk dir k)
    (locals : Locals) (old : FileCached) :
    CreatedAt fs components fileName fileType fs' ↔
      entryCount dir' = entryCount dir + 1 ∨ LastShadowed fs.disk dir := by
  have other : ∀ {c k}, lookup fs.disk dir c = some k → fileName ≠ c := by
    rintro c k found rfl
    rw [found] at unused
    cases unused
  constructor
  · intro created
    refine count.symm.imp_right fun same => ⟨?_, fun c component found => ?_⟩
    · obtain ⟨cached, load, -⟩ := created.new locals old
      have file := (loaded_of_success path home.below load).file
      rw [resolve_concat, home.reached, Option.bind_some] at file
      obtain ⟨k, found, -⟩ := Option.map_eq_some_iff.mp file
      have inside := (lookup_eq_some.mp found).2.1
      omega
    · have resolved : resolve fs.disk (rootFcb fs.disk) (components ++ [c]) =
          some (entry fs.disk dir (entryCount dir - 1)) := by
        rw [resolve_concat, reached, Option.bind_some, found, Option.map_some]
      obtain ⟨cached, load, -⟩ := created.others c _ component resolved locals old
      have file := (loaded_of_success (path.sibling component) home.below load).file
      rw [resolve_concat, home.reached, Option.bind_some] at file
      obtain ⟨k, again, -⟩ := Option.map_eq_some_iff.mp file
      obtain ⟨name, inside, -⟩ := lookup_eq_some.mp again
      cases k with
      | zero =>
          rw [first inside, named] at name
          exact other found (Option.some.inj name)
      | succ k =>
          rw [later k inside] at name
          exact (lookup_eq_some.mp found).2.2 k (by omega) name
  · intro kept
    have inside : 0 < entryCount dir' := by
      rcases kept with more | ⟨some, -⟩ <;> omega
    refine ⟨fun locals old => ?_, fun c f component resolved locals old => ?_⟩
    · have found : lookup fs'.disk dir' fileName = some 0 :=
        lookup_eq_some.mpr ⟨by rw [first inside, named], inside, fun j below => by omega⟩
      obtain ⟨cached, result, file, -⟩ := home.load path found locals old
      rw [first inside] at file
      exact ⟨cached, result, by rw [file, named], by rw [file, made.1], by rw [file, made.2]⟩
    · rw [resolve_concat, reached, Option.bind_some] at resolved
      obtain ⟨k, found, rfl⟩ := Option.map_eq_some_iff.mp resolved
      obtain ⟨name, within, before⟩ := lookup_eq_some.mp found
      have visible : k + 1 < entryCount dir' := by
        rcases kept with more | ⟨-, shadowed⟩
        · omega
        · have notLast : k ≠ entryCount dir - 1 := by
            rintro rfl
            exact shadowed c component found
          omega
      have again : lookup fs'.disk dir' c = some (k + 1) := by
        refine lookup_eq_some.mpr ⟨by rw [later k visible, name], visible, fun i below => ?_⟩
        cases i with
        | zero =>
            rw [first inside, named]
            exact fun equal => other found (Option.some.inj equal)
        | succ i =>
            rw [later i (by omega)]
            exact before i (by omega)
      obtain ⟨cached, result, file, -⟩ := home.load (path.sibling component) again locals old
      exact ⟨cached, result, by rw [file, later k visible]⟩

section Root

variable {locals : Locals} {fs fs' : FileSystem} {dirCached dirCached' : FileCached}
  {keeper : DirKeeper locals dirCached.pathState []} {new f : FileT} {news : List UInt32}

/-- Before the write-back the root on the disk has its old size, and what it shows of the directory is the new entry
and all others but the last. -/
theorem EntryInserted.root (inserted : EntryInserted fs dirCached keeper 0 new fs' dirCached' news f)
    (directory : IsDirectory fs.disk dirCached.file)
    (size : f.fileSize = dirCached.file.fileSize) (count : f.sectorCount = dirCached'.file.sectorCount)
    (root : sectorWithRootFcb ∈ keeper.sectors)
    (after : Grown dirCached.file (rootFcb fs'.disk)) (before : Grown (rootFcb fs'.disk) f) :
    Home fs'.disk [] (rootFcb fs'.disk) ∧ entryCount (rootFcb fs'.disk) = entryCount dirCached.file ∧
      ∀ k < entryCount dirCached.file, entry fs'.disk (rootFcb fs'.disk) k = entry fs'.disk dirCached'.file k := by
  have sameSize : (rootFcb fs'.disk).fileSize = dirCached.file.fileSize :=
    Int32.le_antisymm (size ▸ before.fileSize) after.fileSize
  have sizes : (rootFcb fs'.disk).size = dirCached.file.size := by rw [FileT.size, sameSize, FileT.size]
  have counts : entryCount (rootFcb fs'.disk) = entryCount dirCached.file := by rw [entryCount, sizes, entryCount]
  have short : (rootFcb fs'.disk).sectorCount.toNat ≤ dirCached'.file.sectorCount.toNat := by
    rw [← count]
    exact before.sectorCount
  have part : sectorsOf fs'.disk (rootFcb fs'.disk) =
      (sectorsOf fs'.disk dirCached'.file).take (rootFcb fs'.disk).sectorCount.toNat := by
    rw [sectorsOf, sectorsOf, take_chainFrom short, ← before.firstSector, ← inserted.follows.firstSector]
  have room : nthBlock (rootFcb fs'.disk).size < (rootFcb fs'.disk).sectorCount.toNat := by
    rw [sizes]
    exact Nat.lt_of_lt_of_le directory.room after.sectorCount
  have bytes : ∀ i < (rootFcb fs'.disk).size,
      byteOf fs'.disk (sectorsOf fs'.disk (rootFcb fs'.disk)) i =
        byteOf fs'.disk (sectorsOf fs'.disk dirCached'.file) i := by
    intro i inside
    have whole := List.take_append_drop (rootFcb fs'.disk).sectorCount.toNat (sectorsOf fs'.disk dirCached'.file)
    have bound : i / 508 < (sectorsOf fs'.disk (rootFcb fs'.disk)).length := by
      rw [length_sectorsOf]
      exact Nat.lt_of_le_of_lt (Nat.div_le_div_right (Nat.le_of_lt inside)) room
    rw [part] at bound ⊢
    conv_rhs => rw [← whole]
    exact (content_append bound).symm
  have entries : ∀ k < entryCount dirCached.file,
      entry fs'.disk (rootFcb fs'.disk) k = entry fs'.disk dirCached'.file k := by
    intro k inside
    apply fileAt_congr
    intro i small
    have fits := fits_of_lt_entryCount (counts ▸ inside : k < entryCount (rootFcb fs'.disk))
    exact bytes _ (by omega)
  have inside : ∀ s ∈ sectorsOf fs'.disk (rootFcb fs'.disk), s ∈ sectorsOf fs'.disk dirCached'.file := by
    rw [part]
    exact fun s member => List.mem_of_mem_take member
  refine ⟨?_, counts, entries⟩
  exact
    { path := ⟨fun _ none => absurd none List.not_mem_nil, by decide⟩
      along := along_nil
      reached := rfl
      directory :=
        { positive := by
            rw [sameSize]
            exact directory.positive
          room := room
          small := by
            rw [sizes]
            exact directory.small
          named := by
            intro k within
            rw [counts] at within
            rw [entries k within]
            exact inserted.directory.named k (by rw [entryCount_grown inserted.grown]; omega) }
      nodup := by
        rw [part]
        exact (List.take_sublist _ _).nodup inserted.wellFormed.nodup
      clear := along_nil
      apart := fun member => inserted.apart _ (inside _ member) root }

end Root

/-- A file created through a fresh handle is found, and so are the files that were there before,
when the links of the sectors that are overwritten as a whole are kept: in the root, exactly when the last store
gets there, or leaves out an entry that no path leads to. -/
theorem sysCreate_creates {fs : FileSystem} (volume : Volume fs) (locals : Locals)
    (components : List (List UInt8)) (through : ThroughDirectories fs.disk components)
    {old dirCached : FileCached}
    (load : loadFileCached fs.disk locals (joinPath components) old = some (.success, dirCached))
    (directory : dirCached.file.fileType = FileType.directory.code)
    (wellFormed : WellFormed fs.disk dirCached.file (sectorsOf fs.disk dirCached.file))
    (fits : dirCached.file.size + fileTSize ≤ tempSize)
    (enough : 1 + (nthBlock (dirCached.file.size + fileTSize) + 1 - dirCached.file.sectorCount.toNat) ≤
      freeSectors fs.fileAllocBitmap)
    (fileName : List UInt8) (valid : FileName fileName) (unused : lookup fs.disk dirCached.file fileName = none)
    (fileType : FileType) (path : Path (components ++ [fileName]))
    (links : LinksKept (grownChain (fileAlloc fs).2.fileAllocBitmap (sectorsOf fs.disk dirCached.file)
      (dirCached.file.size + fileTSize)) dirCached.file.size 0 fileTSize fun i =>
      byteOf fs.disk (sectorsOf fs.disk dirCached.file) (i - fileTSize)) :
    (∃ fs' dirCached', sysCreate fs locals dirCached fileName fileType = some (fs', dirCached') ∧
      CreatedAt fs components fileName fileType fs') ↔
      (components = [] → RootKeepsEntries fs locals dirCached (.create fileName fileType)) := by
  have loaded := loaded_of_success path.init (volume.tree.along through) load
  obtain ⟨place, depth, there⟩ := node_of_resolve through loaded.file
  obtain ⟨keeper, kept, keeperMarked, keeperPlace, rootInside, rootGrown⟩ :=
    volume.dirKeeper locals path.init through loaded.toHandle
  have isDirectory := volume.tree.directory place dirCached.file there directory
  have seek : dirCached.ioState.writeSeek = 0 := by rw [loaded.ioState]
  have creatable : Creatable fs dirCached keeper 0 :=
    { kept := kept
      directory := isDirectory
      wellFormed := wellFormed
      size := volume.size
      marked := volume.marked place dirCached.file there
      keeperMarked := keeperMarked
      apart := fun s member inner => volume.shallower_apart there member (depth ▸ keeperPlace s inner)
      enough := enough
      place := seek
      inside := Nat.zero_le _
      here := by
        have first : (sectorsOf fs.disk dirCached.file)[nthBlock 0]? = some dirCached.file.firstSector :=
          wellFormed.first
        rw [loaded.ioState]
        exact first
      fits := by rw [seek]; exact fits
      small := Nat.le_trans fits (by decide) }
  have tail : TailFits dirCached.file dirCached.ioState := by
    have extent := readExtent_le 0 dirCached.file.size
    simp only [TailFits, loaded.ioState, ite_self, Nat.sub_zero, Nat.zero_le, true_and]
    simp only [fileTSize] at fits
    omega
  have named := createdFile_name locals valid fileType (fileAlloc fs).1
  have atRoot : dirCached.pathState.hasParent = false ↔ components = [] := by
    rw [loaded.hasParent]
    simp
  -- What is found on a disk where the directory has the new entry in front.
  have found : ∀ {fs' dirCached' news f},
      EntryInserted fs dirCached keeper 0 (createdFile locals fileName fileType (fileAlloc fs).1) fs' dirCached' news f →
      ∀ dir', Home fs'.disk components dir' →
        (entryCount dir' = entryCount dirCached.file ∨ entryCount dir' = entryCount dirCached.file + 1) →
        (∀ k < entryCount dir', entry fs'.disk dir' k = entry fs'.disk dirCached'.file k) →
        (CreatedAt fs components fileName fileType fs' ↔
          entryCount dir' = entryCount dirCached.file + 1 ∨ LastShadowed fs.disk dirCached.file) := by
    intro fs' dirCached' news f inserted dir' home count same
    refine createdAt_iff loaded.file unused path home named ⟨rfl, rfl⟩ count (fun inside => ?_) (fun k inside => ?_) locals old
    · rw [same 0 inside, inserted.entries 0 (Nat.zero_le _), if_neg (Nat.lt_irrefl 0), if_pos rfl]
    · rw [same (k + 1) inside, inserted.entries (k + 1) (by omega), if_neg (by omega), if_neg (by omega),
        Nat.add_sub_cancel]
  have saved : (dirCached.pathState.hasParent = false → RootLeads fs locals dirCached (.create fileName fileType)) →
      ∃ fs' dirCached', sysCreate fs locals dirCached fileName fileType = some (fs', dirCached') ∧
        CreatedAt fs components fileName fileType fs' := by
    intro root
    obtain ⟨fs', dirCached', news, run, created⟩ :=
      creatable.sysCreate_spec valid fileType tail (by rw [seek]; exact links) fun parent => Or.inr (root parent)
    have more := entryCount_grown created.grown
    exact ⟨fs', dirCached', run, (found created.toEntryInserted _ created.home (Or.inr more) fun _ _ => rfl).mpr
      (Or.inl more)⟩
  -- The root when its control block does not get to the disk.
  have lost : components = [] → ∀ unsaved disk,
      (DirectoryCall.create fileName fileType).unsaved fs locals dirCached = some unsaved →
      ¬NameLeads unsaved.1.disk locals dirCached.pathState.parentDirName →
      storeFileCached unsaved.1.disk locals unsaved.2 = some disk → disk = unsaved.1.disk ∧
        (CreatedAt fs components fileName fileType unsaved.1 ↔ LastShadowed fs.disk dirCached.file) := by
    rintro rfl unsaved disk reached away stored
    obtain ⟨fs₁, dirCached₁, news, f, again, inserted, -, size, count⟩ :=
      creatable.unsaved_spec valid fileType tail (by rw [seek]; exact links) fun _ =>
        Or.inr ⟨unsaved, reached⟩
    obtain rfl := Option.some.inj (again.symm.trans reached)
    have path := inserted.pathState
    obtain ⟨after, before⟩ := rootGrown _ _ rfl inserted.kept
    obtain ⟨home, counts, same⟩ := inserted.root isDirectory size count rootInside after before
    refine ⟨(storeFileCached_root (path ▸ atRoot.mpr rfl)).2 (path ▸ away) disk stored, ?_⟩
    rw [found inserted _ home (Or.inl counts) fun k inside => same k (counts ▸ inside), counts]
    exact or_iff_right (by omega)
  constructor
  · rintro ⟨fs', dirCached', run, created⟩ none
    change DirectoryCall.run fs locals dirCached (.create fileName fileType) = _ at run
    rw [DirectoryCall.run_save] at run
    obtain ⟨unsaved, reached, last⟩ := Option.bind_eq_some_iff.mp run
    obtain ⟨disk, stored, same⟩ := Option.map_eq_some_iff.mp last
    obtain ⟨rfl, rfl⟩ := Prod.mk.inj same
    refine ⟨unsaved, reached, or_iff_not_imp_left.mpr fun away => ⟨?_, disk, stored⟩⟩
    obtain ⟨rfl, shown⟩ := lost none unsaved disk reached away stored
    exact shown.mp created
  · intro root
    by_cases none : components = []
    · obtain ⟨unsaved, reached, kept⟩ := root none
      by_cases leads : NameLeads unsaved.1.disk locals dirCached.pathState.parentDirName
      · exact saved fun _ => ⟨unsaved, reached, leads⟩
      · obtain ⟨shadowed, disk, stored⟩ := kept.resolve_left leads
        obtain ⟨rfl, shown⟩ := lost none unsaved disk reached leads stored
        refine ⟨unsaved.1, unsaved.2, ?_, shown.mpr shadowed⟩
        change DirectoryCall.run fs locals dirCached (.create fileName fileType) = _
        rw [DirectoryCall.run_save, reached, Option.bind_some, save, stored]
        rfl
    · exact saved fun parent => absurd (atRoot.mp parent) none

/-! ## The root and the directory `d` of the sample tree -/

theorem sysCreate_creates_second :
    ∃ dirCached fs' dirCached', loadFileCached sampleTree sampleLocals (joinPath [[100]]) sampleCached =
        some (.success, dirCached) ∧
      sysCreate sampleFs sampleLocals dirCached [99] .normal = some (fs', dirCached') ∧
      CreatedAt sampleFs [[100]] [99] .normal fs' := by
  obtain ⟨⟨_, dirCached⟩, load, rfl⟩ := Option.map_eq_some_iff.mp
    (by decide +kernel : (loadFileCached sampleTree sampleLocals (joinPath [[100]]) sampleCached).map
      Prod.fst = some .success)
  have through : ThroughDirectories sampleFs.disk [[100]] := @Along.left _ _ _ [[100]] [[98]] sampleTree_directories
  have path : Path ([[100]] ++ [[99]]) :=
    { each := by
        unfold Component
        decide
      short := by decide }
  have along : Along sampleTree (rootFcb sampleTree) [[100]] (IsDirectory sampleTree) :=
    @Along.left _ _ _ [[100]] [[98]] sampleTree_along
  have file : dirCached.file = entry sampleTree (rootFcb sampleTree) 1 := by
    have found : lookup sampleTree (rootFcb sampleTree) [100] = some 1 := by decide +kernel
    have loaded := (loaded_of_success path.init along load).file
    rw [resolve, found, Option.bind_some, resolve] at loaded
    exact (Option.some.inj loaded).symm
  obtain ⟨fs', dirCached', run, created⟩ := (sysCreate_creates sampleFs_volume sampleLocals [[100]] through load
    (by rw [file]; decide +kernel) (by rw [file]; exact wellFormed_of_check (by decide +kernel))
    (by rw [file]; decide +kernel) (by
      refine Nat.le_trans ?_ sampleFs_free
      rw [file]
      decide +kernel)
    [99] ⟨by decide, by decide⟩ (by rw [file]; decide +kernel) .normal path
    (linksKept_short (by rw [file]; decide +kernel))).mpr fun none => by cases none
  exact ⟨dirCached, fs', dirCached', load, run, created⟩

def staleHandle : FileCached := { sampleCached with pathState := ⟨joinPath [[120]], 0, false⟩ }

/-- The new entry is written, but the size of the root on the disk stays as it was, and its last entry is lost. -/
theorem sysCreate_forgets_entry :
    ∃ dirCached, loadFileCached sampleTree sampleLocals (joinPath []) staleHandle = some (.success, dirCached) ∧
      Volume sampleFs ∧ dirCached.file.fileType = FileType.directory.code ∧
      WellFormed sampleTree dirCached.file (sectorsOf sampleTree dirCached.file) ∧
      dirCached.file.size + fileTSize ≤ tempSize ∧
      1 + (nthBlock (dirCached.file.size + fileTSize) + 1 - dirCached.file.sectorCount.toNat) ≤
        freeSectors sampleFs.fileAllocBitmap ∧
      FileName [99] ∧ Path [[99]] ∧ lookup sampleTree dirCached.file [99] = none ∧
      ¬∃ fs' dirCached', sysCreate sampleFs sampleLocals dirCached [99] .normal = some (fs', dirCached') ∧
        CreatedAt sampleFs [] [99] .normal fs' := by
  have lost : ((loadFileCached sampleTree sampleLocals (joinPath []) staleHandle).bind fun r =>
      (sysCreate sampleFs sampleLocals r.2 [99] .normal).bind fun created =>
        (loadFileCached created.1.disk sampleLocals (joinPath [[100]]) sampleCached).map fun again =>
          decide (r.1 = .success ∧ again.1 = .success)) = some false := by decide +kernel
  obtain ⟨⟨_, dirCached⟩, load, rfl⟩ := Option.map_eq_some_iff.mp
    (by decide +kernel : (loadFileCached sampleTree sampleLocals (joinPath []) staleHandle).map
      Prod.fst = some .success)
  have empty : Path [] := ⟨fun _ none => absurd none List.not_mem_nil, by decide⟩
  have file : dirCached.file = rootFcb sampleTree :=
    (Option.some.inj (loaded_of_success empty along_nil load).file).symm
  refine ⟨dirCached, load, ?_⟩
  rw [file]
  refine ⟨sampleFs_volume, by decide +kernel, wellFormed_of_check (by decide +kernel),
    by decide +kernel, ?_, ⟨by decide, by decide⟩, ⟨?_, by decide⟩, by decide +kernel, ?_⟩
  · refine Nat.le_trans ?_ sampleFs_free
    decide +kernel
  · unfold Component
    decide
  · intro exact
    obtain ⟨fs', dirCached', run, created⟩ := exact
    have found : lookup sampleTree (rootFcb sampleTree) [100] = some 1 := by decide +kernel
    have resolved : resolve sampleFs.disk (rootFcb sampleFs.disk) ([] ++ [[100]]) =
        some (entry sampleTree (rootFcb sampleTree) 1) := by
      change resolve sampleTree (rootFcb sampleTree) [[100]] = _
      rw [resolve, found, Option.bind_some, resolve]
    obtain ⟨again, result, -⟩ := created.others [100] _ ⟨by decide, by decide⟩ resolved sampleLocals sampleCached
    rw [load, Option.bind_some, run, Option.bind_some] at lost
    change (loadFileCached fs'.disk sampleLocals (joinPath [[100]]) sampleCached).map _ = _ at lost
    rw [show loadFileCached fs'.disk sampleLocals (joinPath [[100]]) sampleCached = some (.success, again) from result]
      at lost
    cases lost

end WegOS
