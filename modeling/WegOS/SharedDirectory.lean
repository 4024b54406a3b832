import WegOS.EndMarks

/-! Creations in a directory between writes to its files.

A handle keeps the index of its entry in the directory. `sys_create` inserts the new entry at the write
cursor of the directory, and moves the entries behind it. -/

namespace WegOS

open LittleEndian CArray BlockChain Transition

/-! ## Where the control block of a directory is kept -/

inductive DirKept (disk : Disk) (path : FilePathState) (f : FileT) : List (List UInt8) → Prop
  | root : path.hasParent = false → rootFcb disk = f → DirKept disk path f []
  | entry {init : List (List UInt8)} {c : List UInt8} {parent : FileT} : Home disk init parent →
      Path (init ++ [c]) → path.hasParent = true → path.parentDirName = joinPath init →
      lookup disk parent c = some path.indexInParentDir → entry disk parent path.indexInParentDir = f →
      DirKept disk path f (init ++ [c])

def aboveSectors (disk : Disk) (components : List (List UInt8)) : Set UInt32 :=
  { s | s = sectorWithRootFcb ∨ ∃ first c rest d, components = first ++ c :: rest ∧
      resolve disk (rootFcb disk) first = some d ∧ s ∈ sectorsOf disk d }

section Kept

variable {disk disk' : Disk} {path : FilePathState} {f dir : FileT} {components : List (List UInt8)}

theorem above_home {s : UInt32} (above : s ∈ aboveSectors disk components) : s ∈ homeSectors disk components dir := by
  rcases above with root | way
  · exact Or.inl root
  · exact Or.inr (Or.inr way)

theorem Home.above_apart (home : Home disk components dir) {s : UInt32} (above : s ∈ aboveSectors disk components) :
    s ∉ sectorsOf disk dir := by
  rcases above with rfl | ⟨first, c, rest, d, split, reached, member⟩
  · exact home.apart
  · exact fun own => home.clear first c rest split d reached member own

theorem EntryHeld.dirKept {base : Disk} {init : List (List UInt8)} {c : List UInt8} {parent : FileT}
    (home : Home base init parent) (long : Path (init ++ [c])) (hasParent : path.hasParent = true)
    (name : path.parentDirName = joinPath init) (found : lookup base parent c = some path.indexInParentDir)
    (held : EntryHeld base init parent path.indexInParentDir disk f) : DirKept disk path f (init ++ [c]) :=
  DirKept.entry (held.home home) long hasParent name ((held.lookup_eq c).trans found)
    ((held.entries _ (lookup_eq_some.mp found).2.1).trans (if_pos rfl))

theorem home_above {init : List (List UInt8)} {c : List UInt8} {parent : FileT} (home : Home disk init parent)
    {s : UInt32} (member : s ∈ homeSectors disk init parent) : s ∈ aboveSectors disk (init ++ [c]) := by
  rcases member with root | own | ⟨first, d, rest, inner, rfl, reached, member⟩
  · exact Or.inl root
  · exact Or.inr ⟨init, c, [], parent, rfl, home.reached, own⟩
  · exact Or.inr ⟨first, d, rest ++ [c], inner, by simp, reached, member⟩

theorem DirKept.keeper (kept : DirKept disk path f components) (locals : Locals) :
    ∃ keeper : DirKeeper locals path components, keeper.holds disk f ∧
      (∀ s ∈ keeper.sectors, s ∈ aboveSectors disk components) ∧
      ∀ disk' f', keeper.saved disk' f' → DirKept disk' path f' components := by
  cases kept with
  | root hasParent held =>
      refine ⟨rootDirKeeper locals hasParent f, ?_, fun s member => Or.inl member, fun disk' f' again => ?_⟩
      · rw [← held]
        exact ⟨Grown.refl _, Grown.refl _⟩
      · exact DirKept.root hasParent again
  | @entry init c parent home long hasParent name found held =>
      refine ⟨entryDirKeeper home locals hasParent name long found, ?_, fun s member => home_above home member,
        fun disk' f' again => EntryHeld.dirKept home long hasParent name found again⟩
      rw [← held]
      exact EntryHeld.refl disk init parent path.indexInParentDir

theorem DirKept.frame (kept : DirKept disk path f components)
    (same : ∀ s ∈ aboveSectors disk components, disk' s = disk s) : DirKept disk' path f components := by
  cases kept with
  | root hasParent held => exact DirKept.root hasParent ((rootFcb_congr (same _ (Or.inl rfl))).trans held)
  | @entry init c parent home long hasParent name found held =>
      refine EntryHeld.dirKept home long hasParent name found ?_
      rw [← held]
      exact (EntryHeld.refl disk init parent path.indexInParentDir).frame home fun s member =>
        same s (home_above home member)

theorem WellFormed.relink {chain : List UInt32} (wellFormed : WellFormed disk f chain)
    (links : ∀ s ∈ chain, nextSector (disk' s) = nextSector (disk s)) : WellFormed disk' f chain where
  first := wellFormed.first
  linked := wellFormed.linked.congr links
  positive := wellFormed.positive
  room := wellFormed.room
  last := wellFormed.last
  count := wellFormed.count
  nodup := wellFormed.nodup

theorem EntryHeld.homeSectors_subset {base : Disk} {index : Nat} (home : Home base components dir)
    (held : EntryHeld base components dir index disk f) {s : UInt32} (member : s ∈ homeSectors disk components dir) :
    s ∈ homeSectors base components dir := by
  rcases member with root | own | ⟨first, c, rest, d, split, reached, inner⟩
  · exact Or.inl root
  · rw [held.sectors] at own
    exact Or.inr (Or.inl own)
  · have along : Along base (rootFcb base) (first ++ c :: rest) (IsDirectory base) := split ▸ home.along
    have same : Along base (rootFcb base) (first ++ c :: rest) fun d => ∀ s ∈ sectorsOf base d, disk s = base s :=
      split ▸ held.same home
    rw [held.root home, resolve_congr along.left same.left] at reached
    rw [sectorsOf_congr (held.same home first c rest split d reached)] at inner
    exact Or.inr (Or.inr ⟨first, c, rest, d, split, reached, inner⟩)

end Kept

/-! ## The directory and the handles on its files -/

structure Shared where
  fs : FileSystem
  dirCached : FileCached
  files : List FileT
  handles : List (Nat × FileCached)

def entries (s : Shared) : List FileT :=
  (List.range (entryCount s.dirCached.file)).map (entry s.fs.disk s.dirCached.file)

def OneEntryEach (s : Shared) : Prop := (entries s).Perm s.files

inductive SharedCall
  | create (locals : Locals) (fileName : List UInt8) (fileType : FileType)
  | write (handle : Nat) (locals : Locals) (buf : Nat → UInt8) (length : Nat)

def sharedStep (s : Shared) : SharedCall → Option Shared
  | .create locals fileName fileType => do
      let (fs, dirCached) ← sysCreate s.fs locals s.dirCached fileName fileType
      let new := createdFile locals fileName fileType (fileAlloc s.fs).1
      pure { s with fs := fs, dirCached := dirCached, files := s.files ++ [new] }
  | .write handle locals buf length => do
      let (file, cached) ← s.handles[handle]?
      let (fs, cached) ← sysWrite s.fs locals cached buf length
      pure { s with fs := fs, files := s.files.set file cached.file, handles := s.handles.set handle (file, cached) }

def SharedStep (s : Shared) (call : SharedCall) (t : Shared) : Prop := sharedStep s call = some t

/-- The buffers and the disk have room for the new entry. When the directory is the root, the path in
`parent_dir_name` of its handle leads somewhere. -/
structure CreateFits (s : Shared) (locals : Locals) (fileName : List UInt8) (fileType : FileType) : Prop where
  valid : FileName fileName
  enough : 1 + (nthBlock (s.dirCached.file.size + fileTSize) + 1 - s.dirCached.file.sectorCount.toNat) ≤
    freeSectors s.fs.fileAllocBitmap
  fits : s.dirCached.file.size - s.dirCached.ioState.writeSeek + fileTSize ≤ tempSize
  small : s.dirCached.file.size + fileTSize ≤ filesSize
  tail : TailFits s.dirCached.file s.dirCached.ioState
  links : LinksKept (grownChain (fileAlloc s.fs).2.fileAllocBitmap (sectorsOf s.fs.disk s.dirCached.file)
    (s.dirCached.file.size + fileTSize)) s.dirCached.file.size s.dirCached.ioState.writeSeek fileTSize
    fun i => byteOf s.fs.disk (sectorsOf s.fs.disk s.dirCached.file) (i - fileTSize)
  root : s.dirCached.pathState.hasParent = false → RootLeads s.fs locals s.dirCached (.create fileName fileType)

/-- The handle has the latest control block of its file and the index where it stands, and the buffers and
the disk have room for the bytes. -/
structure WriteFits (s : Shared) (file : Nat) (cached : FileCached) (buf : Nat → UInt8) (length : Nat) : Prop where
  latest : s.files[file]? = some cached.file
  current : (entries s)[cached.pathState.indexInParentDir]? = some cached.file
  enough : nthBlock (cached.file.size + length) + 1 - cached.file.sectorCount.toNat ≤ freeSectors s.fs.fileAllocBitmap
  fits : cached.file.size - cached.ioState.writeSeek + length ≤ tempSize
  tail : TailFits cached.file cached.ioState
  links : LinksKept (grownChain s.fs.fileAllocBitmap (sectorsOf s.fs.disk cached.file) (cached.file.size + length))
    cached.file.size cached.ioState.writeSeek length
    (inserted (byteOf s.fs.disk (sectorsOf s.fs.disk cached.file)) buf cached.ioState.writeSeek length)

def Fits (s : Shared) : SharedCall → Prop
  | .create locals fileName fileType => CreateFits s locals fileName fileType
  | .write handle _ buf length => ∃ file cached, s.handles[handle]? = some (file, cached) ∧
      WriteFits s file cached buf length

/-- Of the entries, a creation adds the one of its file, and a write replaces the one of its file. -/
def OwnEntry (s : Shared) (call : SharedCall) (t : Shared) : Prop :=
  match call with
  | .create .. => ∃ j new, j ≤ (entries s).length ∧ t.files = s.files ++ [new] ∧
      entries t = (entries s).insertIdx j new
  | .write handle .. => ∃ file cached old f, s.handles[handle]? = some (file, cached) ∧ s.files[file]? = some old ∧
      (entries s)[cached.pathState.indexInParentDir]? = some old ∧ t.files = s.files.set file f ∧
      entries t = (entries s).set cached.pathState.indexInParentDir f

/-! ## The invariant -/

structure OwnSectors (fs : FileSystem) (components : List (List UInt8)) (dir f : FileT) : Prop where
  wellFormed : WellFormed fs.disk f (sectorsOf fs.disk f)
  marked : ∀ x ∈ sectorsOf fs.disk f, Marked fs.fileAllocBitmap x
  apart : ∀ x ∈ sectorsOf fs.disk f, x ∉ homeSectors fs.disk components dir

structure OpenOn (s : Shared) (components : List (List UInt8)) (file : Nat) (cached : FileCached) : Prop where
  hasParent : cached.pathState.hasParent = true
  parent : cached.pathState.parentDirName = joinPath components
  cursor : ∃ f, s.files[file]? = some f ∧ cached.ioState.writeSeek ≤ f.size ∧
    (sectorsOf s.fs.disk f)[nthBlock cached.ioState.writeSeek]? = some cached.ioState.writeSector

structure Shared.Sound (components : List (List UInt8)) (s : Shared) : Prop where
  size : s.fs.fileAllocBitmap.size = fsAllocTableBits
  home : Home s.fs.disk components s.dirCached.file
  kept : DirKept s.fs.disk s.dirCached.pathState s.dirCached.file components
  wellFormed : WellFormed s.fs.disk s.dirCached.file (sectorsOf s.fs.disk s.dirCached.file)
  marked : ∀ x ∈ homeSectors s.fs.disk components s.dirCached.file, Marked s.fs.fileAllocBitmap x
  place : ∃ j ≤ entryCount s.dirCached.file, s.dirCached.ioState.writeSeek = fileTSize * j
  here : (sectorsOf s.fs.disk s.dirCached.file)[nthBlock s.dirCached.ioState.writeSeek]? =
    some s.dirCached.ioState.writeSector
  own : ∀ f ∈ s.files, OwnSectors s.fs components s.dirCached.file f
  disjoint : ∀ (i j : Nat) f g, i ≠ j → s.files[i]? = some f → s.files[j]? = some g →
    (sectorsOf s.fs.disk f).Disjoint (sectorsOf s.fs.disk g)
  handles : ∀ (k file : Nat) cached, s.handles[k]? = some (file, cached) → OpenOn s components file cached

section Steps

variable {components : List (List UInt8)} {s : Shared}

theorem OwnSectors.keep {fs fs' : FileSystem} {dir dir' f : FileT} {news : List UInt32}
    (own : OwnSectors fs components dir f) (size : fs.fileAllocBitmap.size = fsAllocTableBits)
    (allocated : Allocated news fs.fileAllocBitmap fs'.fileAllocBitmap)
    (same : ∀ x ∈ sectorsOf fs.disk f, fs'.disk x = fs.disk x)
    (home : ∀ x ∈ homeSectors fs'.disk components dir', x ∈ homeSectors fs.disk components dir ∨ x ∈ news) :
    sectorsOf fs'.disk f = sectorsOf fs.disk f ∧ OwnSectors fs' components dir' f := by
  have sectors := sectorsOf_congr same
  refine ⟨sectors, ?_⟩
  exact
    { wellFormed := by
        rw [sectors]
        exact own.wellFormed.congr same
      marked := by
        rw [sectors]
        exact fun x member => allocated.marked size (Or.inl (own.marked x member))
      apart := by
        rw [sectors]
        intro x member inner
        rcases home x inner with old | new
        · exact own.apart x member old
        · exact allocated.not_mem (own.marked x member).2 new }

theorem entries_length (s : Shared) : (entries s).length = entryCount s.dirCached.file := by
  rw [entries, List.length_map, List.length_range]

theorem entries_getElem? (s : Shared) {k : Nat} (inside : k < entryCount s.dirCached.file) :
    (entries s)[k]? = some (entry s.fs.disk s.dirCached.file k) := by
  rw [entries, List.getElem?_map, List.getElem?_range inside]
  rfl

theorem entries_inserted {t : Shared} {j : Nat} {new : FileT}
    (grown : entryCount t.dirCached.file = entryCount s.dirCached.file + 1) (inside : j ≤ entryCount s.dirCached.file)
    (each : ∀ k ≤ entryCount s.dirCached.file, entry t.fs.disk t.dirCached.file k =
      if k < j then entry s.fs.disk s.dirCached.file k else if k = j then new
      else entry s.fs.disk s.dirCached.file (k - 1)) : entries t = (entries s).insertIdx j new := by
  have length := entries_length s
  apply List.ext_getElem
  · rw [entries_length, grown, List.length_insertIdx, if_pos (length.symm ▸ inside), length]
  · intro k first second
    rw [entries_length, grown] at first
    rw [List.getElem_insertIdx]
    simp only [entries, List.getElem_map, List.getElem_range]
    rw [each k (Nat.le_of_lt_succ first)]
    split_ifs <;> rfl

theorem entries_replaced {t : Shared} {index : Nat} {f : FileT}
    (count : entryCount t.dirCached.file = entryCount s.dirCached.file)
    (each : ∀ k < entryCount s.dirCached.file, entry t.fs.disk t.dirCached.file k =
      if k = index then f else entry s.fs.disk s.dirCached.file k) : entries t = (entries s).set index f := by
  have length := entries_length s
  apply List.ext_getElem
  · rw [entries_length, count, List.length_set, length]
  · intro k first second
    rw [entries_length, count] at first
    rw [List.getElem_set]
    simp only [entries, List.getElem_map, List.getElem_range]
    rw [each k first]
    split_ifs with here there there
    · rfl
    · exact absurd here.symm there
    · exact absurd there.symm here
    · rfl

theorem createdFile_sectors (disk : Disk) (locals : Locals) (fileName : List UInt8) (fileType : FileType)
    (sector : UInt32) : sectorsOf disk (createdFile locals fileName fileType sector) = [sector] := rfl

theorem createdFile_wellFormed (disk : Disk) (locals : Locals) (fileName : List UInt8) (fileType : FileType)
    (sector : UInt32) : WellFormed disk (createdFile locals fileName fileType sector) [sector] where
  first := rfl
  linked := sectorsOf_linked disk (createdFile locals fileName fileType sector)
  positive := by
    change (0 : Int32) ≤ 0
    decide
  room := by
    change nthBlock (Int32.toNatClampNeg 0) < 1
    decide
  last := rfl
  count := rfl
  nodup := List.nodup_singleton sector

theorem related_concat {α : Type} {R : α → α → Prop} {l : List α} {new : α} (symm : ∀ a b, R a b → R b a)
    (old : ∀ (i j : Nat) a b, i ≠ j → l[i]? = some a → l[j]? = some b → R a b) (added : ∀ a ∈ l, R a new)
    (i j : Nat) (a b : α) (different : i ≠ j) (first : (l ++ [new])[i]? = some a)
    (second : (l ++ [new])[j]? = some b) : R a b := by
  have place : ∀ {k : Nat} {c : α}, (l ++ [new])[k]? = some c → l[k]? = some c ∨ k = l.length ∧ c = new := by
    intro k c there
    rw [List.getElem?_append] at there
    split_ifs at there with low
    · exact Or.inl there
    · obtain ⟨zero, same⟩ := List.getElem?_eq_some_iff.mp there
      rw [List.length_singleton] at zero
      exact Or.inr ⟨by omega, same.symm.trans (List.getElem_singleton _)⟩
  rcases place first with oldA | ⟨rfl, rfl⟩
  · rcases place second with oldB | ⟨rfl, rfl⟩
    · exact old i j a b different oldA oldB
    · exact added a (List.mem_of_getElem? oldA)
  · rcases place second with oldB | ⟨rfl, -⟩
    · exact symm b a (added b (List.mem_of_getElem? oldB))
    · exact absurd rfl different

theorem OwnSectors.created {fs fs' : FileSystem} {dir : FileT} {news : List UInt32} {locals : Locals}
    {fileName : List UInt8} {fileType : FileType} {sector : UInt32}
    (size : fs.fileAllocBitmap.size = fsAllocTableBits)
    (allocated : Allocated (sector :: news) fs.fileAllocBitmap fs'.fileAllocBitmap)
    (apart : sector ∉ homeSectors fs'.disk components dir) :
    OwnSectors fs' components dir (createdFile locals fileName fileType sector) where
  wellFormed := by
    rw [createdFile_sectors]
    exact createdFile_wellFormed _ _ _ _ _
  marked := by
    rw [createdFile_sectors]
    intro x member
    rw [List.mem_singleton.mp member]
    exact allocated.marked size (Or.inr List.mem_cons_self)
  apart := by
    rw [createdFile_sectors]
    intro x member
    rwa [List.mem_singleton.mp member]

theorem OpenOn.written {t : Shared} {file number : Nat} {f f' : FileT} {cached : FileCached} {news : List UInt32}
    (opened : OpenOn s components number cached) (latest : s.files[file]? = some f)
    (files : t.files = s.files.set file f') (grown : f.size ≤ f'.size)
    (sectors : sectorsOf t.fs.disk f' = sectorsOf s.fs.disk f ++ news)
    (kept : ∀ (i : Nat) g, i ≠ file → s.files[i]? = some g → sectorsOf t.fs.disk g = sectorsOf s.fs.disk g) :
    OpenOn t components number cached := by
  obtain ⟨hasParent, parent, g, latest', seek, here⟩ := opened
  by_cases equal : number = file
  · subst equal
    obtain rfl : g = f := Option.some.inj (latest'.symm.trans latest)
    refine ⟨hasParent, parent, f', ?_, Nat.le_trans seek grown, ?_⟩
    · rw [files]
      exact List.getElem?_set_self (List.getElem?_eq_some_iff.mp latest).1
    · rw [sectors, List.getElem?_append_left (List.getElem?_eq_some_iff.mp here).1]
      exact here
  · refine ⟨hasParent, parent, g, ?_, seek, ?_⟩
    · rw [files]
      exact (List.getElem?_set_ne (Ne.symm equal)).trans latest'
    · rw [kept number g equal latest']
      exact here

theorem Shared.Sound.creatable (sound : s.Sound components) {locals : Locals} {fileName : List UInt8}
    {fileType : FileType} (fits : CreateFits s locals fileName fileType) {keeper : DirKeeper locals s.dirCached.pathState components}
    (held : keeper.holds s.fs.disk s.dirCached.file)
    (above : ∀ x ∈ keeper.sectors, x ∈ aboveSectors s.fs.disk components) {j : Nat}
    (inside : j ≤ entryCount s.dirCached.file) (place : s.dirCached.ioState.writeSeek = fileTSize * j) :
    Creatable s.fs s.dirCached keeper j where
  kept := held
  directory := sound.home.directory
  wellFormed := sound.wellFormed
  size := sound.size
  marked := fun x member => sound.marked x (Or.inr (Or.inl member))
  keeperMarked := fun x member => (sound.marked x (above_home (above x member))).2
  apart := fun x member inner => sound.home.above_apart (above x inner) member
  enough := fits.enough
  place := place
  inside := inside
  here := sound.here
  fits := fits.fits
  small := fits.small

/-- A creation that fits keeps the invariant. -/
theorem Shared.Sound.create (sound : s.Sound components) {locals : Locals} {fileName : List UInt8}
    {fileType : FileType} (fits : CreateFits s locals fileName fileType) :
    ∃ t, SharedStep s (.create locals fileName fileType) t ∧ t.Sound components ∧
      OwnEntry s (.create locals fileName fileType) t := by
  obtain ⟨j, inside, place⟩ := sound.place
  obtain ⟨keeper, held, above, again⟩ := sound.kept.keeper locals
  have creatable := sound.creatable fits held above inside place
  obtain ⟨fs', dirCached', news, run, created⟩ :=
    creatable.sysCreate_spec fits.valid fileType fits.tail fits.links fun parent => Or.inr (fits.root parent)
  let new := createdFile locals fileName fileType (fileAlloc s.fs).1
  let t : Shared := ⟨fs', dirCached', s.files ++ [new], s.handles⟩
  have allocated : Allocated ((fileAlloc s.fs).1 :: news) s.fs.fileAllocBitmap fs'.fileAllocBitmap := created.allocated
  have homeward : ∀ x ∈ homeSectors fs'.disk components dirCached'.file,
      x ∈ homeSectors s.fs.disk components s.dirCached.file ∨ x ∈ (fileAlloc s.fs).1 :: news := by
    intro x member
    rcases keeper.within created.saved x member with inner | own
    · exact Or.inl (above_home (above x inner))
    · rw [created.sectors] at own
      rcases List.mem_append.mp own with old | young
      · exact Or.inl (Or.inr (Or.inl old))
      · exact Or.inr (List.mem_cons_of_mem _ young)
  have same : ∀ f ∈ s.files, ∀ x ∈ sectorsOf s.fs.disk f, fs'.disk x = s.fs.disk x := by
    intro f member x inner
    have own := sound.own f member
    have marked := (own.marked x inner).2
    have fresh := allocated.not_mem marked
    apply created.frame x
    · rintro rfl
      exact fresh List.mem_cons_self
    · rw [created.sectors]
      intro there
      rcases List.mem_append.mp there with old | young
      · exact own.apart x inner (Or.inr (Or.inl old))
      · exact fresh (List.mem_cons_of_mem _ young)
    · exact fun inside => own.apart x inner (above_home (above x inside))
  have kept : ∀ f ∈ s.files, sectorsOf fs'.disk f = sectorsOf s.fs.disk f ∧ OwnSectors fs' components dirCached'.file f :=
    fun f member => (sound.own f member).keep sound.size allocated (same f member) homeward
  have sectorNew := createdFile_sectors fs'.disk locals fileName fileType (fileAlloc s.fs).1
  have newApart : ∀ f ∈ s.files, (fileAlloc s.fs).1 ∉ sectorsOf s.fs.disk f := by
    intro f member inner
    exact allocated.not_mem ((sound.own f member).marked _ inner).2 List.mem_cons_self
  have ownNew : OwnSectors fs' components dirCached'.file new := by
    apply OwnSectors.created sound.size allocated
    intro inner
    rcases keeper.within created.saved _ inner with up | own
    · exact allocated.not_mem (creatable.keeperMarked _ up) List.mem_cons_self
    · exact created.outside own
  refine ⟨t, ?_, ?_, j, new, ?_, rfl, ?_⟩
  · simp only [SharedStep, sharedStep, run]
    rfl
  · exact
      { size := allocated.size
        home := created.home
        kept := by
          have kept := again fs'.disk dirCached'.file created.saved
          rwa [← created.pathState] at kept
        wellFormed := created.wellFormed
        marked := by
          intro x member
          apply allocated.marked sound.size
          exact (homeward x member).imp_left (sound.marked x)
        place := ⟨j + 1, by rw [entryCount_grown created.grown]; omega, created.seek⟩
        here := created.here
        own := by
          intro f member
          rcases List.mem_append.mp member with old | young
          · exact (kept f old).2
          · rw [List.mem_singleton.mp young]
            exact ownNew
        disjoint := by
          refine related_concat (fun _ _ => List.Disjoint.symm) (fun i k f g different first second => ?_)
            fun f member => ?_
          · rw [(kept f (List.mem_of_getElem? first)).1, (kept g (List.mem_of_getElem? second)).1]
            exact sound.disjoint i k f g different first second
          · rw [(kept f member).1, sectorNew, List.disjoint_singleton]
            exact newApart f member
        handles := by
          intro k file cached there
          obtain ⟨hasParent, parent, f, latest, seek, here⟩ := sound.handles k file cached there
          have member := List.mem_of_getElem? latest
          refine ⟨hasParent, parent, f, ?_, seek, ?_⟩
          · exact (List.getElem?_append_left (List.getElem?_eq_some_iff.mp latest).1).trans latest
          · rw [(kept f member).1]
            exact here }
  · rw [entries_length]
    exact inside
  · exact entries_inserted (entryCount_grown created.grown) inside created.entries

theorem Shared.Sound.writable (sound : s.Sound components) {file : Nat} {cached : FileCached} {buf : Nat → UInt8}
    {length : Nat} (fits : WriteFits s file cached buf length) (locals : Locals)
    (hasParent : cached.pathState.hasParent = true) (parent : cached.pathState.parentDirName = joinPath components)
    (within : cached.pathState.indexInParentDir < entryCount s.dirCached.file)
    (seek : cached.ioState.writeSeek ≤ cached.file.size)
    (here : (sectorsOf s.fs.disk cached.file)[nthBlock cached.ioState.writeSeek]? = some cached.ioState.writeSector) :
    Writable s.fs cached (entryKeeper sound.home locals hasParent parent within) (sectorsOf s.fs.disk cached.file)
      length where
  kept := by
    have held := EntryHeld.refl s.fs.disk components s.dirCached.file cached.pathState.indexInParentDir
    have current := fits.current
    rw [entries_getElem? s within, Option.some.injEq] at current
    rwa [current] at held
  wellFormed := (sound.own cached.file (List.mem_of_getElem? fits.latest)).wellFormed
  size := sound.size
  marked := (sound.own cached.file (List.mem_of_getElem? fits.latest)).marked
  keeperMarked := fun x inner => (sound.marked x inner).2
  apart := (sound.own cached.file (List.mem_of_getElem? fits.latest)).apart
  enough := by
    rw [(sound.own cached.file (List.mem_of_getElem? fits.latest)).wellFormed.count]
    exact fits.enough
  inside := seek
  here := here
  fits := fits.fits

theorem Shared.Sound.elsewhere (sound : s.Sound components) {file i : Nat} {f g : FileT}
    (latest : s.files[file]? = some f) (there : s.files[i]? = some g) (other : i ≠ file) {news : List UInt32}
    {bitmap : Bitmap} (allocated : Allocated news s.fs.fileAllocBitmap bitmap) :
    ∀ x ∈ sectorsOf s.fs.disk g, x ∉ sectorsOf s.fs.disk f ++ news := by
  intro x inner
  rw [List.mem_append, not_or]
  exact ⟨sound.disjoint i file g f other there latest inner,
    allocated.not_mem ((sound.own g (List.mem_of_getElem? there)).marked x inner).2⟩

/-- A write that fits keeps the invariant. -/
theorem Shared.Sound.write (sound : s.Sound components) {handle file : Nat} {cached : FileCached}
    (opened : s.handles[handle]? = some (file, cached)) (locals : Locals) {buf : Nat → UInt8} {length : Nat}
    (fits : WriteFits s file cached buf length) :
    ∃ t, SharedStep s (.write handle locals buf length) t ∧ t.Sound components ∧
      OwnEntry s (.write handle locals buf length) t := by
  obtain ⟨hasParent, parent, f, latest, seek, here⟩ := sound.handles handle file cached opened
  obtain rfl : f = cached.file := Option.some.inj (latest.symm.trans fits.latest)
  have member := List.mem_of_getElem? latest
  have own := sound.own cached.file member
  have inside : cached.pathState.indexInParentDir < entryCount s.dirCached.file := by
    have bound := (List.getElem?_eq_some_iff.mp fits.current).1
    rwa [entries_length] at bound
  obtain ⟨fs', cached', news, run, written⟩ :=
    (sound.writable fits locals hasParent parent inside seek here).sysWrite_spec buf hasParent fits.tail fits.links
  have held : EntryHeld s.fs.disk components s.dirCached.file cached.pathState.indexInParentDir fs'.disk cached'.file :=
    written.kept
  have sectors := written.wellFormed.sectorsOf_eq
  have allocated := written.allocated
  let t : Shared := ⟨fs', s.dirCached, s.files.set file cached'.file, s.handles.set handle (file, cached')⟩
  have homeward : ∀ x ∈ homeSectors fs'.disk components s.dirCached.file,
      x ∈ homeSectors s.fs.disk components s.dirCached.file ∨ x ∈ news :=
    fun x member => Or.inl (held.homeSectors_subset sound.home member)
  have ownNew : OwnSectors fs' components s.dirCached.file cached'.file :=
    { wellFormed := by
        rw [sectors]
        exact written.wellFormed
      marked := by
        rw [sectors]
        intro x inner
        exact allocated.marked sound.size ((List.mem_append.mp inner).imp_left (own.marked x))
      apart := by
        rw [sectors]
        intro x inner up
        have up := held.homeSectors_subset sound.home up
        rcases List.mem_append.mp inner with old | young
        · exact own.apart x old up
        · exact allocated.not_mem (sound.marked x up).2 young }
  have kept : ∀ (i : Nat) g, i ≠ file → s.files[i]? = some g →
      sectorsOf fs'.disk g = sectorsOf s.fs.disk g ∧ OwnSectors fs' components s.dirCached.file g := by
    intro i g other there
    have ownG := sound.own g (List.mem_of_getElem? there)
    refine ownG.keep sound.size allocated (fun x inner => ?_) homeward
    exact written.frame x (sound.elsewhere latest there other allocated x inner) (ownG.apart x inner)
  have away : ∀ (i : Nat) g, i ≠ file → s.files[i]? = some g →
      (sectorsOf fs'.disk g).Disjoint (sectorsOf fs'.disk cached'.file) := by
    intro i g other there x first second
    rw [(kept i g other there).1] at first
    rw [sectors] at second
    exact sound.elsewhere latest there other allocated x first second
  refine ⟨t, ?_, ?_, file, cached, cached.file, cached'.file, opened, latest, fits.current, rfl, ?_⟩
  · simp only [SharedStep, sharedStep, opened, Option.bind_eq_bind, Option.bind_some, run]
    rfl
  · exact
      { size := allocated.size
        home := held.home sound.home
        kept := by
          refine sound.kept.frame fun x above => ?_
          exact held.outside x (above_home above) (sound.home.above_apart above)
        wellFormed := by
          rw [held.sectors]
          exact sound.wellFormed.relink held.links
        marked := by
          intro x member
          exact allocated.marked sound.size ((homeward x member).imp_left (sound.marked x))
        place := sound.place
        here := by
          rw [held.sectors]
          exact sound.here
        own := by
          intro g member
          obtain ⟨i, there⟩ := List.mem_iff_getElem?.mp member
          rcases getElem?_set_cases there with ⟨-, rfl⟩ | ⟨other, old⟩
          · exact ownNew
          · exact (kept i g other old).2
        disjoint := by
          refine related_set (fun _ _ => List.Disjoint.symm) (fun i k g g' other other' different first second => ?_) away
          rw [(kept i g other first).1, (kept k g' other' second).1]
          exact sound.disjoint i k g g' different first second
        handles := by
          have others : ∀ {number other}, OpenOn s components number other → OpenOn t components number other :=
            fun opened => opened.written latest rfl (written.grown ▸ Nat.le_add_right _ _) sectors
              fun i g different there => (kept i g different there).1
          intro k number other there
          rcases getElem?_set_cases there with ⟨-, same⟩ | ⟨-, old⟩
          · obtain ⟨rfl, rfl⟩ := Prod.mk.inj same.symm
            refine ⟨by rw [written.pathState]; exact hasParent, by rw [written.pathState]; exact parent, cached'.file,
              List.getElem?_set_self (List.getElem?_eq_some_iff.mp latest).1, ?_, ?_⟩
            · rw [written.seek, written.grown]
              exact Nat.add_le_add_right seek length
            · rw [sectors]
              exact written.here
          · exact others (sound.handles k number other old) }
  · exact entries_replaced rfl held.entries

theorem perm_set {α : Type} {l m : List α} (perm : l.Perm m) {i j : Nat} {a : α} (first : l[i]? = some a)
    (second : m[j]? = some a) (b : α) : (l.set i b).Perm (m.set j b) := by
  obtain ⟨insideL, same⟩ := List.getElem?_eq_some_iff.mp first
  obtain ⟨insideM, same'⟩ := List.getElem?_eq_some_iff.mp second
  have firstOut : l.Perm (a :: l.eraseIdx i) := same ▸ (List.getElem_cons_eraseIdx_perm insideL).symm
  have secondOut : m.Perm (a :: m.eraseIdx j) := same' ▸ (List.getElem_cons_eraseIdx_perm insideM).symm
  have rest : (l.eraseIdx i).Perm (m.eraseIdx j) := (firstOut.symm.trans (perm.trans secondOut)).cons_inv
  calc
    List.Perm (l.set i b) (b :: l.eraseIdx i) := List.set_perm_cons_eraseIdx insideL b
    List.Perm _ (b :: m.eraseIdx j) := rest.cons b
    List.Perm _ (m.set j b) := (List.set_perm_cons_eraseIdx insideM b).symm

theorem OwnEntry.keeps {t : Shared} {call : SharedCall} (own : OwnEntry s call t) (each : OneEntryEach s) :
    OneEntryEach t := by
  cases call with
  | create locals fileName fileType =>
      obtain ⟨j, new, inside, files, grown⟩ := own
      rw [OneEntryEach, files, grown]
      calc
        List.Perm ((entries s).insertIdx j new) (new :: entries s) := List.perm_insertIdx new _ inside
        List.Perm _ (new :: s.files) := each.cons new
        List.Perm _ (s.files ++ [new]) := (List.perm_append_singleton new s.files).symm
  | write handle locals buf length =>
      obtain ⟨file, cached, old, f, -, latest, current, files, replaced⟩ := own
      rw [OneEntryEach, files, replaced]
      exact perm_set each current latest f

/-- A call that fits comes to an end, and touches no entry but the one of its file. -/
theorem Shared.Sound.step (sound : s.Sound components) {call : SharedCall} (fits : Fits s call) :
    ∃ t, SharedStep s call t ∧ t.Sound components ∧ OwnEntry s call t := by
  cases call with
  | create locals fileName fileType => exact sound.create fits
  | write handle locals buf length =>
      obtain ⟨file, cached, opened, fits⟩ := fits
      exact sound.write opened locals fits

end Steps

/-! ## Handles that were just loaded -/

section Start

variable {fs : FileSystem} {components : List (List UInt8)} {dirCached : FileCached}

def sharedStart (fs : FileSystem) (dirCached : FileCached) (handles : List FileCached) : Shared where
  fs := fs
  dirCached := dirCached
  files := (List.range (entryCount dirCached.file)).map (entry fs.disk dirCached.file)
  handles := handles.map fun cached => (cached.pathState.indexInParentDir, cached)

theorem node_concat {disk : Disk} {f d : FileT} {p : List Nat} {k : Nat} (place : node disk f p = some d)
    (directory : d.fileType = FileType.directory.code) (inside : k < entryCount d) :
    node disk f (p ++ [k]) = some (entry disk d k) := by
  induction p generalizing f with
  | nil =>
      obtain rfl : f = d := Option.some.inj place
      rw [List.nil_append, node, if_pos ⟨directory, inside⟩, node]
  | cons j rest ih =>
      obtain ⟨type, within, place⟩ := node_cons place
      rw [List.cons_append, node, if_pos ⟨type, within⟩]
      exact ih place

theorem Volume.dirKept (volume : Volume fs) (path : Path components) (through : ThroughDirectories fs.disk components)
    (handle : Handle fs.disk components dirCached) :
    DirKept fs.disk dirCached.pathState dirCached.file components := by
  rcases List.eq_nil_or_concat' components with rfl | ⟨init, c, rfl⟩
  · exact DirKept.root handle.hasParent (Option.some.inj handle.file)
  · obtain ⟨dir, parent⟩ := volume.parentEntry path through handle
    exact DirKept.entry parent.home path parent.hasParent parent.name parent.found parent.own

theorem sharedStart_sound (volume : Volume fs) (path : Path components)
    (through : ThroughDirectories fs.disk components) (loaded : Loaded fs.disk components dirCached)
    (directory : dirCached.file.fileType = FileType.directory.code)
    (wellFormed : WellFormed fs.disk dirCached.file (sectorsOf fs.disk dirCached.file))
    (files : ∀ k < entryCount dirCached.file, WellFormed fs.disk (entry fs.disk dirCached.file k)
      (sectorsOf fs.disk (entry fs.disk dirCached.file k)))
    {handles : List FileCached} (opened : ∀ cached ∈ handles, ∃ c, Loaded fs.disk (components ++ [c]) cached) :
    (sharedStart fs dirCached handles).Sound components ∧ OneEntryEach (sharedStart fs dirCached handles) := by
  obtain ⟨place, depth, there⟩ := node_of_resolve through loaded.file
  have below : ∀ k, k < entryCount dirCached.file →
      node fs.disk (rootFcb fs.disk) (place ++ [k]) = some (entry fs.disk dirCached.file k) :=
    fun k inside => node_concat there directory inside
  have getFile : ∀ (k : Nat) f, (sharedStart fs dirCached handles).files[k]? = some f →
      k < entryCount dirCached.file ∧ entry fs.disk dirCached.file k = f := by
    intro k f found
    obtain ⟨inside, same⟩ := List.getElem?_eq_some_iff.mp found
    rw [sharedStart, List.length_map, List.length_range] at inside
    refine ⟨inside, ?_⟩
    simpa [sharedStart] using same
  refine ⟨?_, List.Perm.refl _⟩
  exact
    { size := volume.size
      home := volume.tree.home path through loaded.file directory
      kept := volume.dirKept path through loaded.toHandle
      wellFormed := wellFormed
      marked := fun x member => volume.homeMarked through loaded.file directory member
      place := ⟨0, Nat.zero_le _, by simp [sharedStart, loaded.ioState]⟩
      here := by
        have first : (sectorsOf fs.disk dirCached.file)[nthBlock 0]? = some dirCached.file.firstSector :=
          wellFormed.first
        simpa [sharedStart, loaded.ioState] using first
      own := by
        intro f member
        obtain ⟨k, found⟩ := List.mem_iff_getElem?.mp member
        obtain ⟨inside, rfl⟩ := getFile k f found
        refine ⟨files k inside, volume.marked _ _ (below k inside), ?_⟩
        apply volume.home_apart through loaded.file directory (below k inside)
        rw [List.length_append, List.length_singleton]
        omega
      disjoint := by
        intro i j f g different first second
        obtain ⟨insideI, rfl⟩ := getFile i f first
        obtain ⟨insideJ, rfl⟩ := getFile j g second
        apply volume.tree.disjoint _ _ _ _ _ (below i insideI) (below j insideJ)
        intro same
        exact different (List.singleton_inj.mp (List.append_cancel_left same))
      handles := by
        intro k file cached found
        obtain ⟨handle, member, same⟩ := List.mem_map.mp (List.mem_of_getElem? found)
        obtain ⟨rfl, rfl⟩ := Prod.mk.inj same
        obtain ⟨c, fresh⟩ := opened handle member
        obtain ⟨name, dir, reached, found⟩ := fresh.parent components c rfl
        obtain rfl := Option.some.inj (loaded.file.symm.trans reached)
        have inside := (lookup_eq_some.mp found).2.1
        have own := fresh.file
        rw [resolve_concat, reached, Option.bind_some, found, Option.map_some, Option.some.injEq] at own
        refine ⟨by simp [fresh.hasParent], name, handle.file, ?_, by simp [fresh.ioState], ?_⟩
        · simp [sharedStart, inside, own]
        · have first : (sectorsOf fs.disk (entry fs.disk dirCached.file handle.pathState.indexInParentDir))[nthBlock 0]? =
              some (entry fs.disk dirCached.file handle.pathState.indexInParentDir).firstSector :=
            (files _ inside).first
          rw [fresh.ioState, ← own]
          exact first }

end Start

/-- In every run of creations and of writes through handles that stand where their entries are, the
directory has one entry for each file, with its latest control block; the next such call comes to an
end and touches just the entry of its file. -/
theorem directory_entries_kept {components : List (List UInt8)} {s t : Shared} {calls : List SharedCall}
    (sound : s.Sound components) (each : OneEntryEach s) (run : Run (Guarded SharedStep Fits) s calls t) :
    OneEntryEach t ∧ ∀ call, Fits t call → ∃ u, SharedStep t call u ∧ OwnEntry t call u := by
  have kept : t.Sound components ∧ OneEntryEach t := by
    apply @Run.invariant _ _ _ (fun s => s.Sound components ∧ OneEntryEach s) _ _ _ run ⟨sound, each⟩
    intro s call t before step
    obtain ⟨fits, taken⟩ := step
    obtain ⟨u, same, soundU, own⟩ := before.1.step fits
    obtain rfl : t = u := Option.some.inj (taken.symm.trans same)
    exact ⟨soundU, own.keeps before.2⟩
  refine ⟨kept.2, fun call fits => ?_⟩
  obtain ⟨u, taken, -, own⟩ := kept.1.step fits
  exact ⟨u, taken, own⟩

/-! ## The root of the sample tree and its file `a` -/

def sampleShared : Shared :=
  sharedStart sampleFs ⟨rootFcb sampleTree, ⟨0, 0, 1025, 1025⟩, ⟨[], 0, false⟩⟩
    [⟨sampleFile, ⟨0, 0, 1026, 1026⟩, ⟨[], 0, true⟩⟩]

theorem sampleShared_first : entry sampleTree (rootFcb sampleTree) 0 = sampleFile := by
  apply fileAt_eq
  decide +kernel

theorem sampleShared_file : Loaded sampleTree [[97]] ⟨sampleFile, ⟨0, 0, 1026, 1026⟩, ⟨[], 0, true⟩⟩ where
  file := by
    have found : lookup sampleTree (rootFcb sampleTree) [97] = some 0 := by decide +kernel
    rw [resolve, found, Option.bind_some, sampleShared_first]
    rfl
  hasParent := rfl
  parent := by
    intro init c split
    obtain ⟨rfl, equal⟩ := List.append_inj' (show [] ++ [[97]] = init ++ [c] from split) rfl
    obtain rfl := List.singleton_inj.mp equal
    exact ⟨rfl, rootFcb sampleTree, rfl, by decide +kernel⟩
  ioState := rfl

theorem sampleShared_sound : sampleShared.Sound [] ∧ OneEntryEach sampleShared := by
  have sector : (rootFcb sampleTree).firstSector = 1025 := by decide +kernel
  refine sharedStart_sound sampleFs_volume ⟨fun _ none => absurd none List.not_mem_nil, by decide⟩ along_nil ?_
    (by decide +kernel) (wellFormed_of_check (by decide +kernel)) ?_ ?_
  · exact { file := rfl, hasParent := rfl, parent := fun _ _ split => by simp at split, ioState := by rw [sector] }
  · intro k inside
    have count : entryCount (rootFcb sampleTree) = 2 := by decide +kernel
    rw [count] at inside
    interval_cases k <;> exact wellFormed_of_check (by decide +kernel)
  · intro cached member
    rw [List.mem_singleton.mp member]
    exact ⟨[97], sampleShared_file⟩

theorem write_dirCached {s t : Shared} {handle length : Nat} {locals : Locals} {buf : Nat → UInt8}
    (taken : SharedStep s (.write handle locals buf length) t) : t.dirCached = s.dirCached := by
  obtain ⟨opened, -, rest⟩ := Option.bind_eq_some_iff.mp taken
  obtain ⟨written, -, same⟩ := Option.bind_eq_some_iff.mp rest
  rw [← Option.some.inj same]

def sampleByte : SharedCall := .write 0 sampleLocals (fun _ => 7) 1

def sampleNew : SharedCall := .create sampleLocals [99] .normal

theorem sampleByte_fits : Fits sampleShared sampleByte := by
  refine ⟨0, _, rfl, ?_⟩
  have latest : (entries sampleShared)[0]? = some sampleFile := by
    rw [entries_getElem? sampleShared (by decide +kernel)]
    exact congrArg some sampleShared_first
  exact
    { latest := latest
      current := latest
      enough := Nat.zero_le _
      fits := by decide +kernel
      tail := by unfold TailFits; decide
      links := linksKept_short (by decide) }

theorem sampleNew_fits {t : Shared} (taken : SharedStep sampleShared sampleByte t) : Fits t sampleNew := by
  have after : (sharedStep sampleShared sampleByte).any (fun t =>
      decide (t.fs.fileAllocBitmap.size = fsAllocTableBits ∧ t.fs.fileAllocBitmap.bit 1032 = false) &&
        ((DirectoryCall.create [99] .normal).unsaved t.fs sampleLocals t.dirCached).isSome) = true := by
    decide +kernel
  have dirCached := write_dirCached taken
  rw [show sharedStep sampleShared sampleByte = some t from taken, Option.any_some, Bool.and_eq_true,
    decide_eq_true_eq] at after
  obtain ⟨⟨size, clear⟩, reached⟩ := after
  obtain ⟨unsaved, reached⟩ := Option.isSome_iff_exists.mp reached
  have one : 1 ≤ freeSectors t.fs.fileAllocBitmap := by
    apply le_freeSectors {1032}
    intro n member
    rw [Finset.mem_singleton.mp member, size]
    exact ⟨by decide, clear⟩
  exact
    { valid := ⟨by decide, by decide⟩
      enough := by
        refine Nat.le_trans ?_ one
        rw [dirCached]
        decide +kernel
      fits := by rw [dirCached]; decide +kernel
      small := by rw [dirCached]; decide +kernel
      tail := by rw [dirCached]; unfold TailFits; decide +kernel
      links := linksKept_short (by rw [dirCached]; decide +kernel)
      root := fun _ => ⟨unsaved, reached, by rw [dirCached]; exact nameLeads_nil _ _⟩ }

theorem sampleCalls_run : ∃ t, Run (Guarded SharedStep Fits) sampleShared [sampleByte, sampleNew] t := by
  obtain ⟨s, byte, sound, -⟩ := sampleShared_sound.1.step sampleByte_fits
  obtain ⟨t, new, -⟩ := sound.step (sampleNew_fits byte)
  have first : Run (Guarded SharedStep Fits) sampleShared [sampleByte] s := Run.single ⟨sampleByte_fits, byte⟩
  exact ⟨t, Run.tail first ⟨sampleNew_fits byte, new⟩⟩

theorem directory_entries_kept_two :
    ∃ t, Run (Guarded SharedStep Fits) sampleShared [sampleByte, sampleNew] t ∧ OneEntryEach t := by
  obtain ⟨t, run⟩ := sampleCalls_run
  exact ⟨t, run, (directory_entries_kept sampleShared_sound.1 sampleShared_sound.2 run).1⟩

/-- A file is created in front of `a`; the next write to `a` goes to the entry of the new file. -/
theorem created_entry_overwritten : sampleShared.Sound [] ∧ OneEntryEach sampleShared ∧ ∃ t,
    Run SharedStep sampleShared [.create sampleLocals [99] .normal, .write 0 sampleLocals (fun _ => 7) 1] t ∧
      (entries t).map FileT.firstSector = [1026, 1026, 1028] ∧
      t.files.map FileT.firstSector = [1026, 1028, 1032] ∧ ¬OneEntryEach t := by
  have sectors : ([.create sampleLocals [99] .normal, .write 0 sampleLocals (fun _ => 7) 1].foldlM sharedStep
      sampleShared).map (fun t => ((entries t).map FileT.firstSector, t.files.map FileT.firstSector)) =
      some ([1026, 1026, 1028], [1026, 1028, 1032]) := by decide +kernel
  obtain ⟨t, result, outcome⟩ := Option.map_eq_some_iff.mp sectors
  obtain ⟨entriesAt, filesAt⟩ := Prod.mk.inj outcome
  refine ⟨sampleShared_sound.1, sampleShared_sound.2, t, Run.of_foldlM result, entriesAt, filesAt, fun each => ?_⟩
  have perm := each.map FileT.firstSector
  rw [entriesAt, filesAt] at perm
  exact absurd (perm.mem_iff (a := 1032)) (by decide)

end WegOS
