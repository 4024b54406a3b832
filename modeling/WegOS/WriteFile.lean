import WegOS.EntryKeeper

/-! Writing to a file of the tree. -/

namespace WegOS

open LittleEndian CArray BlockChain

/-- A file system: a tree whose sectors are all marked, and so is the one with the root. -/
structure Volume (fs : FileSystem) : Prop where
  tree : Tree fs.disk
  size : fs.fileAllocBitmap.size = fsAllocTableBits
  marked : ∀ p f, node fs.disk (rootFcb fs.disk) p = some f →
    ∀ s ∈ sectorsOf fs.disk f, Marked fs.fileAllocBitmap s
  rootMarked : Marked fs.fileAllocBitmap sectorWithRootFcb

/-- The types of the control blocks before the last component. -/
def ThroughDirectories (disk : Disk) (components : List (List UInt8)) : Prop :=
  Along disk (rootFcb disk) components fun d => d.fileType = FileType.directory.code

/-- After a write of `n` bytes: the content, the chain and the size of the file, the other files,
and the control block that its path leads to. -/
structure InsertedInto (fs : FileSystem) (components : List (List UInt8)) (cached : FileCached)
    (buf : Nat → UInt8) (n : Nat) (fs' : FileSystem) (cached' : FileCached) : Prop where
  grown : cached'.file.size = cached.file.size + n
  content : ∀ i < cached.file.size + n,
    byteOf fs'.disk (sectorsOf fs'.disk cached'.file) i =
      inserted (byteOf fs.disk (sectorsOf fs.disk cached.file)) buf cached.ioState.writeSeek n i
  wellFormed : WellFormed fs'.disk cached'.file (sectorsOf fs'.disk cached'.file)
  marked : ∀ s ∈ sectorsOf fs'.disk cached'.file, Marked fs'.fileAllocBitmap s
  apart : ∀ p g, node fs.disk (rootFcb fs.disk) p = some g → g ≠ cached.file →
    (sectorsOf fs'.disk g).Disjoint (sectorsOf fs'.disk cached'.file)
  others : ∀ p g, node fs.disk (rootFcb fs.disk) p = some g → g ≠ cached.file →
    g.fileType ≠ FileType.directory.code → ∀ s ∈ sectorsOf fs.disk g, fs'.disk s = fs.disk s
  reload : ∀ locals old, ∃ reloaded,
    loadFileCached fs'.disk locals (joinPath components) old = some (.success, reloaded) ∧
      reloaded.file = cached'.file

theorem WellFormed.sectorsOf_eq {disk : Disk} {f : FileT} {chain : List UInt32}
    (wellFormed : WellFormed disk f chain) : sectorsOf disk f = chain := by
  rw [sectorsOf, ← wellFormed.count]
  exact wellFormed.linked.chainFrom_eq wellFormed.first

/-- A sector on the way to a directory is the one of the root, or belongs to a directory no
deeper than this one. -/
theorem homeSectors_place {disk : Disk} {init : List (List UInt8)} {dir : FileT}
    (through : ThroughDirectories disk init) (reached : resolve disk (rootFcb disk) init = some dir)
    (directory : dir.fileType = FileType.directory.code) {s : UInt32} (member : s ∈ homeSectors disk init dir) :
    s = sectorWithRootFcb ∨ ∃ p d, p.length ≤ init.length ∧ node disk (rootFcb disk) p = some d ∧
      d.fileType = FileType.directory.code ∧ s ∈ sectorsOf disk d := by
  rcases member with root | own | ⟨first, c, rest, d, rfl, before, inner⟩
  · exact Or.inl root
  · obtain ⟨p, depth, place⟩ := node_of_resolve through reached
    exact Or.inr ⟨p, dir, Nat.le_of_eq depth, place, directory, own⟩
  · obtain ⟨p, depth, place⟩ := node_of_resolve through.left before
    refine Or.inr ⟨p, d, ?_, place, through first c rest rfl d before, inner⟩
    rw [depth, List.length_append]
    exact Nat.le_add_right _ _

theorem Volume.homeMarked {fs : FileSystem} (volume : Volume fs) {init : List (List UInt8)} {dir : FileT}
    (through : ThroughDirectories fs.disk init)
    (reached : resolve fs.disk (rootFcb fs.disk) init = some dir)
    (directory : dir.fileType = FileType.directory.code) {s : UInt32}
    (member : s ∈ homeSectors fs.disk init dir) : Marked fs.fileAllocBitmap s := by
  rcases homeSectors_place through reached directory member with rfl | ⟨p, d, -, place, -, inner⟩
  · exact volume.rootMarked
  · exact volume.marked p d place s inner

theorem Volume.shallower_apart {fs : FileSystem} (volume : Volume fs) {place : List Nat} {f : FileT}
    (there : node fs.disk (rootFcb fs.disk) place = some f) {s : UInt32} (member : s ∈ sectorsOf fs.disk f) :
    ¬(s = sectorWithRootFcb ∨ ∃ p d, p.length < place.length ∧ node fs.disk (rootFcb fs.disk) p = some d ∧
      d.fileType = FileType.directory.code ∧ s ∈ sectorsOf fs.disk d) := by
  rintro (rfl | ⟨p, d, shallow, at_, -, other⟩)
  · exact volume.tree.apart place f there member
  · refine volume.tree.disjoint place p f d ?_ there at_ member other
    rintro rfl
    exact Nat.lt_irrefl _ shallow

theorem Volume.home_apart {fs : FileSystem} (volume : Volume fs) {init : List (List UInt8)} {dir : FileT}
    (through : ThroughDirectories fs.disk init)
    (reached : resolve fs.disk (rootFcb fs.disk) init = some dir)
    (directory : dir.fileType = FileType.directory.code) {place : List Nat} {f : FileT}
    (there : node fs.disk (rootFcb fs.disk) place = some f) (deeper : init.length < place.length) :
    ∀ s ∈ sectorsOf fs.disk f, s ∉ homeSectors fs.disk init dir := by
  intro s member inner
  apply volume.shallower_apart there member
  rcases homeSectors_place through reached directory inner with root | ⟨p, d, shallow, rest⟩
  · exact Or.inl root
  · exact Or.inr ⟨p, d, Nat.lt_of_le_of_lt shallow deeper, rest⟩

theorem Volume.elsewhere {fs : FileSystem} (volume : Volume fs) {place : List Nat} {f : FileT}
    (there : node fs.disk (rootFcb fs.disk) place = some f) {news : List UInt32} {bitmap : Bitmap}
    (allocated : Allocated news fs.fileAllocBitmap bitmap) {p : List Nat} {g : FileT}
    (at_ : node fs.disk (rootFcb fs.disk) p = some g) (other : g ≠ f) :
    ∀ s ∈ sectorsOf fs.disk g, s ∉ sectorsOf fs.disk f ++ news := by
  intro s member
  have different : p ≠ place := by
    rintro rfl
    exact other (Option.some.inj (at_.symm.trans there))
  rw [List.mem_append, not_or]
  exact ⟨volume.tree.disjoint p place g f different at_ there member,
    allocated.not_mem (volume.marked p g at_ s member).2⟩

/-- The directory `dir` that holds the FCB of a handle on `init ++ [c]`. -/
structure ParentEntry (fs : FileSystem) (init : List (List UInt8)) (c : List UInt8) (cached : FileCached)
    (dir : FileT) : Prop where
  hasParent : cached.pathState.hasParent = true
  name : cached.pathState.parentDirName = joinPath init
  reached : resolve fs.disk (rootFcb fs.disk) init = some dir
  found : lookup fs.disk dir c = some cached.pathState.indexInParentDir
  within : cached.pathState.indexInParentDir < entryCount dir
  directory : dir.fileType = FileType.directory.code
  home : Home fs.disk init dir
  own : entry fs.disk dir cached.pathState.indexInParentDir = cached.file

theorem ParentEntry.held {fs : FileSystem} {init : List (List UInt8)} {c : List UInt8} {cached : FileCached}
    {dir : FileT} (parent : ParentEntry fs init c cached dir) :
    EntryHeld fs.disk init dir cached.pathState.indexInParentDir fs.disk cached.file := by
  have held := EntryHeld.refl fs.disk init dir cached.pathState.indexInParentDir
  rwa [parent.own] at held

theorem Volume.parentEntry {fs : FileSystem} (volume : Volume fs) {init : List (List UInt8)} {c : List UInt8}
    (path : Path (init ++ [c])) (through : ThroughDirectories fs.disk (init ++ [c])) {cached : FileCached}
    (handle : Handle fs.disk (init ++ [c]) cached) : ∃ dir, ParentEntry fs init c cached dir := by
  obtain ⟨name, dir, reached, found⟩ := handle.parent init c rfl
  have directory := through init c [] rfl dir reached
  have own := handle.file
  rw [resolve_concat, reached, Option.bind_some, found, Option.map_some, Option.some.injEq] at own
  exact ⟨dir,
    { hasParent := by simp [handle.hasParent]
      name := name
      reached := reached
      found := found
      within := (lookup_eq_some.mp found).2.1
      directory := directory
      home := volume.tree.home path.init through.left reached directory
      own := own }⟩

theorem EntryHeld.link_of_frame {base disk : Disk} {init : List (List UInt8)} {dir f : FileT} {index : Nat}
    (held : EntryHeld base init dir index disk f) {s : UInt32}
    (frame : s ∉ homeSectors base init dir → disk s = base s) : nextSector (disk s) = nextSector (base s) := by
  by_cases member : s ∈ homeSectors base init dir
  · by_cases own : s ∈ sectorsOf base dir
    · exact held.links s own
    · rw [held.outside s member own]
  · rw [frame member]

/-- A write to a file of the tree does what it should when the links of the sectors overwritten as
a whole, in the chain that it leaves, are kept and the rest of the file fits in the staging buffer;
when it does not fit, the write runs past that buffer. -/
theorem sysWrite_inserts {fs : FileSystem} (volume : Volume fs) (locals : Locals)
    (init : List (List UInt8)) (c : List UInt8) (path : Path (init ++ [c]))
    (through : ThroughDirectories fs.disk (init ++ [c])) (cached : FileCached)
    (handle : Handle fs.disk (init ++ [c]) cached)
    (wellFormed : WellFormed fs.disk cached.file (sectorsOf fs.disk cached.file))
    (inside : cached.ioState.writeSeek ≤ cached.file.size)
    (here : (sectorsOf fs.disk cached.file)[nthBlock cached.ioState.writeSeek]? = some cached.ioState.writeSector)
    (buf : Nat → UInt8) (n : Nat) (fits : cached.file.size - cached.ioState.writeSeek + n ≤ tempSize)
    (enough : nthBlock (cached.file.size + n) + 1 - cached.file.sectorCount.toNat ≤
      freeSectors fs.fileAllocBitmap)
    (links : LinksKept (grownChain fs.fileAllocBitmap (sectorsOf fs.disk cached.file) (cached.file.size + n))
      cached.file.size cached.ioState.writeSeek n
      (inserted (byteOf fs.disk (sectorsOf fs.disk cached.file)) buf cached.ioState.writeSeek n)) :
    (∃ fs' cached', sysWrite fs locals cached buf n = some (fs', cached') ∧
      InsertedInto fs (init ++ [c]) cached buf n fs' cached') ↔ TailFits cached.file cached.ioState := by
  obtain ⟨dir, parent⟩ := volume.parentEntry path through handle
  let keeper := entryKeeper parent.home locals parent.hasParent parent.name parent.within
  obtain ⟨place, depth, there⟩ := node_of_resolve through handle.file
  rw [List.length_append, List.length_singleton] at depth
  have writable : Writable fs cached keeper (sectorsOf fs.disk cached.file) n :=
    { kept := parent.held
      wellFormed := wellFormed
      size := volume.size
      marked := volume.marked place cached.file there
      keeperMarked := fun s inner => (volume.homeMarked through.left parent.reached parent.directory inner).2
      apart := volume.home_apart through.left parent.reached parent.directory there (by omega)
      enough := by rw [wellFormed.count]; exact enough
      inside := inside
      here := here
      fits := fits }
  have small : n ≤ tempSize := Nat.le_trans (Nat.le_add_left _ _) fits
  constructor
  · rintro ⟨_, _, run, -⟩
    rw [sysWrite_save] at run
    obtain ⟨_, unsaved, -⟩ := Option.bind_eq_some_iff.mp run
    exact writable.unsaved_fits small unsaved
  intro tail
  obtain ⟨fs', cached', news, run, written⟩ := writable.sysWrite_spec buf parent.hasParent tail links
  have sectors := written.wellFormed.sectorsOf_eq
  have kept : EntryHeld fs.disk init dir cached.pathState.indexInParentDir fs'.disk cached'.file := written.kept
  have elsewhere : ∀ p g, node fs.disk (rootFcb fs.disk) p = some g → g ≠ cached.file →
      ∀ s ∈ sectorsOf fs.disk g, s ∉ sectorsOf fs.disk cached.file ++ news :=
    fun _ _ at_ other => volume.elsewhere there written.allocated at_ other
  refine ⟨fs', cached', run, ?_⟩
  exact
    { grown := written.grown
      content := by rw [sectors]; exact written.content
      wellFormed := by rw [sectors]; exact written.wellFormed
      marked := by
        intro s member
        rw [sectors, List.mem_append] at member
        exact written.allocated.marked volume.size (member.imp_left (volume.marked place cached.file there s))
      apart := by
        intro p g at_ other
        have same : sectorsOf fs'.disk g = sectorsOf fs.disk g := chainFrom_congr fun s member =>
          kept.link_of_frame fun away => written.frame s (elsewhere p g at_ other s member) away
        rw [same, sectors]
        exact fun s member => elsewhere p g at_ other s member
      others := by
        intro p g at_ other leaf s member
        apply written.frame s (elsewhere p g at_ other s member)
        intro inner
        rcases homeSectors_place through.left parent.reached parent.directory inner with
          rfl | ⟨q, d, -, at', inside', shared⟩
        · exact volume.tree.apart p g at_ member
        · refine volume.tree.disjoint p q g d ?_ at_ at' member shared
          rintro rfl
          exact leaf (Option.some.inj (at_.symm.trans at') ▸ inside')
      reload := by
        intro locals old
        have again := (kept.lookup_eq c).trans parent.found
        obtain ⟨reloaded, result, file, -⟩ := (kept.home parent.home).load path again locals old
        refine ⟨reloaded, result, ?_⟩
        rw [file, kept.entries _ parent.within, if_pos rfl] }

/-! ## The file `d/b` of the sample tree -/

theorem marked_of_table {disk : Disk} {bitmap : Bitmap} (table : List (List Nat × List UInt32))
    (complete : ∀ p f, node disk (rootFcb disk) p = some f → p ∈ table.map Prod.fst)
    (sectors : ∀ row ∈ table, (node disk (rootFcb disk) row.1).map (sectorsOf disk) = some row.2)
    (check : ∀ row ∈ table,
      row.2.all (fun s => decide (s.toNat < bitmap.size) && bitmap.bit s.toNat) = true) (p : List Nat) (f : FileT)
    (place : node disk (rootFcb disk) p = some f) : ∀ s ∈ sectorsOf disk f, Marked bitmap s := by
  obtain ⟨row, member, rfl⟩ := List.mem_map.mp (complete p f place)
  have own := sectors row member
  rw [place, Option.map_some, Option.some.injEq] at own
  rw [own]
  intro s inside
  simpa [Marked] using List.all_eq_true.mp (check row member) s inside

def sampleFs : FileSystem :=
  ⟨sampleTree, ⟨fun i => if 0 ≤ i ∧ i < 129 then 0xFF else 0, fsAllocTableBits⟩⟩

def sampleHandle : FileCached := ⟨sampleInner, ⟨0, 0, 1029, 1029⟩, ⟨joinPath [[100]], 0, true⟩⟩

theorem sampleFs_volume : Volume sampleFs where
  tree := sampleTree_tree
  size := rfl
  marked := marked_of_table sampleTable sampleTree_places sampleTree_sectors (by decide +kernel)
  rootMarked := by
    unfold Marked
    decide +kernel

theorem sampleFs_free : 2 ≤ freeSectors sampleFs.fileAllocBitmap := by
  apply le_freeSectors {1032, 1033}
  intro n member
  rcases Finset.mem_insert.mp member with rfl | second
  · exact ⟨by decide, by decide +kernel⟩
  · rw [Finset.mem_singleton.mp second]
    exact ⟨by decide, by decide +kernel⟩

theorem sampleHandle_handle : Handle sampleTree ([[100]] ++ [[98]]) sampleHandle where
  file := by
    have outer : lookup sampleTree (rootFcb sampleTree) [100] = some 1 := by decide +kernel
    have inner : lookup sampleTree (entry sampleTree (rootFcb sampleTree) 1) [98] = some 0 := by decide +kernel
    have read : entry sampleTree (entry sampleTree (rootFcb sampleTree) 1) 0 = sampleInner := by
      apply fileAt_eq
      decide +kernel
    rw [resolve_concat, resolve, outer, Option.bind_some, resolve, Option.bind_some, inner, Option.map_some, read]
    rfl
  hasParent := rfl
  parent := by
    intro init c split
    obtain ⟨rfl, equal⟩ := List.append_inj' split rfl
    obtain rfl := List.singleton_inj.mp equal
    refine ⟨rfl, entry sampleTree (rootFcb sampleTree) 1, ?_, by decide +kernel⟩
    have outer : lookup sampleTree (rootFcb sampleTree) [100] = some 1 := by decide +kernel
    rw [resolve, outer, Option.bind_some, resolve]

theorem sampleInner_wellFormed : WellFormed sampleTree sampleInner (sectorsOf sampleTree sampleInner) :=
  wellFormed_of_check (by decide +kernel)

/-! ## The file `a`, two blocks long -/

def sampleTail : FileCached := ⟨sampleFile, ⟨0, 520, 1026, 1027⟩, ⟨[], 0, true⟩⟩

theorem sampleFile_path : Path ([] ++ [[97]]) := ⟨by unfold Component; decide, by decide⟩

theorem sampleFile_directories : ThroughDirectories sampleTree ([] ++ [[97]]) :=
  along_cons sampleTree_directories.head fun _ _ => along_nil

theorem sampleFile_found : lookup sampleTree (rootFcb sampleTree) [97] = some 0 := by decide +kernel

theorem sampleFile_handle (io : FileIoState) : Handle sampleTree ([] ++ [[97]]) ⟨sampleFile, io, ⟨[], 0, true⟩⟩ where
  file := by
    have read : entry sampleTree (rootFcb sampleTree) 0 = sampleFile := by
      apply fileAt_eq
      decide +kernel
    rw [List.nil_append, resolve, sampleFile_found, Option.bind_some, read]
    rfl
  hasParent := rfl
  parent := by
    intro init c split
    obtain ⟨rfl, equal⟩ := List.append_inj' split rfl
    obtain rfl := List.singleton_inj.mp equal
    exact ⟨rfl, rootFcb sampleTree, rfl, sampleFile_found⟩

theorem sampleTail_wellFormed : WellFormed sampleTree sampleFile (sectorsOf sampleTree sampleFile) :=
  wellFormed_of_check (by decide +kernel)

/-- 450 bytes in front of the last 80: the file gets a third block. -/
theorem sysWrite_inserts_tail :
    ∃ fs' cached', sysWrite sampleFs sampleLocals sampleTail (fun _ => 7) 450 = some (fs', cached') ∧
      InsertedInto sampleFs ([] ++ [[97]]) sampleTail (fun _ => 7) 450 fs' cached' :=
  (sysWrite_inserts sampleFs_volume sampleLocals [] [97] sampleFile_path sampleFile_directories sampleTail
    (sampleFile_handle _) sampleTail_wellFormed (by decide) (by decide +kernel) (fun _ => 7) 450 (by decide)
    (Nat.le_trans (by decide) sampleFs_free) (linksKept_short (by decide))).mpr (by unfold TailFits; decide)

/-! ## The file `d/b` again -/

theorem sysWrite_loses_link :
    Volume sampleFs ∧ Path ([[100]] ++ [[98]]) ∧ ThroughDirectories sampleTree ([[100]] ++ [[98]]) ∧
      Handle sampleTree ([[100]] ++ [[98]]) sampleHandle ∧
      WellFormed sampleTree sampleInner (sectorsOf sampleTree sampleInner) ∧
      (sectorsOf sampleTree sampleInner)[nthBlock sampleHandle.ioState.writeSeek]? =
        some sampleHandle.ioState.writeSector ∧
      sampleInner.size - sampleHandle.ioState.writeSeek + 1100 ≤ tempSize ∧
      nthBlock (sampleInner.size + 1100) + 1 - sampleInner.sectorCount.toNat ≤
        freeSectors sampleFs.fileAllocBitmap ∧
      ¬∃ fs' cached', sysWrite sampleFs sampleLocals sampleHandle (fun _ => 0) 1100 = some (fs', cached') ∧
        InsertedInto sampleFs ([[100]] ++ [[98]]) sampleHandle (fun _ => 0) 1100 fs' cached' := by
  refine ⟨sampleFs_volume, sampleTree_path, sampleTree_directories, sampleHandle_handle,
    sampleInner_wellFormed, by decide +kernel, by decide, Nat.zero_le _, ?_⟩
  rintro ⟨fs', cached', run, result⟩
  have lost : (sysWrite sampleFs sampleLocals sampleHandle (fun _ => 0) 1100).map (fun r =>
      decide ((sectorsOf r.1.disk r.2.file).getLast? = some r.2.file.lastSector)) = some false := by
    decide +kernel
  rw [run, Option.map_some, Option.some.injEq, decide_eq_false_iff_not] at lost
  exact lost result.wellFormed.last

end WegOS
