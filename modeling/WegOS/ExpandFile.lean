import WegOS.EndMarks

/-! `file_expand` on a file of the tree. -/

namespace WegOS

open CArray BlockChain

/-- After `file_expand`: the chain got `news` at its end, and nothing else changed but the links there
and the FCB, in the handle and in the entry of the parent directory `dir`. -/
structure ExpandedFile (fs : FileSystem) (components : List (List UInt8)) (dir : FileT) (cached : FileCached)
    (need : Nat) (news : List UInt32) (fs' : FileSystem) (cached' : FileCached) : Prop where
  length : news.length = need
  sectors : sectorsOf fs'.disk cached'.file = sectorsOf fs.disk cached.file ++ news
  nodup : (sectorsOf fs.disk cached.file ++ news).Nodup
  fresh : ∀ s ∈ news, ¬Marked fs.fileAllocBitmap s ∧ Marked fs'.fileAllocBitmap s
  marks : ∀ s : UInt32, fs'.fileAllocBitmap.bit s.toNat = true ↔
    fs.fileAllocBitmap.bit s.toNat = true ∨ s ∈ news
  last : (sectorsOf fs'.disk cached'.file).getLast? = some cached'.file.lastSector
  ends : nextSector (fs'.disk cached'.file.lastSector) =
    if need = 0 then nextSector (fs.disk cached.file.lastSector) else endMark
  count : cached'.file.sectorCount.toNat = cached.file.sectorCount.toNat + need
  fcb : cached'.file = { cached.file with lastSector := cached'.file.lastSector,
                                          sectorCount := cached'.file.sectorCount }
  handle : cached'.ioState = cached.ioState ∧ cached'.pathState = cached.pathState
  data : ∀ s, s ∉ sectorsOf fs.disk dir → ∀ i < 508, (fs'.disk s).cell i = (fs.disk s).cell i
  record : ∀ i, i / 508 < (sectorsOf fs.disk dir).length →
    byteOf fs'.disk (sectorsOf fs.disk dir) i =
      if fileTSize * cached.pathState.indexInParentDir ≤ i ∧
          i < fileTSize * cached.pathState.indexInParentDir + fileTSize then
        cached'.file.bytes (i - fileTSize * cached.pathState.indexInParentDir)
      else byteOf fs.disk (sectorsOf fs.disk dir) i
  links : ∀ s, s ∉ sectorsOf fs.disk cached.file ++ news → nextSector (fs'.disk s) = nextSector (fs.disk s)
  others : ∀ p g, node fs.disk (rootFcb fs.disk) p = some g → g ≠ cached.file →
    sectorsOf fs'.disk g = sectorsOf fs.disk g ∧
      (sectorsOf fs'.disk g).Disjoint (sectorsOf fs'.disk cached'.file)
  reload : ∀ locals old, ∃ reloaded,
    loadFileCached fs'.disk locals (joinPath components) old = some (.success, reloaded) ∧
      reloaded.file = cached'.file

theorem expandFrom_marked {need : Nat} {fs fs' : FileSystem} {file file' : FileT} (some : need ≠ 0)
    (result : expandFrom need fs file = (fs', file')) : nextSector (fs'.disk file'.lastSector) = endMark := by
  obtain ⟨need, rfl⟩ := Nat.exists_eq_succ_of_ne_zero some
  rw [expandFrom] at result
  refine expandFrom_endMark ?_ result
  simp only [Function.update_self]
  exact nextSector_withNextSector _ _

/-- With as many free sectors as are needed, `file_expand` does what it should. -/
theorem fileExpand_expands {fs : FileSystem} (volume : Volume fs) (locals : Locals) (init : List (List UInt8))
    (c : List UInt8) (path : Path (init ++ [c])) (through : ThroughDirectories fs.disk (init ++ [c]))
    (cached : FileCached) (handle : Handle fs.disk (init ++ [c]) cached)
    (last : (sectorsOf fs.disk cached.file).getLast? = some cached.file.lastSector) (need : Nat)
    (enough : need ≤ freeSectors fs.fileAllocBitmap) :
    ∃ fs' cached' dir news, fileExpand fs locals cached need = some (fs', cached') ∧
      resolve fs.disk (rootFcb fs.disk) init = some dir ∧
      ExpandedFile fs (init ++ [c]) dir cached need news fs' cached' := by
  obtain ⟨dir, parent⟩ := volume.parentEntry path through handle
  have home := parent.home
  have within := parent.within
  obtain ⟨place, depth, there⟩ := node_of_resolve through handle.file
  rw [List.length_append, List.length_singleton] at depth
  have marked := volume.marked place cached.file there
  obtain ⟨fs₁, news, final, run, length, ending, expanded⟩ :=
    expandFrom_spec fs cached.file volume.size enough (sectorsOf_linked fs.disk cached.file)
      (volume.tree.nodup place cached.file there) last fun s member => (marked s member).2
  have allocated := expanded.allocated
  let chain := sectorsOf fs.disk cached.file
  -- No sector on the way to the parent directory is touched by the loop.
  have clear : ∀ s ∈ homeSectors fs.disk init dir, s ∉ chain ++ news := by
    intro s inner member
    rcases List.mem_append.mp member with old | new
    · exact volume.home_apart through.left parent.reached parent.directory there (by omega) s old inner
    · exact allocated.not_mem (volume.homeMarked through.left parent.reached parent.directory inner).2 new
  have inHome : ∀ s ∈ sectorsOf fs.disk dir, s ∈ homeSectors fs.disk init dir :=
    fun s member => Or.inr (Or.inl member)
  have kept₁ := parent.held.frame home fun s inner => expanded.frame s (clear s inner)
  let file : FileT := { cached.file with lastSector := final,
                                         sectorCount := cached.file.sectorCount + UInt32.ofNat need }
  let cached' : FileCached := ⟨file, cached.ioState, cached.pathState⟩
  obtain ⟨disk, stored, written⟩ := (kept₁.home home).store locals cached' parent.hasParent parent.name within
  rw [kept₁.sectors] at written
  have kept : EntryHeld _ _ _ _ _ file := kept₁.overwrites home rfl (by rw [kept₁.sectors]; exact written)
  have small : ∀ s ∈ chain ++ news, Marked fs₁.fileAllocBitmap s := fun s member =>
    allocated.marked volume.size ((List.mem_append.mp member).imp_left (marked s))
  have nonempty := List.length_pos_of_mem (List.mem_of_getLast? last)
  rw [length_sectorsOf] at nonempty
  obtain ⟨count, sectors⟩ := expanded.sectors length nonempty small (written.linked expanded.linked) final
  have linksKept : ∀ s, s ∉ chain ++ news → nextSector (disk s) = nextSector (fs.disk s) := by
    intro s outside
    exact (written.links s).trans (congrArg nextSector (expanded.frame s outside))
  have elsewhere : ∀ p g, node fs.disk (rootFcb fs.disk) p = some g → g ≠ cached.file →
      ∀ s ∈ sectorsOf fs.disk g, s ∉ chain ++ news :=
    fun _ _ at_ other => volume.elsewhere there allocated at_ other
  refine ⟨{ fs₁ with disk := disk }, cached', dir, news, ?_, parent.reached, ?_⟩
  · simp only [fileExpand, run, Option.bind_eq_bind]
    rw [stored]
    rfl
  · exact
      { length := length
        sectors := sectors
        nodup := expanded.nodup
        fresh := by
          intro s member
          refine ⟨fun before => ?_, small s (List.mem_append_right _ member)⟩
          exact absurd (before.2.symm.trans (allocated.fresh s member)) (by decide)
        marks := allocated.marks
        last := by rw [sectors]; exact ending
        ends := by
          change nextSector (disk final) = _
          rw [show nextSector (disk final) = nextSector (fs₁.disk final) from written.links final]
          split_ifs with none
          · subst none
            obtain ⟨rfl, equal⟩ := Prod.mk.inj run
            rw [← (FileT.mk.inj equal).2.2.1]
          · have marked := expandFrom_marked none run
            exact marked
        count := count
        fcb := rfl
        handle := ⟨rfl, rfl⟩
        data := by
          intro s outside i inside
          change (disk s).cell i = _
          rw [written.frame s outside]
          exact expanded.data s i inside
        record := by
          intro i bound
          have before : byteOf fs₁.disk (sectorsOf fs.disk dir) i = byteOf fs.disk (sectorsOf fs.disk dir) i :=
            byteOf_congr bound fun s member => expanded.frame s (clear s (inHome s member))
          rw [← before]
          exact written.content i bound
        links := linksKept
        others := by
          intro p g at_ other
          have same : sectorsOf disk g = sectorsOf fs.disk g :=
            chainFrom_congr fun s member => linksKept s (elsewhere p g at_ other s member)
          refine ⟨same, ?_⟩
          rw [same, sectors]
          exact fun s member => elsewhere p g at_ other s member
        reload := by
          intro locals old
          obtain ⟨reloaded, result, loaded, -⟩ :=
            (kept.home home).load path ((kept.lookup_eq c).trans parent.found) locals old
          refine ⟨reloaded, result, ?_⟩
          rw [loaded, kept.entries _ within, if_pos rfl] }

theorem fileExpand_expands_two :
    ∃ fs' cached' dir news, fileExpand sampleFs sampleLocals sampleHandle 2 = some (fs', cached') ∧
      resolve sampleFs.disk (rootFcb sampleFs.disk) [[100]] = some dir ∧
      ExpandedFile sampleFs ([[100]] ++ [[98]]) dir sampleHandle 2 news fs' cached' :=
  fileExpand_expands sampleFs_volume sampleLocals [[100]] [98] sampleTree_path sampleTree_directories
    sampleHandle sampleHandle_handle sampleInner_wellFormed.last 2 sampleFs_free

/-! ## A file of `sys_create`, with the link that it writes -/

def youngFile : FileT where
  fileName := sampleName 99
  firstSector := 1026
  lastSector := 1026
  sectorCount := 1
  fileSize := 0
  fileType := FileType.normal.code

def youngTree : Disk :=
  Function.update (layOut (layOut sampleDisk [1025] (entryBytes [youngFile])) [1024] loneRoot.bytes) 1026
    (withNextSector (ofCells 512 fun _ => 0) 0xFFFFFFF)

def youngFs : FileSystem := { sampleFs with disk := youngTree }

def youngHandle : FileCached := ⟨youngFile, ⟨0, 0, 1026, 1026⟩, ⟨[], 0, true⟩⟩

theorem youngTree_places : ∀ p f, node youngTree (rootFcb youngTree) p = some f → p ∈ loneTable.map Prod.fst :=
  lone_places (by decide +kernel) (by decide +kernel)

theorem youngTree_sectors : ∀ row ∈ loneTable,
    (node youngTree (rootFcb youngTree) row.1).map (sectorsOf youngTree) = some row.2 := by
  decide +kernel

theorem youngFs_volume : Volume youngFs where
  tree := tree_of_table loneTable youngTree_places youngTree_sectors (by decide +kernel) (by decide +kernel)
  size := rfl
  marked := marked_of_table loneTable youngTree_places youngTree_sectors (by decide +kernel)
  rootMarked := sampleFs_volume.rootMarked

theorem youngHandle_handle : Handle youngTree ([] ++ [[99]]) youngHandle := by
  have found : lookup youngTree (rootFcb youngTree) [99] = some 0 := by decide +kernel
  refine ⟨?_, rfl, fun init c split => ?_⟩
  · have read : entry youngTree (rootFcb youngTree) 0 = youngFile := by
      apply fileAt_eq
      decide +kernel
    rw [List.nil_append, resolve, found, Option.bind_some, read]
    rfl
  · obtain ⟨rfl, equal⟩ := List.append_inj' split rfl
    obtain rfl := List.singleton_inj.mp equal
    exact ⟨rfl, rootFcb youngTree, rfl, found⟩

/-- Nothing is appended, and the chain does not end with the mark. -/
theorem fileExpand_leaves_link : Volume youngFs ∧ Path ([] ++ [[99]]) ∧ ThroughDirectories youngTree ([] ++ [[99]]) ∧
    Handle youngTree ([] ++ [[99]]) youngHandle ∧
    (sectorsOf youngTree youngFile).getLast? = some youngHandle.file.lastSector ∧
    ∃ fs' cached', fileExpand youngFs sampleLocals youngHandle 0 = some (fs', cached') ∧
      nextSector (fs'.disk cached'.file.lastSector) ≠ endMark := by
  have certificate : (fileExpand youngFs sampleLocals youngHandle 0).any (fun r =>
      decide (nextSector (r.1.disk r.2.file.lastSector) ≠ endMark)) = true := by decide +kernel
  obtain ⟨⟨fs', cached'⟩, run, link⟩ := (Option.any_eq_true _ _).mp certificate
  refine ⟨youngFs_volume, ⟨by unfold Component; decide, by decide⟩, ?_, youngHandle_handle, by decide +kernel, fs',
    cached', run, of_decide_eq_true link⟩
  exact along_cons (by decide +kernel) fun _ _ => along_nil

end WegOS
