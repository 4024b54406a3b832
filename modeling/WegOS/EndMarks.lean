import WegOS.CreateFile
import WegOS.DiskAllocation

/-! The mark at the end of every chain, over the calls of `sys_create` and `file_expand`. -/

namespace WegOS

open LittleEndian CArray BlockChain Transition

/-- `next_sector` of the last block of a file: -1, no more sectors. -/
def endMark : UInt32 := 0xFFFFFFFF

/-- `read_all` before it used `sys_read`: from sector to sector until the mark. The walk meets just
the `sector_count` sectors of the file. -/
def EndMarked (disk : Disk) (f : FileT) : Prop :=
  walk blockFormat endMark disk (f.sectorCount.toNat + 1) f.firstSector = some (sectorsOf disk f)

/-! ## Links -/

/-- Writing a control block back leaves all links alone, but for the sector of the root's. -/
theorem storeFileCached_links {disk disk' : Disk} {locals : Locals} {cached : FileCached}
    (stored : storeFileCached disk locals cached = some disk') {s : UInt32} (other : s ≠ sectorWithRootFcb) :
    nextSector (disk' s) = nextSector (disk s) := by
  obtain ⟨⟨result, parent⟩, -, stored⟩ := Option.bind_eq_some_iff.mp stored
  simp only at stored
  split_ifs at stored
  · rw [← Option.some.inj stored]
    exact coveringWrite_links _ _ _ (by decide) s
  · rw [← Option.some.inj stored, writeDisk, Function.update_of_ne other]
  · rw [← Option.some.inj stored]

/-- The last block of a file keeps the mark, or hands it on to the new last one. -/
theorem expandFrom_endMark {need : Nat} {fs fs' : FileSystem} {file file' : FileT}
    (marked : nextSector (fs.disk file.lastSector) = endMark) (result : expandFrom need fs file = (fs', file')) :
    nextSector (fs'.disk file'.lastSector) = endMark := by
  induction need generalizing fs file with
  | zero =>
      obtain ⟨rfl, rfl⟩ := Prod.mk.inj result
      exact marked
  | succ need ih =>
      rw [expandFrom] at result
      refine ih ?_ result
      simp only [Function.update_self]
      exact nextSector_withNextSector _ _

/-! ## The files that are open -/

/-- A file of the disk: its chain has no sector twice, only marked ones, and the end mark. -/
structure ChainSound (fs : FileSystem) (f : FileT) : Prop where
  nodup : (sectorsOf fs.disk f).Nodup
  last : (sectorsOf fs.disk f).getLast? = some f.lastSector
  marked : ∀ s ∈ sectorsOf fs.disk f, Marked fs.fileAllocBitmap s
  apart : sectorWithRootFcb ∉ sectorsOf fs.disk f
  ends : nextSector (fs.disk f.lastSector) = endMark

theorem endMark_not_marked {bitmap : Bitmap} (size : bitmap.size = fsAllocTableBits) : ¬Marked bitmap endMark := by
  intro marked
  have inside := marked.1
  rw [size] at inside
  exact absurd inside (by decide)

theorem ChainSound.endMarked {fs : FileSystem} {f : FileT} (sound : ChainSound fs f)
    (size : fs.fileAllocBitmap.size = fsAllocTableBits) : EndMarked fs.disk f := by
  have length := length_sectorsOf fs.disk f
  have nonempty := List.length_pos_of_mem (List.mem_of_getLast? sound.last)
  have first := sectorsOf_first fs.disk (length ▸ nonempty)
  have linked := sectorsOf_linked fs.disk f
  rw [EndMarked, ← length]
  exact linked.walk_eq first (fun member => endMark_not_marked size (sound.marked _ member)) sound.last sound.ends

theorem ChainSound.expand {fs fs' : FileSystem} {locals : Locals} (cached : FileCached) {cached' : FileCached}
    {need : Nat} (sound : ChainSound fs cached.file) (size : fs.fileAllocBitmap.size = fsAllocTableBits)
    (rootMarked : fs.fileAllocBitmap.bit sectorWithRootFcb.toNat = true)
    (enough : need ≤ freeSectors fs.fileAllocBitmap)
    (result : fileExpand fs locals cached need = some (fs', cached')) :
    ∃ news, ChainSound fs' cached'.file ∧
      sectorsOf fs'.disk cached'.file = sectorsOf fs.disk cached.file ++ news ∧
      Allocated news fs.fileAllocBitmap fs'.fileAllocBitmap ∧
      ∀ s, s ∉ sectorsOf fs.disk cached.file ++ news → s ≠ sectorWithRootFcb →
        nextSector (fs'.disk s) = nextSector (fs.disk s) := by
  have linked := sectorsOf_linked fs.disk cached.file
  obtain ⟨fs₁, news, last, run, count, final, expanded⟩ :=
    expandFrom_spec fs cached.file size enough linked sound.nodup sound.last fun s member =>
      (sound.marked s member).2
  have ends := expandFrom_endMark sound.ends run
  simp only [fileExpand, run] at result
  obtain ⟨disk, stored, same⟩ := Option.bind_eq_some_iff.mp result
  obtain ⟨rfl, rfl⟩ := Prod.mk.inj (Option.some.inj same)
  have allocated := expanded.allocated
  have apart : sectorWithRootFcb ∉ sectorsOf fs.disk cached.file ++ news := by
    rw [List.mem_append, not_or]
    exact ⟨sound.apart, allocated.not_mem rootMarked⟩
  have links : ∀ s ∈ sectorsOf fs.disk cached.file ++ news,
      blockFormat.next (disk s) = blockFormat.next (fs₁.disk s) := fun s member =>
    storeFileCached_links stored fun root => apart (root ▸ member)
  have marked : ∀ s ∈ sectorsOf fs.disk cached.file ++ news, Marked fs₁.fileAllocBitmap s := by
    intro s member
    exact allocated.marked size ((List.mem_append.mp member).imp_left (sound.marked s))
  have nonempty := List.length_pos_of_mem (List.mem_of_getLast? sound.last)
  rw [length_sectorsOf] at nonempty
  have sectors := (expanded.sectors count nonempty marked (expanded.linked.congr links) last).2
  refine ⟨news, ?_, sectors, allocated, ?_⟩
  · exact
      { nodup := by rw [sectors]; exact expanded.nodup
        last := by rw [sectors]; exact final
        marked := by rw [sectors]; exact marked
        apart := by rw [sectors]; exact apart
        ends := (links last (List.mem_of_getLast? final)).trans ends }
  · intro s outside other
    rw [← expanded.frame s outside]
    exact storeFileCached_links stored other

structure FileTable where
  fs : FileSystem
  files : List FileT

/-- Calls through a handle on file `i`; the seeks and the path in the handle are any. -/
inductive ChainCall
  | expand (i : Nat) (locals : Locals) (io : FileIoState) (path : FilePathState) (need : Nat)
  | create (i : Nat) (locals : Locals) (io : FileIoState) (path : FilePathState) (fileName : List UInt8)
      (fileType : FileType)

def chainStep (s : FileTable) : ChainCall → Option FileTable
  | .expand i locals io path need => do
      let file ← s.files[i]?
      let (fs, cached) ← fileExpand s.fs locals ⟨file, io, path⟩ need
      pure ⟨fs, s.files.set i cached.file⟩
  | .create i locals io path fileName fileType => do
      let dir ← s.files[i]?
      let (fs, cached) ← sysCreate s.fs locals ⟨dir, io, path⟩ fileName fileType
      let new := createdFile locals fileName fileType (fileAlloc s.fs).1
      pure ⟨fs, s.files.set i cached.file ++ [new]⟩

def ChainStep (s : FileTable) (call : ChainCall) (t : FileTable) : Prop := chainStep s call = some t

def EnoughSectors (s : FileTable) : ChainCall → Prop
  | .expand _ _ _ _ need => need ≤ freeSectors s.fs.fileAllocBitmap
  | .create .. => True

def Expands (s : FileTable) : ChainCall → Prop
  | .expand i locals io path need => EnoughSectors s (.expand i locals io path need)
  | .create .. => False

structure FileTable.Sound (s : FileTable) : Prop where
  size : s.fs.fileAllocBitmap.size = fsAllocTableBits
  rootMarked : s.fs.fileAllocBitmap.bit sectorWithRootFcb.toNat = true
  each : ∀ (i : Nat) f, s.files[i]? = some f → ChainSound s.fs f
  apart : ∀ (i j : Nat) f g, i ≠ j → s.files[i]? = some f → s.files[j]? = some g →
    (sectorsOf s.fs.disk f).Disjoint (sectorsOf s.fs.disk g)

theorem ChainSound.keep {fs fs' : FileSystem} {f : FileT} (sound : ChainSound fs f)
    (links : ∀ s ∈ sectorsOf fs.disk f, nextSector (fs'.disk s) = nextSector (fs.disk s))
    (marked : ∀ s ∈ sectorsOf fs.disk f, Marked fs'.fileAllocBitmap s) :
    sectorsOf fs'.disk f = sectorsOf fs.disk f ∧ ChainSound fs' f := by
  have same : sectorsOf fs'.disk f = sectorsOf fs.disk f := chainFrom_congr links
  refine ⟨same, ?_⟩
  exact
    { nodup := by rw [same]; exact sound.nodup
      last := by rw [same]; exact sound.last
      marked := by rw [same]; exact marked
      apart := by rw [same]; exact sound.apart
      ends := (links _ (List.mem_of_getLast? sound.last)).trans sound.ends }

theorem getElem?_set_cases {α : Type} {l : List α} {k i : Nat} {new a : α} (there : (l.set k new)[i]? = some a) :
    i = k ∧ a = new ∨ i ≠ k ∧ l[i]? = some a := by
  rw [List.getElem?_set] at there
  split_ifs at there with same
  · exact Or.inl ⟨same.symm, (Option.some.inj there).symm⟩
  · exact Or.inr ⟨Ne.symm same, there⟩

theorem related_set {α : Type} {R : α → α → Prop} {l : List α} {k : Nat} {new : α} (symm : ∀ a b, R a b → R b a)
    (old : ∀ (i j : Nat) a b, i ≠ k → j ≠ k → i ≠ j → l[i]? = some a → l[j]? = some b → R a b)
    (replaced : ∀ (i : Nat) a, i ≠ k → l[i]? = some a → R a new)
    (i j : Nat) (a b : α) (different : i ≠ j) (first : (l.set k new)[i]? = some a)
    (second : (l.set k new)[j]? = some b) : R a b := by
  rcases getElem?_set_cases first with ⟨rfl, rfl⟩ | ⟨otherA, oldA⟩
  · rcases getElem?_set_cases second with ⟨rfl, -⟩ | ⟨otherB, oldB⟩
    · exact absurd rfl different
    · exact symm b a (replaced j b otherB oldB)
  · rcases getElem?_set_cases second with ⟨rfl, rfl⟩ | ⟨otherB, oldB⟩
    · exact replaced i a otherA oldA
    · exact old i j a b otherA otherB different oldA oldB

theorem FileTable.Sound.expand {s t : FileTable} (sound : s.Sound) {i need : Nat} {locals : Locals}
    {io : FileIoState} {path : FilePathState} (enough : need ≤ freeSectors s.fs.fileAllocBitmap)
    (taken : ChainStep s (.expand i locals io path need) t) : t.Sound := by
  obtain ⟨file, here, opened⟩ := Option.bind_eq_some_iff.mp taken
  obtain ⟨⟨fs, cached⟩, result, same⟩ := Option.bind_eq_some_iff.mp opened
  obtain rfl := Option.some.inj same
  have own := sound.each i file here
  obtain ⟨news, expanded, sectors, allocated, links⟩ :=
    ChainSound.expand ⟨file, io, path⟩ own sound.size sound.rootMarked enough result
  -- The sectors of another file are none of those that got other links.
  have away : ∀ (j : Nat) f, j ≠ i → s.files[j]? = some f →
      (sectorsOf s.fs.disk f).Disjoint (sectorsOf s.fs.disk file ++ news) := by
    intro j f other there sector member touched
    rcases List.mem_append.mp touched with old | new
    · exact sound.apart j i f file other there here member old
    · exact allocated.not_mem ((sound.each j f there).marked sector member).2 new
  have kept : ∀ (j : Nat) f, j ≠ i → s.files[j]? = some f →
      sectorsOf fs.disk f = sectorsOf s.fs.disk f ∧ ChainSound fs f := by
    intro j f other there
    have before := sound.each j f there
    refine before.keep (fun sector member => ?_) (fun sector member => ?_)
    · exact links sector (away j f other there member) fun root => before.apart (root ▸ member)
    · exact allocated.marked sound.size (Or.inl (before.marked sector member))
  refine ⟨allocated.size, (allocated.marks _).mpr (Or.inl sound.rootMarked), ?_, ?_⟩
  · intro j f there
    rcases getElem?_set_cases there with ⟨-, rfl⟩ | ⟨other, old⟩
    · exact expanded
    · exact (kept j f other old).2
  · refine related_set (fun _ _ => List.Disjoint.symm) (fun j k f g otherF otherG different first second => ?_)
      fun j f other there => ?_
    · rw [(kept j f otherF first).1, (kept k g otherG second).1]
      exact sound.apart j k f g different first second
    · rw [(kept j f other there).1, sectors]
      exact away j f other there

instance (disk : Disk) (f : FileT) : Decidable (EndMarked disk f) := inferInstanceAs (Decidable (_ = _))

/-- A new file has another number in place of the mark, and the walk goes on to that sector. -/
theorem Created.not_endMarked {locals : Locals} {components : List (List UInt8)} {fs fs' : FileSystem}
    {dirCached dirCached' : FileCached} {keeper : DirKeeper locals dirCached.pathState components} {j : Nat}
    {fileName : List UInt8} {fileType : FileType} {sector : UInt32} {news : List UInt32}
    (created : Created fs dirCached keeper j (createdFile locals fileName fileType sector) fs' dirCached' news) :
    ¬EndMarked fs'.disk (createdFile locals fileName fileType sector) := by
  have link : blockFormat.next (fs'.disk sector) = 0xFFFFFFF := created.newLink
  have inside := created.allocated.inside sector List.mem_cons_self
  have other : sector ≠ endMark := by
    rintro rfl
    exact absurd inside (by decide)
  have walked : walk blockFormat endMark fs'.disk (1 + 1) sector = none := by
    rw [walk, if_neg other, link, walk, if_neg (by decide)]
    rfl
  intro marked
  rw [EndMarked] at marked
  exact absurd (walked.symm.trans marked) (by simp)

/-- In every run of calls of `file_expand` the chain of every file has the end mark behind its last
sector. A call of `sys_create` on a directory breaks this: the chain of the new file has not. -/
theorem chains_end_marked {s t : FileTable} {calls : List ChainCall} (sound : s.Sound)
    (run : Run (Guarded ChainStep Expands) s calls t) :
    (∀ f ∈ t.files, EndMarked t.fs.disk f) ∧
      ∀ (locals : Locals) (components : List (List UInt8)) (dirCached : FileCached)
        (keeper : DirKeeper locals dirCached.pathState components) (j : Nat) (fileName : List UInt8)
        (fileType : FileType), Creatable t.fs dirCached keeper j → FileName fileName →
        TailFits dirCached.file dirCached.ioState →
        (dirCached.pathState.hasParent = false → dirCached.pathState.parentDirName = [] ∨
          RootLeads t.fs locals dirCached (.create fileName fileType)) →
        LinksKept (grownChain (fileAlloc t.fs).2.fileAllocBitmap (sectorsOf t.fs.disk dirCached.file)
          (dirCached.file.size + fileTSize)) dirCached.file.size dirCached.ioState.writeSeek
          fileTSize (fun i => byteOf t.fs.disk (sectorsOf t.fs.disk dirCached.file) (i - fileTSize)) →
        ∃ sector fs' dirCached', sysCreate t.fs locals dirCached fileName fileType = some (fs', dirCached') ∧
          ¬EndMarked fs'.disk (createdFile locals fileName fileType sector) := by
  have kept : t.Sound := by
    refine run.invariant sound fun s call t before step => ?_
    cases call with
    | expand i locals io path need => exact before.expand step.1 step.2
    | create i locals io path fileName fileType => exact step.1.elim
  constructor
  · intro f member
    obtain ⟨i, here⟩ := List.mem_iff_getElem?.mp member
    exact (kept.each i f here).endMarked kept.size
  · intro locals components dirCached keeper j fileName fileType creatable valid tail root links
    obtain ⟨fs', dirCached', news, result, created⟩ := creatable.sysCreate_spec valid fileType tail links root
    exact ⟨_, fs', dirCached', result, created.not_endMarked⟩

/-! ## A disk with the root alone -/

@[irreducible] def sampleMarkedFs : FileSystem :=
  ⟨(rootInit ⟨fun _ => withNextSector (ofCells 512 fun _ => 0) endMark, ⟨fun _ => 0, fsAllocTableBits⟩⟩ fun _ => 0).disk,
    ⟨fun i => if 0 ≤ i ∧ i < 129 then 0xFF else 0, fsAllocTableBits⟩⟩

def sampleMarked : FileTable := ⟨sampleMarkedFs, [rootFcb sampleMarkedFs.disk]⟩

theorem sampleMarked_size : sampleMarkedFs.fileAllocBitmap.size = fsAllocTableBits := by
  unfold sampleMarkedFs
  rfl

theorem sampleMarked_root : ChainSound sampleMarkedFs (rootFcb sampleMarkedFs.disk) := by
  have sectors : sectorsOf sampleMarkedFs.disk (rootFcb sampleMarkedFs.disk) = [1025] := by decide +kernel
  exact
    { nodup := by rw [sectors]; exact List.nodup_singleton _
      last := by rw [sectors]; decide +kernel
      marked := by
        rw [sectors]
        intro s member
        rw [List.mem_singleton.mp member]
        exact ⟨by rw [sampleMarked_size]; decide, by decide +kernel⟩
      apart := by rw [sectors]; decide
      ends := by decide +kernel }

theorem sampleMarked_sound : sampleMarked.Sound := by
  have only : ∀ (i : Nat) f, [rootFcb sampleMarkedFs.disk][i]? = some f → i = 0 ∧ f = rootFcb sampleMarkedFs.disk := by
    intro i f here
    obtain ⟨inside, rfl⟩ := List.getElem?_eq_some_iff.mp here
    obtain rfl : i = 0 := Nat.lt_one_iff.mp inside
    exact ⟨rfl, rfl⟩
  refine ⟨sampleMarked_size, by decide +kernel, ?_, ?_⟩
  · intro i f here
    obtain ⟨-, rfl⟩ := only i f here
    exact sampleMarked_root
  · intro i j f g different first second
    exact absurd ((only i f first).1.trans (only j g second).1.symm) different

def sampleExpand : ChainCall := .expand 0 sampleLocals ⟨0, 0, 1025, 1025⟩ ⟨[], 0, false⟩ 2

def sampleCreate : ChainCall := .create 0 sampleLocals ⟨0, 0, 1025, 1025⟩ ⟨[], 0, false⟩ [97] .normal

theorem sampleMarked_enough : Expands sampleMarked sampleExpand := by
  have enough : 2 ≤ freeSectors sampleMarkedFs.fileAllocBitmap := by
    apply le_freeSectors {1032, 1033}
    intro n member
    rw [sampleMarked_size]
    rcases Finset.mem_insert.mp member with rfl | second
    · exact ⟨by decide, by decide +kernel⟩
    · rw [Finset.mem_singleton.mp second]
      exact ⟨by decide, by decide +kernel⟩
  exact enough

theorem chains_end_marked_root :
    ∃ t, Run (Guarded ChainStep Expands) sampleMarked [sampleExpand] t ∧ ∀ f ∈ t.files, EndMarked t.fs.disk f := by
  have result : (chainStep sampleMarked sampleExpand).isSome = true := by decide +kernel
  obtain ⟨t, step⟩ := Option.isSome_iff_exists.mp result
  have run : Run (Guarded ChainStep Expands) sampleMarked [sampleExpand] t :=
    Run.single ⟨sampleMarked_enough, step⟩
  exact ⟨t, run, (chains_end_marked sampleMarked_sound run).1⟩

theorem created_chain_unmarked :
    ¬∀ s calls t, s.Sound → Run (Guarded ChainStep EnoughSectors) s calls t →
      ∀ f ∈ t.files, EndMarked t.fs.disk f := by
  intro holds
  have ends : (chainStep sampleMarked sampleCreate).map
      (fun t => t.files.map fun f => decide (EndMarked t.fs.disk f)) = some [true, false] := by decide +kernel
  obtain ⟨t, step, marks⟩ := Option.map_eq_some_iff.mp ends
  have run : Run (Guarded ChainStep EnoughSectors) sampleMarked [sampleCreate] t := Run.single ⟨trivial, step⟩
  have unmarked : false ∈ t.files.map fun f => decide (EndMarked t.fs.disk f) := by
    rw [marks]
    decide
  obtain ⟨f, member, ends⟩ := List.mem_map.mp unmarked
  exact absurd (holds sampleMarked _ t sampleMarked_sound run f member) (of_decide_eq_false ends)

end WegOS
