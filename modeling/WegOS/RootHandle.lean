import WegOS.CreateFile

/-! The control block of the root, written back through a handle.

`load_file_cached` of the empty path leaves `parent_dir_name` as the caller's memory has it, and
`store_file_cached` looks up the path that stands there first. -/

namespace WegOS

open LittleEndian CArray

/-- The control block in the handle goes to the sector of the root, and is loaded from there. -/
def RootSaved (disk : Disk) (locals : Locals) (cached : FileCached) : Prop :=
  ∃ disk', storeFileCached disk locals cached = some disk' ∧ rootFcb disk' = cached.file ∧
    ∀ locals' old, ∃ again, loadFileCached disk' locals' [] old = some (.success, again) ∧
      again.file = cached.file

/-- The empty path leads to the root on every disk. Of the path in the handle, the name of the
parent directory is left alone. -/
theorem loadFileCached_root (disk : Disk) (locals : Locals) (old : FileCached) :
    ∃ cached, loadFileCached disk locals [] old = some (.success, cached) ∧ cached.file = rootFcb disk ∧
      cached.pathState = { old.pathState with hasParent := false } :=
  ⟨_, rfl, rfl, rfl⟩

/-- A control block that differs from the one on the disk is saved when the name leads somewhere. -/
theorem rootSaved_of_changed {disk : Disk} {locals : Locals} {cached : FileCached}
    (hasParent : cached.pathState.hasParent = false) (changed : cached.file ≠ rootFcb disk) :
    RootSaved disk locals cached ↔ NameLeads disk locals cached.pathState.parentDirName := by
  obtain ⟨saves, loses⟩ := @storeFileCached_root disk locals cached hasParent
  constructor
  · rintro ⟨disk', stored, root, -⟩
    by_contra lost
    rw [loses lost disk' stored] at root
    exact changed root.symm
  · intro leads
    refine ⟨_, saves leads, rootFcb_saved disk locals cached.file, fun locals' old => ?_⟩
    obtain ⟨again, load, file, -⟩ := loadFileCached_root
      (writeDisk disk sectorWithRootFcb (memcpy locals.fcbSector 0 cached.file.bytes fileTSize)) locals' old
    exact ⟨again, load, file.trans (rootFcb_saved disk locals cached.file)⟩

/-! ## The write-back at the end of `sys_write` and `sys_create` -/

theorem stagedWrite_pathState {fs fs' : FileSystem} {locals : Locals} {cached cached' : FileCached}
    {buf : Nat → UInt8} {length : Nat} (staged : stagedWrite fs locals cached buf length = some (fs', cached')) :
    cached'.pathState = cached.pathState := by
  obtain ⟨r, -, staged⟩ := Option.bind_eq_some_iff.mp staged
  dsimp only at staged
  split_ifs at staged
  · cases staged
  · rw [← (Prod.mk.inj (Option.some.inj staged)).2]

theorem fileExpand_pathState {fs fs' : FileSystem} {locals : Locals} {cached cached' : FileCached} {need : Nat}
    (expanded : fileExpand fs locals cached need = some (fs', cached')) :
    cached'.pathState = cached.pathState := by
  obtain ⟨disk, -, same⟩ := Option.bind_eq_some_iff.mp expanded
  rw [← (Prod.mk.inj (Option.some.inj same)).2]

theorem unsavedWrite_pathState {fs fs' : FileSystem} {locals : Locals} {cached cached' : FileCached}
    {buf : Nat → UInt8} {length : Nat} (unsaved : unsavedWrite fs locals cached buf length = some (fs', cached')) :
    cached'.pathState = cached.pathState := by
  obtain ⟨⟨fs₁, cached₁⟩, expanded, staged⟩ := Option.bind_eq_some_iff.mp unsaved
  refine (stagedWrite_pathState staged).trans ?_
  simp only [expandedFor] at expanded
  split_ifs at expanded
  · exact fileExpand_pathState expanded
  · rw [← (Prod.mk.inj (Option.some.inj expanded)).2]

theorem DirectoryCall.unsaved_pathState {fs fs' : FileSystem} {locals : Locals} {cached cached' : FileCached}
    {call : DirectoryCall} (unsaved : call.unsaved fs locals cached = some (fs', cached')) :
    cached'.pathState = cached.pathState := by
  cases call with
  | write buf length => exact unsavedWrite_pathState unsaved
  | create fileName fileType =>
      simp only [DirectoryCall.unsaved] at unsaved
      split_ifs at unsaved
      exact unsavedWrite_pathState unsaved

/-- The call comes to an end, and the control block in the handle is then the one of the root. -/
def RootReflected (fs : FileSystem) (locals : Locals) (cached : FileCached) (call : DirectoryCall) : Prop :=
  ∃ fs' cached', call.run fs locals cached = some (fs', cached') ∧ rootFcb fs'.disk = cached'.file

/-- A changed control block of the root is written to its sector exactly when the path that
`parent_dir_name` happened to hold before the handle was loaded leads somewhere on the disk. The calls
that write to the root end with such a store. -/
theorem root_saved_iff {disk₀ : Disk} {locals₀ : Locals} {old cached : FileCached}
    (load : loadFileCached disk₀ locals₀ [] old = some (.success, cached)) :
    (∀ disk locals f io, f ≠ rootFcb disk →
      (RootSaved disk locals ⟨f, io, cached.pathState⟩ ↔ NameLeads disk locals old.pathState.parentDirName)) ∧
    ∀ fs locals f io (call : DirectoryCall) unsaved,
      call.unsaved fs locals ⟨f, io, cached.pathState⟩ = some unsaved → unsaved.2.file ≠ rootFcb unsaved.1.disk →
        (RootReflected fs locals ⟨f, io, cached.pathState⟩ call ↔
          NameLeads unsaved.1.disk locals old.pathState.parentDirName) := by
  obtain ⟨cached₀, again, -, path⟩ := loadFileCached_root disk₀ locals₀ old
  cases again.symm.trans load
  constructor
  · intro disk locals f io changed
    rw [rootSaved_of_changed (by rw [path]) changed, path]
  · intro fs locals f io call unsaved reached changed
    obtain ⟨fs₁, cached₁⟩ := unsaved
    have kept : cached₁.pathState = { old.pathState with hasParent := false } :=
      (DirectoryCall.unsaved_pathState reached).trans path
    obtain ⟨saves, loses⟩ := @storeFileCached_root fs₁.disk locals cached₁ (by rw [kept])
    rw [kept] at saves loses
    rw [RootReflected, DirectoryCall.run_save, reached, Option.bind_some, save]
    constructor
    · rintro ⟨fs', cached', run, root⟩
      by_contra lost
      obtain ⟨disk, stored, same⟩ := Option.map_eq_some_iff.mp run
      obtain ⟨rfl, rfl⟩ := Prod.mk.inj same
      rw [loses lost disk stored] at root
      exact changed root.symm
    · intro leads
      refine ⟨_, cached₁, by rw [saves leads]; rfl, rootFcb_saved fs₁.disk locals cached₁.file⟩

/-! ## Handles of the sample tree -/

def staleCached : FileCached := ⟨sampleFile, ⟨0, 0, 0, 0⟩, ⟨[120, slash], 0, false⟩⟩

def shrunkRoot (disk : Disk) : FileT := { rootFcb disk with fileSize := 84 }

theorem shrunkRoot_changed : shrunkRoot sampleTree ≠ rootFcb sampleTree := by
  intro same
  exact absurd (congrArg FileT.fileSize same) (by decide +kernel)

def leadingCached : FileCached := ⟨sampleFile, ⟨0, 0, 0, 0⟩, ⟨[100, slash], 0, false⟩⟩

/-- The path `d/` leads to a directory, and the store comes to the sector of the root. -/
theorem root_saved_leading : ∃ cached,
    loadFileCached sampleTree sampleLocals [] leadingCached = some (.success, cached) ∧
      RootSaved sampleTree sampleLocals { cached with file := shrunkRoot sampleTree } := by
  obtain ⟨cached, load, -⟩ := loadFileCached_root sampleTree sampleLocals leadingCached
  refine ⟨cached, load, ((root_saved_iff load).1 sampleTree sampleLocals (shrunkRoot sampleTree) cached.ioState
    shrunkRoot_changed).mpr ?_⟩
  unfold NameLeads
  decide +kernel

theorem root_not_saved : ∃ cached, loadFileCached sampleTree sampleLocals [] staleCached = some (.success, cached) ∧
    IsDirectory sampleTree (rootFcb sampleTree) ∧ shrunkRoot sampleTree ≠ rootFcb sampleTree ∧
    ¬RootSaved sampleTree sampleLocals { cached with file := shrunkRoot sampleTree } := by
  obtain ⟨cached, load, -, path⟩ := loadFileCached_root sampleTree sampleLocals staleCached
  refine ⟨cached, load, sampleTree_along.head, shrunkRoot_changed, ?_⟩
  rw [rootSaved_of_changed (by rw [path]) shrunkRoot_changed, path]
  unfold NameLeads
  decide +kernel

end WegOS
