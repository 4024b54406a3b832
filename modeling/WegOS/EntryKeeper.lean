import WegOS.FileWrite

/-! Where control blocks are kept: an entry of the parent directory, or the sector of the root. -/

namespace WegOS

open LittleEndian CArray BlockChain

def homeSectors (disk : Disk) (init : List (List UInt8)) (dir : FileT) : Set UInt32 :=
  { s | s = sectorWithRootFcb ∨ s ∈ sectorsOf disk dir ∨ ∃ first c rest d,
      init = first ++ c :: rest ∧ resolve disk (rootFcb disk) first = some d ∧ s ∈ sectorsOf disk d }

/-- The disk differs from `base` in no sector on the way to the directory, and in the directory
just in the entry at `index`, which is `f`. -/
structure EntryHeld (base : Disk) (init : List (List UInt8)) (dir : FileT) (index : Nat)
    (disk : Disk) (f : FileT) : Prop where
  outside : ∀ s ∈ homeSectors base init dir, s ∉ sectorsOf base dir → disk s = base s
  links : ∀ s ∈ sectorsOf base dir, nextSector (disk s) = nextSector (base s)
  name : f.name = (entry base dir index).name
  entries : ∀ k < entryCount dir, entry disk dir k = if k = index then f else entry base dir k

section Entry

variable {base disk disk' : Disk} {init : List (List UInt8)} {dir f : FileT} {index : Nat}

theorem EntryHeld.refl (base : Disk) (init : List (List UInt8)) (dir : FileT) (index : Nat) :
    EntryHeld base init dir index base (entry base dir index) where
  outside _ _ _ := rfl
  links _ _ := rfl
  name := rfl
  entries k _ := by
    split_ifs with here
    · rw [here]
    · rfl

theorem EntryHeld.sectors (held : EntryHeld base init dir index disk f) :
    sectorsOf disk dir = sectorsOf base dir := chainFrom_congr held.links

theorem EntryHeld.entry_name (held : EntryHeld base init dir index disk f) {k : Nat}
    (inside : k < entryCount dir) : (entry disk dir k).name = (entry base dir k).name := by
  rw [held.entries k inside]
  split_ifs with here
  · rw [held.name, here]
  · rfl

theorem EntryHeld.lookup_eq (held : EntryHeld base init dir index disk f) (c : List UInt8) :
    lookup disk dir c = lookup base dir c := by
  apply List.find?_congr
  intro k member
  rw [held.entry_name (List.mem_range.mp member)]

theorem EntryHeld.same (home : Home base init dir) (held : EntryHeld base init dir index disk f) :
    Along base (rootFcb base) init fun d => ∀ s ∈ sectorsOf base d, disk s = base s := by
  intro first c rest split inner reached s member
  exact held.outside s (Or.inr (Or.inr ⟨first, c, rest, inner, split, reached, member⟩))
    (home.clear first c rest split inner reached member)

theorem EntryHeld.root (home : Home base init dir) (held : EntryHeld base init dir index disk f) :
    rootFcb disk = rootFcb base := rootFcb_congr (held.outside _ (Or.inl rfl) home.apart)

theorem EntryHeld.home (home : Home base init dir) (held : EntryHeld base init dir index disk f) :
    Home disk init dir := by
  apply home.congr (held.outside _ (Or.inl rfl) home.apart) (held.same home) held.sectors
  exact
    { positive := home.directory.positive
      room := home.directory.room
      small := home.directory.small
      named := by
        intro k inside
        rw [held.entry_name inside]
        exact home.directory.named k inside }

/-- The directories above an entry are those on the way to it. -/
theorem EntryHeld.above (home : Home base init dir) (held : EntryHeld base init dir index disk f)
    {c d : List UInt8} {first rest : List (List UInt8)} {inner : FileT} {s : UInt32}
    (split : init ++ [c] = first ++ d :: rest) (reached : resolve disk (rootFcb disk) first = some inner)
    (member : s ∈ sectorsOf disk inner) : s ∈ homeSectors base init dir := by
  rcases List.eq_nil_or_concat' rest with rfl | ⟨rest, e, rfl⟩
  · obtain ⟨rfl, -⟩ := List.append_inj' split rfl
    rw [(held.home home).reached, Option.some.injEq] at reached
    subst reached
    rw [held.sectors] at member
    exact Or.inr (Or.inl member)
  · obtain ⟨rfl, -⟩ := List.append_inj' (split.trans (List.append_assoc first (d :: rest) [e]).symm) rfl
    rw [held.root home, resolve_congr home.along.left (held.same home).left] at reached
    rw [sectorsOf_congr (held.same home first d rest rfl inner reached)] at member
    exact Or.inr (Or.inr ⟨first, d, rest, inner, rfl, reached, member⟩)

theorem EntryHeld.child (home : Home base init dir) (held : EntryHeld base init dir index disk f)
    {c : List UInt8} (path : Path (init ++ [c])) (found : lookup base dir c = some index)
    (directory : IsDirectory disk f) (nodup : (sectorsOf disk f).Nodup)
    (apart : ∀ s ∈ sectorsOf disk f, s ∉ homeSectors base init dir) : Home disk (init ++ [c]) f where
  path := path
  along := along_concat (held.home home).along fun d reached => by
    rw [(held.home home).reached, Option.some.injEq] at reached
    exact reached ▸ (held.home home).directory
  reached := by
    have within := (lookup_eq_some.mp found).2.1
    rw [resolve_concat, (held.home home).reached, Option.bind_some, held.lookup_eq, found, Option.map_some,
      held.entries index within, if_pos rfl]
  directory := directory
  nodup := nodup
  clear first d rest split inner reached s member own := apart s own (held.above home split reached member)
  apart member := apart _ member (Or.inl rfl)

theorem EntryHeld.frame (home : Home base init dir) (held : EntryHeld base init dir index disk f)
    (same : ∀ s ∈ homeSectors base init dir, disk' s = disk s) : EntryHeld base init dir index disk' f where
  outside s member away := by rw [same s member, held.outside s member away]
  links s member := by rw [same s (Or.inr (Or.inl member)), held.links s member]
  name := held.name
  entries k inside := by
    have inner : ∀ s ∈ sectorsOf disk dir, disk' s = disk s := by
      intro s member
      rw [held.sectors] at member
      exact same s (Or.inr (Or.inl member))
    rw [entry_congr inner (held.home home).directory inside, held.entries k inside]

theorem EntryHeld.overwrites (home : Home base init dir) (held : EntryHeld base init dir index disk f)
    {f' : FileT} (name : f'.name = f.name)
    (written : Overwrites blockFormat (sectorsOf disk dir) disk disk' (fileTSize * index) fileTSize f'.bytes) :
    EntryHeld base init dir index disk' f' where
  outside s member away := by
    rw [← held.outside s member away]
    apply written.frame
    rw [held.sectors]
    exact away
  links s member := (written.links s).trans (held.links s member)
  name := name.trans held.name
  entries k inside := by
    rw [entry_overwrites (held.home home).directory written inside]
    split_ifs with here
    · rfl
    · rw [held.entries k inside, if_neg here]

def entryKeeper (home : Home base init dir) (locals : Locals) {path : FilePathState}
    (hasParent : path.hasParent = true) (name : path.parentDirName = joinPath init)
    (inside : path.indexInParentDir < entryCount dir) : Keeper locals path where
  sectors := homeSectors base init dir
  holds := EntryHeld base init dir path.indexInParentDir
  frame held same := held.frame home same
  store := by
    intro disk disk₁ f f' io held grown stored
    obtain ⟨disk', run, written⟩ := (held.home home).store locals ⟨f', io, path⟩ hasParent name inside
    obtain rfl : disk' = disk₁ := Option.some.inj (run.symm.trans stored)
    have name : f'.name = f.name := by rw [FileT.name, FileT.name, grown.fileName]
    refine ⟨held.overwrites home name written, fun s away => written.frame s fun member => ?_⟩
    rw [held.sectors] at member
    exact away (Or.inr (Or.inl member))
  ends _ _ _ f' io held _ := by
    obtain ⟨disk', run, -⟩ := (held.home home).store locals ⟨f', io, path⟩ hasParent name inside
    exact ⟨disk', run⟩

end Entry

/-! ## The root

A handle on the root has no parent directory, but `store_file_cached` looks up the path in its `parent_dir_name`
first. -/

/-- The path is found on the disk, each component that ends in a `/` in the one before it. -/
def NameLeads (disk : Disk) (locals : Locals) (name : List UInt8) : Prop :=
  (loadFrom disk locals name [] (rootFcb disk) locals.parentDir.pathState.indexInParentDir).any
      (fun r => r.1 == .success) = true ∧
    (getParentDirName name).length < filePathMaxLength

/-- The name decides about the result of `load_file_cached`. -/
theorem nameLeads_iff {disk : Disk} {locals : Locals} {name : List UInt8} :
    NameLeads disk locals name ↔
      ∃ cached, loadFileCached disk locals name locals.parentDir = some (.success, cached) := by
  unfold NameLeads loadFileCached
  change _ ↔ ∃ cached, Option.bind (loadFrom disk locals name [] (rootFcb disk)
    locals.parentDir.pathState.indexInParentDir) _ = _
  cases walked : loadFrom disk locals name [] (rootFcb disk) locals.parentDir.pathState.indexInParentDir with
  | none => simp
  | some r =>
      obtain ⟨result, file, index⟩ := r
      rw [Option.any_some, Option.bind_some, beq_iff_eq]
      dsimp only
      by_cases success : result = .success
      · rw [if_pos success]
        by_cases empty : strcmp name [] = 0
        · rw [if_pos empty, strcmp_eq_zero.mp empty]
          exact iff_of_true ⟨success, by decide⟩ ⟨_, rfl⟩
        · rw [if_neg empty]
          by_cases long : filePathMaxLength ≤ (getParentDirName name).length
          · rw [if_pos long]
            exact iff_of_false (fun leads => absurd leads.2 (Nat.not_lt.mpr long)) (by simp)
          · rw [if_neg long]
            exact iff_of_true ⟨success, Nat.not_le.mp long⟩ ⟨_, rfl⟩
      · rw [if_neg success]
        refine iff_of_false (fun leads => success leads.1) ?_
        rintro ⟨cached, equal⟩
        exact success (Prod.mk.inj (Option.some.inj equal)).1

theorem nameLeads_nil (disk : Disk) (locals : Locals) : NameLeads disk locals [] := ⟨rfl, by decide⟩

theorem storeFileCached_root {disk : Disk} {locals : Locals} {cached : FileCached}
    (hasParent : cached.pathState.hasParent = false) :
    (NameLeads disk locals cached.pathState.parentDirName →
      storeFileCached disk locals cached =
        some (writeDisk disk sectorWithRootFcb (memcpy locals.fcbSector 0 cached.file.bytes fileTSize))) ∧
      (¬NameLeads disk locals cached.pathState.parentDirName → ∀ disk',
        storeFileCached disk locals cached = some disk' → disk' = disk) := by
  rw [nameLeads_iff]
  constructor
  · rintro ⟨parent, load⟩
    simp only [storeFileCached, load, hasParent]
    rfl
  · intro lost disk' stored
    obtain ⟨⟨result, parent⟩, load, stored⟩ := Option.bind_eq_some_iff.mp stored
    have failed : result ≠ .success := by
      rintro rfl
      exact lost ⟨parent, load⟩
    dsimp only at stored
    rw [if_neg failed] at stored
    exact (Option.some.inj stored).symm

theorem rootFcb_saved (disk : Disk) (locals : Locals) (f : FileT) :
    rootFcb (writeDisk disk sectorWithRootFcb (memcpy locals.fcbSector 0 f.bytes fileTSize)) = f := by
  rw [rootFcb, writeDisk, Function.update_self]
  apply fileAt_eq
  intro i inside
  rw [cell_ofCells (by simp only [fileTSize] at inside; omega), memcpy_inside (Nat.zero_le _) (by omega),
    Nat.sub_zero, Nat.zero_add]

/-- The keeper of the root, which was `base` at first. Whether a store comes to the sector of the root depends on
the name in the handle: the control block there is an earlier one of the handle's. -/
def rootKeeper (locals : Locals) {path : FilePathState} (hasParent : path.hasParent = false) (base : FileT) :
    Keeper locals path where
  sectors := { sectorWithRootFcb }
  holds disk f := Grown base (rootFcb disk) ∧ Grown (rootFcb disk) f
  frame held same := by rwa [rootFcb_congr (same _ rfl)]
  store := by
    intro disk disk' f f' io held grown stored
    obtain ⟨saves, loses⟩ := @storeFileCached_root disk locals ⟨f', io, path⟩ hasParent
    by_cases leads : NameLeads disk locals path.parentDirName
    · rw [← Option.some.inj ((saves leads).symm.trans stored), rootFcb_saved]
      exact ⟨⟨held.1.trans (held.2.trans grown), Grown.refl f'⟩, fun s away => Function.update_of_ne away _ _⟩
    · rw [loses leads disk' stored]
      exact ⟨⟨held.1, held.2.trans grown⟩, fun s away => rfl⟩
  ends parent := by
    rw [hasParent] at parent
    cases parent

/-- The keeper of a directory. What is saved there is what the path leads to, by way of no other sectors. -/
structure DirKeeper (locals : Locals) (path : FilePathState) (components : List (List UInt8)) extends
    Keeper locals path where
  saved : Disk → FileT → Prop
  saves : ∀ {disk disk' f} (f' : FileT) (io : FileIoState), holds disk f → Grown f f' →
    (path.hasParent = false → NameLeads disk locals path.parentDirName) →
    storeFileCached disk locals ⟨f', io, path⟩ = some disk' → saved disk' f'
  leads : ∀ {disk f}, saved disk f → IsDirectory disk f → (sectorsOf disk f).Nodup →
    (∀ s ∈ sectorsOf disk f, s ∉ sectors) → Home disk components f
  within : ∀ {disk f}, saved disk f → ∀ s ∈ homeSectors disk components f, s ∈ sectors ∨ s ∈ sectorsOf disk f

def entryDirKeeper {base : Disk} {init : List (List UInt8)} {dir : FileT} (home : Home base init dir)
    (locals : Locals) {path : FilePathState} (hasParent : path.hasParent = true)
    (name : path.parentDirName = joinPath init) {c : List UInt8} (long : Path (init ++ [c]))
    (found : lookup base dir c = some path.indexInParentDir) : DirKeeper locals path (init ++ [c]) where
  toKeeper := entryKeeper home locals hasParent name (lookup_eq_some.mp found).2.1
  saved := EntryHeld base init dir path.indexInParentDir
  saves f' io held grown _ stored :=
    ((entryKeeper home locals hasParent name (lookup_eq_some.mp found).2.1).store f' io held grown stored).1
  leads held directory nodup apart := held.child home long found directory nodup apart
  within := by
    intro disk f held s member
    rcases member with rfl | own | ⟨first, d, rest, inner, split, reached, member⟩
    · exact Or.inl (Or.inl rfl)
    · exact Or.inr own
    · exact Or.inl (held.above home split reached member)

def rootDirKeeper (locals : Locals) {path : FilePathState} (hasParent : path.hasParent = false) (base : FileT) :
    DirKeeper locals path [] where
  toKeeper := rootKeeper locals hasParent base
  saved disk f := rootFcb disk = f
  saves := by
    intro disk disk' f f' io _ _ leads stored
    obtain ⟨saves, -⟩ := @storeFileCached_root disk locals ⟨f', io, path⟩ hasParent
    rw [← Option.some.inj ((saves (leads hasParent)).symm.trans stored)]
    exact rootFcb_saved disk locals f'
  leads held directory nodup apart :=
    { path := ⟨by simp, by decide⟩
      along := along_nil
      reached := congrArg some held
      directory := directory
      nodup := nodup
      clear := along_nil
      apart := fun member => apart _ member rfl }
  within := by
    intro disk f held s member
    rcases member with rfl | own | ⟨first, d, rest, inner, split, -⟩
    · exact Or.inl rfl
    · exact Or.inr own
    · simp at split

end WegOS
