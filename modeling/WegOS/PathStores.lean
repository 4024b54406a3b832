import WegOS.BufferStores
import WegOS.Execve

/-! Stores into the local buffers of the path walk and of `sys_execve`.

The model of `load_file_cached` has no result where a store leaves its buffer. Here the stores themselves are listed,
up to the first search that fails, and the paths for which all of them are in bounds are described on the disk. -/

namespace WegOS

open CArray BlockChain Stores

inductive LocalBuffer
  | rootBuf | temp | files | parentDirName | handle | codeBuf
  deriving DecidableEq

def LocalBuffer.size : LocalBuffer → Nat
  | rootBuf => sectorSize
  | temp => fileNameMaxLength
  | files => filesSize
  | parentDirName => filePathMaxLength
  | handle => filePathMaxLength
  | codeBuf => tempCodeSizeMax

abbrev LocalStore := LocalBuffer × Store UInt8

def InBounds (stores : List LocalStore) : Prop :=
  ∀ store ∈ stores, ∀ i, store.2.Hits i → i < store.1.size

def readAllStores (disk : Disk) (file : FileT) : List (Store UInt8) :=
  (sysReadInt disk file ⟨0, 0, file.firstSector, file.firstSector⟩ file.fileSize).2.2

def dirSearchFileStores (disk : Disk) (dir : FileT) : List LocalStore :=
  (readAllStores disk dir).map (LocalBuffer.files, ·)

def loadFromStores (disk : Disk) (locals : Locals) : List UInt8 → List UInt8 → FileT → List LocalStore
  | [], _, _ => []
  | c :: rest, temp, file =>
      if c = slash then
        (.temp, ⟨temp.length, 1, fun _ => 0⟩) :: dirSearchFileStores disk file ++
          (dirSearchFile disk locals file temp).join.elim [] fun found => loadFromStores disk locals rest [] found.2
      else (.temp, ⟨temp.length, 1, fun _ => c⟩) :: loadFromStores disk locals rest (temp ++ [c]) file

def parentDirStores (path : List UInt8) : List LocalStore :=
  let parent := getParentDirName path
  let bytes := fun i => parent.getD i 0
  [(.parentDirName, ⟨0, parent.length, bytes⟩), (.parentDirName, ⟨parent.length, 1, fun _ => 0⟩),
    (.handle, ⟨0, parent.length + 1, bytes⟩)]

def loadedFile (disk : Disk) (locals : Locals) (path : List UInt8) (index : Nat) : Option FileT :=
  (loadFrom disk locals path [] (rootFcb disk) index).bind fun result =>
    if result.1 = .success then some result.2.1 else none

def loadFileCachedStores (disk : Disk) (locals : Locals) (path : List UInt8) (old : FileCached) : List LocalStore :=
  (.rootBuf, ⟨0, sectorSize, (disk sectorWithRootFcb).cell⟩) :: loadFromStores disk locals path [] (rootFcb disk) ++
    (loadedFile disk locals path old.pathState.indexInParentDir).elim [] fun _ =>
      if strcmp path [] = 0 then [] else parentDirStores path

def sysExecveStores (disk : Disk) (locals : Locals) (path : List UInt8) (fileCached : FileCached) : List LocalStore :=
  loadFileCachedStores disk locals path fileCached ++
    (loadedFile disk locals path fileCached.pathState.indexInParentDir).elim [] fun file =>
      (readAllStores disk file).map (LocalBuffer.codeBuf, ·)

/-! ## Paths on a disk -/

def contentOf (disk : Disk) (file : FileT) : Nat → UInt8 :=
  byteOf disk (chainFrom blockFormat disk (nthBlock file.size + 1) file.firstSector)

def recordAt (disk : Disk) (dir : FileT) (i : Nat) : FileT := fileAt (contentOf disk dir) (fileTSize * i)

def recordNamed (disk : Disk) (dir : FileT) (name : List UInt8) : Option FileT :=
  ((List.range (entryCount dir)).find? fun i => (recordAt disk dir i).name == some name).map (recordAt disk dir)

def pathParts : List UInt8 → List UInt8 → List (List UInt8) × List UInt8
  | [], temp => ([], temp)
  | c :: rest, temp =>
      if c = slash then (temp :: (pathParts rest []).1, (pathParts rest []).2) else pathParts rest (temp ++ [c])

def leadsTo (disk : Disk) : FileT → List (List UInt8) → Option FileT
  | dir, [] => some dir
  | dir, name :: rest => (recordNamed disk dir name).bind fun found => leadsTo disk found rest

def searches (disk : Disk) : FileT → List (List UInt8) → List (FileT × List UInt8)
  | _, [] => []
  | dir, name :: rest => (dir, name) :: (recordNamed disk dir name).elim [] fun found => searches disk found rest

/-- A read of the whole file, with the link of its last whole sector, needs no more cells. -/
def ReadFits (file : FileT) (cells : Nat) : Prop := 0 ≤ file.fileSize ∧ readExtent 0 file.size ≤ cells

instance (file : FileT) (cells : Nat) : Decidable (ReadFits file cells) :=
  inferInstanceAs (Decidable (_ ∧ _))

def NamesTerminated (disk : Disk) (dir : FileT) : Prop :=
  ∀ i < entryCount dir, ∃ name, (recordAt disk dir i).name = some name

/-- Each name that is searched for fits in `temp` and each directory that is searched fits in `files`; and where all
the names are found, so do what comes behind them and the name of the parent directory. -/
structure LoadFits (disk : Disk) (path : List UInt8) : Prop where
  searched : ∀ search ∈ searches disk (rootFcb disk) (pathParts path []).1,
    search.2.length < fileNameMaxLength ∧ ReadFits search.1 filesSize
  found : ∀ file, leadsTo disk (rootFcb disk) (pathParts path []).1 = some file →
    (pathParts path []).2.length ≤ fileNameMaxLength ∧ (getParentDirName path).length < filePathMaxLength

/-! ## Lists of stores -/

theorem inBounds_nil : InBounds [] := fun _ none => absurd none List.not_mem_nil

theorem inBounds_cons {buffer : LocalBuffer} {store : Store UInt8} {stores : List LocalStore} :
    InBounds ((buffer, store) :: stores) ↔
      (store.count = 0 ∨ store.start + store.count ≤ buffer.size) ∧ InBounds stores := by
  rw [← Store.hits_lt_iff]
  exact List.forall_mem_cons

theorem inBounds_append {first second : List LocalStore} :
    InBounds (first ++ second) ↔ InBounds first ∧ InBounds second := List.forall_mem_append

theorem inBounds_map {buffer : LocalBuffer} {stores : List (Store UInt8)} :
    InBounds (stores.map (buffer, ·)) ↔ Inside buffer.size stores := List.forall_mem_map

theorem inBounds_elim {α : Type} {found : Option α} {stores : α → List LocalStore} :
    InBounds (found.elim [] stores) ↔ ∀ a, found = some a → InBounds (stores a) := by
  cases found with
  | none => simp [inBounds_nil]
  | some a => simp

/-! ## Reads of whole files -/

/-- A negative size is a length of more than two gigabytes. -/
theorem readAllStores_inside {disk : Disk} {file : FileT} {cells : Nat} (few : cells < 2 ^ 30) :
    Inside cells (readAllStores disk file) ↔ ReadFits file cells := by
  by_cases positive : 0 ≤ file.fileSize
  · have whole : file.fileSize = Int32.ofNat file.size := (Int32.ofNat_toNatClampNeg _ positive).symm
    rw [ReadFits, and_iff_right positive, ← @sysReadInt_extent disk file cells positive
      ⟨0, 0, file.firstSector, file.firstSector⟩ file.size (Nat.le_of_eq (Nat.zero_add _)), ← whole]
    rfl
  · refine iff_of_false ?_ fun fits => positive fits.1
    have large := toUInt32_neg (Int32.not_le.mp positive)
    have low := file.fileSize.le_toInt
    have crosses : ¬nthBlockInt (0 + file.fileSize) - nthBlockInt 0 = 0 := by
      rw [sameBlock_iff, Int32.zero_add, nthBlockInt_toNat, nthBlockInt_toNat]
      have zero : (0 : Int32).toUInt32.toNat = 0 := rfl
      omega
    have remain : UInt32.ofNat validDataSizeInBlock - inBlockOffsetInt 0 = 508 := by decide
    have sectors : 4000000 ≤ (nthBlockInt (file.fileSize - (508 : UInt32).toInt32)).toNat := by
      have back : (file.fileSize - (508 : UInt32).toInt32).toUInt32 = file.fileSize.toUInt32 - 508 := by
        rw [Int32.toUInt32_sub, UInt32.toUInt32_toInt32]
      have small : 508 ≤ file.fileSize.toUInt32 := by
        rw [UInt32.le_iff_toNat_le]
        have value : (508 : UInt32).toNat = 508 := rfl
        omega
      have value : (508 : UInt32).toNat = 508 := rfl
      rw [nthBlockInt_toNat, back, UInt32.toNat_sub_of_le _ _ small, value]
      omega
    intro inside
    have stores := (@sysReadInt_inside disk file ⟨0, 0, file.firstSector, file.firstSector⟩ cells file.fileSize
      (Int32.le_of_eq (Int32.zero_add _)) crosses _ _ _ rfl rfl rfl).mp inside
    rw [remain] at stores
    omega

/-! ## The walk -/

section Walk

variable {disk : Disk} {locals : Locals} {dir file : FileT} {path temp : List UInt8} {index : Nat}

theorem ReadFits.readable {cells : Nat} (fits : ReadFits dir cells) :
    Readable disk dir (chainFrom blockFormat disk (nthBlock dir.size + 1) dir.firstSector) where
  first := rfl
  linked := chainFrom_linked _ _
  positive := fits.1
  room := by
    rw [length_chainFrom]
    exact Nat.lt_succ_self _

theorem dirSearchFile_records (fits : ReadFits dir filesSize) (terminated : NamesTerminated disk dir)
    (name : List UInt8) :
    dirSearchFile disk locals dir name = some (((List.range (entryCount dir)).find? fun i =>
      (recordAt disk dir i).name == some name).map fun i => (i, recordAt disk dir i)) := by
  obtain ⟨files, result, bytes⟩ := readAll_spec (@ReadFits.readable disk _ _ fits) locals.files
  have count : dir.fileSize.toUInt32.toNat / fileTSize = entryCount dir := by
    rw [Int32.toNat_toUInt32_of_le fits.1]
    rfl
  have room : ¬filesSize < readExtent 0 dir.fileSize.toNatClampNeg := Nat.not_lt.mpr fits.2
  have small : dir.size ≤ filesSize := Nat.le_trans (le_readExtent 0 dir.size) fits.2
  simp only [dirSearchFile, if_neg room, result, Option.bind_eq_bind, Option.bind_some, count]
  rw [List.range_eq_range']
  exact searchFrom_records small (Nat.mul_div_le _ _) terminated bytes name (Nat.le_of_eq (Nat.zero_add _))

theorem recordNamed_eq (fits : ReadFits dir filesSize) (terminated : NamesTerminated disk dir) (name : List UInt8) :
    recordNamed disk dir name = (dirSearchFile disk locals dir name).join.map Prod.snd := by
  rw [dirSearchFile_records fits terminated, Option.join_some, Option.map_map]
  rfl

theorem readFits_of_search {name : List UInt8} {found : Option (Nat × FileT)}
    (searched : dirSearchFile disk locals dir name = some found) : ReadFits dir filesSize := by
  simp only [dirSearchFile] at searched
  split_ifs at searched with large
  · cases searched
  · obtain ⟨files, read, -⟩ := Option.bind_eq_some_iff.mp searched
    unfold readAll at read
    split_ifs at read with negative
    exact ⟨Int32.not_lt.mp negative, Nat.not_lt.mp large⟩

theorem dirSearchFileStores_inBounds : InBounds (dirSearchFileStores disk dir) ↔ ReadFits dir filesSize :=
  inBounds_map.trans (readAllStores_inside (by decide))

theorem inBounds_char {c : UInt8} {stores : List LocalStore} :
    InBounds ((.temp, ⟨temp.length, 1, fun _ => c⟩) :: stores) ↔
      temp.length < fileNameMaxLength ∧ InBounds stores := by
  have size : LocalBuffer.temp.size = fileNameMaxLength := rfl
  rw [inBounds_cons, size]
  apply and_congr_left'
  dsimp only
  omega

theorem loadFromStores_inBounds
    (terminated : ∀ search ∈ searches disk file (pathParts path temp).1,
      ReadFits search.1 filesSize → NamesTerminated disk search.1) :
    temp.length ≤ fileNameMaxLength ∧ InBounds (loadFromStores disk locals path temp file) ↔
      (∀ search ∈ searches disk file (pathParts path temp).1,
        search.2.length < fileNameMaxLength ∧ ReadFits search.1 filesSize) ∧
      ∀ f, leadsTo disk file (pathParts path temp).1 = some f →
        (pathParts path temp).2.length ≤ fileNameMaxLength := by
  induction path generalizing temp file with
  | nil => simp [loadFromStores, pathParts, searches, leadsTo, inBounds_nil]
  | cons c path ih =>
      by_cases stop : c = slash
      · simp only [pathParts, if_pos stop, searches, List.forall_mem_cons] at terminated
        rw [loadFromStores, if_pos stop, pathParts, if_pos stop, searches, List.forall_mem_cons, leadsTo,
          List.cons_append, inBounds_char, inBounds_append, dirSearchFileStores_inBounds]
        by_cases fits : ReadFits file filesSize
        · obtain ⟨here, later⟩ := terminated
          rw [@recordNamed_eq _ locals _ fits (here fits)] at later ⊢
          cases found : (dirSearchFile disk locals file temp).join with
          | none =>
              simp only [Option.map_none, Option.elim_none, Option.bind_none, inBounds_nil, fits, and_true,
                List.not_mem_nil, reduceCtorEq, false_implies, implies_true]
              exact and_iff_right_of_imp Nat.le_of_lt
          | some next =>
              rw [found] at later
              have rest := @ih next.2 [] later
              rw [and_iff_right (show ([] : List UInt8).length ≤ fileNameMaxLength from Nat.zero_le _)] at rest
              simp only [Option.map_some, Option.elim_some, Option.bind_some, rest, fits, true_and, and_true, and_assoc]
              exact and_iff_right_of_imp fun inside => Nat.le_of_lt inside.1
        · simp [fits]
      · have next := @ih file (temp ++ [c])
        rw [pathParts, if_neg stop] at terminated ⊢
        rw [loadFromStores, if_neg stop, inBounds_char, ← next terminated, List.length_append, List.length_singleton,
          ← and_assoc]
        apply and_congr_left'
        omega

/-- Where all its stores are in bounds, the loop ends, with success just when all the names are found. -/
theorem loadFrom_leads
    (terminated : ∀ search ∈ searches disk file (pathParts path temp).1, NamesTerminated disk search.1)
    (inside : InBounds (loadFromStores disk locals path temp file)) :
    ∃ result, loadFrom disk locals path temp file index = some result ∧
      (if result.1 = .success then some result.2.1 else none) = leadsTo disk file (pathParts path temp).1 := by
  induction path generalizing temp file index with
  | nil => exact ⟨_, rfl, rfl⟩
  | cons c path ih =>
      by_cases stop : c = slash
      · simp only [pathParts, if_pos stop, searches, List.forall_mem_cons] at terminated
        rw [loadFromStores, if_pos stop, List.cons_append, inBounds_char, inBounds_append,
          dirSearchFileStores_inBounds] at inside
        obtain ⟨short, fits, later⟩ := inside
        obtain ⟨found, run⟩ : ∃ found, dirSearchFile disk locals file temp = some found :=
          ⟨_, dirSearchFile_records fits terminated.1 temp⟩
        have named : recordNamed disk file temp = found.map Prod.snd := by
          rw [@recordNamed_eq _ locals _ fits terminated.1, run, Option.join_some]
        rw [named] at terminated
        rw [run] at later
        rw [loadFrom, if_neg (Nat.not_le.mpr short), if_pos stop, run, pathParts, if_pos stop, leadsTo, named]
        cases found with
        | none =>
            refine ⟨_, rfl, ?_⟩
            by_cases last : path = [] <;> simp [last]
        | some next => exact ih terminated.2 later
      · rw [loadFromStores, if_neg stop, inBounds_char] at inside
        rw [pathParts, if_neg stop] at terminated ⊢
        rw [loadFrom, if_neg (Nat.not_le.mpr inside.1), if_neg stop]
        exact ih terminated inside.2

theorem parentDirStores_inBounds :
    InBounds (parentDirStores path) ↔ (getParentDirName path).length < filePathMaxLength := by
  rw [parentDirStores, inBounds_cons, inBounds_cons, inBounds_cons, and_iff_left inBounds_nil]
  simp only [LocalBuffer.size]
  omega

/-- The names of the directories that are searched, where they fit, are terminated. -/
def SearchedTerminated (disk : Disk) (path : List UInt8) : Prop :=
  ∀ search ∈ searches disk (rootFcb disk) (pathParts path []).1,
    ReadFits search.1 filesSize → NamesTerminated disk search.1

theorem SearchedTerminated.all (terminated : SearchedTerminated disk path)
    (inside : InBounds (loadFromStores disk locals path [] (rootFcb disk))) :
    ∀ search ∈ searches disk (rootFcb disk) (pathParts path []).1, NamesTerminated disk search.1 := by
  have fits := ((@loadFromStores_inBounds disk locals (rootFcb disk) path [] terminated).mp ⟨Nat.zero_le _, inside⟩).1
  exact fun search member => terminated search member (fits search member).2

theorem loadedFile_eq (terminated : SearchedTerminated disk path)
    (inside : InBounds (loadFromStores disk locals path [] (rootFcb disk))) :
    loadedFile disk locals path index = leadsTo disk (rootFcb disk) (pathParts path []).1 := by
  obtain ⟨result, run, reached⟩ := @loadFrom_leads disk locals (rootFcb disk) path [] index (terminated.all inside) inside
  rw [loadedFile, run, ← reached]
  rfl

theorem loadFileCachedStores_inBounds (terminated : SearchedTerminated disk path) (old : FileCached) :
    InBounds (loadFileCachedStores disk locals path old) ↔ LoadFits disk path := by
  have loop := @loadFromStores_inBounds disk locals (rootFcb disk) path [] terminated
  rw [and_iff_right (show ([] : List UInt8).length ≤ fileNameMaxLength from Nat.zero_le _)] at loop
  have root : LocalBuffer.rootBuf.size = sectorSize := rfl
  have parent : InBounds (if strcmp path [] = 0 then [] else parentDirStores path) ↔
      (getParentDirName path).length < filePathMaxLength := by
    by_cases empty : path = []
    · rw [if_pos (strcmp_eq_zero.mpr empty), empty]
      exact iff_of_true inBounds_nil (by decide)
    · rw [if_neg (mt strcmp_eq_zero.mp empty), parentDirStores_inBounds]
  rw [loadFileCachedStores, List.cons_append, inBounds_cons, inBounds_append, inBounds_elim, root]
  constructor
  · rintro ⟨-, inside, last⟩
    obtain ⟨searched, tail⟩ := loop.mp inside
    refine ⟨searched, fun file reached => ⟨tail file reached, ?_⟩⟩
    rw [← @loadedFile_eq disk locals path old.pathState.indexInParentDir terminated inside] at reached
    exact parent.mp (last file reached)
  · intro fits
    have inside := loop.mpr ⟨fits.searched, fun file reached => (fits.found file reached).1⟩
    refine ⟨Or.inr (Nat.le_of_eq (Nat.zero_add _)), inside, fun file reached => parent.mpr ?_⟩
    rw [loadedFile_eq terminated inside] at reached
    exact (fits.found file reached).2

theorem sysExecveStores_inBounds (terminated : SearchedTerminated disk path) (fileCached : FileCached) :
    InBounds (sysExecveStores disk locals path fileCached) ↔ LoadFits disk path ∧
      ∀ file, leadsTo disk (rootFcb disk) (pathParts path []).1 = some file → ReadFits file tempCodeSizeMax := by
  rw [sysExecveStores, inBounds_append, inBounds_elim, loadFileCachedStores_inBounds terminated]
  apply and_congr_right
  intro fits
  have stores := (@loadFileCachedStores_inBounds disk locals path terminated fileCached).mpr fits
  rw [loadFileCachedStores, List.cons_append, inBounds_cons, inBounds_append] at stores
  rw [loadedFile_eq terminated stores.2.1]
  exact forall₂_congr fun file _ => inBounds_map.trans (readAllStores_inside (by decide))

theorem loadFrom_inBounds {result : FileResult × FileT × Nat}
    (run : loadFrom disk locals path temp file index = some result) :
    InBounds (loadFromStores disk locals path temp file) := by
  induction path generalizing temp file index with
  | nil => exact inBounds_nil
  | cons c path ih =>
      rw [loadFrom] at run
      by_cases long : fileNameMaxLength ≤ temp.length
      · rw [if_pos long] at run
        cases run
      · rw [if_neg long] at run
        rw [loadFromStores]
        by_cases stop : c = slash
        · rw [if_pos stop] at run ⊢
          obtain ⟨found, searched, run⟩ := Option.bind_eq_some_iff.mp run
          rw [List.cons_append, inBounds_char, inBounds_append, dirSearchFileStores_inBounds, searched]
          refine ⟨Nat.not_le.mp long, readFits_of_search searched, ?_⟩
          cases found with
          | none => exact inBounds_nil
          | some next => exact ih run
        · rw [if_neg stop] at run ⊢
          exact inBounds_char.mpr ⟨Nat.not_le.mp long, ih run⟩

/-- The model has a result just when all the stores are in bounds. -/
theorem loadFileCached_isSome_iff (terminated : SearchedTerminated disk path) (old : FileCached) :
    (loadFileCached disk locals path old).isSome ↔ InBounds (loadFileCachedStores disk locals path old) := by
  have root : LocalBuffer.rootBuf.size = sectorSize := rfl
  rw [loadFileCachedStores, List.cons_append, inBounds_cons, inBounds_append, root,
    and_iff_right (Or.inr (Nat.le_of_eq (Nat.zero_add _)))]
  cases run : loadFrom disk locals path [] (rootFcb disk) old.pathState.indexInParentDir with
  | none =>
      rw [rootFcb] at run
      have missing : loadFileCached disk locals path old = none := by
        rw [loadFileCached, run]
        rfl
      rw [missing]
      refine iff_of_false Bool.false_ne_true fun stores => ?_
      obtain ⟨result, found, -⟩ := @loadFrom_leads disk locals (rootFcb disk) path []
        old.pathState.indexInParentDir (terminated.all stores.1) stores.1
      rw [rootFcb, run] at found
      cases found
  | some result =>
      rw [and_iff_right (loadFrom_inBounds run), loadedFile, run, Option.bind_some]
      rw [rootFcb] at run
      simp only [loadFileCached, run, Option.bind_eq_bind, Option.bind_some]
      by_cases success : result.1 = .success
      · rw [if_pos success, if_pos success, Option.elim_some]
        by_cases empty : strcmp path [] = 0
        · rw [if_pos empty, if_pos empty]
          exact iff_of_true rfl inBounds_nil
        · rw [if_neg empty, if_neg empty, parentDirStores_inBounds]
          split_ifs with long
          · exact iff_of_false Bool.false_ne_true (Nat.not_lt.mpr long)
          · exact iff_of_true rfl (Nat.not_le.mp long)
      · rw [if_neg success, if_neg success, Option.elim_none]
        exact iff_of_true rfl inBounds_nil

end Walk

/-- On every disk, for a path whose searches meet terminated names: the stores of `dir_search_file` are in bounds just
when the directory fits, those of `load_file_cached` just when the path fits, and those of `sys_execve` when the file
that is found fits as well. -/
theorem path_stores_iff {disk : Disk} {path : List UInt8} (terminated : SearchedTerminated disk path)
    (locals : Locals) (old : FileCached) :
    (∀ dir, InBounds (dirSearchFileStores disk dir) ↔ ReadFits dir filesSize) ∧
      (InBounds (loadFileCachedStores disk locals path old) ↔ LoadFits disk path) ∧
      (InBounds (sysExecveStores disk locals path old) ↔ LoadFits disk path ∧
        ∀ file, leadsTo disk (rootFcb disk) (pathParts path []).1 = some file → ReadFits file tempCodeSizeMax) :=
  ⟨fun _ => dirSearchFileStores_inBounds, loadFileCachedStores_inBounds terminated old,
    sysExecveStores_inBounds terminated old⟩

instance (disk : Disk) (dir : FileT) : Decidable (NamesTerminated disk dir) :=
  decidable_of_iff (∀ i < entryCount dir, (recordAt disk dir i).name.isSome)
    (forall₂_congr fun _ _ => Option.isSome_iff_exists)

instance (disk : Disk) (path : List UInt8) : Decidable (SearchedTerminated disk path) :=
  inferInstanceAs (Decidable (∀ search ∈ _, _ → _))

theorem path_stores_inner :
    InBounds (sysExecveStores sampleTree sampleLocals [100, slash, 98, slash] sampleCached) := by
  apply (path_stores_iff (by decide +kernel) sampleLocals sampleCached).2.2.mpr
  have searched : ∀ search ∈ searches sampleTree (rootFcb sampleTree) [[100], [98]],
      search.2.length < fileNameMaxLength ∧ ReadFits search.1 filesSize := by decide +kernel
  have code : (leadsTo sampleTree (rootFcb sampleTree) [[100], [98]]).all
      fun file => decide (ReadFits file tempCodeSizeMax) := by decide +kernel
  refine ⟨⟨searched, fun file _ => by decide⟩, fun file reached => ?_⟩
  have parts : (pathParts [100, slash, 98, slash] []).1 = [[100], [98]] := by decide
  rw [parts] at reached
  rw [reached, Option.all_some] at code
  exact of_decide_eq_true code

theorem path_stores_long_name : SearchedTerminated sampleTree (List.replicate 64 97 ++ [slash]) ∧
    ¬InBounds (loadFileCachedStores sampleTree sampleLocals (List.replicate 64 97 ++ [slash]) sampleCached) := by
  have terminated : SearchedTerminated sampleTree (List.replicate 64 97 ++ [slash]) := by decide +kernel
  refine ⟨terminated, fun inside => ?_⟩
  have fits := (loadFileCachedStores_inBounds terminated sampleCached).mp inside
  have long : ¬∀ search ∈ searches sampleTree (rootFcb sampleTree) (pathParts (List.replicate 64 97 ++ [slash]) []).1,
      search.2.length < fileNameMaxLength := by decide +kernel
  exact long fun search member => (fits.searched search member).1

end WegOS
