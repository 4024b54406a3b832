import WegOS.FileRead

/-! Directories and the lookup of paths.

A directory is an array of control blocks, and a path names in each directory the first
one with the name of its next component. -/

namespace WegOS

open LittleEndian CArray BlockChain

def sectorsOf (disk : Disk) (f : FileT) : List UInt32 :=
  chainFrom blockFormat disk f.sectorCount.toNat f.firstSector

def FileT.name (f : FileT) : Option (List UInt8) := cstr f.fileName.cell 0 fileNameMaxLength

def rootFcb (disk : Disk) : FileT := fileAt (disk sectorWithRootFcb).cell 0

def entryCount (dir : FileT) : Nat := dir.size / fileTSize

def entry (disk : Disk) (dir : FileT) (i : Nat) : FileT :=
  fileAt (byteOf disk (sectorsOf disk dir)) (fileTSize * i)

def lookup (disk : Disk) (dir : FileT) (name : List UInt8) : Option Nat :=
  (List.range (entryCount dir)).find? fun i => (entry disk dir i).name == some name

def resolve (disk : Disk) : FileT → List (List UInt8) → Option FileT
  | dir, [] => some dir
  | dir, c :: rest => (lookup disk dir c).bind fun i => resolve disk (entry disk dir i) rest

/-- The blocks of a directory reach beyond its end, its entries fit in the array they are
read to, and their names are terminated. -/
structure IsDirectory (disk : Disk) (dir : FileT) : Prop where
  positive : 0 ≤ dir.fileSize
  room : nthBlock dir.size < dir.sectorCount.toNat
  small : dir.size ≤ filesSize
  named : ∀ i < entryCount dir, ∃ name, (entry disk dir i).name = some name

def Along (disk : Disk) (dir : FileT) (components : List (List UInt8)) (holds : FileT → Prop) : Prop :=
  ∀ init c rest, components = init ++ c :: rest →
    ∀ inner, resolve disk dir init = some inner → holds inner

def Component (c : List UInt8) : Prop := c.length < fileNameMaxLength ∧ slash ∉ c

theorem length_sectorsOf (disk : Disk) (f : FileT) : (sectorsOf disk f).length = f.sectorCount.toNat :=
  length_chainFrom _ _

theorem sectorsOf_linked (disk : Disk) (f : FileT) : Linked blockFormat disk (sectorsOf disk f) :=
  chainFrom_linked _ _

theorem sectorsOf_first (disk : Disk) {f : FileT} (nonempty : 0 < f.sectorCount.toNat) :
    (sectorsOf disk f)[0]? = some f.firstSector := by
  obtain ⟨count, positive⟩ := Nat.exists_eq_succ_of_ne_zero (Nat.ne_of_gt nonempty)
  rw [sectorsOf, positive]
  rfl

theorem wellFormed_of_check {disk : Disk} {f : FileT}
    (check : 0 ≤ f.fileSize ∧ nthBlock f.size < f.sectorCount.toNat ∧
      (sectorsOf disk f).getLast? = some f.lastSector ∧ (sectorsOf disk f).Nodup) :
    WellFormed disk f (sectorsOf disk f) where
  first := sectorsOf_first disk (Nat.lt_of_le_of_lt (Nat.zero_le _) check.2.1)
  linked := sectorsOf_linked disk f
  positive := check.1
  room := by rw [length_sectorsOf]; exact check.2.1
  last := check.2.2.1
  count := length_sectorsOf disk f
  nodup := check.2.2.2

theorem IsDirectory.readable {disk : Disk} {dir : FileT} (directory : IsDirectory disk dir) :
    Readable disk dir (sectorsOf disk dir) where
  first := sectorsOf_first disk (Nat.zero_lt_of_lt directory.room)
  linked := sectorsOf_linked disk dir
  positive := directory.positive
  room := by
    rw [length_sectorsOf]
    exact directory.room

/-! ## One directory -/

theorem readExtent_zero {size : Nat} (small : size ≤ filesSize) : readExtent 0 size ≤ filesSize := by
  unfold readExtent
  split_ifs
  · exact small
  · simp only [inBlockOffset_eq, filesSize, fileTSize] at small ⊢
    omega

theorem readAll_spec {disk : Disk} {file : FileT} {chain : List UInt32}
    (readable : Readable disk file chain) (buf : Nat → UInt8) :
    ∃ buf', readAll disk file buf = some buf' ∧ ∀ i < file.size, buf' i = byteOf disk chain i := by
  have here : chain[nthBlock 0]? = some file.firstSector := readable.first
  obtain ⟨sector, buf', result, -, bytes, -⟩ :=
    sysRead_spec readable ⟨0, 0, file.firstSector, file.firstSector⟩ buf file.size here
      (Nat.le_of_eq (Nat.zero_add _))
  refine ⟨buf', ?_, fun i small => ?_⟩
  · rw [readAll, if_neg (Int32.not_lt.mpr readable.positive)]
    exact congrArg (fun r => some r.2.2) result
  · rw [bytes i small, Nat.zero_add]

theorem searchFrom_records {content files : Nat → UInt8} {size count : Nat} (small : size ≤ filesSize)
    (inSize : fileTSize * count ≤ size)
    (named : ∀ i < count, ∃ name, (fileAt content (fileTSize * i)).name = some name)
    (same : ∀ i < size, files i = content i) (name : List UInt8) {left i : Nat} (inside : i + left ≤ count) :
    searchFrom files name left i =
      some (((List.range' i left).find? fun i => (fileAt content (fileTSize * i)).name == some name).map
        fun i => (i, fileAt content (fileTSize * i))) := by
  induction left generalizing i with
  | zero => rfl
  | succ left ih =>
      obtain ⟨found, named⟩ := named i (by omega)
      have place : fileTSize * i + fileTSize ≤ size :=
        Nat.le_trans (Nat.mul_le_mul_left fileTSize (show i + 1 ≤ count by omega)) inSize
      have bytes : ∀ k < fileTSize, files (fileTSize * i + k) = content (fileTSize * i + k) :=
        fun k small => same _ (by omega)
      have room : fileNameMaxLength ≤ filesSize - fileTSize * i := by
        simp only [fileNameMaxLength, fileTSize] at place ⊢
        omega
      have here : fileAt files (fileTSize * i) = fileAt content (fileTSize * i) := fileAt_congr bytes
      have terminated : cstr files (fileTSize * i) (filesSize - fileTSize * i) = some found := by
        apply cstr_congr named _ room
        intro k inside
        rw [Nat.zero_add, bytes k (Nat.lt_trans inside (by decide)), fileAt, cell_ofCells inside]
      rw [searchFrom, terminated, List.range'_succ, List.find?_cons, named]
      simp only [Option.bind_eq_bind, Option.bind_some, strcmp_eq_zero, here]
      by_cases equal : found = name
      · rw [if_pos equal, equal]
        simp
      · have other : (some found == some name) = false := by simpa using equal
        rw [if_neg equal, other, ih (by omega)]

theorem dirSearchFile_spec {disk : Disk} {dir : FileT} (directory : IsDirectory disk dir)
    (locals : Locals) (name : List UInt8) :
    dirSearchFile disk locals dir name =
      some ((lookup disk dir name).map fun i => (i, entry disk dir i)) := by
  obtain ⟨files, result, bytes⟩ := readAll_spec directory.readable locals.files
  have count : dir.fileSize.toUInt32.toNat / fileTSize = entryCount dir := by
    rw [Int32.toNat_toUInt32_of_le directory.positive]
    rfl
  have fits : ¬filesSize < readExtent 0 dir.fileSize.toNatClampNeg :=
    Nat.not_lt.mpr (readExtent_zero directory.small)
  simp only [dirSearchFile, if_neg fits, result, Option.bind_eq_bind, Option.bind_some, count]
  rw [lookup, List.range_eq_range']
  exact searchFrom_records directory.small (Nat.mul_div_le _ _) directory.named bytes name
    (Nat.le_of_eq (Nat.zero_add _))

/-! ## Paths -/

theorem loadFrom_chars (disk : Disk) (locals : Locals) (rest : List UInt8) (file : FileT) (index : Nat)
    {c temp : List UInt8} (clean : slash ∉ c) (short : temp.length + c.length ≤ fileNameMaxLength) :
    loadFrom disk locals (c ++ rest) temp file index = loadFrom disk locals rest (temp ++ c) file index := by
  induction c generalizing temp with
  | nil => rw [List.nil_append, List.append_nil]
  | cons char c ih =>
      rw [List.length_cons] at short
      rw [List.mem_cons, not_or] at clean
      have room : ¬fileNameMaxLength ≤ temp.length := by omega
      have other : char ≠ slash := fun equal => clean.1 equal.symm
      calc
        _ = loadFrom disk locals (c ++ rest) (temp ++ [char]) file index := by
          rw [List.cons_append, loadFrom, if_neg room, if_neg other]
        _ = loadFrom disk locals rest (temp ++ [char] ++ c) file index :=
          ih clean.2 (by rw [List.length_append, List.length_singleton]; omega)
        _ = _ := by rw [List.append_assoc, List.singleton_append]

theorem loadFrom_component {disk : Disk} {dir : FileT} (directory : IsDirectory disk dir) (locals : Locals)
    {c : List UInt8} (component : Component c) (rest : List UInt8) (index : Nat) :
    loadFrom disk locals (c ++ slash :: rest) [] dir index =
      match lookup disk dir c with
      | none => some (if rest = [] then .notExisting else .dirNotExisting, dir, index)
      | some i => loadFrom disk locals rest [] (entry disk dir i) i := by
  have room : ¬fileNameMaxLength ≤ c.length := Nat.not_le.mpr component.1
  have short : ([] : List UInt8).length + c.length ≤ fileNameMaxLength := by
    rw [List.length_nil, Nat.zero_add]
    exact Nat.le_of_lt component.1
  rw [loadFrom_chars disk locals _ dir index component.2 short, List.nil_append, loadFrom,
    if_neg room, if_pos rfl, dirSearchFile_spec directory]
  cases lookup disk dir c <;> rfl

section Along

variable {disk : Disk} {dir : FileT} {c : List UInt8} {rest : List (List UInt8)} {holds : FileT → Prop}

theorem Along.head (along : Along disk dir (c :: rest) holds) : holds dir := along [] c rest rfl dir rfl

theorem Along.tail (along : Along disk dir (c :: rest) holds) {i : Nat} (found : lookup disk dir c = some i) :
    Along disk (entry disk dir i) rest holds := by
  intro init d rest' split inner reached
  apply along (c :: init) d rest' (by rw [split, List.cons_append])
  rw [resolve, found]
  exact reached

theorem resolve_concat (disk : Disk) (dir : FileT) (init : List (List UInt8)) (c : List UInt8) :
    resolve disk dir (init ++ [c]) =
      (resolve disk dir init).bind fun parent => (lookup disk parent c).map (entry disk parent) := by
  induction init generalizing dir with
  | nil =>
      rw [List.nil_append, resolve, resolve, Option.bind_some]
      cases lookup disk dir c <;> rfl
  | cons d init ih =>
      rw [List.cons_append, resolve, resolve, Option.bind_assoc]
      simp only [ih]

theorem Along.left {init more : List (List UInt8)} (along : Along disk dir (init ++ more) holds) :
    Along disk dir init holds := by
  rintro first c rest rfl
  exact along first c (rest ++ more) (by simp)

theorem along_nil : Along disk dir [] holds := by
  intro init c rest split
  simp at split

theorem along_cons (here : holds dir)
    (inner : ∀ i, lookup disk dir c = some i → Along disk (entry disk dir i) rest holds) :
    Along disk dir (c :: rest) holds := by
  intro init d after split reached resolved
  cases init with
  | nil =>
      obtain rfl := Option.some.inj resolved
      exact here
  | cons e init =>
      obtain ⟨rfl, later⟩ := List.cons.inj split
      obtain ⟨i, found, resolved⟩ := Option.bind_eq_some_iff.mp resolved
      exact inner i found init d after later reached resolved

theorem along_concat {init : List (List UInt8)} (along : Along disk dir init holds)
    (last : ∀ d, resolve disk dir init = some d → holds d) : Along disk dir (init ++ [c]) holds := by
  intro first d rest split inner reached
  rcases List.eq_nil_or_concat' rest with rfl | ⟨rest, e, rfl⟩
  · obtain ⟨rfl, -⟩ := List.append_inj' split rfl
    exact last inner reached
  · obtain ⟨front, -⟩ := List.append_inj' (split.trans (List.append_assoc first (d :: rest) [e]).symm) rfl
    exact along first d rest front inner reached

end Along

/-- What a path leads to is reached through the path before its last component. -/
theorem resolve_dropLast {disk : Disk} {dir f : FileT} {components : List (List UInt8)}
    (resolved : resolve disk dir components = some f) : resolve disk dir components.dropLast ≠ none := by
  rcases List.eq_nil_or_concat' components with rfl | ⟨init, c, rfl⟩
  · simp [resolve]
  · rw [resolve_concat] at resolved
    obtain ⟨parent, reached, -⟩ := Option.bind_eq_some_iff.mp resolved
    simp [reached]

theorem loadFrom_resolved {disk : Disk} (locals : Locals) {components : List (List UInt8)} {dir f : FileT}
    (along : Along disk dir components (IsDirectory disk)) (each : ∀ c ∈ components, Component c)
    (resolved : resolve disk dir components = some f) (index : Nat) :
    ∃ index', loadFrom disk locals (joinPath components) [] dir index = some (.success, f, index') ∧
      (components = [] → index' = index) ∧
      ∀ init c, components = init ++ [c] →
        ∃ parent, resolve disk dir init = some parent ∧ lookup disk parent c = some index' := by
  induction components generalizing dir index with
  | nil =>
      obtain rfl := Option.some.inj resolved
      exact ⟨index, rfl, fun _ => rfl, by simp⟩
  | cons c rest ih =>
      obtain ⟨i, found, resolved⟩ := Option.bind_eq_some_iff.mp resolved
      obtain ⟨index', result, same, last⟩ :=
        ih (along.tail found) (fun d member => each d (List.mem_cons_of_mem _ member)) resolved i
      refine ⟨index', ?_, by simp, ?_⟩
      · rw [joinPath_cons, loadFrom_component along.head locals (each c List.mem_cons_self), found]
        exact result
      · intro init d split
        cases init with
        | nil =>
            obtain ⟨rfl, none⟩ := List.cons.inj split
            rw [same none]
            exact ⟨dir, rfl, found⟩
        | cons e init =>
            obtain ⟨rfl, inner⟩ := List.cons.inj split
            rw [resolve, found]
            exact last init d inner

/-- A path that leads to nothing: a directory is missing, or just the last entry. -/
theorem loadFrom_unresolved {disk : Disk} (locals : Locals) {components : List (List UInt8)} {dir : FileT}
    (along : Along disk dir components (IsDirectory disk)) (each : ∀ c ∈ components, Component c)
    (unresolved : resolve disk dir components = none) (index : Nat) :
    ∃ f index', loadFrom disk locals (joinPath components) [] dir index =
      some (if resolve disk dir components.dropLast = none then .dirNotExisting else .notExisting,
        f, index') := by
  induction components generalizing dir index with
  | nil => exact absurd unresolved (by simp [resolve])
  | cons c rest ih =>
      rw [joinPath_cons, loadFrom_component along.head locals (each c List.mem_cons_self)]
      cases found : lookup disk dir c with
      | none =>
          refine ⟨dir, index, ?_⟩
          cases rest with
          | nil => rfl
          | cons d rest => simp [resolve, found]
      | some i =>
          rw [resolve, found, Option.bind_some] at unresolved
          obtain ⟨f, index', result⟩ :=
            ih (along.tail found) (fun d member => each d (List.mem_cons_of_mem _ member)) unresolved i
          refine ⟨f, index', ?_⟩
          cases rest with
          | nil => exact absurd unresolved (by simp [resolve])
          | cons d rest =>
              rw [List.dropLast_cons_cons, resolve, found, Option.bind_some]
              exact result

/-- A path as the kernel takes it: what comes before its last component fits in the array for
the name of the parent directory. -/
structure Path (components : List (List UInt8)) : Prop where
  each : ∀ c ∈ components, Component c
  short : (joinPath components.dropLast).length < filePathMaxLength

theorem Path.parent_short {init : List (List UInt8)} {c : List UInt8} (path : Path (init ++ [c])) :
    (joinPath init).length < filePathMaxLength := by
  have short := path.short
  rwa [List.dropLast_concat] at short

theorem Path.init {init : List (List UInt8)} {c : List UInt8} (path : Path (init ++ [c])) : Path init where
  each d member := path.each d (List.mem_append_left _ member)
  short := by
    have short := path.parent_short
    rcases List.eq_nil_or_concat' init with rfl | ⟨init, last, rfl⟩
    · exact short
    · rw [List.dropLast_concat]
      rw [joinPath_append, List.length_append] at short
      omega

theorem Path.sibling {init : List (List UInt8)} {c d : List UInt8} (path : Path (init ++ [c]))
    (component : Component d) : Path (init ++ [d]) where
  each := by
    intro e member
    rcases List.mem_append.mp member with old | new
    · exact path.each e (List.mem_append_left _ old)
    · exact List.mem_singleton.mp new ▸ component
  short := by
    rw [List.dropLast_concat]
    exact path.parent_short

structure Handle (disk : Disk) (components : List (List UInt8)) (cached : FileCached) : Prop where
  file : resolve disk (rootFcb disk) components = some cached.file
  hasParent : cached.pathState.hasParent = !components.isEmpty
  parent : ∀ init c, components = init ++ [c] → cached.pathState.parentDirName = joinPath init ∧
    ∃ dir, resolve disk (rootFcb disk) init = some dir ∧
      lookup disk dir c = some cached.pathState.indexInParentDir

structure Loaded (disk : Disk) (components : List (List UInt8)) (cached : FileCached) : Prop extends
    Handle disk components cached where
  ioState : cached.ioState = ⟨0, 0, cached.file.firstSector, cached.file.firstSector⟩

theorem loadFileCached_resolved {disk : Disk} (locals : Locals) {components : List (List UInt8)} {f : FileT}
    (path : Path components) (along : Along disk (rootFcb disk) components (IsDirectory disk))
    (resolved : resolve disk (rootFcb disk) components = some f) (old : FileCached) :
    ∃ cached, loadFileCached disk locals (joinPath components) old = some (.success, cached) ∧
      cached.file = f ∧ Loaded disk components cached := by
  obtain ⟨index, result, -, last⟩ :=
    loadFrom_resolved locals along path.each resolved old.pathState.indexInParentDir
  rw [rootFcb] at result
  rcases List.eq_nil_or_concat' components with rfl | ⟨init, c, rfl⟩
  · rw [joinPath_nil] at result
    refine ⟨⟨f, ⟨0, 0, f.firstSector, f.firstSector⟩, ⟨old.pathState.parentDirName, index, false⟩⟩, ?_, rfl,
      ⟨resolved, rfl, by simp⟩, rfl⟩
    simp only [loadFileCached, joinPath_nil, result, Option.bind_eq_bind, Option.bind_some, if_pos]
    rfl
  · have parent := getParentDirName_join init (path.each c (by simp)).2
    have nonempty : ¬strcmp (joinPath (init ++ [c])) [] = 0 := by
      rw [strcmp_eq_zero, joinPath_eq_nil]
      simp
    have room : ¬filePathMaxLength ≤ (joinPath init).length := Nat.not_le.mpr path.parent_short
    refine ⟨⟨f, ⟨0, 0, f.firstSector, f.firstSector⟩, ⟨joinPath init, index, true⟩⟩, ?_, rfl,
      ⟨resolved, by simp, ?_⟩, rfl⟩
    · simp only [loadFileCached, result, Option.bind_eq_bind, Option.bind_some, if_pos, if_neg nonempty,
        parent, if_neg room]
    · intro init' c' split
      obtain ⟨rfl, equal⟩ := List.append_inj' split rfl
      exact ⟨rfl, last init c' split⟩

theorem loadFileCached_unresolved {disk : Disk} (locals : Locals) {components : List (List UInt8)}
    (path : Path components) (along : Along disk (rootFcb disk) components (IsDirectory disk))
    (unresolved : resolve disk (rootFcb disk) components = none) (old : FileCached) :
    ∃ cached, loadFileCached disk locals (joinPath components) old =
      some (if resolve disk (rootFcb disk) components.dropLast = none then .dirNotExisting
        else .notExisting, cached) := by
  obtain ⟨f, index, result⟩ :=
    loadFrom_unresolved locals along path.each unresolved old.pathState.indexInParentDir
  have failed : (if resolve disk (rootFcb disk) components.dropLast = none then FileResult.dirNotExisting
      else .notExisting) ≠ .success := by
    split_ifs <;> decide
  generalize (if resolve disk (rootFcb disk) components.dropLast = none then FileResult.dirNotExisting
    else .notExisting) = outcome at result failed ⊢
  rw [rootFcb] at result
  refine ⟨{ old with file := f, pathState := { old.pathState with indexInParentDir := index } }, ?_⟩
  simp only [loadFileCached, result, Option.bind_eq_bind, Option.bind_some, if_neg failed]

/-- `load_file_cached` finds what the path leads to, and tells a missing directory from a
missing last entry. -/
theorem loadFileCached_spec (disk : Disk) (locals : Locals) (components : List (List UInt8))
    (path : Path components) (along : Along disk (rootFcb disk) components (IsDirectory disk))
    (old : FileCached) :
    ∃ result cached, loadFileCached disk locals (joinPath components) old = some (result, cached) ∧
      (result = .success ↔ ∃ f, resolve disk (rootFcb disk) components = some f) ∧
      (∀ f, resolve disk (rootFcb disk) components = some f → cached.file = f ∧
        cached.ioState = ⟨0, 0, f.firstSector, f.firstSector⟩) ∧
      (result = .dirNotExisting ↔ resolve disk (rootFcb disk) components.dropLast = none) ∧
      (result = .notExisting ↔ (∃ dir, resolve disk (rootFcb disk) components.dropLast = some dir) ∧
        resolve disk (rootFcb disk) components = none) := by
  cases resolved : resolve disk (rootFcb disk) components with
  | some f =>
      obtain ⟨cached, result, rfl, loaded⟩ := loadFileCached_resolved locals path along resolved old
      have before := resolve_dropLast resolved
      refine ⟨.success, cached, result, by simp, ?_, by simp [before], by simp⟩
      rintro f ⟨⟩
      exact ⟨rfl, loaded.ioState⟩
  | none =>
      obtain ⟨cached, result⟩ := loadFileCached_unresolved locals path along resolved old
      refine ⟨_, cached, result, ?_, by simp, ?_, ?_⟩
      · split_ifs <;> simp
      · split_ifs with missing <;> simp [missing]
      · split_ifs with missing
        · simp [missing]
        · simpa [Option.ne_none_iff_exists'] using missing

/-! ## A sample tree -/

def entryBytes (entries : List FileT) (i : Nat) : UInt8 :=
  entries[i / fileTSize]?.elim 0 fun f => f.bytes (i % fileTSize)

def sampleRoot : FileT where
  fileName := sampleName 114
  firstSector := 1025
  lastSector := 1025
  sectorCount := 1
  fileSize := 168
  fileType := FileType.directory.code

def sampleDir : FileT where
  fileName := sampleName 100
  firstSector := 1028
  lastSector := 1028
  sectorCount := 1
  fileSize := 84
  fileType := FileType.directory.code

def sampleInner : FileT where
  fileName := sampleName 98
  firstSector := 1029
  lastSector := 1031
  sectorCount := 3
  fileSize := 0
  fileType := FileType.normal.code

def sampleTree : Disk :=
  layOut (layOut (layOut (layOut sampleDisk [1029, 1030, 1031] fun _ => 0) [1028]
    (entryBytes [sampleInner])) [1025] (entryBytes [sampleFile, sampleDir])) [1024] sampleRoot.bytes

def sampleCached : FileCached := ⟨sampleFile, ⟨0, 0, 0, 0⟩, ⟨[], 0, false⟩⟩

def sampleLocals : Locals where
  files _ := 0
  temp _ := 0
  fcbSector _ := 0
  newFile _ := 0
  newFileBlock _ := 0
  parentDir := sampleCached

theorem isDirectory_of_check {disk : Disk} {dir : FileT}
    (check : 0 ≤ dir.fileSize ∧ nthBlock dir.size < dir.sectorCount.toNat ∧ dir.size ≤ filesSize ∧
      ∀ i < entryCount dir, (entry disk dir i).name.isSome) : IsDirectory disk dir where
  positive := check.1
  room := check.2.1
  small := check.2.2.1
  named i inside := Option.isSome_iff_exists.mp (check.2.2.2 i inside)

theorem sampleTree_along : Along sampleTree (rootFcb sampleTree) [[100], [98]] (IsDirectory sampleTree) := by
  apply along_cons (isDirectory_of_check (by decide +kernel))
  intro i found
  obtain rfl : 1 = i := Option.some.inj
    ((by decide +kernel : lookup sampleTree (rootFcb sampleTree) [100] = some 1).symm.trans found)
  apply along_cons (isDirectory_of_check (by decide +kernel))
  exact fun _ _ => along_nil

theorem sampleTree_path : Path [[100], [98]] where
  each := by
    unfold Component
    decide
  short := by decide

theorem loadFileCached_spec_inner :
    ∃ cached, loadFileCached sampleTree sampleLocals (joinPath [[100], [98]]) sampleCached =
      some (.success, cached) ∧ cached.file.firstSector = 1029 := by
  obtain ⟨result, cached, run, success, found, -⟩ :=
    loadFileCached_spec sampleTree sampleLocals [[100], [98]] sampleTree_path sampleTree_along sampleCached
  obtain ⟨f, resolved, first⟩ := Option.map_eq_some_iff.mp
    (by decide +kernel : (resolve sampleTree (rootFcb sampleTree) [[100], [98]]).map
      FileT.firstSector = some 1029)
  rw [success.mpr ⟨f, resolved⟩] at run
  exact ⟨cached, run, by rw [(found f resolved).1, first]⟩

end WegOS
