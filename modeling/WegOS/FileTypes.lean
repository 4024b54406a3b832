import WegOS.CreateFile

/-! Which files `load_file_cached` reads as directories.

`dir_search_file` asks for the control block of a directory; nothing looks at `file_type` before the call. -/

namespace WegOS

open LittleEndian CArray

/-- The components of a path that are looked up, those before a `/`, up to one too long for `temp`. -/
def namesFrom : List UInt8 → List UInt8 → List (List UInt8)
  | [], _ => []
  | c :: rest, temp =>
      if fileNameMaxLength ≤ temp.length then []
      else if c = slash then temp :: namesFrom rest []
      else namesFrom rest (temp ++ [c])

/-- The control blocks that the loop of `load_file_cached` hands to `dir_search_file`. -/
def searchedFrom (disk : Disk) (locals : Locals) : List UInt8 → List UInt8 → FileT → List FileT
  | [], _, _ => []
  | c :: rest, temp, file =>
      if fileNameMaxLength ≤ temp.length then []
      else if c = slash then
        file :: (dirSearchFile disk locals file temp).join.elim [] fun found => searchedFrom disk locals rest [] found.2
      else searchedFrom disk locals rest (temp ++ [c]) file

def follow (disk : Disk) (locals : Locals) : FileT → List (List UInt8) → Option FileT
  | file, [] => some file
  | file, name :: rest =>
      (dirSearchFile disk locals file name).join.bind fun found => follow disk locals found.2 rest

def RecordOf (disk : Disk) (locals : Locals) (dir f : FileT) : Prop :=
  dir.fileType = FileType.directory.code ∧ ∃ files i, readAll disk dir locals.files = some files ∧
    i < dir.fileSize.toUInt32.toNat / fileTSize ∧ f = fileAt files (fileTSize * i)

inductive Reached (disk : Disk) (locals : Locals) : FileT → FileT → Prop
  | here (f : FileT) : Reached disk locals f f
  | record {dir found f : FileT} : RecordOf disk locals dir found → Reached disk locals found f →
      Reached disk locals dir f

/-- The handle comes from the root through directories only, and no other content is read as entries. -/
structure RespectsTypes (disk : Disk) (locals : Locals) (path : List UInt8) : Prop where
  handle : ∀ old cached, loadFileCached disk locals path old = some (.success, cached) →
    Reached disk locals (rootFcb disk) cached.file
  searched : ∀ g ∈ searchedFrom disk locals path [] (rootFcb disk), g.fileType = FileType.directory.code

section Search

variable {disk : Disk} {locals : Locals} {dir f g : FileT}

theorem searchFrom_record {files : Nat → UInt8} {name : List UInt8} {left i k : Nat}
    (found : searchFrom files name left i = some (some (k, f))) :
    k < i + left ∧ f = fileAt files (fileTSize * k) := by
  induction left generalizing i with
  | zero => cases found
  | succ left ih =>
      obtain ⟨read, -, found⟩ := Option.bind_eq_some_iff.mp found
      split_ifs at found with equal
      · obtain ⟨rfl, rfl⟩ := Prod.mk.inj (Option.some.inj (Option.some.inj found))
        exact ⟨by omega, rfl⟩
      · obtain ⟨inside, record⟩ := ih found
        exact ⟨by omega, record⟩

theorem dirSearchFile_record (directory : dir.fileType = FileType.directory.code) {name : List UInt8} {k : Nat}
    (found : dirSearchFile disk locals dir name = some (some (k, f))) : RecordOf disk locals dir f := by
  refine ⟨directory, ?_⟩
  simp only [dirSearchFile] at found
  split_ifs at found with long
  · cases found
  · obtain ⟨files, read, found⟩ := Option.bind_eq_some_iff.mp found
    obtain ⟨inside, record⟩ := searchFrom_record found
    exact ⟨files, k, read, by omega, record⟩

theorem mem_searchedFrom {path temp : List UInt8} :
    g ∈ searchedFrom disk locals path temp dir ↔ ∃ init name rest, namesFrom path temp = init ++ name :: rest ∧
      follow disk locals dir init = some g := by
  induction path generalizing temp dir with
  | nil => simp [searchedFrom, namesFrom]
  | cons c path ih =>
      rw [searchedFrom, namesFrom]
      by_cases long : fileNameMaxLength ≤ temp.length
      · simp [long]
      · by_cases stop : c = slash
        · rw [if_neg long, if_neg long, if_pos stop, if_pos stop, List.mem_cons]
          constructor
          · rintro (rfl | later)
            · exact ⟨[], temp, namesFrom path [], rfl, rfl⟩
            · cases found : (dirSearchFile disk locals dir temp).join with
              | none =>
                  rw [found] at later
                  cases later
              | some next =>
                  rw [found] at later
                  obtain ⟨init, name, rest, split, reached⟩ := ih.mp later
                  refine ⟨temp :: init, name, rest, by rw [split, List.cons_append], ?_⟩
                  rw [follow, found]
                  exact reached
          · rintro ⟨init, name, rest, split, reached⟩
            cases init with
            | nil => exact Or.inl (Option.some.inj reached).symm
            | cons first init =>
                obtain ⟨rfl, inner⟩ := List.cons.inj split
                obtain ⟨next, found, reached⟩ := Option.bind_eq_some_iff.mp reached
                refine Or.inr ?_
                rw [found]
                exact ih.mpr ⟨init, name, rest, inner, reached⟩
        · rw [if_neg long, if_neg long, if_neg stop, if_neg stop]
          exact ih

theorem follow_of_loadFrom {path temp : List UInt8} {index index' : Nat}
    (result : loadFrom disk locals path temp dir index = some (.success, f, index')) :
    follow disk locals dir (namesFrom path temp) = some f := by
  induction path generalizing temp dir index with
  | nil =>
      obtain ⟨-, rfl, -⟩ : FileResult.success = .success ∧ dir = f ∧ index = index' := by
        simpa [loadFrom] using result
      rfl
  | cons c path ih =>
      rw [loadFrom] at result
      rw [namesFrom]
      by_cases long : fileNameMaxLength ≤ temp.length
      · rw [if_pos long] at result
        cases result
      · rw [if_neg long] at result ⊢
        by_cases stop : c = slash
        · rw [if_pos stop] at result ⊢
          obtain ⟨searched, run, result⟩ := Option.bind_eq_some_iff.mp result
          rw [follow, run]
          cases searched with
          | none => split_ifs at result <;> cases result
          | some found => exact ih result
        · rw [if_neg stop] at result ⊢
          exact ih result

theorem loadFileCached_success {path : List UInt8} {old cached : FileCached}
    (load : loadFileCached disk locals path old = some (.success, cached)) :
    ∃ index, loadFrom disk locals path [] (rootFcb disk) old.pathState.indexInParentDir =
      some (.success, cached.file, index) := by
  unfold loadFileCached at load
  obtain ⟨⟨result, file, index⟩, walked, finish⟩ := Option.bind_eq_some_iff.mp load
  dsimp only at finish
  refine ⟨index, ?_⟩
  rw [rootFcb, walked]
  by_cases success : result = .success
  · rw [if_pos success] at finish
    split_ifs at finish
    · rw [success, ← (Prod.mk.inj (Option.some.inj finish)).2]
    · rw [success, ← (Prod.mk.inj (Option.some.inj finish)).2]
  · rw [if_neg success] at finish
    exact absurd (Prod.mk.inj (Option.some.inj finish)).1 success

theorem reached_of_follow {names : List (List UInt8)} (reached : follow disk locals dir names = some f)
    (directories : ∀ init name rest, names = init ++ name :: rest → ∀ d, follow disk locals dir init = some d →
      d.fileType = FileType.directory.code) : Reached disk locals dir f := by
  induction names generalizing dir with
  | nil =>
      obtain rfl := Option.some.inj reached
      exact Reached.here dir
  | cons name names ih =>
      obtain ⟨next, found, reached⟩ := Option.bind_eq_some_iff.mp reached
      have record : RecordOf disk locals dir next.2 := by
        have searched : dirSearchFile disk locals dir name = some (some (next.1, next.2)) :=
          Option.join_eq_some_iff.mp found
        exact dirSearchFile_record (directories [] name names rfl dir rfl) searched
      refine Reached.record record (ih reached ?_)
      intro init c rest split d inner
      apply directories (name :: init) c rest (by rw [split, List.cons_append]) d
      rw [follow, found]
      exact inner

end Search

/-- On every disk, `load_file_cached` respects the file types for a path exactly when all that its names
lead to, but for the last, are directories. -/
theorem load_file_cached_types_iff (disk : Disk) (locals : Locals) (path : List UInt8) :
    RespectsTypes disk locals path ↔ ∀ init name rest, namesFrom path [] = init ++ name :: rest →
      ∀ g, follow disk locals (rootFcb disk) init = some g → g.fileType = FileType.directory.code := by
  constructor
  · intro respects init name rest split g reached
    exact respects.searched g (mem_searchedFrom.mpr ⟨init, name, rest, split, reached⟩)
  · intro directories
    refine ⟨fun old cached load => ?_, fun g member => ?_⟩
    · obtain ⟨index, walked⟩ := loadFileCached_success load
      exact reached_of_follow (follow_of_loadFrom walked) directories
    · obtain ⟨init, name, rest, split, reached⟩ := mem_searchedFrom.mp member
      exact directories init name rest split g reached

/-! ## Records that are written into a file -/

theorem loadFrom_append {disk : Disk} {locals : Locals} {components : List (List UInt8)} {dir f : FileT}
    {index index' : Nat} (each : ∀ c ∈ components, Component c)
    (walked : loadFrom disk locals (joinPath components) [] dir index = some (.success, f, index'))
    (rest : List UInt8) :
    loadFrom disk locals (joinPath components ++ rest) [] dir index = loadFrom disk locals rest [] f index' := by
  induction components generalizing dir index with
  | nil =>
      rw [joinPath_nil, loadFrom] at walked
      obtain ⟨-, same⟩ := Prod.mk.inj (Option.some.inj walked)
      obtain ⟨rfl, rfl⟩ := Prod.mk.inj same
      rfl
  | cons c components ih =>
      obtain ⟨short, clean⟩ := each c List.mem_cons_self
      have room : ¬fileNameMaxLength ≤ c.length := Nat.not_le.mpr short
      have fits : ([] : List UInt8).length + c.length ≤ fileNameMaxLength := by
        rw [List.length_nil, Nat.zero_add]
        exact Nat.le_of_lt short
      rw [joinPath_cons, loadFrom_chars disk locals _ dir index clean fits, List.nil_append, loadFrom, if_neg room,
        if_pos rfl] at walked
      rw [joinPath_cons, List.append_assoc, List.cons_append, loadFrom_chars disk locals _ dir index clean fits,
        List.nil_append, loadFrom, if_neg room, if_pos rfl]
      obtain ⟨searched, run, walked⟩ := Option.bind_eq_some_iff.mp walked
      rw [run]
      cases searched with
      | none =>
          obtain ⟨failed, -⟩ := Prod.mk.inj (Option.some.inj walked)
          split_ifs at failed
      | some found => exact ih (fun d member => each d (List.mem_cons_of_mem _ member)) walked

/-- The first record is found, whatever follows. -/
theorem dirSearchFile_first {disk : Disk} {file r : FileT} {chain : List UInt32} (readable : Readable disk file chain)
    (small : file.size ≤ filesSize) (whole : fileTSize ≤ file.size)
    (content : ∀ i < fileTSize, byteOf disk chain i = r.bytes i) {name : List UInt8} (named : r.name = some name)
    (locals : Locals) : dirSearchFile disk locals file name = some (some (0, r)) := by
  obtain ⟨files, read, bytes⟩ := readAll_spec readable locals.files
  have fits : ¬filesSize < readExtent 0 file.fileSize.toNatClampNeg := Nat.not_lt.mpr (readExtent_zero small)
  have record : fileAt files (fileTSize * 0) = r := by
    apply fileAt_eq
    intro i inside
    rw [Nat.mul_zero, Nat.zero_add, bytes i (Nat.lt_of_lt_of_le inside whole), content i inside]
  have count : file.fileSize.toUInt32.toNat / fileTSize = entryCount file - 1 + 1 := by
    have positive : 0 < entryCount file := Nat.div_pos whole (by decide)
    rw [Int32.toNat_toUInt32_of_le readable.positive]
    change entryCount file = _
    omega
  have first : cstr files (fileTSize * 0) (filesSize - fileTSize * 0) = some name := by
    rw [← record] at named
    refine cstr_congr named (fun k inside => ?_) (by decide)
    rw [Nat.zero_add, fileAt, cell_ofCells inside]
  simp only [dirSearchFile, if_neg fits, read, Option.bind_eq_bind, Option.bind_some]
  rw [count, searchFrom, first, Option.bind_eq_bind, Option.bind_some, if_pos (strcmp_eq_zero.mpr rfl), record]

/-- The bytes of any control block, written at the start of a file of whatever type, make that control
block the one that the path through the file leads to. -/
theorem written_record_loads {fs : FileSystem} (volume : Volume fs) (locals : Locals) (init : List (List UInt8))
    (c : List UInt8) (path : Path (init ++ [c])) (through : ThroughDirectories fs.disk (init ++ [c]))
    (cached : FileCached) (handle : Handle fs.disk (init ++ [c]) cached)
    (wellFormed : WellFormed fs.disk cached.file (sectorsOf fs.disk cached.file))
    (start : cached.ioState.writeSeek = 0)
    (here : (sectorsOf fs.disk cached.file)[nthBlock cached.ioState.writeSeek]? = some cached.ioState.writeSector)
    (fits : cached.file.size - cached.ioState.writeSeek + fileTSize ≤ tempSize)
    (enough : nthBlock (cached.file.size + fileTSize) + 1 - cached.file.sectorCount.toNat ≤
      freeSectors fs.fileAllocBitmap) (r : FileT)
    (links : LinksKept (grownChain fs.fileAllocBitmap (sectorsOf fs.disk cached.file) (cached.file.size + fileTSize))
      cached.file.size cached.ioState.writeSeek fileTSize
      (inserted (byteOf fs.disk (sectorsOf fs.disk cached.file)) r.bytes cached.ioState.writeSeek fileTSize))
    (tail : TailFits cached.file cached.ioState) {name : List UInt8} (named : r.name = some name)
    (clean : slash ∉ name) (short : (joinPath (init ++ [c])).length < filePathMaxLength) :
    ∃ fs' cached', sysWrite fs locals cached r.bytes fileTSize = some (fs', cached') ∧ ∀ locals' old, ∃ forged,
      loadFileCached fs'.disk locals' (joinPath (init ++ [c] ++ [name])) old = some (.success, forged) ∧
        forged.file = r := by
  obtain ⟨fs', cached', run, inserts⟩ := (sysWrite_inserts volume locals init c path through cached handle wellFormed
    (by rw [start]; exact Nat.zero_le _) here r.bytes fileTSize fits enough links).mpr tail
  refine ⟨fs', cached', run, fun locals' old => ?_⟩
  obtain ⟨reloaded, load, same⟩ := inserts.reload locals' old
  obtain ⟨index, walked⟩ := loadFileCached_success load
  rw [same] at walked
  have component : Component name := ⟨cstr_length named, clean⟩
  have found : dirSearchFile fs'.disk locals' cached'.file name = some (some (0, r)) := by
    refine dirSearchFile_first inserts.wellFormed.toReadable ?_ ?_ ?_ named locals'
    · rw [inserts.grown]
      rw [start] at fits
      exact Nat.le_trans fits (by decide)
    · rw [inserts.grown]
      exact Nat.le_add_left _ _
    · intro i inside
      rw [inserts.content i (Nat.lt_of_lt_of_le inside (Nat.le_add_left _ _)), start, inserted, if_neg (Nat.not_lt_zero i),
        if_pos (by omega), Nat.sub_zero]
  have last : loadFrom fs'.disk locals' (name ++ [slash]) [] cached'.file index = some (.success, r, 0) := by
    have room : ¬fileNameMaxLength ≤ name.length := Nat.not_le.mpr component.1
    rw [loadFrom_chars fs'.disk locals' _ _ _ clean (by rw [List.length_nil, Nat.zero_add]; exact Nat.le_of_lt component.1),
      List.nil_append, loadFrom, if_neg room, if_pos rfl, found]
    rfl
  have result : loadFrom fs'.disk locals' (joinPath (init ++ [c] ++ [name])) [] (fileAt (fs'.disk sectorWithRootFcb).cell 0)
      old.pathState.indexInParentDir = some (.success, r, 0) := by
    rw [joinPath_concat, List.append_assoc]
    exact (loadFrom_append path.each walked (name ++ [slash])).trans last
  have parent := getParentDirName_join (init ++ [c]) clean
  have nonempty : ¬strcmp (joinPath (init ++ [c] ++ [name])) [] = 0 := by
    rw [strcmp_eq_zero, joinPath_eq_nil]
    simp
  have room : ¬filePathMaxLength ≤ (joinPath (init ++ [c])).length := Nat.not_le.mpr short
  refine ⟨⟨r, ⟨0, 0, r.firstSector, r.firstSector⟩, ⟨joinPath (init ++ [c]), 0, true⟩⟩, ?_, rfl⟩
  simp only [loadFileCached, result, Option.bind_eq_bind, Option.bind_some, if_pos, if_neg nonempty, parent, if_neg room]

def forgedRecord : FileT where
  fileName := sampleName 120
  firstSector := 1
  lastSector := 1
  sectorCount := 1
  fileSize := 0x7FFFFFFF
  fileType := FileType.normal.code

/-- A user writes a record into the plain file `d/b`, and opens `d/b/x`. -/
theorem plain_file_read_as_directory : ∃ fs' cached' forged,
    sysWrite sampleFs sampleLocals sampleHandle forgedRecord.bytes fileTSize = some (fs', cached') ∧
      sampleHandle.file.fileType = FileType.normal.code ∧
      loadFileCached fs'.disk sampleLocals (joinPath [[100], [98], [120]]) sampleCached = some (.success, forged) ∧
      forged.file.firstSector = 1 ∧ forged.file.fileSize = 0x7FFFFFFF ∧
      ¬RespectsTypes fs'.disk sampleLocals (joinPath [[100], [98], [120]]) := by
  have searches : ((sysWrite sampleFs sampleLocals sampleHandle forgedRecord.bytes fileTSize).map fun written =>
      (searchedFrom written.1.disk sampleLocals (joinPath [[100], [98], [120]]) [] (rootFcb written.1.disk)).map
        FileT.fileType) = some [1, 1, 0] := by decide +kernel
  obtain ⟨fs', cached', run, loads⟩ := written_record_loads sampleFs_volume sampleLocals [[100]] [98] sampleTree_path
    sampleTree_directories sampleHandle sampleHandle_handle sampleInner_wellFormed rfl (by decide +kernel) (by decide)
    (Nat.zero_le _) forgedRecord (linksKept_short (by decide)) (by unfold TailFits; decide)
    (show forgedRecord.name = some [120] by decide +kernel) (by decide) (by decide)
  obtain ⟨forged, load, file⟩ := loads sampleLocals sampleCached
  refine ⟨fs', cached', forged, run, rfl, load, by rw [file]; rfl, by rw [file]; rfl, fun respects => ?_⟩
  rw [run, Option.map_some, Option.some.injEq] at searches
  have plain : (0 : UInt32) ∈ (searchedFrom fs'.disk sampleLocals (joinPath [[100], [98], [120]]) []
      (rootFcb fs'.disk)).map FileT.fileType := by
    rw [searches]
    decide
  obtain ⟨g, member, zero⟩ := List.mem_map.mp plain
  rw [respects.searched g member] at zero
  exact absurd zero (by decide)

end WegOS
