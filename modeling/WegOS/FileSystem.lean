import WegOS.BitAllocation
import WegOS.CString

/-! The file system.

Seeks and lengths are naturals, and sectors are 32-bit words. `none` stands for
stores outside a local array and for lengths below zero, which make `memcpy` run
through the whole address space. -/

namespace WegOS

open LittleEndian CArray

def sectorSize : Nat := 512
def validDataSizeInBlock : Nat := sectorSize - 4
def fileNameMaxLength : Nat := 64
def filePathMaxLength : Nat := 512
def sectorWithRootFcb : UInt32 := 1024
def nthBlock (x : Nat) : Nat := x / validDataSizeInBlock
def inBlockOffset (x : Nat) : Nat := x % validDataSizeInBlock

def fileTSize : Nat := 84

def filesSize : Nat := 512 * fileTSize

def tempSize : Nat := 4096

inductive FileType
  | normal | directory | softLink
  deriving DecidableEq, Repr

def FileType.code : FileType → UInt32
  | .normal => 0
  | .directory => 1
  | .softLink => 2

/-- A file control block. The type comes from the disk, so that it may be any word. -/
structure FileT where
  fileName : CArray UInt8 fileNameMaxLength
  firstSector : UInt32
  lastSector : UInt32
  sectorCount : UInt32
  fileSize : Int32
  fileType : UInt32

structure FileIoState where
  readSeek : Nat
  writeSeek : Nat
  readSector : UInt32
  writeSector : UInt32

structure FilePathState where
  parentDirName : List UInt8
  indexInParentDir : Nat
  hasParent : Bool

structure FileCached where
  file : FileT
  ioState : FileIoState
  pathState : FilePathState

inductive FileResult
  | success | noMoreDiskSpace | alreadyExisting | notExisting | dirNotExisting | outOfIndex | typeError
  deriving DecidableEq, Repr

abbrev Block := CArray UInt8 512

abbrev Disk := UInt32 → Block

structure FileSystem where
  disk : Disk
  fileAllocBitmap : Bitmap

/-- What the local variables hold before they are set. -/
structure Locals where
  files : Nat → UInt8
  temp : Nat → UInt8
  fcbSector : Nat → UInt8
  newFile : Nat → UInt8
  newFileBlock : Nat → UInt8
  parentDir : FileCached

/-! ## Control blocks in memory -/

def fileAt (mem : Nat → UInt8) (start : Nat) : FileT where
  fileName := ofCells fileNameMaxLength fun i => mem (start + i)
  firstSector := wordAt mem (arrayPlace (start + 64))
  lastSector := wordAt mem (arrayPlace (start + 68))
  sectorCount := wordAt mem (arrayPlace (start + 72))
  fileSize := (wordAt mem (arrayPlace (start + 76))).toInt32
  fileType := wordAt mem (arrayPlace (start + 80))

def FileT.words (f : FileT) : List UInt32 :=
  [f.firstSector, f.lastSector, f.sectorCount, f.fileSize.toUInt32, f.fileType]

def FileT.bytes (f : FileT) (i : Nat) : UInt8 :=
  if i < fileNameMaxLength then f.fileName.cell i
  else leByte (f.words.getD ((i - fileNameMaxLength) / 4) 0) ((i - fileNameMaxLength) % 4)

/-! ## Sectors -/

def nextSector (block : Block) : UInt32 := wordAt block.cell (arrayPlace 508)

def withNextSector (block : Block) (next : UInt32) : Block :=
  ofCells 512 (putWord block.cell (arrayPlace 508) next)

def writeDisk (disk : Disk) (sector : UInt32) (buf : Nat → UInt8) : Disk :=
  Function.update disk sector (ofCells 512 buf)

def fileAlloc (fs : FileSystem) : UInt32 × FileSystem :=
  let (index, bitmap) := bitAlloc fs.fileAllocBitmap false
  (UInt32.ofInt index, { fs with fileAllocBitmap := bitmap })

/-! ## Reading -/

/-- The loop over whole sectors, each of which is read straight into `buf` at `pos`. -/
def readSectors (disk : Disk) : Nat → FileIoState → (Nat → UInt8) → Nat → FileIoState × (Nat → UInt8)
  | 0, io, buf, _ => (io, buf)
  | sectors + 1, io, buf, pos =>
      let block := disk io.readSector
      let buf := memcpy buf pos block.cell sectorSize
      let io := { io with readSector := nextSector block, readSeek := io.readSeek + validDataSizeInBlock }
      readSectors disk sectors io buf (pos + validDataSizeInBlock)

/-- `buf` is the memory from the buffer on. -/
def sysRead (disk : Disk) (file : FileT) (io : FileIoState) (buf : Nat → UInt8) (length : Nat) :
    FileResult × FileIoState × (Nat → UInt8) :=
  if ((io.readSeek + length : Nat) : Int) ≤ file.fileSize.toInt then
    let temp := disk io.readSector
    let offset := inBlockOffset io.readSeek
    if nthBlock (io.readSeek + length) - nthBlock io.readSeek = 0 then
      let buf := memcpy buf 0 (fun i => temp.cell (offset + i)) length
      (.success, { io with readSeek := io.readSeek + length }, buf)
    else
      let remain := validDataSizeInBlock - offset
      let buf := memcpy buf 0 (fun i => temp.cell (offset + i)) remain
      let io := { io with readSeek := io.readSeek + remain, readSector := nextSector temp }
      let length := length - remain
      let sectors := length / validDataSizeInBlock
      let (io, buf) := readSectors disk sectors io buf remain
      let scattered := inBlockOffset length
      -- The seek is not moved over these last bytes.
      let buf := memcpy buf (remain + sectors * validDataSizeInBlock) (disk io.readSector).cell scattered
      (.success, io, buf)
  else (.outOfIndex, io, buf)

/-- How many bytes of `buf` `sys_read` may store to: the last whole sector is read with
its link. -/
def readExtent (readSeek length : Nat) : Nat :=
  if nthBlock (readSeek + length) ≤ nthBlock readSeek + 1 then length
  else max length (length - inBlockOffset (readSeek + length) + 4)

/-- A negative size is passed on as a length. -/
def readAll (disk : Disk) (file : FileT) (buf : Nat → UInt8) : Option (Nat → UInt8) :=
  if file.fileSize < 0 then none
  else
    let io := ⟨0, 0, file.firstSector, file.firstSector⟩
    some (sysRead disk file io buf file.fileSize.toNatClampNeg).2.2

/-! ## Directories and paths -/

/-- The loop of `dir_search_file`, with `left` entries to look at from entry `i` on. -/
def searchFrom (files : Nat → UInt8) (fileName : List UInt8) : Nat → Nat → Option (Option (Nat × FileT))
  | 0, _ => some none
  | left + 1, i => do
      let name ← cstr files (fileTSize * i) (filesSize - fileTSize * i)
      if strcmp name fileName = 0 then some (some (i, fileAt files (fileTSize * i)))
      else searchFrom files fileName left (i + 1)

def dirSearchFile (disk : Disk) (locals : Locals) (dir : FileT) (fileName : List UInt8) :
    Option (Option (Nat × FileT)) := do
  if filesSize < readExtent 0 dir.fileSize.toNatClampNeg then none
  let files ← readAll disk dir locals.files
  searchFrom files fileName (dir.fileSize.toUInt32.toNat / fileTSize) 0

/-- The character loop of `load_file_cached`: the characters to come, those in `temp`,
and the FCB and index found so far. -/
def loadFrom (disk : Disk) (locals : Locals) :
    List UInt8 → List UInt8 → FileT → Nat → Option (FileResult × FileT × Nat)
  | [], _, file, index => some (.success, file, index)
  | c :: rest, temp, file, index => do
      if fileNameMaxLength ≤ temp.length then none
      if c = slash then
        match ← dirSearchFile disk locals file temp with
        | none => some (if rest = [] then .notExisting else .dirNotExisting, file, index)
        | some (i, found) => loadFrom disk locals rest [] found i
      else loadFrom disk locals rest (temp ++ [c]) file index

/-- `old` is what `*p_file_cached` holds before the call. -/
def loadFileCached (disk : Disk) (locals : Locals) (path : List UInt8) (old : FileCached) :
    Option (FileResult × FileCached) := do
  let root := fileAt (disk sectorWithRootFcb).cell 0
  let (result, file, index) ← loadFrom disk locals path [] root old.pathState.indexInParentDir
  let pathState := { old.pathState with indexInParentDir := index }
  if result = .success then
    let ioState := ⟨0, 0, file.firstSector, file.firstSector⟩
    if strcmp path [] = 0 then
      some (.success, ⟨file, ioState, { pathState with hasParent := false }⟩)
    else
      let parent := getParentDirName path
      if filePathMaxLength ≤ parent.length then none
      else some (.success, ⟨file, ioState, { pathState with parentDirName := parent, hasParent := true }⟩)
  else some (result, { old with file := file, pathState := pathState })

/-! ## Writing -/

def seekSector (disk : Disk) : Nat → UInt32 → UInt32
  | 0, sector => sector
  | steps + 1, sector => seekSector disk steps (nextSector (disk sector))

def sysWseek (disk : Disk) (file : FileT) (io : FileIoState) (writeSeek : Nat) : FileIoState :=
  { io with writeSector := seekSector disk (nthBlock writeSeek) file.firstSector, writeSeek := writeSeek }

/-- The end of the file is out of range. -/
def sysRseek (disk : Disk) (file : FileT) (io : FileIoState) (readSeek : Nat) : FileResult × FileIoState :=
  if (readSeek : Int) < file.fileSize.toInt then
    (.success, { io with readSector := seekSector disk (nthBlock readSeek) file.firstSector,
                         readSeek := readSeek })
  else (.outOfIndex, io)

/-- The loop over whole sectors. A sector is written with the next four bytes of `buf` as
its link, and the link is taken from there as well. -/
def writeSectors (buf : Nat → UInt8) : Nat → Disk → FileIoState → Nat → Disk × FileIoState
  | 0, disk, io, _ => (disk, io)
  | sectors + 1, disk, io, pos =>
      let block : Block := ofCells 512 fun i => buf (pos + i)
      let disk := writeDisk disk io.writeSector block.cell
      let io := { io with writeSector := nextSector block,
                          writeSeek := io.writeSeek + validDataSizeInBlock }
      writeSectors buf sectors disk io (pos + validDataSizeInBlock)

def coveringWrite (disk : Disk) (io : FileIoState) (buf : Nat → UInt8) (length : Nat) :
    Disk × FileIoState :=
  let temp := disk io.writeSector
  let offset := inBlockOffset io.writeSeek
  if nthBlock (io.writeSeek + length) - nthBlock io.writeSeek = 0 then
    (writeDisk disk io.writeSector (memcpy temp.cell offset buf length),
      { io with writeSeek := io.writeSeek + length })
  else
    let remain := validDataSizeInBlock - offset
    let disk := writeDisk disk io.writeSector (memcpy temp.cell offset buf remain)
    let io := { io with writeSeek := io.writeSeek + remain, writeSector := nextSector temp }
    let length := length - remain
    let sectors := length / validDataSizeInBlock
    let (disk, io) := writeSectors buf sectors disk io remain
    let scattered := inBlockOffset length
    let rest := fun i => buf (remain + sectors * validDataSizeInBlock + i)
    (writeDisk disk io.writeSector (memcpy (disk io.writeSector).cell 0 rest scattered),
      { io with writeSeek := io.writeSeek + scattered })

/-- The root has no path to find it by, and is written back to its own sector. -/
def storeFileCached (disk : Disk) (locals : Locals) (cached : FileCached) : Option Disk := do
  let (result, parentDir) ← loadFileCached disk locals cached.pathState.parentDirName locals.parentDir
  if result = .success then
    if cached.pathState.hasParent then
      let io := sysWseek disk parentDir.file parentDir.ioState
        (fileTSize * cached.pathState.indexInParentDir)
      some (coveringWrite disk io cached.file.bytes fileTSize).1
    else some (writeDisk disk sectorWithRootFcb (memcpy locals.fcbSector 0 cached.file.bytes fileTSize))
  else some disk

/-- The loop of `file_expand`: each new sector goes to the end of the chain. -/
def expandFrom : Nat → FileSystem → FileT → FileSystem × FileT
  | 0, fs, file => (fs, file)
  | need + 1, fs, file =>
      let (newLast, fs) := fileAlloc fs
      let oldLast := file.lastSector
      let disk := Function.update fs.disk oldLast (withNextSector (fs.disk oldLast) newLast)
      let disk := Function.update disk newLast (withNextSector (disk newLast) 0xFFFFFFFF)
      expandFrom need { fs with disk := disk } { file with lastSector := newLast }

def fileExpand (fs : FileSystem) (locals : Locals) (cached : FileCached) (need : Nat) :
    Option (FileSystem × FileCached) := do
  let (fs, file) := expandFrom need fs cached.file
  let cached := { cached with file := { file with sectorCount := file.sectorCount + UInt32.ofNat need } }
  let disk ← storeFileCached fs.disk locals cached
  pure ({ fs with disk := disk }, cached)

/-- The bytes of `temp` are moved up by `length`, the last one first. -/
def shiftUp (length : Nat) : Nat → (Nat → UInt8) → (Nat → UInt8)
  | 0, temp => temp
  | i + 1, temp => shiftUp length i (Function.update temp (length + i) (temp i))

def readRemains (disk : Disk) (file : FileT) (io : FileIoState) (buf : Nat → UInt8) :
    Option (FileIoState × (Nat → UInt8)) :=
  let remain := file.fileSize.toInt - io.readSeek
  if remain < 0 ∨ tempSize < readExtent io.readSeek remain.toNat then none
  else some (sysRead disk file io buf remain.toNat).2

def sysWrite (fs : FileSystem) (locals : Locals) (cached : FileCached) (buf : Nat → UInt8)
    (length : Nat) : Option (FileSystem × FileCached) := do
  let blocks := nthBlock (cached.file.fileSize + Int32.ofNat length).toUInt32.toNat + 1
  let (fs, cached) ←
    if cached.file.sectorCount.toNat < blocks then
      fileExpand fs locals cached (blocks - cached.file.sectorCount.toNat)
    else pure (fs, cached)
  let file := cached.file
  let oldReadSeek := cached.ioState.readSeek
  let oldWriteSeek := cached.ioState.writeSeek + length
  let remain := file.fileSize.toInt - cached.ioState.writeSeek
  let (_, io) := sysRseek fs.disk file cached.ioState cached.ioState.writeSeek
  let (io, temp) ← readRemains fs.disk file io locals.temp
  if remain + length < 0 ∨ tempSize < remain.toNat + length then none
  let temp := shiftUp length remain.toNat temp
  let temp := memcpy temp 0 buf length
  let (disk, io) := coveringWrite fs.disk io temp (remain + length).toNat
  let io := sysWseek disk file io oldWriteSeek
  let (_, io) := sysRseek disk file io oldReadSeek
  let file := { file with fileSize := file.fileSize + Int32.ofNat length }
  let cached := ⟨file, io, cached.pathState⟩
  let disk ← storeFileCached disk locals cached
  pure ({ fs with disk := disk }, cached)

def sysCreate (fs : FileSystem) (locals : Locals) (dirCached : FileCached) (fileName : List UInt8)
    (fileType : FileType) : Option (FileSystem × FileCached) := do
  if fileNameMaxLength ≤ fileName.length then none
  let (sector, fs) := fileAlloc fs
  let newFile : FileT :=
    { fileName := ofCells fileNameMaxLength (strcpy locals.newFile fileName)
      firstSector := sector
      lastSector := sector
      sectorCount := 1
      fileSize := 0
      fileType := fileType.code }
  let newFileBlock := putWord locals.newFileBlock (arrayPlace 508) 0xFFFFFFF
  sysWrite { fs with disk := writeDisk fs.disk sector newFileBlock } locals dirCached newFile.bytes fileTSize

/-! ## Encoding -/

theorem nthBlock_eq (x : Nat) : nthBlock x = x / 508 := rfl

theorem inBlockOffset_eq (x : Nat) : inBlockOffset x = x % 508 := rfl

theorem fileAt_congr {mem mem' : Nat → UInt8} {start start' : Nat}
    (same : ∀ i < fileTSize, mem' (start' + i) = mem (start + i)) :
    fileAt mem' start' = fileAt mem start := by
  have word : ∀ offset, offset + 4 ≤ 84 →
      wordAt mem' (arrayPlace (start' + offset)) = wordAt mem (arrayPlace (start + offset)) := by
    intro offset inside
    apply leWord_congr
    intro k small
    simp only [arrayPlace, Nat.cast_id, Nat.add_assoc]
    exact same _ (by simp only [fileTSize]; omega)
  have name : ofCells fileNameMaxLength (fun i => mem' (start' + i)) =
      ofCells fileNameMaxLength fun i => mem (start + i) :=
    ofCells_congr fun i inside => same i (Nat.lt_of_lt_of_le inside (by decide))
  simp only [fileAt, name, word 64 (by decide), word 68 (by decide), word 72 (by decide),
    word 76 (by decide), word 80 (by decide)]

theorem FileT.bytes_word (f : FileT) {w k : Nat} (inside : k < 4) :
    f.bytes (64 + 4 * w + k) = leByte (f.words.getD w 0) k := by
  have quotient : (64 + 4 * w + k - 64) / 4 = w := by omega
  have remainder : (64 + 4 * w + k - 64) % 4 = k := by omega
  have outside : ¬64 + 4 * w + k < fileNameMaxLength := by
    simp only [fileNameMaxLength]
    omega
  rw [FileT.bytes, if_neg outside]
  simp only [fileNameMaxLength, quotient, remainder]

theorem wordAt_bytes (f : FileT) (w : Nat) :
    wordAt f.bytes (arrayPlace (0 + (64 + 4 * w))) = f.words.getD w 0 := by
  calc
    _ = leWord (leByte (f.words.getD w 0)) := by
      apply leWord_congr
      intro k small
      simp only [arrayPlace, Nat.cast_id, Nat.zero_add]
      exact f.bytes_word small
    _ = f.words.getD w 0 := leWord_leByte _

theorem fileAt_bytes (f : FileT) : fileAt f.bytes 0 = f := by
  have name : ofCells fileNameMaxLength (fun i => f.bytes (0 + i)) = f.fileName := by
    apply eq_of_cells
    intro i inside
    rw [cell_ofCells inside, Nat.zero_add, FileT.bytes, if_pos inside]
  have size := wordAt_bytes f 3
  simp only [FileT.words, List.getD_cons_succ, List.getD_cons_zero] at size
  cases f with
  | mk fileName firstSector lastSector sectorCount fileSize fileType =>
      simp only [fileAt, name]
      congr 1
      · exact wordAt_bytes _ 0
      · exact wordAt_bytes _ 1
      · exact wordAt_bytes _ 2
      · exact (congrArg UInt32.toInt32 size).trans (Int32.toInt32_toUInt32 _)
      · exact wordAt_bytes _ 4

theorem fileAt_eq {mem : Nat → UInt8} {start : Nat} {f : FileT}
    (same : ∀ i < fileTSize, mem (start + i) = f.bytes i) : fileAt mem start = f := by
  calc
    _ = fileAt f.bytes 0 := fileAt_congr fun i inside => by rw [same i inside, Nat.zero_add]
    _ = f := fileAt_bytes f

theorem nextSector_withNextSector (block : Block) (next : UInt32) :
    nextSector (withNextSector block next) = next := by
  calc
    _ = wordAt (putWord block.cell (arrayPlace 508) next) (arrayPlace 508) := by
      apply wordAt_congr
      intro k small
      exact cell_ofCells (by simp only [arrayPlace, Nat.cast_id]; omega)
    _ = next := wordAt_putWord _ _ (arrayPlace_places _)

theorem withNextSector_cell (block : Block) (next : UInt32) {i : Nat} (inside : i < 508) :
    (withNextSector block next).cell i = block.cell i := by
  rw [withNextSector, cell_ofCells (by omega)]
  apply putWord_outside
  intro k _
  simp only [arrayPlace, Nat.cast_id]
  omega

end WegOS
