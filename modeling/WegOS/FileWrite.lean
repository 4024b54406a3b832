import WegOS.FileExpand

/-! `sys_write`: bytes are inserted at the write seek. -/

namespace WegOS

open LittleEndian CArray BlockChain

def inserted (old buf : Nat → UInt8) (w n i : Nat) : UInt8 :=
  if i < w then old i else if i < w + n then buf (i - w) else old (i - n)

/-- The bytes behind the write seek fit in the staging buffer. When there are none, the read
cursor is not moved, and what is read instead is the rest of the file from there. -/
def TailFits (file : FileT) (io : FileIoState) : Prop :=
  let start := if io.writeSeek < file.size then io.writeSeek else io.readSeek
  start ≤ file.size ∧ readExtent start (file.size - start) ≤ tempSize

/-- No sector is overwritten as a whole, or else the new bytes that come to stand on its link
are the number of the next sector. -/
def LinksKept (chain : List UInt32) (size w n : Nat) (bytes : Nat → UInt8) : Prop :=
  ∀ m, nthBlock w < m → m < nthBlock (size + n) →
    ∃ s, chain[m + 1]? = some s ∧ (m + 1) * 508 + 4 ≤ size + n ∧
      ∀ k < 4, bytes ((m + 1) * 508 + k) = leByte s k

theorem linksKept_short {chain : List UInt32} {size w n : Nat} {bytes : Nat → UInt8}
    (short : nthBlock (size + n) ≤ nthBlock w + 1) : LinksKept chain size w n bytes :=
  fun _ _ _ => by omega

def expandedFor (fs : FileSystem) (locals : Locals) (cached : FileCached) (length : Nat) :
    Option (FileSystem × FileCached) :=
  let blocks := nthBlock (cached.file.fileSize + Int32.ofNat length).toUInt32.toNat + 1
  if cached.file.sectorCount.toNat < blocks then
    fileExpand fs locals cached (blocks - cached.file.sectorCount.toNat)
  else some (fs, cached)

/-- `sys_write` from where the file has all its sectors to where the control block is written back. -/
def stagedWrite (fs : FileSystem) (locals : Locals) (cached : FileCached) (buf : Nat → UInt8) (length : Nat) :
    Option (FileSystem × FileCached) := do
  let file := cached.file
  let oldReadSeek := cached.ioState.readSeek
  let oldWriteSeek := cached.ioState.writeSeek + length
  let remain := file.fileSize.toInt - cached.ioState.writeSeek
  let (_, io) := sysRseek fs.disk file cached.ioState cached.ioState.writeSeek
  let (io, temp) ← readRemains fs.disk file io locals.temp
  if remain + length < 0 ∨ tempSize < remain.toNat + length then none
  let temp := shiftUp length remain.toNat temp
  let temp := memcpy temp 0 buf length
  let (disk, io) := coveringWrite fs.disk io temp (remain + length).toNat
  let io := sysWseek disk file io oldWriteSeek
  let (_, io) := sysRseek disk file io oldReadSeek
  pure ({ fs with disk := disk }, ⟨{ file with fileSize := file.fileSize + Int32.ofNat length }, io, cached.pathState⟩)

def unsavedWrite (fs : FileSystem) (locals : Locals) (cached : FileCached) (buf : Nat → UInt8) (length : Nat) :
    Option (FileSystem × FileCached) :=
  (expandedFor fs locals cached length).bind fun (fs, cached) => stagedWrite fs locals cached buf length

def save (locals : Locals) (unsaved : FileSystem × FileCached) : Option (FileSystem × FileCached) :=
  (storeFileCached unsaved.1.disk locals unsaved.2).map fun disk => ({ unsaved.1 with disk := disk }, unsaved.2)

theorem save_eq (locals : Locals) (unsaved : FileSystem × FileCached) :
    save locals unsaved = (storeFileCached unsaved.1.disk locals unsaved.2).bind fun disk =>
      some ({ unsaved.1 with disk := disk }, unsaved.2) := Option.map_eq_bind

theorem sysWrite_save (fs : FileSystem) (locals : Locals) (cached : FileCached) (buf : Nat → UInt8)
    (length : Nat) :
    sysWrite fs locals cached buf length = (unsavedWrite fs locals cached buf length).bind (save locals) := by
  simp only [sysWrite, unsavedWrite, expandedFor, stagedWrite, Option.bind_eq_bind, Option.bind_assoc]
  split_ifs
  · congr 1
    funext r
    congr 1
    funext read
    split_ifs
    · rfl
    · rw [Option.pure_def, Option.bind_some, save_eq]
  · rw [Option.pure_def, Option.bind_some, Option.bind_some]
    congr 1
    funext read
    split_ifs
    · rfl
    · rw [Option.bind_some, save_eq]
theorem shiftUp_eq (length i : Nat) (temp : Nat → UInt8) (j : Nat) :
    shiftUp length i temp j = if length ≤ j ∧ j < length + i then temp (j - length) else temp j := by
  induction i generalizing temp with
  | zero => rw [shiftUp, if_neg (by omega)]
  | succ i ih =>
      rw [shiftUp, ih]
      rcases Nat.lt_trichotomy j (length + i) with before | here | after
      · have other : j - length ≠ length + i := by omega
        rw [Function.update_of_ne other, Function.update_of_ne (Nat.ne_of_lt before)]
        split_ifs <;> first | rfl | omega
      · subst here
        rw [if_neg (by omega), if_pos (by omega), Function.update_self, Nat.add_sub_cancel_left]
      · rw [if_neg (by omega), if_neg (by omega), Function.update_of_ne (Nat.ne_of_gt after)]

section Insert

variable {disk : Disk} {file : FileT} {chain : List UInt32}

def tailStart (file : FileT) (io : FileIoState) : Nat :=
  if io.writeSeek < file.size then io.writeSeek else io.readSeek

/-- What `sys_write` reads before it writes: the bytes from the write seek on. The read cursor is left
where this read ends. -/
theorem readRemains_spec (readable : Readable disk file chain) {io : FileIoState} (tail : TailFits file io)
    (temp : Nat → UInt8) :
    ∃ io' temp', readRemains disk file (sysRseek disk file io io.writeSeek).2 temp = some (io', temp') ∧
      io'.writeSeek = io.writeSeek ∧ io'.writeSector = io.writeSector ∧
      (∀ i < file.size - io.writeSeek, temp' i = byteOf disk chain (io.writeSeek + i)) ∧
      (chain[nthBlock io.readSeek]? = some io.readSector →
        io'.readSeek = readEnd (tailStart file io) (file.size - tailStart file io) ∧
          chain[nthBlock file.size]? = some io'.readSector) := by
  have size := size_cast readable.positive
  unfold TailFits at tail
  unfold tailStart
  by_cases before : io.writeSeek < file.size
  · rw [if_pos before] at tail ⊢
    have inRange : (io.writeSeek : Int) < file.fileSize.toInt := by omega
    have remain : (file.fileSize.toInt - (io.writeSeek : Int)).toNat = file.size - io.writeSeek := by omega
    have whole := Nat.add_sub_of_le (Nat.le_of_lt before)
    have first := readable.first
    have here := seekSector_chain readable.linked first
      (Nat.lt_of_le_of_lt (Nat.div_le_div_right (Nat.le_of_lt before)) readable.room)
    let io₁ : FileIoState := { io with readSector := seekSector disk (nthBlock io.writeSeek) file.firstSector,
                                       readSeek := io.writeSeek }
    obtain ⟨sector, temp', result, final, bytes, -⟩ :=
      sysRead_spec readable io₁ temp (file.size - io.writeSeek) here (Nat.le_of_eq whole)
    rw [show io₁.readSeek + (file.size - io.writeSeek) = file.size from whole] at final
    refine ⟨{ io₁ with readSector := sector, readSeek := readEnd io.writeSeek (file.size - io.writeSeek) },
      temp', ?_, rfl, rfl, bytes, fun _ => ⟨rfl, final⟩⟩
    have seek : (sysRseek disk file io io.writeSeek).2 = io₁ := by rw [sysRseek, if_pos inRange]
    have fits : ¬(file.fileSize.toInt - (io₁.readSeek : Int) < 0 ∨
        tempSize < readExtent io₁.readSeek (file.fileSize.toInt - (io₁.readSeek : Int)).toNat) := by
      simp only [io₁, remain]
      omega
    rw [seek, readRemains, if_neg fits]
    simp only [io₁, remain] at result ⊢
    rw [result]
  · rw [if_neg before] at tail ⊢
    have outside : ¬(io.writeSeek : Int) < file.fileSize.toInt := by omega
    have remain : (file.fileSize.toInt - (io.readSeek : Int)).toNat = file.size - io.readSeek := by omega
    have fits : ¬(file.fileSize.toInt - (io.readSeek : Int) < 0 ∨
        tempSize < readExtent io.readSeek (file.fileSize.toInt - (io.readSeek : Int)).toNat) := by
      rw [remain]
      omega
    have kept := sysRead_write disk file io temp (file.fileSize.toInt - (io.readSeek : Int)).toNat
    refine ⟨_, (sysRead disk file io temp (file.fileSize.toInt - (io.readSeek : Int)).toNat).2.2, ?_,
      kept.1, kept.2, fun i small => by omega, fun here => ?_⟩
    · rw [sysRseek, if_neg outside, readRemains, if_neg fits]
    · have whole := Nat.add_sub_of_le tail.1
      obtain ⟨sector, temp', result, final, -⟩ :=
        sysRead_spec readable io temp (file.size - io.readSeek) here (Nat.le_of_eq whole)
      rw [whole] at final
      rw [remain, result]
      exact ⟨rfl, final⟩

/-- The read runs past the staging buffer when the bytes do not fit. -/
theorem readRemains_fits (positive : 0 ≤ file.fileSize) {io : FileIoState}
    {temp : Nat → UInt8} {result : FileIoState × (Nat → UInt8)}
    (read : readRemains disk file (sysRseek disk file io io.writeSeek).2 temp = some result) :
    TailFits file io := by
  have size := size_cast positive
  unfold TailFits
  by_cases before : io.writeSeek < file.size
  · have inRange : (io.writeSeek : Int) < file.fileSize.toInt := by omega
    have remain : (file.fileSize.toInt - (io.writeSeek : Int)).toNat = file.size - io.writeSeek := by omega
    rw [sysRseek, if_pos inRange, readRemains] at read
    split_ifs at read with large
    simp only [not_or, remain] at large
    rw [if_pos before]
    exact ⟨Nat.le_of_lt before, Nat.not_lt.mp large.2⟩
  · have outside : ¬(io.writeSeek : Int) < file.fileSize.toInt := by omega
    rw [sysRseek, if_neg outside, readRemains] at read
    split_ifs at read with large
    have remain : (file.fileSize.toInt - (io.readSeek : Int)).toNat = file.size - io.readSeek := by omega
    simp only [not_or, remain] at large
    rw [if_neg before]
    exact ⟨by omega, Nat.not_lt.mp large.2⟩

theorem staged_eq {bytes temp buf : Nat → UInt8} {w n remain : Nat}
    (tail : ∀ i < remain, temp i = bytes (w + i)) {i : Nat} (small : i < remain + n) :
    memcpy (shiftUp n remain temp) 0 buf n i = inserted bytes buf w n (w + i) := by
  unfold inserted
  rw [if_neg (by omega)]
  by_cases new : i < n
  · rw [memcpy_inside (Nat.zero_le i) (by omega), if_pos (by omega), Nat.sub_zero, Nat.add_sub_cancel_left]
  · rw [memcpy_above (by omega), shiftUp_eq, if_pos (by omega), if_neg (by omega), tail _ (by omega)]
    congr 1
    omega

/-- The links of sectors that are overwritten as a whole stand in the staging buffer. -/
theorem LinksKept.survive (linked : Linked blockFormat disk chain) {size w n length : Nat}
    {bytes temp : Nat → UInt8} (links : LinksKept chain size w n bytes) (whole : w + length = size + n)
    (staged : ∀ i < length, temp i = bytes (w + i)) : LinksSurvive disk chain w length temp := by
  intro m s low high here
  rw [whole] at high
  obtain ⟨t, next, room, kept⟩ := links m low high
  have link : nextSector (disk s) = t := by
    have there := nextSector_of_linked linked here (List.getElem?_eq_some_iff.mp next).1
    rw [next] at there
    exact (Option.some.inj there).symm
  have behind : w ≤ m * 508 := by
    simp only [nthBlock_eq] at low
    omega
  rw [link]
  calc
    _ = leWord fun k => (ofCells 512 fun i => temp (m * 508 - w + i)).cell (arrayPlace 508 k) := rfl
    _ = leWord (leByte t) := by
      apply leWord_congr
      intro k small
      have place : m * 508 - w + (508 + k) < length := by omega
      have position : w + (m * 508 - w + (508 + k)) = (m + 1) * 508 + k := by omega
      simp only [arrayPlace, Nat.cast_id]
      rw [cell_ofCells (by omega), staged _ place, position, kept k small]
    _ = t := leWord_leByte t

end Insert

theorem sysWseek_write (disk : Disk) (file : FileT) (io : FileIoState) (writeSeek oldReadSeek : Nat) :
    (sysRseek disk file (sysWseek disk file io writeSeek) oldReadSeek).2.writeSeek = writeSeek ∧
      (sysRseek disk file (sysWseek disk file io writeSeek) oldReadSeek).2.writeSector =
        seekSector disk (nthBlock writeSeek) file.firstSector := by
  unfold sysRseek
  split_ifs <;> exact ⟨rfl, rfl⟩

/-- The bytes from the write seek on are replaced by the new ones and the old ones behind them. Then both cursors
are moved again. -/
theorem stagedWrite_run {fs : FileSystem} (locals : Locals) (cached : FileCached) (buf : Nat → UInt8) (n : Nat)
    {chain : List UInt32} (readable : Readable fs.disk cached.file chain) (nodup : chain.Nodup)
    (total : cached.ioState.writeSeek ≤ cached.file.size + n)
    (here : chain[nthBlock cached.ioState.writeSeek]? = some cached.ioState.writeSector)
    (room : nthBlock (cached.file.size + n) < chain.length)
    (fits : cached.file.size - cached.ioState.writeSeek + n ≤ tempSize)
    (tail : TailFits cached.file cached.ioState)
    (links : LinksKept chain cached.file.size cached.ioState.writeSeek n
      (inserted (byteOf fs.disk chain) buf cached.ioState.writeSeek n)) :
    ∃ disk io',
      stagedWrite fs locals cached buf n = some ({ fs with disk := disk },
        ⟨{ cached.file with fileSize := cached.file.fileSize + Int32.ofNat n },
          (sysRseek disk cached.file (sysWseek disk cached.file io' (cached.ioState.writeSeek + n))
            cached.ioState.readSeek).2, cached.pathState⟩) ∧
      Overwrites blockFormat chain fs.disk disk cached.ioState.writeSeek
        (cached.file.size + n - cached.ioState.writeSeek)
        (fun i => inserted (byteOf fs.disk chain) buf cached.ioState.writeSeek n (cached.ioState.writeSeek + i)) ∧
      (chain[nthBlock cached.ioState.readSeek]? = some cached.ioState.readSector →
        io'.readSeek = readEnd (tailStart cached.file cached.ioState)
            (cached.file.size - tailStart cached.file cached.ioState) ∧
          chain[nthBlock cached.file.size]? = some io'.readSector) := by
  let w := cached.ioState.writeSeek
  let size := cached.file.size
  obtain ⟨io, temp, read, seek, sector, bytes, cursor⟩ := readRemains_spec readable tail locals.temp
  have cast := size_cast readable.positive
  have remain : (cached.file.fileSize.toInt - (w : Int)).toNat = size - w := by omega
  have length : (cached.file.fileSize.toInt - (w : Int) + (n : Int)).toNat = size + n - w := by omega
  have bounded : ¬(cached.file.fileSize.toInt - (w : Int) + (n : Int) < 0 ∨
      tempSize < (cached.file.fileSize.toInt - (w : Int)).toNat + n) := by
    rw [remain]
    omega
  let staged := memcpy (shiftUp n (size - w) temp) 0 buf n
  have stagedBytes : ∀ i < size + n - w, staged i = inserted (byteOf fs.disk chain) buf w n (w + i) :=
    fun i small => staged_eq bytes (by omega)
  have whole : w + (size + n - w) = size + n := Nat.add_sub_of_le total
  have written := coveringWrite_spec nodup readable.linked io staged (size + n - w) (by
      rw [seek, sector]
      exact here) (by rw [seek, whole]; exact room) (by
      rw [seek]
      exact links.survive readable.linked whole stagedBytes)
  rw [seek] at written
  let result := coveringWrite fs.disk io staged (size + n - w)
  have kept := coveringWrite_read fs.disk io staged (size + n - w)
  refine ⟨result.1, result.2, ?_, written.congr fun i small => (stagedBytes i small).symm, ?_⟩
  · change Option.bind (readRemains fs.disk cached.file
      (sysRseek fs.disk cached.file cached.ioState cached.ioState.writeSeek).2 locals.temp) _ = _
    rw [read, Option.bind_some]
    simp only [w] at bounded remain length
    dsimp only
    rw [if_neg bounded, remain, length]
    rfl
  · intro place
    rw [kept.1, kept.2]
    exact cursor place

/-! ## The whole of `sys_write` -/

structure Grown (f f' : FileT) : Prop where
  fileName : f'.fileName = f.fileName
  firstSector : f'.firstSector = f.firstSector
  sectorCount : f.sectorCount.toNat ≤ f'.sectorCount.toNat
  fileSize : f.fileSize ≤ f'.fileSize

theorem Grown.refl (f : FileT) : Grown f f := ⟨rfl, rfl, Nat.le_refl _, Int32.le_refl _⟩

theorem Grown.trans {f g h : FileT} (before : Grown f g) (after : Grown g h) : Grown f h where
  fileName := after.fileName.trans before.fileName
  firstSector := after.firstSector.trans before.firstSector
  sectorCount := Nat.le_trans before.sectorCount after.sectorCount
  fileSize := Int32.le_trans before.fileSize after.fileSize

/-- A place where a control block is kept, for handles with that path state: the sectors it
depends on, and what `store_file_cached` does there when it comes to an end. That it does is known
for handles with a parent directory. -/
structure Keeper (locals : Locals) (path : FilePathState) where
  sectors : Set UInt32
  holds : Disk → FileT → Prop
  frame : ∀ {disk disk' f}, holds disk f → (∀ s ∈ sectors, disk' s = disk s) → holds disk' f
  store : ∀ {disk disk' f} (f' : FileT) (io : FileIoState), holds disk f → Grown f f' →
    storeFileCached disk locals ⟨f', io, path⟩ = some disk' → holds disk' f' ∧ ∀ s, s ∉ sectors → disk' s = disk s
  ends : path.hasParent = true → ∀ {disk f} (f' : FileT) (io : FileIoState), holds disk f → Grown f f' →
    ∃ disk', storeFileCached disk locals ⟨f', io, path⟩ = some disk'

/-- A file that can be written to at its end: it is well formed and marked, its sectors are not those
of the keeper, and there are sectors for `n` more bytes. -/
structure Growable {locals : Locals} (fs : FileSystem) (cached : FileCached)
    (keeper : Keeper locals cached.pathState) (chain : List UInt32) (n : Nat) : Prop where
  kept : keeper.holds fs.disk cached.file
  wellFormed : WellFormed fs.disk cached.file chain
  size : fs.fileAllocBitmap.size = fsAllocTableBits
  marked : ∀ s ∈ chain, Marked fs.fileAllocBitmap s
  keeperMarked : ∀ s ∈ keeper.sectors, fs.fileAllocBitmap.bit s.toNat = true
  apart : ∀ s ∈ chain, s ∉ keeper.sectors
  enough : nthBlock (cached.file.size + n) + 1 - chain.length ≤ freeSectors fs.fileAllocBitmap

structure Writable {locals : Locals} (fs : FileSystem) (cached : FileCached)
    (keeper : Keeper locals cached.pathState) (chain : List UInt32) (n : Nat) : Prop
    extends Growable fs cached keeper chain n where
  inside : cached.ioState.writeSeek ≤ cached.file.size
  here : chain[nthBlock cached.ioState.writeSeek]? = some cached.ioState.writeSector
  fits : cached.file.size - cached.ioState.writeSeek + n ≤ tempSize

/-- The file has the bytes inserted, on a chain that may have got new sectors, and its keeper has the
control block `f`: the old one before the write-back, the new one behind it. -/
structure Written {locals : Locals} (fs : FileSystem) (cached : FileCached)
    (keeper : Keeper locals cached.pathState) (chain : List UInt32) (buf : Nat → UInt8) (n : Nat)
    (fs' : FileSystem) (cached' : FileCached) (news : List UInt32) (f : FileT) : Prop where
  pathState : cached'.pathState = cached.pathState
  fileName : cached'.file.fileName = cached.file.fileName
  fileType : cached'.file.fileType = cached.file.fileType
  grown : cached'.file.size = cached.file.size + n
  wellFormed : WellFormed fs'.disk cached'.file (chain ++ news)
  content : ∀ i < cached.file.size + n, byteOf fs'.disk (chain ++ news) i =
    inserted (byteOf fs.disk chain) buf cached.ioState.writeSeek n i
  kept : keeper.holds fs'.disk f
  follows : Grown f cached'.file
  apart : ∀ s ∈ chain ++ news, s ∉ keeper.sectors
  allocated : Allocated news fs.fileAllocBitmap fs'.fileAllocBitmap
  needed : news.length = nthBlock (cached.file.size + n) + 1 - chain.length
  frame : ∀ s, s ∉ chain ++ news → s ∉ keeper.sectors → fs'.disk s = fs.disk s
  seek : cached'.ioState.writeSeek = cached.ioState.writeSeek + n
  here : (chain ++ news)[nthBlock cached'.ioState.writeSeek]? = some cached'.ioState.writeSector

theorem grow_fileSize {size : Int32} (positive : 0 ≤ size) {n : Nat}
    (bound : size.toNatClampNeg + n < 2 ^ 31) :
    0 ≤ size + Int32.ofNat n ∧ (size + Int32.ofNat n).toNatClampNeg = size.toNatClampNeg + n := by
  have sum : size + Int32.ofNat n = Int32.ofNat (size.toNatClampNeg + n) := by
    rw [Int32.ofNat_add, Int32.ofNat_toNatClampNeg size positive]
  rw [sum]
  constructor
  · rw [Int32.le_iff_toInt_le, Int32.toInt_ofNat_of_lt bound]
    exact Int.natCast_nonneg _
  · exact Int32.toNatClampNeg_ofNat_of_lt bound

theorem length_le_of_marked {bitmap : Bitmap} {chain : List UInt32} (nodup : chain.Nodup)
    (size : bitmap.size = fsAllocTableBits) (marked : ∀ s ∈ chain, Marked bitmap s) :
    chain.length ≤ fsAllocTableBits := by
  have numbers : (chain.map UInt32.toNat).Nodup := nodup.map fun _ _ equal => UInt32.toNat_inj.mp equal
  have inside : (chain.map UInt32.toNat).toFinset ⊆ Finset.range fsAllocTableBits := by
    intro m member
    obtain ⟨s, here, rfl⟩ := List.mem_map.mp (List.mem_toFinset.mp member)
    exact Finset.mem_range.mpr (size ▸ (marked s here).1)
  calc
    _ = (chain.map UInt32.toNat).toFinset.card := by
      rw [List.toFinset_card_of_nodup numbers, List.length_map]
    _ ≤ fsAllocTableBits := by
      rw [← Finset.card_range fsAllocTableBits]
      exact Finset.card_le_card inside

theorem Expanded.sectors {fs fs' : FileSystem} {disk : Disk} {f : FileT} {need : Nat} {news : List UInt32}
    (expanded : Expanded (sectorsOf fs.disk f) news fs fs') (length : news.length = need)
    (nonempty : 0 < f.sectorCount.toNat) (marked : ∀ s ∈ sectorsOf fs.disk f ++ news, Marked fs'.fileAllocBitmap s)
    (linked : Linked blockFormat disk (sectorsOf fs.disk f ++ news)) (last : UInt32) :
    (f.sectorCount + UInt32.ofNat need).toNat = f.sectorCount.toNat + need ∧
      sectorsOf disk { f with lastSector := last, sectorCount := f.sectorCount + UInt32.ofNat need } =
        sectorsOf fs.disk f ++ news := by
  have whole : (sectorsOf fs.disk f ++ news).length = f.sectorCount.toNat + need := by
    rw [List.length_append, length, length_sectorsOf]
  have count : (f.sectorCount + UInt32.ofNat need).toNat = f.sectorCount.toNat + need := by
    have bound := length_le_of_marked expanded.nodup expanded.allocated.size marked
    rw [whole] at bound
    simp only [fsAllocTableBits] at bound
    rw [UInt32.toNat_add, UInt32.toNat_ofNat']
    omega
  refine ⟨count, ?_⟩
  have first : (sectorsOf fs.disk f ++ news)[0]? = some f.firstSector := by
    rw [List.getElem?_append_left (length_sectorsOf fs.disk f ▸ nonempty)]
    exact sectorsOf_first fs.disk nonempty
  rw [sectorsOf, count, ← whole]
  exact linked.chainFrom_eq first

/-- Just the bytes behind the first sector overwritten as a whole come to stand on links. -/
theorem LinksKept.congr {chain : List UInt32} {size w n : Nat} {bytes bytes' : Nat → UInt8}
    (links : LinksKept chain size w n bytes)
    (same : ∀ i, (nthBlock w + 2) * 508 ≤ i → i < size + n → bytes' i = bytes i) :
    LinksKept chain size w n bytes' := by
  intro m low high
  obtain ⟨s, next, room, kept⟩ := links m low high
  refine ⟨s, next, room, fun k small => ?_⟩
  have behind : (nthBlock w + 2) * 508 ≤ (m + 1) * 508 + k :=
    Nat.le_add_right_of_le (Nat.mul_le_mul_right 508 (Nat.succ_le_succ low))
  have inside : (m + 1) * 508 + k < size + n := by omega
  exact (same _ behind inside).trans (kept k small)

theorem inserted_congr {old old' : Nat → UInt8} (buf : Nat → UInt8) {size w n : Nat} (inside : w ≤ size)
    (same : ∀ i < size, old' i = old i) {i : Nat} (small : i < size + n) :
    inserted old' buf w n i = inserted old buf w n i := by
  unfold inserted
  split_ifs with before new
  · exact same i (by omega)
  · rfl
  · exact same (i - n) (by omega)

theorem inserted_beyond {old old' : Nat → UInt8} (buf : Nat → UInt8) {size w n : Nat}
    (same : ∀ i < size, old' i = old i) {i : Nat} (behind : w ≤ i) (small : i < size + n) :
    inserted old' buf w n i = inserted old buf w n i := by
  unfold inserted
  rw [if_neg (Nat.not_lt.mpr behind), if_neg (Nat.not_lt.mpr behind)]
  split_ifs
  · rfl
  · exact same (i - n) (by omega)

section Write

variable {locals : Locals} {fs : FileSystem} {cached : FileCached} {keeper : Keeper locals cached.pathState}
  {chain : List UInt32} {n : Nat}

theorem Growable.bound (growable : Growable fs cached keeper chain n) (small : n ≤ tempSize) :
    cached.file.size + n < 2 ^ 31 := by
  have length := length_le_of_marked growable.wellFormed.nodup growable.size growable.marked
  have room := growable.wellFormed.room
  simp only [nthBlock_eq, fsAllocTableBits, tempSize] at room length small
  omega

theorem Growable.blocks (growable : Growable fs cached keeper chain n) (small : n ≤ tempSize) :
    nthBlock (cached.file.fileSize + Int32.ofNat n).toUInt32.toNat + 1 = nthBlock (cached.file.size + n) + 1 := by
  obtain ⟨positive, grown⟩ := grow_fileSize growable.wellFormed.positive (growable.bound small)
  rw [Int32.toNat_toUInt32_of_le positive, grown]
  rfl

theorem Growable.clear (growable : Growable fs cached keeper chain n) {news : List UInt32} {bitmap : Bitmap}
    (allocated : Allocated news fs.fileAllocBitmap bitmap) : ∀ s ∈ chain ++ news, s ∉ keeper.sectors := by
  intro s member inner
  rcases List.mem_append.mp member with old | new
  · exact growable.apart s old inner
  · exact allocated.not_mem (growable.keeperMarked s inner) new

structure Extended {locals : Locals} (fs : FileSystem) (cached : FileCached)
    (keeper : Keeper locals cached.pathState) (chain : List UInt32) (n : Nat)
    (fs' : FileSystem) (file : FileT) (news : List UInt32) : Prop where
  fileName : file.fileName = cached.file.fileName
  fileType : file.fileType = cached.file.fileType
  fileSize : file.fileSize = cached.file.fileSize
  wellFormed : WellFormed fs'.disk file (chain ++ news)
  room : nthBlock (cached.file.size + n) < (chain ++ news).length
  bytes : ∀ i < cached.file.size, byteOf fs'.disk (chain ++ news) i = byteOf fs.disk chain i
  kept : keeper.holds fs'.disk file
  allocated : Allocated news fs.fileAllocBitmap fs'.fileAllocBitmap
  needed : news.length = nthBlock (cached.file.size + n) + 1 - chain.length
  frame : ∀ s, s ∉ chain ++ news → s ∉ keeper.sectors → fs'.disk s = fs.disk s

theorem Extended.size {fs' : FileSystem} {file : FileT} {news : List UInt32}
    (extended : Extended fs cached keeper chain n fs' file news) : file.size = cached.file.size := by
  rw [FileT.size, extended.fileSize, FileT.size]

/-- `file_expand` comes to an end when its store of the new control block does, and leaves the content alone. -/
theorem Growable.fileExpand_spec (growable : Growable fs cached keeper chain n) (small : n ≤ tempSize)
    (short : chain.length < nthBlock (cached.file.size + n) + 1) :
    ∃ fs₁ file news, fileExpand fs locals cached (nthBlock (cached.file.size + n) + 1 - chain.length) =
        save locals (fs₁, ⟨file, cached.ioState, cached.pathState⟩) ∧
      keeper.holds fs₁.disk cached.file ∧ Grown cached.file file ∧
      ∀ disk, storeFileCached fs₁.disk locals ⟨file, cached.ioState, cached.pathState⟩ = some disk →
        Extended fs cached keeper chain n { fs₁ with disk := disk } file news := by
  have wellFormed := growable.wellFormed
  let need := nthBlock (cached.file.size + n) + 1 - chain.length
  obtain ⟨fs₁, news, last, result, length, final, expanded⟩ :=
    expandFrom_spec fs cached.file growable.size growable.enough wellFormed.linked wellFormed.nodup
      wellFormed.last fun s member => (growable.marked s member).2
  let file : FileT := { cached.file with lastSector := last,
                                         sectorCount := cached.file.sectorCount + UInt32.ofNat need }
  have clear := growable.clear expanded.allocated
  have held : keeper.holds fs₁.disk cached.file :=
    keeper.frame growable.kept fun s inner => expanded.frame s fun member => clear s member inner
  have total : (chain ++ news).length = nthBlock (cached.file.size + n) + 1 := by
    rw [List.length_append, length]
    omega
  have count : file.sectorCount.toNat = (chain ++ news).length := by
    have old := wellFormed.count
    have bound := growable.bound small
    rw [total, UInt32.toNat_add, UInt32.toNat_ofNat', ← old]
    simp only [nthBlock_eq, need] at short ⊢
    omega
  have grows : Grown cached.file file := by
    refine ⟨rfl, rfl, ?_, Int32.le_refl _⟩
    rw [count, ← wellFormed.count, List.length_append]
    exact Nat.le_add_right _ _
  refine ⟨fs₁, file, news, ?_, held, grows, fun disk stored => ?_⟩
  · simp only [fileExpand, result, Option.bind_eq_bind]
    rw [save_eq]
    rfl
  · obtain ⟨kept, frame⟩ := keeper.store file cached.ioState held grows stored
    exact
      { fileName := rfl
        fileType := rfl
        fileSize := rfl
        wellFormed :=
          { first := by
              rw [List.getElem?_append_left (Nat.zero_lt_of_lt wellFormed.room)]
              exact wellFormed.first
            linked := expanded.linked.congr fun s member => congrArg nextSector (frame s (clear s member))
            positive := wellFormed.positive
            room := by
              rw [List.length_append]
              exact Nat.lt_add_right _ wellFormed.room
            last := final
            count := count.symm
            nodup := expanded.nodup }
        room := by rw [total]; exact Nat.lt_succ_self _
        bytes := by
          intro i inside
          have place : i / 508 < chain.length :=
            Nat.lt_of_le_of_lt (Nat.div_le_div_right (Nat.le_of_lt inside)) wellFormed.room
          calc
            _ = byteOf fs.disk (chain ++ news) i := by
              apply content_congr (by rw [List.length_append]; exact Nat.lt_add_right _ place)
              intro s member j small
              exact (congrArg (fun block => CArray.cell block j) (frame s (clear s member))).trans
                (expanded.data s j small)
            _ = byteOf fs.disk chain i := content_append place
        kept := kept
        allocated := expanded.allocated
        needed := length
        frame := fun s outside apart => (frame s apart).trans (expanded.frame s outside) }

theorem Growable.expansion (growable : Growable fs cached keeper chain n) (small : n ≤ tempSize)
    (ends : cached.pathState.hasParent = false → ∃ result, expandedFor fs locals cached n = some result) :
    ∃ fs' file news, expandedFor fs locals cached n = some (fs', ⟨file, cached.ioState, cached.pathState⟩) ∧
      Extended fs cached keeper chain n fs' file news := by
  have blocks := growable.blocks small
  have count := growable.wellFormed.count
  rw [expandedFor, blocks, ← count] at ends ⊢
  by_cases short : chain.length < nthBlock (cached.file.size + n) + 1
  · simp only [if_pos short] at ends ⊢
    obtain ⟨fs₁, file, news, run, held, grows, extended⟩ := growable.fileExpand_spec small short
    obtain ⟨disk, stored⟩ : ∃ disk,
        storeFileCached fs₁.disk locals ⟨file, cached.ioState, cached.pathState⟩ = some disk := by
      by_cases parent : cached.pathState.hasParent = true
      · exact keeper.ends parent file cached.ioState held grows
      · obtain ⟨result, same⟩ := ends (Bool.eq_false_iff.mpr parent)
        obtain ⟨disk, stored, -⟩ := Option.map_eq_some_iff.mp (run.symm.trans same)
        exact ⟨disk, stored⟩
    refine ⟨{ fs₁ with disk := disk }, file, news, ?_, extended disk stored⟩
    rw [run, save, stored]
    rfl
  · refine ⟨fs, cached.file, [], by simp only [if_neg short], ?_⟩
    exact
      { fileName := rfl
        fileType := rfl
        fileSize := rfl
        wellFormed := by simpa using growable.wellFormed
        room := by
          rw [List.append_nil]
          omega
        bytes := by simp
        kept := growable.kept
        allocated := Allocated.refl growable.size
        needed := by
          rw [List.length_nil]
          omega
        frame := fun _ _ _ => rfl }

theorem Growable.grows (growable : Growable fs cached keeper chain n) (small : n ≤ tempSize) {fs' : FileSystem}
    {file : FileT} {news : List UInt32} (extended : Extended fs cached keeper chain n fs' file news) :
    0 ≤ file.fileSize + Int32.ofNat n ∧
      FileT.size { file with fileSize := file.fileSize + Int32.ofNat n } = cached.file.size + n ∧
      Grown file { file with fileSize := file.fileSize + Int32.ofNat n } := by
  obtain ⟨positive, grown⟩ := grow_fileSize growable.wellFormed.positive (growable.bound small)
  rw [← extended.fileSize] at positive grown
  have old := size_cast extended.wellFormed.positive
  have new := @size_cast { file with fileSize := file.fileSize + Int32.ofNat n } positive
  have size : FileT.size { file with fileSize := file.fileSize + Int32.ofNat n } = cached.file.size + n := by
    rw [FileT.size, grown, extended.fileSize, FileT.size]
  refine ⟨positive, size, rfl, rfl, Nat.le_refl _, ?_⟩
  rw [size] at new
  rw [extended.size] at old
  change file.fileSize ≤ file.fileSize + Int32.ofNat n
  rw [Int32.le_iff_toInt_le, ← old]
  refine le_trans ?_ (le_of_eq new)
  omega

theorem Growable.unsaved (growable : Growable fs cached keeper chain n) (buf : Nat → UInt8)
    (here : chain[nthBlock cached.ioState.writeSeek]? = some cached.ioState.writeSector)
    (total : cached.ioState.writeSeek ≤ cached.file.size + n)
    (fits : cached.file.size - cached.ioState.writeSeek + n ≤ tempSize)
    (tail : TailFits cached.file cached.ioState)
    (links : LinksKept (grownChain fs.fileAllocBitmap chain (cached.file.size + n)) cached.file.size
      cached.ioState.writeSeek n (inserted (byteOf fs.disk chain) buf cached.ioState.writeSeek n))
    (ends : cached.pathState.hasParent = false → ∃ result, expandedFor fs locals cached n = some result) :
    ∃ fs₁ file news disk io', Extended fs cached keeper chain n fs₁ file news ∧
      unsavedWrite fs locals cached buf n = some ({ fs₁ with disk := disk },
        ⟨{ file with fileSize := file.fileSize + Int32.ofNat n },
          (sysRseek disk file (sysWseek disk file io' (cached.ioState.writeSeek + n)) cached.ioState.readSeek).2,
          cached.pathState⟩) ∧
      Overwrites blockFormat (chain ++ news) fs₁.disk disk cached.ioState.writeSeek
        (cached.file.size + n - cached.ioState.writeSeek) (fun i =>
          inserted (byteOf fs₁.disk (chain ++ news)) buf cached.ioState.writeSeek n (cached.ioState.writeSeek + i)) ∧
      ((chain ++ news)[nthBlock cached.ioState.readSeek]? = some cached.ioState.readSector →
        io'.readSeek = readEnd (tailStart cached.file cached.ioState)
            (cached.file.size - tailStart cached.file cached.ioState) ∧
          (chain ++ news)[nthBlock cached.file.size]? = some io'.readSector) := by
  obtain ⟨fs₁, file, news, expansion, extended⟩ := growable.expansion (by omega) ends
  have wellFormed := extended.wellFormed
  have size := extended.size
  have tailAt : tailStart file cached.ioState = tailStart cached.file cached.ioState := by
    rw [tailStart, tailStart, size]
  have longer : (chain ++ news)[nthBlock cached.ioState.writeSeek]? = some cached.ioState.writeSector := by
    rw [List.getElem?_append_left (List.getElem?_eq_some_iff.mp here).1]
    exact here
  rw [extended.allocated.grownChain extended.needed] at links
  obtain ⟨disk, io', run, written, cursor⟩ :=
    stagedWrite_run locals ⟨file, cached.ioState, cached.pathState⟩ buf n wellFormed.toReadable wellFormed.nodup
      (by rw [size]; exact total) longer (by rw [size]; exact extended.room) (by rw [size]; exact fits)
      (by rw [TailFits, size]; exact tail) (by
        rw [size]
        exact links.congr fun i behind small =>
          inserted_beyond buf extended.bytes (by simp only [nthBlock_eq] at behind ⊢; omega) small)
  dsimp only at run written cursor
  rw [size, tailAt] at cursor
  rw [size] at written
  refine ⟨fs₁, file, news, disk, io', extended, ?_, written, cursor⟩
  rw [unsavedWrite, expansion, Option.bind_some]
  exact run

/-- `sys_write` inserts the bytes before it writes the control block back: the content and the chain are right again. -/
theorem Writable.unsaved_spec (writable : Writable fs cached keeper chain n) (buf : Nat → UInt8)
    (tail : TailFits cached.file cached.ioState)
    (links : LinksKept (grownChain fs.fileAllocBitmap chain (cached.file.size + n)) cached.file.size
      cached.ioState.writeSeek n (inserted (byteOf fs.disk chain) buf cached.ioState.writeSeek n))
    (ends : cached.pathState.hasParent = false → ∃ result, expandedFor fs locals cached n = some result) :
    ∃ fs' cached' news f, unsavedWrite fs locals cached buf n = some (fs', cached') ∧
      Written fs cached keeper chain buf n fs' cached' news f ∧ f.fileSize = cached.file.fileSize ∧
      f.sectorCount = cached'.file.sectorCount := by
  obtain ⟨fs₁, file, news, disk, io', extended, run, written, -⟩ := writable.unsaved buf writable.here
    (Nat.le_add_right_of_le writable.inside) writable.fits tail links ends
  have wellFormed := extended.wellFormed
  have small : n ≤ tempSize := Nat.le_trans (Nat.le_add_left _ _) writable.fits
  have bytes := fun i (small : i < cached.file.size + n) =>
    inserted_congr buf writable.inside extended.bytes small
  obtain ⟨positive, newSize, grows⟩ := writable.grows small extended
  have clear := writable.clear extended.allocated
  have linked : Linked blockFormat disk (chain ++ news) := written.linked wellFormed.linked
  have cursor := sysWseek_write disk file io' (cached.ioState.writeSeek + n) cached.ioState.readSeek
  have past : nthBlock (cached.ioState.writeSeek + n) ≤ nthBlock (cached.file.size + n) :=
    Nat.div_le_div_right (Nat.add_le_add_right writable.inside n)
  refine ⟨_, _, news, file, run, ?_, extended.fileSize, rfl⟩
  exact
    { pathState := rfl
      fileName := extended.fileName
      fileType := extended.fileType
      grown := newSize
      wellFormed :=
        { first := wellFormed.first
          linked := linked
          positive := positive
          room := by rw [newSize]; exact extended.room
          last := wellFormed.last
          count := wellFormed.count
          nodup := wellFormed.nodup }
      content := by
        intro i inside
        have place : i / 508 < (chain ++ news).length :=
          Nat.lt_of_le_of_lt (Nat.div_le_div_right (Nat.le_of_lt inside)) extended.room
        have overwritten : byteOf disk (chain ++ news) i = _ := written.content i place
        calc
          _ = inserted (byteOf fs₁.disk (chain ++ news)) buf cached.ioState.writeSeek n i := by
            rw [overwritten]
            by_cases before : i < cached.ioState.writeSeek
            · rw [if_neg (by omega), inserted, if_pos before]
              rfl
            · rw [if_pos (by omega), Nat.add_sub_of_le (Nat.not_lt.mp before)]
          _ = _ := bytes i inside
      kept := keeper.frame extended.kept fun s inner => written.frame s fun member => clear s member inner
      follows := grows
      apart := clear
      allocated := extended.allocated
      needed := extended.needed
      frame := by
        intro s outside apart
        exact (written.frame s outside).trans (extended.frame s outside apart)
      seek := cursor.1
      here := by
        rw [cursor.1, cursor.2]
        exact seekSector_chain linked wellFormed.first (Nat.lt_of_le_of_lt past extended.room) }

theorem Written.save {buf : Nat → UInt8} {fs' : FileSystem} {cached' : FileCached} {news : List UInt32} {f : FileT}
    (written : Written fs cached keeper chain buf n fs' cached' news f) {disk : Disk}
    (stored : storeFileCached fs'.disk locals cached' = some disk) :
    Written fs cached keeper chain buf n { fs' with disk := disk } cached' news cached'.file := by
  obtain ⟨file', io', path'⟩ := cached'
  obtain rfl : path' = cached.pathState := written.pathState
  obtain ⟨kept, frame⟩ := keeper.store file' io' written.kept written.follows stored
  have unchanged : ∀ s ∈ chain ++ news, disk s = fs'.disk s := fun s member => frame s (written.apart s member)
  exact
    { written with
      wellFormed := written.wellFormed.congr unchanged
      content := by
        intro i inside
        have place : i / 508 < (chain ++ news).length := by
          refine Nat.lt_of_le_of_lt (Nat.div_le_div_right (Nat.le_of_lt inside)) ?_
          rw [← written.grown]
          exact written.wellFormed.room
        exact (byteOf_congr place unchanged).trans (written.content i inside)
      kept := kept
      follows := Grown.refl file'
      frame := fun s outside apart => (frame s apart).trans (written.frame s outside apart) }

theorem Writable.sysWrite_spec (writable : Writable fs cached keeper chain n) (buf : Nat → UInt8)
    (parent : cached.pathState.hasParent = true) (tail : TailFits cached.file cached.ioState)
    (links : LinksKept (grownChain fs.fileAllocBitmap chain (cached.file.size + n)) cached.file.size
      cached.ioState.writeSeek n (inserted (byteOf fs.disk chain) buf cached.ioState.writeSeek n)) :
    ∃ fs' cached' news, sysWrite fs locals cached buf n = some (fs', cached') ∧
      Written fs cached keeper chain buf n fs' cached' news cached'.file := by
  obtain ⟨fs₂, ⟨file', io', path'⟩, news, f, run, written, -⟩ := writable.unsaved_spec buf tail links fun root => by
    rw [parent] at root
    cases root
  obtain rfl : path' = cached.pathState := written.pathState
  obtain ⟨disk, stored⟩ := keeper.ends parent file' io' written.kept written.follows
  refine ⟨{ fs₂ with disk := disk }, ⟨file', io', cached.pathState⟩, news, ?_, written.save stored⟩
  rw [sysWrite_save, run, Option.bind_some, WegOS.save, stored]
  rfl

/-- The write gets to the write-back only when the bytes it reads fit in the staging buffer. -/
theorem Growable.unsaved_fits (growable : Growable fs cached keeper chain n) (small : n ≤ tempSize)
    {buf : Nat → UInt8} {result : FileSystem × FileCached} (run : unsavedWrite fs locals cached buf n = some result) :
    TailFits cached.file cached.ioState := by
  obtain ⟨expanded, expansion, staged⟩ := Option.bind_eq_some_iff.mp run
  obtain ⟨fs₁, file, news, same, extended⟩ := growable.expansion small fun _ => ⟨expanded, expansion⟩
  obtain rfl := Option.some.inj (same.symm.trans expansion)
  obtain ⟨_, read, -⟩ := Option.bind_eq_some_iff.mp staged
  have fits := readRemains_fits extended.wellFormed.positive read
  rw [TailFits, extended.size] at fits
  exact fits

end Write

end WegOS
