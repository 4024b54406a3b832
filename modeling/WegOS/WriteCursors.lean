import WegOS.CreateFile

/-! Where `sys_write` leaves the cursors of the handle. -/

namespace WegOS

open BlockChain

def CursorsKept (fs : FileSystem) (locals : Locals) (cached : FileCached) (buf : Nat → UInt8) (n : Nat) : Prop :=
  ∃ fs' cached', sysWrite fs locals cached buf n = some (fs', cached') ∧
    cached'.ioState.readSeek = cached.ioState.readSeek ∧
    cached'.ioState.readSector = cached.ioState.readSector ∧
    cached'.ioState.writeSeek = cached.ioState.writeSeek + n ∧
    (sectorsOf fs'.disk cached'.file)[nthBlock cached'.ioState.writeSeek]? = some cached'.ioState.writeSector

/-- The read seek is not at the end of the file, or the bytes that are moved lie in one block, or
the file ends with a block. Behind the end of the file, the new bytes must reach what
the file grows by. -/
structure CursorsFit (file : FileT) (io : FileIoState) (n : Nat) : Prop where
  tail : TailFits file io
  read : io.readSeek < file.size ∨ file.size ≤ io.writeSeek ∨ nthBlock file.size = nthBlock io.writeSeek ∨
    inBlockOffset file.size = 0
  write : io.writeSeek ≤ file.size ∨ io.writeSeek ≤ file.size + n ∧ n ≤ tempSize ∧
    nthBlock (io.writeSeek + n) < max file.sectorCount.toNat (nthBlock (file.size + n) + 1)

/-! ## Writes that come to an end -/

/-- The look-ups that the stores of the control block begin with come to an end. -/
def StoresEnd (fs : FileSystem) (locals : Locals) (cached : FileCached) (buf : Nat → UInt8) (n : Nat) : Prop :=
  (∃ result, expandedFor fs locals cached n = some result) ∧
    ∀ unsaved, unsavedWrite fs locals cached buf n = some unsaved →
      ∃ disk, storeFileCached unsaved.1.disk locals unsaved.2 = some disk

theorem storesEnd_of_run {fs : FileSystem} {locals : Locals} {cached : FileCached} {buf : Nat → UInt8} {n : Nat}
    {result : FileSystem × FileCached} (run : sysWrite fs locals cached buf n = some result) :
    StoresEnd fs locals cached buf n := by
  rw [sysWrite_save] at run
  obtain ⟨unsaved, reached, last⟩ := Option.bind_eq_some_iff.mp run
  obtain ⟨disk, stored, -⟩ := Option.map_eq_some_iff.mp last
  obtain ⟨expanded, expansion, -⟩ := Option.bind_eq_some_iff.mp reached
  refine ⟨⟨expanded, expansion⟩, fun other again => ?_⟩
  obtain rfl := Option.some.inj (reached.symm.trans again)
  exact ⟨disk, stored⟩

theorem stagedWrite_bounds {fs : FileSystem} {locals : Locals} {cached : FileCached} {buf : Nat → UInt8}
    {n : Nat} {result : FileSystem × FileCached} (positive : 0 ≤ cached.file.fileSize)
    (run : stagedWrite fs locals cached buf n = some result) :
    cached.ioState.writeSeek ≤ cached.file.size + n ∧
      cached.file.size - cached.ioState.writeSeek + n ≤ tempSize := by
  have cast := size_cast positive
  obtain ⟨r, -, run⟩ := Option.bind_eq_some_iff.mp run
  dsimp only at run
  split_ifs at run with outside
  · cases run
  · rw [not_or] at outside
    omega

theorem unsavedWrite_bounds {fs : FileSystem} {locals : Locals} {cached : FileCached} {buf : Nat → UInt8} {n : Nat}
    {result : FileSystem × FileCached} (positive : 0 ≤ cached.file.fileSize)
    (run : unsavedWrite fs locals cached buf n = some result) :
    cached.ioState.writeSeek ≤ cached.file.size + n ∧
      cached.file.size - cached.ioState.writeSeek + n ≤ tempSize := by
  obtain ⟨⟨fs₁, cached₁⟩, expanded, run⟩ := Option.bind_eq_some_iff.mp run
  have kept : cached₁.file.fileSize = cached.file.fileSize ∧ cached₁.ioState = cached.ioState := by
    simp only [expandedFor] at expanded
    split_ifs at expanded
    · obtain ⟨disk, -, same⟩ := Option.bind_eq_some_iff.mp expanded
      rw [← (Prod.mk.inj (Option.some.inj same)).2]
      exact ⟨expandFrom_fileSize _ _ _, rfl⟩
    · rw [← (Prod.mk.inj (Option.some.inj expanded)).2]
      exact ⟨rfl, rfl⟩
  have bounds := stagedWrite_bounds (by rw [kept.1]; exact positive) run
  rw [FileT.size, kept.1, kept.2] at bounds
  exact bounds

section Cursors

variable {locals : Locals} {fs : FileSystem} {cached : FileCached} {keeper : Keeper locals cached.pathState}
  {chain : List UInt32} {n : Nat}

theorem Growable.unsaved_cursors (growable : Growable fs cached keeper chain n) (buf : Nat → UInt8)
    (readHere : chain[nthBlock cached.ioState.readSeek]? = some cached.ioState.readSector)
    (readInside : cached.ioState.readSeek ≤ cached.file.size)
    (here : chain[nthBlock cached.ioState.writeSeek]? = some cached.ioState.writeSector)
    (total : cached.ioState.writeSeek ≤ cached.file.size + n)
    (fits : cached.file.size - cached.ioState.writeSeek + n ≤ tempSize)
    (tail : TailFits cached.file cached.ioState)
    (links : LinksKept (grownChain fs.fileAllocBitmap chain (cached.file.size + n)) cached.file.size
      cached.ioState.writeSeek n (inserted (byteOf fs.disk chain) buf cached.ioState.writeSeek n))
    (ends : cached.pathState.hasParent = false → StoresEnd fs locals cached buf n) :
    ∃ fs' cached' disk sectors, unsavedWrite fs locals cached buf n = some (fs', cached') ∧
      storeFileCached fs'.disk locals cached' = some disk ∧ sectorsOf disk cached'.file = sectors ∧
      sectors.length = max chain.length (nthBlock (cached.file.size + n) + 1) ∧
      cached'.ioState.writeSeek = cached.ioState.writeSeek + n ∧
      (nthBlock (cached.ioState.writeSeek + n) < sectors.length →
        sectors[nthBlock (cached.ioState.writeSeek + n)]? = some cached'.ioState.writeSector) ∧
      cached'.ioState.readSector = cached.ioState.readSector ∧
      cached'.ioState.readSeek = if cached.ioState.readSeek < cached.file.size then cached.ioState.readSeek
        else readEnd (tailStart cached.file cached.ioState)
          (cached.file.size - tailStart cached.file cached.ioState) := by
  obtain ⟨fs₁, file, news, disk₂, io', extended, run, written, cursor⟩ :=
    growable.unsaved buf here total fits tail links fun root => (ends root).1
  have wellFormed := extended.wellFormed
  have size := extended.size
  obtain ⟨-, -, grows⟩ := growable.grows (by omega) extended
  have longer : ∀ {k : Nat} {s : UInt32}, chain[k]? = some s → (chain ++ news)[k]? = some s := by
    intro k s place
    rw [List.getElem?_append_left (List.getElem?_eq_some_iff.mp place).1]
    exact place
  obtain ⟨readSeek, readSector⟩ := cursor (longer readHere)
  have linked : Linked blockFormat disk₂ (chain ++ news) := written.linked wellFormed.linked
  have clear := growable.clear extended.allocated
  let file' : FileT := { file with fileSize := file.fileSize + Int32.ofNat n }
  let last := (sysRseek disk₂ file (sysWseek disk₂ file io' (cached.ioState.writeSeek + n))
    cached.ioState.readSeek).2
  have held : keeper.holds disk₂ file :=
    keeper.frame extended.kept fun s inner => written.frame s fun member => clear s member inner
  obtain ⟨disk₃, stored⟩ : ∃ disk, storeFileCached disk₂ locals ⟨file', last, cached.pathState⟩ = some disk := by
    cases parent : cached.pathState.hasParent with
    | true => exact keeper.ends parent file' last held grows
    | false => exact (ends parent).2 _ run
  obtain ⟨-, frame⟩ := keeper.store file' last held grows stored
  have sectors : sectorsOf disk₃ file' = chain ++ news := by
    have count : file'.sectorCount.toNat = (chain ++ news).length := wellFormed.count.symm
    rw [sectorsOf, count]
    exact (linked.congr fun s member => congrArg nextSector (frame s (clear s member))).chainFrom_eq
      wellFormed.first
  have write := sysWseek_write disk₂ file io' (cached.ioState.writeSeek + n) cached.ioState.readSeek
  have inside : (cached.ioState.readSeek : Int) < file.fileSize.toInt ↔
      cached.ioState.readSeek < cached.file.size := by
    rw [← size_cast wellFormed.positive, size, Nat.cast_lt]
  refine ⟨_, _, disk₃, chain ++ news, run, stored, sectors, ?_, write.1, fun room => ?_, ?_⟩
  · rw [List.length_append, extended.needed]
    omega
  · rw [write.2]
    exact seekSector_chain linked wellFormed.first room
  · change last.readSector = _ ∧ last.readSeek = _
    simp only [last, sysRseek]
    by_cases before : cached.ioState.readSeek < cached.file.size
    · rw [if_pos (inside.mpr before), if_pos before]
      have place := seekSector_chain linked wellFormed.first (List.getElem?_eq_some_iff.mp (longer readHere)).1
      exact ⟨Option.some.inj (place.symm.trans (longer readHere)), rfl⟩
    · rw [if_neg (inside.not.mpr before), if_neg before]
      have atEnd : cached.ioState.readSeek = cached.file.size := by omega
      rw [atEnd] at readHere
      exact ⟨Option.some.inj (readSector.symm.trans (longer readHere)), readSeek⟩

theorem tailStart_readSeek {file : FileT} {io : FileIoState} (behind : file.size ≤ io.writeSeek) :
    tailStart file io = io.readSeek := if_neg (Nat.not_lt.mpr behind)

/-- The cursors are kept when they fit and the stores come to an end, and just then. -/
theorem Growable.cursorsKept_iff (growable : Growable fs cached keeper chain n) (buf : Nat → UInt8)
    (readHere : chain[nthBlock cached.ioState.readSeek]? = some cached.ioState.readSector)
    (readInside : cached.ioState.readSeek ≤ cached.file.size)
    (here : chain[nthBlock cached.ioState.writeSeek]? = some cached.ioState.writeSector)
    (fits : (cached.file.size : Int) - cached.ioState.writeSeek + n ≤ tempSize)
    (links : LinksKept (grownChain fs.fileAllocBitmap chain (cached.file.size + n)) cached.file.size
      cached.ioState.writeSeek n (inserted (byteOf fs.disk chain) buf cached.ioState.writeSeek n)) :
    CursorsKept fs locals cached buf n ↔ CursorsFit cached.file cached.ioState n ∧
      (cached.pathState.hasParent = false → StoresEnd fs locals cached buf n) := by
  have count := growable.wellFormed.count
  have positive := growable.wellFormed.positive
  -- The read seek is where it was, as far as the read of the tail or the seek after it go.
  have readEnds : (if cached.ioState.readSeek < cached.file.size then cached.ioState.readSeek
      else readEnd (tailStart cached.file cached.ioState)
        (cached.file.size - tailStart cached.file cached.ioState)) = cached.ioState.readSeek ↔
      cached.ioState.readSeek < cached.file.size ∨ cached.file.size ≤ cached.ioState.writeSeek ∨
        nthBlock cached.file.size = nthBlock cached.ioState.writeSeek ∨ inBlockOffset cached.file.size = 0 := by
    by_cases before : cached.ioState.readSeek < cached.file.size
    · rw [if_pos before]
      exact iff_of_true rfl (Or.inl before)
    · have atEnd : cached.ioState.readSeek = cached.file.size := by omega
      rw [if_neg before, or_iff_right before]
      by_cases behind : cached.file.size ≤ cached.ioState.writeSeek
      · rw [tailStart_readSeek behind, atEnd, Nat.sub_self]
        exact iff_of_true ((readEnd_eq _ 0).mpr (Or.inl rfl)) (Or.inl behind)
      · have start : tailStart cached.file cached.ioState = cached.ioState.writeSeek :=
          if_pos (Nat.not_le.mp behind)
        have whole : cached.ioState.writeSeek + (cached.file.size - cached.ioState.writeSeek) =
            cached.file.size := by omega
        have ends := readEnd_eq cached.ioState.writeSeek (cached.file.size - cached.ioState.writeSeek)
        rw [whole] at ends
        rw [or_iff_right behind, start, atEnd, ends]
  constructor
  · rintro ⟨fs', cached', run, readSeek, -, writeSeek, place⟩
    have ends := storesEnd_of_run run
    rw [sysWrite_save] at run
    obtain ⟨unsaved, reached, last⟩ := Option.bind_eq_some_iff.mp run
    obtain ⟨total, bounded⟩ := unsavedWrite_bounds positive reached
    have tail := growable.unsaved_fits (by omega) reached
    obtain ⟨fs₁, cached₁, disk, sectors, again, stored, chainEq, length, -, -, -, seek⟩ :=
      growable.unsaved_cursors buf readHere readInside here total bounded tail links fun _ => ends
    obtain rfl := Option.some.inj (again.symm.trans reached)
    rw [save, stored] at last
    obtain ⟨rfl, rfl⟩ := Prod.mk.inj (Option.some.inj last)
    refine ⟨⟨tail, readEnds.mp (seek.symm.trans readSeek), ?_⟩, fun _ => ends⟩
    by_cases inside : cached.ioState.writeSeek ≤ cached.file.size
    · exact Or.inl inside
    · have room := (List.getElem?_eq_some_iff.mp place).1
      rw [chainEq, length, count, writeSeek] at room
      exact Or.inr ⟨total, by omega, room⟩
  · rintro ⟨fit, ends⟩
    have total : cached.ioState.writeSeek ≤ cached.file.size + n := by
      rcases fit.write with inside | ⟨total, -⟩
      · exact Nat.le_add_right_of_le inside
      · exact total
    have bounded : cached.file.size - cached.ioState.writeSeek + n ≤ tempSize := by
      rcases fit.write with inside | ⟨-, small, -⟩
      · omega
      · by_cases inside : cached.ioState.writeSeek ≤ cached.file.size <;> omega
    obtain ⟨fs', cached', disk, sectors, reached, stored, chainEq, length, writeSeek, place, readSector, seek⟩ :=
      growable.unsaved_cursors buf readHere readInside here total bounded fit.tail links ends
    refine ⟨{ fs' with disk := disk }, cached', ?_, seek.trans (readEnds.mpr fit.read), readSector, writeSeek, ?_⟩
    · rw [sysWrite_save, reached, Option.bind_some, save, stored]
      rfl
    rw [chainEq, writeSeek]
    apply place
    rw [length]
    rcases fit.write with inside | ⟨-, -, room⟩
    · have past : nthBlock (cached.ioState.writeSeek + n) ≤ nthBlock (cached.file.size + n) :=
        Nat.div_le_div_right (Nat.add_le_add_right inside n)
      omega
    · rw [count]
      exact room

end Cursors

/-- A write to a file of the tree leaves the cursors where they should be when they fit, and just then; for a handle on
the root the look-up of the path that it holds must come to an end, too. The links of the sectors that
are overwritten as a whole are those of the chain that the write leaves. -/
theorem sysWrite_keeps_cursors {fs : FileSystem} (volume : Volume fs) (locals : Locals)
    (components : List (List UInt8)) (path : Path components) (through : ThroughDirectories fs.disk components)
    (cached : FileCached) (handle : Handle fs.disk components cached)
    (wellFormed : WellFormed fs.disk cached.file (sectorsOf fs.disk cached.file))
    (readInside : cached.ioState.readSeek ≤ cached.file.size)
    (readHere : (sectorsOf fs.disk cached.file)[nthBlock cached.ioState.readSeek]? =
      some cached.ioState.readSector)
    (writeHere : (sectorsOf fs.disk cached.file)[nthBlock cached.ioState.writeSeek]? =
      some cached.ioState.writeSector)
    (buf : Nat → UInt8) (n : Nat) (fits : (cached.file.size : Int) - cached.ioState.writeSeek + n ≤ tempSize)
    (enough : nthBlock (cached.file.size + n) + 1 - cached.file.sectorCount.toNat ≤
      freeSectors fs.fileAllocBitmap)
    (links : LinksKept (grownChain fs.fileAllocBitmap (sectorsOf fs.disk cached.file) (cached.file.size + n))
      cached.file.size cached.ioState.writeSeek n
      (inserted (byteOf fs.disk (sectorsOf fs.disk cached.file)) buf cached.ioState.writeSeek n)) :
    CursorsKept fs locals cached buf n ↔ CursorsFit cached.file cached.ioState n ∧
      (components = [] → StoresEnd fs locals cached buf n) := by
  obtain ⟨keeper, kept, keeperMarked, keeperPlace, -⟩ := volume.dirKeeper locals path through handle
  obtain ⟨place, depth, there⟩ := node_of_resolve through handle.file
  have growable : Growable fs cached keeper.toKeeper (sectorsOf fs.disk cached.file) n :=
    { kept := kept
      wellFormed := wellFormed
      size := volume.size
      marked := volume.marked place cached.file there
      keeperMarked := keeperMarked
      apart := fun s member inner => volume.shallower_apart there member (depth ▸ keeperPlace s inner)
      enough := by rw [wellFormed.count]; exact enough }
  have atRoot : cached.pathState.hasParent = false ↔ components = [] := by
    rw [handle.hasParent]
    simp
  rw [growable.cursorsKept_iff buf readHere readInside writeHere fits links, atRoot]

/-- 450 bytes in front of the last 80 of the file `a`, read up to its second block. -/
theorem sysWrite_keeps_cursors_tail :
    CursorsKept sampleFs sampleLocals { sampleTail with ioState := ⟨510, 520, 1027, 1027⟩ } (fun _ => 7) 450 :=
  (sysWrite_keeps_cursors sampleFs_volume sampleLocals ([] ++ [[97]]) sampleFile_path sampleFile_directories
    { sampleTail with ioState := ⟨510, 520, 1027, 1027⟩ } (sampleFile_handle _) sampleTail_wellFormed (by decide)
    (by decide +kernel) (by decide +kernel) (fun _ => 7) 450 (by decide) (Nat.le_trans (by decide) sampleFs_free)
    (linksKept_short (by decide))).mpr
      ⟨{ tail := by unfold TailFits; decide
         read := Or.inl (by decide)
         write := Or.inl (by decide) }, fun none => by simp at none⟩

def sampleAtEnd : FileCached := ⟨sampleFile, ⟨600, 0, 1027, 1026⟩, ⟨[], 0, true⟩⟩

/-- Five bytes at the start of a file of two blocks: the read seek goes from 600 back to 508. -/
theorem sysWrite_moves_read_seek :
    Volume sampleFs ∧ Path [[97]] ∧ ThroughDirectories sampleTree [[97]] ∧ Handle sampleTree [[97]] sampleAtEnd ∧
      WellFormed sampleTree sampleFile (sectorsOf sampleTree sampleFile) ∧
      sampleAtEnd.ioState.readSeek ≤ sampleFile.size ∧
      (sectorsOf sampleTree sampleFile)[nthBlock sampleAtEnd.ioState.readSeek]? =
        some sampleAtEnd.ioState.readSector ∧
      (sectorsOf sampleTree sampleFile)[nthBlock sampleAtEnd.ioState.writeSeek]? =
        some sampleAtEnd.ioState.writeSector ∧
      (sampleFile.size : Int) - sampleAtEnd.ioState.writeSeek + (5 : Nat) ≤ tempSize ∧
      nthBlock (sampleFile.size + 5) + 1 - sampleFile.sectorCount.toNat ≤ freeSectors sampleFs.fileAllocBitmap ∧
      ¬CursorsKept sampleFs sampleLocals sampleAtEnd (fun _ => 7) 5 := by
  refine ⟨sampleFs_volume, sampleFile_path, sampleFile_directories, sampleFile_handle _,
    sampleTail_wellFormed, by decide, by decide +kernel, by decide +kernel, by decide, Nat.zero_le _, ?_⟩
  rintro ⟨fs', cached', run, seek, -⟩
  have back : (sysWrite sampleFs sampleLocals sampleAtEnd (fun _ => 7) 5).map (fun r => r.2.ioState.readSeek) =
      some 508 := by decide +kernel
  rw [run, Option.map_some, seek] at back
  exact absurd (Option.some.inj back) (by decide)

end WegOS
