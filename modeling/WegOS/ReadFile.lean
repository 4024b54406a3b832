import WegOS.Lookup

/-! Reading through a handle: the bytes that are delivered, and the sectors that are read. -/

namespace WegOS

open CArray BlockChain

def sectorsRead (disk : Disk) (file : FileT) (io : FileIoState) (length : Nat) : List UInt32 :=
  if ((io.readSeek + length : Nat) : Int) ≤ file.fileSize.toInt then
    if nthBlock (io.readSeek + length) - nthBlock io.readSeek = 0 then [io.readSector]
    else
      let remain := validDataSizeInBlock - inBlockOffset io.readSeek
      let sectors := (length - remain) / validDataSizeInBlock
      io.readSector :: chainFrom blockFormat disk (sectors + 1) (nextSector (disk io.readSector))
  else []

/-- The loop over whole sectors ends at the sector behind those it read. -/
theorem readSectors_follow (disk : Disk) (sectors : Nat) (io : FileIoState) (buf : Nat → UInt8) (pos : Nat) :
    (readSectors disk sectors io buf pos).1.readSector = follow blockFormat disk sectors io.readSector := by
  induction sectors generalizing io buf pos with
  | zero => rfl
  | succ sectors ih => exact ih _ _ _

theorem readSectors_congr {disk disk' : Disk} {sectors : Nat} {io : FileIoState} (buf : Nat → UInt8) (pos : Nat)
    (same : ∀ s ∈ chainFrom blockFormat disk sectors io.readSector, disk' s = disk s) :
    readSectors disk' sectors io buf pos = readSectors disk sectors io buf pos := by
  induction sectors generalizing io buf pos with
  | zero => rfl
  | succ sectors ih =>
      have here : disk' io.readSector = disk io.readSector := same _ List.mem_cons_self
      rw [readSectors, readSectors, here]
      exact ih _ _ fun s member => same s (List.mem_cons_of_mem _ member)

/-- What `sys_read` does is decided by the sectors it reads. -/
theorem sysRead_congr {disk disk' : Disk} {file : FileT} {io : FileIoState} (buf : Nat → UInt8) {length : Nat}
    (same : ∀ s ∈ sectorsRead disk file io length, disk' s = disk s) :
    sysRead disk' file io buf length = sysRead disk file io buf length := by
  unfold sectorsRead at same
  unfold sysRead
  split_ifs at same ⊢ with inRange single
  · rw [same _ List.mem_cons_self]
  · have first : disk' io.readSector = disk io.readSector := same _ List.mem_cons_self
    dsimp only at same ⊢
    rw [chainFrom_succ] at same
    have whole := fun s member => same s (List.mem_cons_of_mem _ (List.mem_append_left _ member))
    have last := same _ (List.mem_cons_of_mem _ (List.mem_append_right _ (List.mem_singleton_self _)))
    rw [first, readSectors_congr _ _ whole, readSectors_follow, last]
  · rfl

theorem sectorsRead_chain {disk : Disk} {file : FileT} {chain : List UInt32}
    (readable : Readable disk file chain) {io : FileIoState} {length : Nat}
    (here : chain[nthBlock io.readSeek]? = some io.readSector) (bound : io.readSeek + length ≤ file.size) :
    ∀ s ∈ sectorsRead disk file io length, s ∈ chain := by
  have room := readable.room
  rw [nthBlock_eq] at room
  intro s member
  unfold sectorsRead at member
  split_ifs at member with inRange single
  · rw [List.mem_singleton.mp member]
    exact List.mem_of_getElem? here
  · have crossed : (io.readSeek + length) / 508 - io.readSeek / 508 ≠ 0 := single
    have next := nextSector_of_linked readable.linked here (by rw [nthBlock_eq]; omega)
    rcases List.mem_cons.mp member with rfl | later
    · exact List.mem_of_getElem? here
    · apply readable.linked.chainFrom_subset next _ s later
      simp only [nthBlock_eq, inBlockOffset_eq, validDataSizeInBlock, sectorSize, Nat.reduceSub]
      omega
  · cases member

/-- A read within the file succeeds, delivers the bytes of the file from the read seek on, and reads
no sector outside the chain. It has no way to write: neither disk nor control block are
among its results. A read of all delivers the first `file_size` bytes. -/
theorem sysRead_delivers {disk : Disk} {file : FileT} {chain : List UInt32} (readable : Readable disk file chain)
    (io : FileIoState) (buf : Nat → UInt8) (length : Nat)
    (here : chain[nthBlock io.readSeek]? = some io.readSector) (bound : io.readSeek + length ≤ file.size) :
    (∃ io' buf', sysRead disk file io buf length = (.success, io', buf') ∧
      ∀ i < length, buf' i = byteOf disk chain (io.readSeek + i)) ∧
    (∀ s ∈ sectorsRead disk file io length, s ∈ chain) ∧
    (∀ disk' : Disk, (∀ s ∈ sectorsRead disk file io length, disk' s = disk s) →
      sysRead disk' file io buf length = sysRead disk file io buf length) ∧
    ∃ buf', readAll disk file buf = some buf' ∧ ∀ i < file.size, buf' i = byteOf disk chain i := by
  obtain ⟨sector, buf', result, -, bytes, -⟩ := sysRead_spec readable io buf length here bound
  exact ⟨⟨_, buf', result, bytes⟩, sectorsRead_chain readable here bound,
    fun disk' same => sysRead_congr buf same, readAll_spec readable buf⟩

theorem sysRead_delivers_sample :
    (∃ io' buf', sysRead sampleDisk sampleFile ⟨0, 0, 1026, 1026⟩ (fun _ => 0) 600 = (.success, io', buf') ∧
      ∀ i < 600, buf' i = byteOf sampleDisk [1026, 1027] (0 + i)) ∧
    ∀ s ∈ sectorsRead sampleDisk sampleFile ⟨0, 0, 1026, 1026⟩ 600, s ∈ [1026, 1027] := by
  obtain ⟨read, sectors, -⟩ :=
    sysRead_delivers sampleFile_wellFormed.toReadable ⟨0, 0, 1026, 1026⟩ (fun _ => 0) 600 rfl (by decide)
  exact ⟨read, sectors⟩

end WegOS
