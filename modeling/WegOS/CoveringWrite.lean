import WegOS.Lookup

/-! Writing over a part of a file. -/

namespace WegOS

open LittleEndian CArray BlockChain

section Chain

variable {disk disk' : Disk} {chain : List UInt32}

theorem overwrites_part (disk : Disk) (nodup : chain.Nodup) {k : Nat} {sector : UInt32}
    (here : chain[k]? = some sector) (offset n : Nat) (room : offset + n ≤ 508) (buf : Nat → UInt8) :
    Overwrites blockFormat chain disk
      (writeDisk disk sector (memcpy (disk sector).cell offset buf n)) (k * 508 + offset) n buf := by
  obtain ⟨inside, rfl⟩ := List.getElem?_eq_some_iff.mp here
  apply Overwrites.block nodup inside room
  · apply wordAt_congr
    intro j small
    simp only [arrayPlace, Nat.cast_id]
    rw [cell_ofCells (by omega), memcpy_above (by omega)]
  · intro j small
    exact cell_ofCells (Nat.lt_trans small (by decide))

/-- A whole sector is written together with the four bytes behind its data; its link
survives when these four are the link. -/
theorem overwrites_whole (nodup : chain.Nodup) {k pos : Nat} {sector : UInt32} {buf : Nat → UInt8}
    (here : chain[k]? = some sector)
    (link : nextSector (ofCells 512 fun i => buf (pos + i)) = nextSector (disk sector)) :
    Overwrites blockFormat chain disk (writeDisk disk sector (ofCells 512 fun i => buf (pos + i)).cell)
      (k * 508) 508 fun i => buf (pos + i) := by
  obtain ⟨inside, rfl⟩ := List.getElem?_eq_some_iff.mp here
  have written : Overwrites blockFormat chain disk
      (Function.update disk chain[k] (ofCells 512 fun i => buf (pos + i))) (k * 508 + 0) 508
        fun i => buf (pos + i) := by
    apply Overwrites.block nodup inside (Nat.le_of_eq (Nat.zero_add _)) link
    intro j small
    rw [if_pos ⟨Nat.zero_le j, by rw [Nat.zero_add]; exact small⟩, Nat.sub_zero]
    change j < 508 at small
    change (ofCells 512 fun i => buf (pos + i)).cell j = buf (pos + j)
    exact cell_ofCells (by omega)
  rw [Nat.add_zero] at written
  rw [writeDisk, ofCells_cell]
  exact written

theorem writeSectors_spec (nodup : chain.Nodup) (buf : Nat → UInt8) (sectors : Nat) {k : Nat} (disk : Disk)
    (pos : Nat) (io : FileIoState) (linked : Linked blockFormat disk chain) (here : chain[k]? = some io.writeSector)
    (room : k + sectors < chain.length)
    (survive : ∀ m < sectors, ∀ s, chain[k + m]? = some s →
      nextSector (ofCells 512 fun i => buf (pos + m * 508 + i)) = nextSector (disk s)) :
    ∃ disk' sector, writeSectors buf sectors disk io pos =
        (disk', { io with writeSector := sector, writeSeek := io.writeSeek + sectors * 508 }) ∧
      chain[k + sectors]? = some sector ∧
      Overwrites blockFormat chain disk disk' (k * 508) (sectors * 508) fun i => buf (pos + i) := by
  induction sectors generalizing k pos io disk with
  | zero => exact ⟨disk, io.writeSector, by simp [writeSectors], here, by simpa using Overwrites.refl disk _ _⟩
  | succ sectors ih =>
      have next := nextSector_of_linked linked here (by omega)
      have link : nextSector (ofCells 512 fun i => buf (pos + i)) = nextSector (disk io.writeSector) := by
        simpa using survive 0 (by omega) io.writeSector here
      have first := overwrites_whole nodup here link
      let block : Block := ofCells 512 fun i => buf (pos + i)
      obtain ⟨disk', sector, result, final, rest⟩ :=
        ih (writeDisk disk io.writeSector block.cell) (pos + 508)
          { io with writeSector := nextSector block, writeSeek := io.writeSeek + 508 }
          (first.linked linked) (by rw [link]; exact next) (by omega) (by
            intro m small s there
            have place : k + (m + 1) = k + 1 + m := by omega
            have link := survive (m + 1) (by omega) s (by rw [place]; exact there)
            have shifted : pos + (m + 1) * 508 = pos + 508 + m * 508 := by omega
            rw [shifted] at link
            exact link.trans (first.links s).symm)
      refine ⟨disk', sector, ?_, ?_, ?_⟩
      · have seek : io.writeSeek + 508 + sectors * 508 = io.writeSeek + (sectors + 1) * 508 := by omega
        simp only [seek] at result
        exact result
      · have place : k + (sectors + 1) = k + 1 + sectors := by omega
        rw [place]
        exact final
      · have length : (sectors + 1) * 508 = 508 + sectors * 508 := by omega
        rw [Nat.succ_mul] at rest
        rw [length]
        apply first.trans
        simpa only [Nat.add_assoc] using rest

/-- Behind the data of every sector that is overwritten as a whole stand the bytes of its link. -/
def LinksSurvive (disk : Disk) (chain : List UInt32) (seek length : Nat) (buf : Nat → UInt8) : Prop :=
  ∀ m s, nthBlock seek < m → m < nthBlock (seek + length) → chain[m]? = some s →
    nextSector (ofCells 512 fun i => buf (m * 508 - seek + i)) = nextSector (disk s)

theorem linksSurvive_short {seek length : Nat} (buf : Nat → UInt8)
    (short : nthBlock (seek + length) ≤ nthBlock seek + 1) : LinksSurvive disk chain seek length buf :=
  fun _ _ _ _ => by omega

/-- What `covering_write` has to do: the bytes from the write seek on are replaced, and nothing
else; the write cursor goes to the end of them. -/
structure Covers (chain : List UInt32) (disk : Disk) (io : FileIoState) (buf : Nat → UInt8) (length : Nat)
    (disk' : Disk) (io' : FileIoState) : Prop where
  overwrites : Overwrites blockFormat chain disk disk' io.writeSeek length buf
  seek : io'.writeSeek = io.writeSeek + length
  here : chain[nthBlock (io.writeSeek + length)]? = some io'.writeSector

def coverFirst (disk : Disk) (io : FileIoState) (buf : Nat → UInt8) : Disk × FileIoState :=
  let offset := inBlockOffset io.writeSeek
  (writeDisk disk io.writeSector (memcpy (disk io.writeSector).cell offset buf (508 - offset)),
    { io with writeSeek := io.writeSeek + (508 - offset), writeSector := nextSector (disk io.writeSector) })

def coverLast (disk : Disk) (io : FileIoState) (buf : Nat → UInt8) (scattered : Nat) : Disk × FileIoState :=
  (writeDisk disk io.writeSector (memcpy (disk io.writeSector).cell 0 buf scattered),
    { io with writeSeek := io.writeSeek + scattered })

def wholeSectors (seek length : Nat) : Nat := (length - (508 - inBlockOffset seek)) / 508

theorem coveringWrite_parts (disk : Disk) (io : FileIoState) (buf : Nat → UInt8) (length : Nat)
    (many : nthBlock (io.writeSeek + length) - nthBlock io.writeSeek ≠ 0) :
    coveringWrite disk io buf length =
      let remain := 508 - inBlockOffset io.writeSeek
      let sectors := wholeSectors io.writeSeek length
      let whole := writeSectors buf sectors (coverFirst disk io buf).1 (coverFirst disk io buf).2 remain
      coverLast whole.1 whole.2 (fun i => buf (remain + sectors * 508 + i)) ((length - remain) % 508) := by
  simp only [coveringWrite, if_neg many]
  rfl

theorem writeSectors_read (buf : Nat → UInt8) (sectors : Nat) (disk : Disk) (io : FileIoState) (pos : Nat) :
    (writeSectors buf sectors disk io pos).2.readSeek = io.readSeek ∧
      (writeSectors buf sectors disk io pos).2.readSector = io.readSector := by
  induction sectors generalizing disk io pos with
  | zero => exact ⟨rfl, rfl⟩
  | succ sectors ih => exact ih _ _ _

theorem coveringWrite_read (disk : Disk) (io : FileIoState) (buf : Nat → UInt8) (length : Nat) :
    (coveringWrite disk io buf length).2.readSeek = io.readSeek ∧
      (coveringWrite disk io buf length).2.readSector = io.readSector := by
  by_cases single : nthBlock (io.writeSeek + length) - nthBlock io.writeSeek = 0
  · simp only [coveringWrite, if_pos single, and_self]
  · rw [coveringWrite_parts disk io buf length single]
    exact writeSectors_read buf _ _ _ _

theorem coveringWrite_covers (nodup : chain.Nodup) (linked : Linked blockFormat disk chain) (io : FileIoState)
    (buf : Nat → UInt8) (length : Nat) (here : chain[nthBlock io.writeSeek]? = some io.writeSector)
    (room : nthBlock (io.writeSeek + length) < chain.length)
    (survive : LinksSurvive disk chain io.writeSeek length buf) :
    Covers chain disk io buf length (coveringWrite disk io buf length).1 (coveringWrite disk io buf length).2 := by
  have start : nthBlock io.writeSeek * 508 + inBlockOffset io.writeSeek = io.writeSeek :=
    Nat.div_add_mod' io.writeSeek 508
  have offset : inBlockOffset io.writeSeek < 508 := Nat.mod_lt _ (by decide)
  by_cases single : nthBlock (io.writeSeek + length) - nthBlock io.writeSeek = 0
  · have inside : inBlockOffset io.writeSeek + length ≤ 508 := by
      simp only [nthBlock_eq] at single
      rw [inBlockOffset_eq]
      omega
    have same : nthBlock (io.writeSeek + length) = nthBlock io.writeSeek := by
      have ordered := nthBlock_le_add io.writeSeek length
      omega
    have written := overwrites_part disk nodup here _ length inside buf
    rw [start] at written
    simp only [coveringWrite, if_pos single]
    exact ⟨written, rfl, by rw [same]; exact here⟩
  · -- The rest of the first block, whole blocks, and the start of the last one.
    let remain := 508 - inBlockOffset io.writeSeek
    let sectors := wholeSectors io.writeSeek length
    have blocks : nthBlock io.writeSeek + 1 + sectors = nthBlock (io.writeSeek + length) := by
      simp only [nthBlock_eq, inBlockOffset_eq, sectors, wholeSectors] at single ⊢
      omega
    have extent : length = remain + (sectors * 508 + (length - remain) % 508) := by
      simp only [nthBlock_eq, inBlockOffset_eq, sectors, remain, wholeSectors] at single ⊢
      omega
    have begins : (nthBlock io.writeSeek + 1) * 508 = io.writeSeek + remain := by
      simp only [remain]
      omega
    have ends : nthBlock (io.writeSeek + length) * 508 = io.writeSeek + remain + sectors * 508 := by
      rw [← blocks, Nat.add_mul, begins]
    have next := nextSector_of_linked linked here (by omega)
    have first : Overwrites blockFormat chain disk (coverFirst disk io buf).1 io.writeSeek remain buf := by
      have written := overwrites_part disk nodup here (inBlockOffset io.writeSeek) remain (by omega) buf
      rw [start] at written
      exact written
    obtain ⟨disk₂, sector, result, final, whole⟩ :=
      writeSectors_spec nodup buf sectors (coverFirst disk io buf).1 remain (coverFirst disk io buf).2
        (first.linked linked) next (by omega) (by
          intro m small s there
          have place : (nthBlock io.writeSeek + 1 + m) * 508 - io.writeSeek = remain + m * 508 := by omega
          have link := survive _ s (by omega) (by omega) there
          rw [place] at link
          exact link.trans (first.links s).symm)
    rw [blocks] at final
    rw [begins] at whole
    have last := overwrites_part disk₂ nodup final 0 ((length - remain) % 508) (by omega)
      fun i => buf (remain + sectors * 508 + i)
    rw [Nat.add_zero, ends] at last
    have written := first.trans (whole.trans (last.congr fun i _ => by rw [Nat.add_assoc]))
    rw [← extent] at written
    have run := coveringWrite_parts disk io buf length single
    simp only at run
    rw [result] at run
    rw [run]
    refine ⟨written, ?_, final⟩
    change io.writeSeek + remain + sectors * 508 + (length - remain) % 508 = io.writeSeek + length
    omega

/-- `covering_write` replaces the bytes from the write seek on, and nothing else. -/
theorem coveringWrite_spec (nodup : chain.Nodup) (linked : Linked blockFormat disk chain) (io : FileIoState)
    (buf : Nat → UInt8) (length : Nat) (here : chain[nthBlock io.writeSeek]? = some io.writeSector)
    (room : nthBlock (io.writeSeek + length) < chain.length)
    (survive : LinksSurvive disk chain io.writeSeek length buf) :
    Overwrites blockFormat chain disk (coveringWrite disk io buf length).1 io.writeSeek length buf :=
  (coveringWrite_covers nodup linked io buf length here room survive).overwrites

/-! ## The links it leaves

Where the four bytes behind a whole sector are not its link, `covering_write` goes on along the
numbers it wrote. -/

theorem nextSector_part (block : Block) (buf : Nat → UInt8) {offset n : Nat} (room : offset + n ≤ 508) :
    nextSector (ofCells 512 (memcpy block.cell offset buf n)) = nextSector block := by
  apply wordAt_congr
  intro k small
  simp only [arrayPlace, Nat.cast_id]
  rw [cell_ofCells (by omega), memcpy_above (by omega)]

theorem writeDisk_part_links (disk : Disk) (sector : UInt32) (buf : Nat → UInt8) {offset n : Nat}
    (room : offset + n ≤ 508) (s : UInt32) :
    nextSector (writeDisk disk sector (memcpy (disk sector).cell offset buf n) s) = nextSector (disk s) := by
  by_cases same : s = sector
  · rw [same, writeDisk, Function.update_self, nextSector_part _ _ room]
  · rw [writeDisk, Function.update_of_ne same]

theorem coveringWrite_links (disk : Disk) (io : FileIoState) (buf : Nat → UInt8) {length : Nat}
    (short : length ≤ 508) (s : UInt32) :
    nextSector ((coveringWrite disk io buf length).1 s) = nextSector (disk s) := by
  have offset : inBlockOffset io.writeSeek < 508 := Nat.mod_lt _ (by decide)
  by_cases single : nthBlock (io.writeSeek + length) - nthBlock io.writeSeek = 0
  · have inside : inBlockOffset io.writeSeek + length ≤ 508 := by
      simp only [nthBlock_eq] at single
      rw [inBlockOffset_eq]
      omega
    simp only [coveringWrite, if_pos single]
    exact writeDisk_part_links disk _ buf inside s
  · have none : (length - (508 - inBlockOffset io.writeSeek)) / 508 = 0 := Nat.div_eq_of_lt (by omega)
    have rest : inBlockOffset (length - (508 - inBlockOffset io.writeSeek)) ≤ 508 :=
      Nat.le_of_lt (Nat.mod_lt _ (by decide))
    simp only [coveringWrite, if_neg single, validDataSizeInBlock, sectorSize, Nat.reduceSub, none, writeSectors]
    calc
      _ = nextSector (writeDisk disk io.writeSector (memcpy (disk io.writeSector).cell
            (inBlockOffset io.writeSeek) buf (508 - inBlockOffset io.writeSeek)) s) :=
        writeDisk_part_links _ _ _ (by omega) s
      _ = _ := writeDisk_part_links disk _ buf (by omega) s

/-- The sector that the loop over whole sectors writes to, after as many steps. -/
def target (buf : Nat → UInt8) (pos : Nat) (first : UInt32) : Nat → UInt32
  | 0 => first
  | m + 1 => nextSector (ofCells 512 fun i => buf (pos + m * 508 + i))

theorem target_succ (buf : Nat → UInt8) (pos : Nat) (first : UInt32) (m : Nat) :
    target buf (pos + 508) (nextSector (ofCells 512 fun i => buf (pos + i))) m = target buf pos first (m + 1) := by
  cases m with
  | zero => simp only [target, Nat.zero_mul, Nat.add_zero]
  | succ m =>
      have shifted : pos + 508 + m * 508 = pos + (m + 1) * 508 := by omega
      simp only [target, shifted]

theorem writeSectors_frame (buf : Nat → UInt8) {sectors : Nat} (disk : Disk) (io : FileIoState) (pos : Nat)
    {s : UInt32} (away : ∀ m < sectors, target buf pos io.writeSector m ≠ s) :
    (writeSectors buf sectors disk io pos).1 s = disk s := by
  induction sectors generalizing disk io pos with
  | zero => rfl
  | succ sectors ih =>
      have here : s ≠ io.writeSector := (away 0 (Nat.zero_lt_succ _)).symm
      rw [writeSectors]
      calc
        _ = writeDisk disk io.writeSector (ofCells 512 fun i => buf (pos + i)).cell s := by
          apply ih
          intro m small
          exact (target_succ buf pos io.writeSector m).symm ▸ away (m + 1) (by omega)
        _ = disk s := Function.update_of_ne here _ _

/-- Each sector is left with the link of the last step that wrote to it. -/
theorem writeSectors_leaves (buf : Nat → UInt8) {sectors : Nat} (disk : Disk) (io : FileIoState) (pos : Nat)
    {m : Nat} (small : m < sectors) :
    ∃ m', m ≤ m' ∧ m' < sectors ∧ target buf pos io.writeSector m' = target buf pos io.writeSector m ∧
      target buf pos io.writeSector (m' + 1) =
        nextSector ((writeSectors buf sectors disk io pos).1 (target buf pos io.writeSector m)) := by
  induction sectors generalizing disk io pos m with
  | zero => omega
  | succ sectors ih =>
      rw [writeSectors]
      let block : Block := ofCells 512 fun i => buf (pos + i)
      let io' : FileIoState :=
        { io with writeSector := nextSector block, writeSeek := io.writeSeek + validDataSizeInBlock }
      have shift : ∀ m, target buf (pos + 508) io'.writeSector m = target buf pos io.writeSector (m + 1) :=
        target_succ buf pos io.writeSector
      have later : ∀ m, m < sectors → ∃ m', m + 1 ≤ m' ∧ m' < sectors + 1 ∧
          target buf pos io.writeSector m' = target buf pos io.writeSector (m + 1) ∧
          target buf pos io.writeSector (m' + 1) = nextSector ((writeSectors buf sectors
            (writeDisk disk io.writeSector block.cell) io' (pos + 508)).1
              (target buf pos io.writeSector (m + 1))) := by
        intro m small
        obtain ⟨m', order, inside, back, step⟩ :=
          ih (writeDisk disk io.writeSector block.cell) io' (pos + 508) small
        rw [shift, shift] at back
        rw [shift, shift] at step
        exact ⟨m' + 1, by omega, by omega, back, step⟩
      cases m with
      | succ m => exact later m (by omega)
      | zero =>
          by_cases again : ∃ m < sectors, target buf pos io.writeSector (m + 1) = io.writeSector
          · obtain ⟨m, inside, back⟩ := again
            obtain ⟨m', order, bound, same, step⟩ := later m inside
            rw [back] at same step
            exact ⟨m', by omega, bound, same, step⟩
          · refine ⟨0, Nat.le_refl 0, Nat.zero_lt_succ _, rfl, ?_⟩
            have kept : (writeSectors buf sectors (writeDisk disk io.writeSector block.cell) io'
                (pos + 508)).1 io.writeSector = block := by
              calc
                _ = writeDisk disk io.writeSector block.cell io.writeSector := by
                  apply writeSectors_frame
                  intro m inside back
                  rw [shift] at back
                  exact again ⟨m, inside, back⟩
                _ = block := by rw [writeDisk, Function.update_self, ofCells_cell]
            change _ = nextSector ((writeSectors buf sectors (writeDisk disk io.writeSector block.cell) io'
              (pos + 508)).1 io.writeSector)
            rw [kept]
            simp only [target, Nat.zero_mul, Nat.add_zero, block]

theorem writeSectors_target (buf : Nat → UInt8) (sectors : Nat) (disk : Disk) (io : FileIoState) (pos : Nat) :
    (writeSectors buf sectors disk io pos).2.writeSector = target buf pos io.writeSector sectors := by
  induction sectors generalizing disk io pos with
  | zero => rfl
  | succ sectors ih =>
      rw [writeSectors, ih]
      exact target_succ buf pos io.writeSector sectors

/-- When all links are as before and the cursor stands on the chain, the numbers behind the whole
sectors were their links. -/
theorem Covers.survive (nodup : chain.Nodup) (linked : Linked blockFormat disk chain) {io : FileIoState}
    {buf : Nat → UInt8} {length : Nat} (here : chain[nthBlock io.writeSeek]? = some io.writeSector)
    (room : nthBlock (io.writeSeek + length) < chain.length)
    (covers : Covers chain disk io buf length (coveringWrite disk io buf length).1
      (coveringWrite disk io buf length).2) : LinksSurvive disk chain io.writeSeek length buf := by
  have offset : inBlockOffset io.writeSeek < 508 := Nat.mod_lt _ (by decide)
  intro m s after before there
  have many : nthBlock (io.writeSeek + length) - nthBlock io.writeSeek ≠ 0 := by omega
  let remain := 508 - inBlockOffset io.writeSeek
  let sectors := wholeSectors io.writeSeek length
  let part := coverFirst disk io buf
  let whole := writeSectors buf sectors part.1 part.2 remain
  have blocks : nthBlock io.writeSeek + 1 + sectors = nthBlock (io.writeSeek + length) := by
    simp only [nthBlock_eq, inBlockOffset_eq, sectors, wholeSectors] at many ⊢
    omega
  have result := coveringWrite_parts disk io buf length many
  -- The parts of blocks at both ends keep the links.
  have first : ∀ t, nextSector (part.1 t) = nextSector (disk t) := writeDisk_part_links _ _ _ (by omega)
  have last : ∀ t, nextSector ((coveringWrite disk io buf length).1 t) = nextSector (whole.1 t) := by
    rw [result]
    exact writeDisk_part_links _ _ _ (by omega)
  have links : ∀ t, nextSector (whole.1 t) = nextSector (disk t) :=
    fun t => (last t).symm.trans (covers.overwrites.links t)
  have cursor : (coveringWrite disk io buf length).2.writeSector = target buf remain part.2.writeSector sectors := by
    rw [result]
    exact writeSectors_target buf sectors part.1 part.2 remain
  have next : chain[nthBlock io.writeSeek + 1]? = some (target buf remain part.2.writeSector 0) :=
    nextSector_of_linked linked here (by omega)
  have final : chain[nthBlock io.writeSeek + 1 + sectors]? =
      some (target buf remain part.2.writeSector sectors) := by
    rw [blocks, covers.here, cursor]
  have along := fun k time => linked.walk_along nodup next final (m := k) (fun m small => by
    obtain ⟨m', order, inside, back, step⟩ := writeSectors_leaves buf part.1 part.2 remain small
    exact ⟨m', order, inside, back, step.trans (links _)⟩) time
  obtain ⟨k, rfl⟩ := Nat.exists_eq_add_of_le (Nat.succ_le_of_lt after)
  have place : (nthBlock io.writeSeek + 1 + k) * 508 - io.writeSeek = remain + k * 508 := by
    simp only [remain, nthBlock_eq, inBlockOffset_eq]
    omega
  have onward := nextSector_of_linked linked there (by omega)
  have step := along (k + 1) (by omega)
  rw [← Nat.add_assoc, onward] at step
  rw [place]
  exact (Option.some.inj step).symm

/-- `covering_write` replaces the bytes it should, and nothing else, exactly when behind the data of
every sector that it overwrites as a whole stand the bytes of its link. -/
theorem coveringWrite_covers_iff (nodup : chain.Nodup) (linked : Linked blockFormat disk chain)
    (io : FileIoState) (buf : Nat → UInt8) (length : Nat)
    (here : chain[nthBlock io.writeSeek]? = some io.writeSector)
    (room : nthBlock (io.writeSeek + length) < chain.length) :
    Covers chain disk io buf length (coveringWrite disk io buf length).1 (coveringWrite disk io buf length).2 ↔
      LinksSurvive disk chain io.writeSeek length buf :=
  ⟨fun covers => covers.survive nodup linked here room,
    fun survive => coveringWrite_covers nodup linked io buf length here room survive⟩

end Chain

theorem sampleInner_linked : Linked blockFormat sampleTree [1029, 1030, 1031] := by
  unfold Linked
  decide +kernel

theorem coveringWrite_covers_two :
    Covers [1029, 1030, 1031] sampleTree ⟨0, 0, 1029, 1029⟩ (fun _ => 7) 600
      (coveringWrite sampleTree ⟨0, 0, 1029, 1029⟩ (fun _ => 7) 600).1
      (coveringWrite sampleTree ⟨0, 0, 1029, 1029⟩ (fun _ => 7) 600).2 :=
  (coveringWrite_covers_iff (by decide) sampleInner_linked ⟨0, 0, 1029, 1029⟩ (fun _ => 7) 600 rfl
    (by decide)).mpr (linksSurvive_short _ (by decide))

theorem coveringWrite_loses_link :
    [(1029 : UInt32), 1030, 1031].Nodup ∧ Linked blockFormat sampleTree [1029, 1030, 1031] ∧
      nthBlock (0 + 1100) < [(1029 : UInt32), 1030, 1031].length ∧
      ¬Covers [1029, 1030, 1031] sampleTree ⟨0, 0, 1029, 1029⟩ (fun _ => 7) 1100
        (coveringWrite sampleTree ⟨0, 0, 1029, 1029⟩ (fun _ => 7) 1100).1
        (coveringWrite sampleTree ⟨0, 0, 1029, 1029⟩ (fun _ => 7) 1100).2 := by
  refine ⟨by decide, sampleInner_linked, by decide, fun covers => ?_⟩
  have lost : nextSector ((coveringWrite sampleTree ⟨0, 0, 1029, 1029⟩ (fun _ => 7) 1100).1 1030) ≠
      nextSector (sampleTree 1030) := by decide +kernel
  exact lost (covers.overwrites.links 1030)

end WegOS
