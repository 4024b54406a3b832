import WegOS.SharedDirectory

/-! What the files of a directory hold, over runs of creations and writes. -/

namespace WegOS

open LittleEndian CArray BlockChain Transition

/-! ## Files as lists of bytes -/

/-- What each file holds, and for each handle the number of its file and the place where it writes. -/
structure FileStore where
  contents : List (List UInt8)
  cursors : List (Nat × Nat)

def FileStore.step (store : FileStore) : SharedCall → Option FileStore
  | .create .. => some { store with contents := store.contents ++ [[]] }
  | .write handle _ buf length => do
      let (file, place) ← store.cursors[handle]?
      let content ← store.contents[file]?
      let content := content.take place ++ (List.range length).map buf ++ content.drop place
      pure ⟨store.contents.set file content, store.cursors.set handle (file, place + length)⟩

def contentList (disk : Disk) (f : FileT) : List UInt8 := (List.range f.size).map (byteOf disk (sectorsOf disk f))

def Shared.store (s : Shared) : FileStore where
  contents := s.files.map (contentList s.fs.disk)
  cursors := s.handles.map fun opened => (opened.1, opened.2.ioState.writeSeek)

section Contents

theorem contentList_length (disk : Disk) (f : FileT) : (contentList disk f).length = f.size := by
  rw [contentList, List.length_map, List.length_range]

theorem contentList_congr {disk disk' : Disk} {f : FileT} (readable : Readable disk f (sectorsOf disk f))
    (same : ∀ x ∈ sectorsOf disk f, disk' x = disk x) : contentList disk' f = contentList disk f := by
  rw [contentList, contentList, sectorsOf_congr same]
  apply List.map_congr_left
  intro i member
  have small : i < f.size := List.mem_range.mp member
  have room := readable.room
  have below : i / 508 ≤ nthBlock f.size := Nat.div_le_div_right (Nat.le_of_lt small)
  exact byteOf_congr (by omega) same

theorem map_inserted (old buf : Nat → UInt8) {place size : Nat} (inside : place ≤ size) (length : Nat) :
    (List.range (size + length)).map (inserted old buf place length) =
      ((List.range size).map old).take place ++ (List.range length).map buf ++
        ((List.range size).map old).drop place := by
  apply List.ext_getElem
  · simp
    omega
  · intro i first second
    simp only [List.getElem_map, List.getElem_range, List.getElem_append, List.getElem_take, List.getElem_drop,
      List.length_append, List.length_take, List.length_map, List.length_range, inserted]
    rw [Nat.min_eq_left inside]
    split_ifs with before written old
    all_goals first | omega | rfl | (congr 1; omega)

end Contents

/-! ## The calls -/

section Steps

variable {components : List (List UInt8)} {s t : Shared}

theorem store_content (s : Shared) {file : Nat} {f : FileT} (there : s.files[file]? = some f) :
    s.store.contents[file]? = some (contentList s.fs.disk f) := by
  rw [Shared.store, List.getElem?_map, there, Option.map_some]

/-- A creation leaves the other files alone, and the new one is empty. -/
theorem Shared.Sound.create_store (sound : s.Sound components) {locals : Locals} {fileName : List UInt8}
    {fileType : FileType} (fits : CreateFits s locals fileName fileType) (taken : SharedStep s (.create locals fileName fileType) t) :
    s.store.step (.create locals fileName fileType) = some t.store := by
  obtain ⟨j, inside, place⟩ := sound.place
  obtain ⟨keeper, held, above, -⟩ := sound.kept.keeper locals
  have creatable := sound.creatable fits held above inside place
  obtain ⟨fs', dirCached', news, run, created⟩ :=
    creatable.sysCreate_spec fits.valid fileType fits.tail fits.links fun parent => Or.inr (fits.root parent)
  obtain rfl : (⟨fs', dirCached', s.files ++ [createdFile locals fileName fileType (fileAlloc s.fs).1], s.handles⟩ :
      Shared) = t := by
    simp only [SharedStep, sharedStep, run] at taken
    exact Option.some.inj taken
  have others : ∀ f ∈ s.files, contentList fs'.disk f = contentList s.fs.disk f := by
    intro f member
    have own := sound.own f member
    refine contentList_congr own.wellFormed.toReadable fun x inner => ?_
    have fresh := created.allocated.not_mem (own.marked x inner).2
    apply created.frame x
    · rintro rfl
      exact fresh List.mem_cons_self
    · rw [created.sectors]
      intro there
      rcases List.mem_append.mp there with old | young
      · exact own.apart x inner (Or.inr (Or.inl old))
      · exact fresh (List.mem_cons_of_mem _ young)
    · exact fun up => own.apart x inner (above_home (above x up))
  simp only [FileStore.step, Shared.store, List.map_append, List.map_congr_left others]
  rfl

/-- A write inserts its bytes in the file of its handle, and leaves the other files alone. -/
theorem Shared.Sound.write_store (sound : s.Sound components) {handle file : Nat} {cached : FileCached}
    (opened : s.handles[handle]? = some (file, cached)) {locals : Locals} {buf : Nat → UInt8} {length : Nat}
    (fits : WriteFits s file cached buf length) (taken : SharedStep s (.write handle locals buf length) t) :
    s.store.step (.write handle locals buf length) = some t.store := by
  obtain ⟨hasParent, parent, f, latest, seek, here⟩ := sound.handles handle file cached opened
  obtain rfl : f = cached.file := Option.some.inj (latest.symm.trans fits.latest)
  have own := sound.own cached.file (List.mem_of_getElem? latest)
  have inside : cached.pathState.indexInParentDir < entryCount s.dirCached.file := by
    have bound := (List.getElem?_eq_some_iff.mp fits.current).1
    rwa [entries_length] at bound
  obtain ⟨fs', cached', news, run, written⟩ :=
    (sound.writable fits locals hasParent parent inside seek here).sysWrite_spec buf hasParent fits.tail fits.links
  obtain rfl : (⟨fs', s.dirCached, s.files.set file cached'.file, s.handles.set handle (file, cached')⟩ :
      Shared) = t := by
    simp only [SharedStep, sharedStep, opened, Option.bind_eq_bind, Option.bind_some, run] at taken
    exact Option.some.inj taken
  have cursor : s.store.cursors[handle]? = some (file, cached.ioState.writeSeek) := by
    rw [Shared.store, List.getElem?_map, opened, Option.map_some]
  have content : contentList fs'.disk cached'.file = (contentList s.fs.disk cached.file).take cached.ioState.writeSeek ++
      (List.range length).map buf ++ (contentList s.fs.disk cached.file).drop cached.ioState.writeSeek := by
    rw [contentList, contentList, ← map_inserted _ _ seek, written.grown, written.wellFormed.sectorsOf_eq]
    exact List.map_congr_left fun i member => written.content i (List.mem_range.mp member)
  have others : ∀ (i : Nat) g, i ≠ file → s.files[i]? = some g →
      contentList fs'.disk g = contentList s.fs.disk g := by
    intro i g other there
    have ownG := sound.own g (List.mem_of_getElem? there)
    refine contentList_congr ownG.wellFormed.toReadable fun x inner => ?_
    exact written.frame x (sound.elsewhere latest there other written.allocated x inner) (ownG.apart x inner)
  have contents : (s.files.map (contentList fs'.disk)).set file (contentList fs'.disk cached'.file) =
      (s.files.map (contentList s.fs.disk)).set file (contentList fs'.disk cached'.file) := by
    apply List.ext_getElem?
    intro i
    rw [List.getElem?_set, List.getElem?_set, List.length_map, List.length_map]
    split_ifs with same
    · rfl
    · rfl
    · rw [List.getElem?_map, List.getElem?_map]
      cases there : s.files[i]? with
      | none => rfl
      | some g => exact congrArg some (others i g (Ne.symm same) there)
  rw [FileStore.step, cursor]
  simp only [Option.bind_eq_bind, Option.bind_some, store_content s latest, ← content]
  rw [← written.seek, Shared.store, Shared.store, List.map_set, List.map_set, contents]
  rfl

theorem Shared.Sound.store_step (sound : s.Sound components) {call : SharedCall} (fits : Fits s call)
    (taken : SharedStep s call t) : s.store.step call = some t.store := by
  cases call with
  | create locals fileName fileType => exact sound.create_store fits taken
  | write handle locals buf length =>
      obtain ⟨file, cached, opened, fits⟩ := fits
      exact sound.write_store opened fits taken

theorem Shared.Sound.reads (sound : s.Sound components) {file : Nat} {f : FileT} {content : List UInt8}
    (there : s.files[file]? = some f) (listed : s.store.contents[file]? = some content) (buf : Nat → UInt8) :
    ∃ buf', readAll s.fs.disk f buf = some buf' ∧ (List.range f.size).map buf' = content := by
  rw [store_content s there, Option.some.injEq] at listed
  subst listed
  have own := sound.own f (List.mem_of_getElem? there)
  obtain ⟨buf', read, bytes⟩ := readAll_spec own.wellFormed.toReadable buf
  exact ⟨buf', read, List.map_congr_left fun i member => bytes i (List.mem_range.mp member)⟩

end Steps

/-- In every run of creations and writes that fit, the files and the cursors on the disk go through the
same steps as lists of bytes, and every file reads as its list. -/
theorem files_as_lists {components : List (List UInt8)} {s t : Shared} {calls : List SharedCall}
    (sound : s.Sound components) (run : Run (Guarded SharedStep Fits) s calls t) :
    calls.foldlM FileStore.step s.store = some t.store ∧
      ∀ (file : Nat) f content, t.files[file]? = some f → t.store.contents[file]? = some content →
        ∀ buf, ∃ buf', readAll t.fs.disk f buf = some buf' ∧ (List.range f.size).map buf' = content := by
  have both : t.Sound components ∧ calls.foldlM FileStore.step s.store = some t.store := by
    apply run.viewed sound
    rintro s call t soundS ⟨fits, taken⟩
    obtain ⟨u, same, soundU, -⟩ := soundS.step fits
    obtain rfl : t = u := Option.some.inj (taken.symm.trans same)
    exact ⟨soundU, soundS.store_step fits taken⟩
  exact ⟨both.2, fun file f content there listed buf => both.1.reads there listed buf⟩

theorem files_as_lists_two : ∃ t, Run (Guarded SharedStep Fits) sampleShared [sampleByte, sampleNew] t ∧
    [sampleByte, sampleNew].foldlM FileStore.step sampleShared.store = some t.store := by
  obtain ⟨t, run⟩ := sampleCalls_run
  exact ⟨t, run, (files_as_lists sampleShared_sound.1 run).1⟩

end WegOS
