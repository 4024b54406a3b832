import WegOS.TablePlaces
import WegOS.Execve

/-! Maps of the low addresses to themselves, in an arbitrary directory without tables. -/

namespace WegOS

/-- After `k` pages of the loop of `add_mmap_to_itself`, which started from `before`. -/
structure SelfMapped (before m : Memory) (cr3 : UInt32) (k : Nat) : Prop extends TablesTo m cr3 k where
  covers : m.Covers
  pages : ∀ a : UInt32, a.toNat < k * 4096 → hasAddr m cr3 a = true ∧ addrTranslate m cr3 a = a
  kept : ∀ n, before.Taken n → m.Taken n
  frames : freeFrames m + (k + 1023) / 1024 = freeFrames before

section SelfMapped

variable {before m : Memory} {cr3 : UInt32} {k : Nat}

theorem selfMapped_start (covers : m.Covers) (aligned : PageAligned cr3) (taken : m.Taken (frameOf cr3))
    (empty : ∀ i : UInt32, i.toNat < 1024 → present (m.entry cr3 i) = false) : SelfMapped m m cr3 0 where
  directory :=
    { aligned := aligned
      taken := taken
      tableTaken := fun i inside here => absurd here (by simp [empty i inside])
      tableApart := fun i inside here => absurd here (by simp [empty i inside])
      tablesDistinct := fun i _ inside _ here => absurd here (by simp [empty i inside]) }
  tables i inside := iff_of_false (by simp [empty i inside]) (Nat.not_lt_zero _)
  covers := covers
  pages a none := absurd none (by omega)
  kept _ taken := taken
  frames := rfl

theorem SelfMapped.cost (mapped : SelfMapped before m cr3 k) (bound : k < 2 ^ 20)
    (succeeds : k % 1024 = 0 → ∃ n, m.NextFree n) (p : UInt32) (flags : UInt16) :
    let next := (setMmap m cr3 (UInt32.ofNat (k * pageSize)) p flags).2
    next.Covers ∧ (∀ n, m.Taken n → next.Taken n) ∧
      freeFrames next + (k + 1 + 1023) / 1024 = freeFrames m + (k + 1023) / 1024 := by
  have missing := mapped.missing bound
  cases here : present (m.entry cr3 (testbits (UInt32.ofNat (k * pageSize)) 22 32)) with
  | true =>
      have later : ¬k % 1024 = 0 := by
        rw [← missing, here]
        decide
      have tables : (k + 1 + 1023) / 1024 = (k + 1023) / 1024 := by omega
      rw [setMmap_present here, tables]
      exact ⟨mapped.covers, fun _ taken => taken, rfl⟩
  | false =>
      have start := missing.mp here
      obtain ⟨n, free⟩ := succeeds start
      have tables : (k + 1 + 1023) / 1024 = (k + 1023) / 1024 + 1 := by omega
      have taken : freeFrames (setMmap m cr3 (UInt32.ofNat (k * pageSize)) p flags).2 + 1 = freeFrames m := by
        rw [setMmap_absent mapped.covers free here]
        exact freeSectors_mark free.1 free.2.1
      refine ⟨?_, fun other marked => ?_, by omega⟩
      · rw [setMmap_absent mapped.covers free here]
        exact mapped.covers
      · rw [setMmap_absent mapped.covers free here]
        exact (taken_bitFree m n other).mpr (Or.inr marked)

theorem SelfMapped.step (mapped : SelfMapped before m cr3 k) (bound : k < 2 ^ 20)
    (succeeds : k % 1024 = 0 → ∃ n, m.NextFree n) :
    SelfMapped before (setMmap m cr3 (UInt32.ofNat (k * pageSize)) (UInt32.ofNat (k * pageSize))
      pageTableFlagKernelReadWrite).2 cr3 (k + 1) := by
  obtain ⟨covers, taken, frames⟩ := mapped.cost bound succeeds (UInt32.ofNat (k * pageSize)) pageTableFlagKernelReadWrite
  exact
    { toTablesTo := mapped.toTablesTo.step mapped.covers bound succeeds _ _
      covers := covers
      pages := fun a inside => identity_page mapped.covers mapped.toTablesTo bound succeeds mapped.pages inside
      kept := fun n marked => taken n (mapped.kept n marked)
      frames := frames.trans mapped.frames }

theorem SelfMapped.loop {tables : Nat} (mapped : SelfMapped before before cr3 0) (few : tables ≤ 1024)
    (enough : tables ≤ freeFrames before) (inside : k ≤ tables * 1024) :
    SelfMapped before ((List.range k).foldl (fun m i => (setMmap m cr3 (UInt32.ofNat (i * pageSize))
      (UInt32.ofNat (i * pageSize)) pageTableFlagKernelReadWrite).2) before) cr3 k := by
  induction k with
  | zero => exact mapped
  | succ k ih =>
      have earlier := ih (by omega)
      rw [List.range_succ, List.foldl_append, List.foldl_cons, List.foldl_nil]
      refine earlier.step (by omega) fun _ => least_of_free ?_
      have frames := earlier.frames
      unfold freeFrames at frames enough
      omega

end SelfMapped

/-- From any content of memory and any directory without tables, the pages below a limit that is a multiple of
`0x400000` are mapped to themselves and no others, with one frame for each table. -/
theorem add_mmap_to_itself_maps {m : Memory} {cr3 upperLimit : UInt32} (covers : m.Covers) (aligned : PageAligned cr3)
    (taken : m.Taken (frameOf cr3)) (empty : ∀ i : UInt32, i.toNat < 1024 → present (m.entry cr3 i) = false)
    (whole : upperLimit.toNat % 0x400000 = 0) (limit : upperLimit ≤ 0x7FC00000)
    (enough : upperLimit.toNat / 0x400000 ≤ freeFrames m) (flags : UInt16) :
    (∀ v, v < upperLimit → addrTranslate (addMmapToItself m cr3 upperLimit flags) cr3 v = v ∧
        hasAddr (addMmapToItself m cr3 upperLimit flags) cr3 v = true) ∧
      (∀ v, upperLimit ≤ v → hasAddr (addMmapToItself m cr3 upperLimit flags) cr3 v = false) ∧
      (∀ n, m.Taken n → (addMmapToItself m cr3 upperLimit flags).Taken n) ∧
      freeFrames (addMmapToItself m cr3 upperLimit flags) + upperLimit.toNat / 0x400000 = freeFrames m := by
  have high : upperLimit.toNat ≤ 0x7FC00000 := UInt32.le_iff_toNat_le.mp limit
  have pages : (upperLimit.toNat + (pageSize - 1)) / pageSize = upperLimit.toNat / 0x400000 * 1024 := by
    simp only [pageSize]
    omega
  have mapped := (selfMapped_start covers aligned taken empty).loop (show upperLimit.toNat / 0x400000 ≤ 1024 by omega)
    enough (Nat.le_refl _)
  rw [addMmapToItself, pages]
  refine ⟨fun v below => ?_, fun v above => ?_, mapped.kept, ?_⟩
  · have number := UInt32.lt_iff_toNat_lt.mp below
    exact (mapped.pages v (by omega)).symm
  · have number := UInt32.le_iff_toNat_le.mp above
    have missing := (mapped.tables _ (indexInPde_lt v)).not
    rw [indexInPde_toNat, Bool.not_eq_true] at missing
    rw [hasAddr_eq, missing.mpr (by omega), Bool.false_and]
  · have frames := mapped.frames
    rw [← frames]
    congr 1
    omega

theorem add_mmap_to_itself_maps_first :
    hasAddr (addMmapToItself (memoryFullTo 1) 0x1000 0x400000 3) 0x1000 0x3FFFFF = true := by
  have free := memoryFullTo_nextFree (show 1 < 2 ^ 17 by decide)
  have frames : 1 ≤ freeFrames (memoryFullTo 1) := by
    have marked := freeSectors_mark free.1 free.2.1
    unfold freeFrames
    omega
  have empty : ∀ i : UInt32, present ((memoryFullTo 1).entry 0x1000 i) = false := by
    intro i
    change present (LittleEndian.leWord fun _ => 0) = false
    decide
  have taken : (memoryFullTo 1).Taken (frameOf 0x1000) := free.2.2 _ (by decide)
  have mapped := @add_mmap_to_itself_maps (memoryFullTo 1) 0x1000 0x400000 (memoryFullTo_covers 1) (by decide) taken
    (fun i _ => empty i) (by decide) (by decide) frames 3
  exact (mapped.1 0x3FFFFF (by decide)).2

end WegOS
