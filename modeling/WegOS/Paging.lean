import WegOS.Memory

/-! What `set_mmap` does to one address space. -/

namespace WegOS

open LittleEndian

def present (word : UInt32) : Bool := testbit word pageTableP

def Memory.table (m : Memory) (cr3 index : UInt32) : UInt32 := m.entry cr3 index &&& 0xFFFFF000

/-- A page directory in a frame of its own whose present tables occupy pairwise
distinct frames, all of them taken. -/
structure DirectoryOk (m : Memory) (cr3 : UInt32) : Prop where
  aligned : PageAligned cr3
  taken : m.Taken (frameOf cr3)
  tableTaken : ∀ i : UInt32, i.toNat < 1024 → present (m.entry cr3 i) →
    m.Taken (frameOf (m.table cr3 i))
  tableApart : ∀ i : UInt32, i.toNat < 1024 → present (m.entry cr3 i) →
    frameOf (m.table cr3 i) ≠ frameOf cr3
  tablesDistinct : ∀ i j : UInt32, i.toNat < 1024 → j.toNat < 1024 → present (m.entry cr3 i) →
    present (m.entry cr3 j) → frameOf (m.table cr3 i) = frameOf (m.table cr3 j) → i = j

/-- What a mapping call promises: page `v` leads to `p`, every other page is as before. -/
def MapsPage (m m' : Memory) (cr3 v p : UInt32) : Prop :=
  (∀ o : UInt32, o.toNat < 4096 →
    addrTranslate m' cr3 ((v &&& 0xFFFFF000) + o) = p + o ∧
      hasAddr m' cr3 ((v &&& 0xFFFFF000) + o) = true) ∧
  ∀ w : UInt32, w &&& 0xFFFFF000 ≠ v &&& 0xFFFFF000 →
    hasAddr m' cr3 w = hasAddr m cr3 w ∧
      (hasAddr m cr3 w = true → addrTranslate m' cr3 w = addrTranslate m cr3 w)

theorem table_aligned (m : Memory) (cr3 index : UInt32) : PageAligned (m.table cr3 index) :=
  page_mask_aligned _

theorem hasAddr_eq (m : Memory) (cr3 w : UInt32) :
    hasAddr m cr3 w = (present (m.entry cr3 (testbits w 22 32)) &&
      present (m.entry (m.table cr3 (testbits w 22 32)) (testbits w 12 22))) := by
  simp only [hasAddr, present, Memory.table]
  cases testbit (m.entry cr3 (testbits w 22 32)) pageTableP <;> rfl

theorem addrTranslate_eq (m : Memory) (cr3 w : UInt32) :
    addrTranslate m cr3 w =
      (m.entry (m.table cr3 (testbits w 22 32)) (testbits w 12 22) &&& 0xFFFFF000) + (w &&& 0xFFF) :=
  rfl

theorem same_page_iff (v w : UInt32) : w &&& 0xFFFFF000 = v &&& 0xFFFFF000 ↔
    testbits w 22 32 = testbits v 22 32 ∧ testbits w 12 22 = testbits v 12 22 := by
  simp only [← UInt32.toNat_inj, page_mask, indexInPde_toNat, indexInPte_toNat, pageSize]
  omega

section Offset

variable (v : UInt32) {o : UInt32} (bound : o.toNat < 4096)

include bound

theorem page_offset_toNat :
    ((v &&& 0xFFFFF000) + o).toNat = v.toNat / pageSize * pageSize + o.toNat := by
  have small := v.toNat_lt
  rw [UInt32.toNat_add, page_mask]
  simp only [pageSize]
  omega

theorem page_offset_mask : ((v &&& 0xFFFFF000) + o) &&& 0xFFFFF000 = v &&& 0xFFFFF000 := by
  apply UInt32.toNat_inj.mp
  rw [page_mask, page_offset_toNat v bound, page_mask]
  simp only [pageSize]
  omega

theorem page_offset_low : ((v &&& 0xFFFFF000) + o) &&& 0xFFF = o := by
  apply UInt32.toNat_inj.mp
  rw [offset_mask, page_offset_toNat v bound]
  simp only [pageSize]
  omega

end Offset

theorem walk_congr {m m' : Memory} {cr3 w : UInt32}
    (directory : m'.entry cr3 (testbits w 22 32) = m.entry cr3 (testbits w 22 32))
    (table : present (m.entry cr3 (testbits w 22 32)) = true →
      m'.entry (m.table cr3 (testbits w 22 32)) (testbits w 12 22) =
        m.entry (m.table cr3 (testbits w 22 32)) (testbits w 12 22)) :
    hasAddr m' cr3 w = hasAddr m cr3 w ∧
      (hasAddr m cr3 w = true → addrTranslate m' cr3 w = addrTranslate m cr3 w) := by
  have tables : m'.table cr3 (testbits w 22 32) = m.table cr3 (testbits w 22 32) := by
    rw [Memory.table, directory, Memory.table]
  constructor
  · rw [hasAddr_eq, hasAddr_eq, directory, tables]
    cases here : present (m.entry cr3 (testbits w 22 32)) with
    | false => rfl
    | true => rw [table here]
  · intro mapped
    rw [hasAddr_eq, Bool.and_eq_true] at mapped
    rw [addrTranslate_eq, addrTranslate_eq, tables, table mapped.1]

section SetMmap

variable {m : Memory} {cr3 v p : UInt32} {flags : UInt16}

theorem setMmap_present (here : present (m.entry cr3 (testbits v 22 32)) = true) :
    setMmap m cr3 v p flags =
      (true, m.setEntry (m.table cr3 (testbits v 22 32)) (testbits v 12 22) (p ||| flags.toUInt32)) := by
  rw [present] at here
  simp only [setMmap, here, if_true, Memory.table]

def Memory.withTable (m : Memory) (cr3 index : UInt32) (n : Nat) : Memory :=
  { m with memoryAllocBitmap := bitFree m.memoryAllocBitmap n true }.setEntry cr3 index
    (UInt32.ofNat (n * pageSize) ||| pageTableFlagUserReadWrite)

theorem user_flags_small : pageTableFlagUserReadWrite.toNat < pageSize := by decide

theorem withTable_table (m : Memory) (cr3 index : UInt32) (n : Nat) :
    (m.withTable cr3 index n).table cr3 index = UInt32.ofNat (n * pageSize) := by
  rw [Memory.table, Memory.withTable, Memory.entry_setEntry,
    or_flags_mask (frame_aligned n) user_flags_small]

theorem withTable_present (m : Memory) (cr3 index : UInt32) (n : Nat) :
    present ((m.withTable cr3 index n).entry cr3 index) = true := by
  rw [present, Memory.withTable, Memory.entry_setEntry,
    or_flags_present (frame_aligned n) user_flags_small]
  decide

theorem setMmap_absent {n : Nat} (covers : m.Covers) (free : m.NextFree n)
    (missing : present (m.entry cr3 (testbits v 22 32)) = false) :
    setMmap m cr3 v p flags =
      (false, (m.withTable cr3 (testbits v 22 32) n).setEntry (UInt32.ofNat (n * pageSize))
        (testbits v 12 22) (p ||| flags.toUInt32)) := by
  have step : setMmap m cr3 v p flags =
      (false, (m.withTable cr3 (testbits v 22 32) n).setEntry
        ((m.withTable cr3 (testbits v 22 32) n).table cr3 (testbits v 22 32))
        (testbits v 12 22) (p ||| flags.toUInt32)) := by
    rw [present] at missing
    simp only [setMmap, missing, pMalloc_nextFree covers free, Bool.false_eq_true, if_false,
      Memory.withTable, Memory.table]
  rw [step, withTable_table]

theorem nextFree_apart {n : Nat} (ok : DirectoryOk m cr3) (covers : m.Covers) (free : m.NextFree n) :
    UInt32.ofNat (n * pageSize) ≠ cr3 ∧ ∀ i : UInt32, i.toNat < 1024 → present (m.entry cr3 i) = true →
      m.table cr3 i ≠ UInt32.ofNat (n * pageSize) := by
  have bound : n < 2 ^ 20 := covers ▸ free.1
  have fresh : ∀ a, m.Taken (frameOf a) → a ≠ UInt32.ofNat (n * pageSize) := by
    rintro a taken rfl
    rw [frameOf_frame bound, Memory.Taken, free.2.1] at taken
    cases taken
  exact ⟨(fresh cr3 ok.taken).symm, fun i inside here => fresh _ (ok.tableTaken i inside here)⟩

theorem setMmap_absent_entry {n : Nat} (ok : DirectoryOk m cr3) (covers : m.Covers) (free : m.NextFree n)
    (missing : present (m.entry cr3 (testbits v 22 32)) = false) {i : UInt32} (inside : i.toNat < 1024) :
    (setMmap m cr3 v p flags).2.entry cr3 i = (m.withTable cr3 (testbits v 22 32) n).entry cr3 i := by
  rw [setMmap_absent covers free missing]
  exact Memory.entry_setEntry_of_ne _ _ (frame_aligned n) ok.aligned (indexInPte_lt v) inside
    (Or.inl (nextFree_apart ok covers free).1.symm)

theorem withTable_entry_of_ne {n : Nat} (ok : DirectoryOk m cr3) {i index : UInt32} (inside : i.toNat < 1024)
    (bound : index.toNat < 1024) (different : i ≠ index) :
    (m.withTable cr3 index n).entry cr3 i = m.entry cr3 i :=
  Memory.entry_setEntry_of_ne _ _ ok.aligned ok.aligned bound inside (Or.inr different)

theorem setMmap_absent_table {n : Nat} (ok : DirectoryOk m cr3) (covers : m.Covers) (free : m.NextFree n)
    (missing : present (m.entry cr3 (testbits v 22 32)) = false) :
    (setMmap m cr3 v p flags).2.table cr3 (testbits v 22 32) = UInt32.ofNat (n * pageSize) := by
  rw [Memory.table, setMmap_absent_entry ok covers free missing (indexInPde_lt v), ← Memory.table,
    withTable_table]

theorem setMmap_absent_other {n : Nat} (ok : DirectoryOk m cr3) (covers : m.Covers) (free : m.NextFree n)
    (missing : present (m.entry cr3 (testbits v 22 32)) = false) {w : UInt32}
    (here : present (m.entry cr3 (testbits w 22 32)) = true) :
    (setMmap m cr3 v p flags).2.entry (m.table cr3 (testbits w 22 32)) (testbits w 12 22) =
      m.entry (m.table cr3 (testbits w 22 32)) (testbits w 12 22) := by
  have tableW := (nextFree_apart ok covers free).2 _ (indexInPde_lt w) here
  rw [setMmap_absent covers free missing, Memory.entry_setEntry_of_ne _ _ (frame_aligned n) (table_aligned _ _ _)
    (indexInPte_lt v) (indexInPte_lt w) (Or.inl tableW)]
  exact Memory.entry_setEntry_of_ne _ _ ok.aligned (table_aligned _ _ _) (indexInPde_lt v)
    (indexInPte_lt w)
    (Or.inl fun equal => ok.tableApart _ (indexInPde_lt w) here (congrArg frameOf equal))

theorem setMmap_absent_keeps {n : Nat} (ok : DirectoryOk m cr3) (covers : m.Covers) (free : m.NextFree n)
    (missing : present (m.entry cr3 (testbits v 22 32)) = false) {w : UInt32}
    (pde : testbits w 22 32 ≠ testbits v 22 32) :
    hasAddr (setMmap m cr3 v p flags).2 cr3 w = hasAddr m cr3 w ∧ (hasAddr m cr3 w = true →
      addrTranslate (setMmap m cr3 v p flags).2 cr3 w = addrTranslate m cr3 w) := by
  have directory := (@setMmap_absent_entry m cr3 v p flags n ok covers free missing _ (indexInPde_lt w)).trans
    (withTable_entry_of_ne ok (indexInPde_lt w) (indexInPde_lt v) pde)
  exact walk_congr directory fun thereW => setMmap_absent_other ok covers free missing thereW

/-- The other words of the fresh table are those that the frame held. -/
theorem setMmap_absent_contents {n : Nat} (ok : DirectoryOk m cr3) (covers : m.Covers) (free : m.NextFree n)
    (missing : present (m.entry cr3 (testbits v 22 32)) = false) {j : UInt32} (inside : j.toNat < 1024)
    (different : j ≠ testbits v 12 22) :
    (setMmap m cr3 v p flags).2.entry (UInt32.ofNat (n * pageSize)) j =
      m.entry (UInt32.ofNat (n * pageSize)) j := by
  rw [setMmap_absent covers free missing, Memory.entry_setEntry_of_ne _ _ (frame_aligned n) (frame_aligned n)
    (indexInPte_lt v) inside (Or.inr different)]
  exact Memory.entry_setEntry_of_ne _ _ ok.aligned (frame_aligned n) (indexInPde_lt v) inside
    (Or.inl (nextFree_apart ok covers free).1)

theorem setEntry_table_entry (ok : DirectoryOk m cr3) {i : UInt32} (bound : i.toNat < 1024)
    (here : present (m.entry cr3 i) = true) {j : UInt32} (small : j.toNat < 1024) (word : UInt32) {k : UInt32}
    (inside : k.toNat < 1024) : (m.setEntry (m.table cr3 i) j word).entry cr3 k = m.entry cr3 k := by
  apply m.entry_setEntry_of_ne _ (table_aligned _ _ _) ok.aligned small inside
  exact Or.inl fun equal => ok.tableApart i bound here (congrArg frameOf equal.symm)

theorem setEntry_table_other (ok : DirectoryOk m cr3) (here : present (m.entry cr3 (testbits v 22 32)) = true)
    (word : UInt32) {w : UInt32} (thereW : present (m.entry cr3 (testbits w 22 32)) = true)
    (other : w &&& 0xFFFFF000 ≠ v &&& 0xFFFFF000) :
    (m.setEntry (m.table cr3 (testbits v 22 32)) (testbits v 12 22) word).entry
        (m.table cr3 (testbits w 22 32)) (testbits w 12 22) =
      m.entry (m.table cr3 (testbits w 22 32)) (testbits w 12 22) := by
  apply m.entry_setEntry_of_ne _ (table_aligned _ _ _) (table_aligned _ _ _) (indexInPte_lt v) (indexInPte_lt w)
  by_cases pde : testbits w 22 32 = testbits v 22 32
  · exact Or.inr fun pte => other ((same_page_iff v w).mpr ⟨pde, pte⟩)
  · refine Or.inl fun equal => pde ?_
    exact ok.tablesDistinct _ _ (indexInPde_lt w) (indexInPde_lt v) thereW here (congrArg frameOf equal)

theorem setEntry_table_keeps (ok : DirectoryOk m cr3) (here : present (m.entry cr3 (testbits v 22 32)) = true)
    (word : UInt32) {w : UInt32} (other : w &&& 0xFFFFF000 ≠ v &&& 0xFFFFF000) :
    hasAddr (m.setEntry (m.table cr3 (testbits v 22 32)) (testbits v 12 22) word) cr3 w = hasAddr m cr3 w ∧
      (hasAddr m cr3 w = true → addrTranslate
        (m.setEntry (m.table cr3 (testbits v 22 32)) (testbits v 12 22) word) cr3 w = addrTranslate m cr3 w) := by
  have directory := setEntry_table_entry ok (indexInPde_lt v) here (indexInPte_lt v) word (indexInPde_lt w)
  exact walk_congr directory fun thereW => setEntry_table_other ok here word thereW other

theorem setMmap_other (covers : m.Covers) (ok : DirectoryOk m cr3)
    (succeeds : present (m.entry cr3 (testbits v 22 32)) = false → ∃ n, m.NextFree n) {w : UInt32}
    (thereW : present (m.entry cr3 (testbits w 22 32)) = true) (other : w &&& 0xFFFFF000 ≠ v &&& 0xFFFFF000) :
    (setMmap m cr3 v p flags).2.entry cr3 (testbits w 22 32) = m.entry cr3 (testbits w 22 32) ∧
      (setMmap m cr3 v p flags).2.entry (m.table cr3 (testbits w 22 32)) (testbits w 12 22) =
        m.entry (m.table cr3 (testbits w 22 32)) (testbits w 12 22) := by
  cases here : present (m.entry cr3 (testbits v 22 32)) with
  | true =>
      rw [setMmap_present here]
      exact ⟨setEntry_table_entry ok (indexInPde_lt v) here (indexInPte_lt v) _ (indexInPde_lt w),
        setEntry_table_other ok here _ thereW other⟩
  | false =>
      obtain ⟨n, free⟩ := succeeds here
      have pde : testbits w 22 32 ≠ testbits v 22 32 := by
        intro same
        rw [same, here] at thereW
        cases thereW
      exact ⟨(setMmap_absent_entry ok covers free here (indexInPde_lt w)).trans
        (withTable_entry_of_ne ok (indexInPde_lt w) (indexInPde_lt v) pde),
        setMmap_absent_other ok covers free here thereW⟩

theorem setMmap_table_present (covers : m.Covers) (ok : DirectoryOk m cr3)
    (succeeds : present (m.entry cr3 (testbits v 22 32)) = false → ∃ n, m.NextFree n) :
    present ((setMmap m cr3 v p flags).2.entry cr3 (testbits v 22 32)) = true := by
  cases here : present (m.entry cr3 (testbits v 22 32)) with
  | true =>
      rw [setMmap_present here]
      change present ((m.setEntry _ _ _).entry _ _) = true
      rw [setEntry_table_entry ok (indexInPde_lt v) here (indexInPte_lt v) _ (indexInPde_lt v)]
      exact here
  | false =>
      obtain ⟨n, free⟩ := succeeds here
      rw [setMmap_absent_entry ok covers free here (indexInPde_lt v)]
      exact withTable_present _ _ _ _

variable (aligned : PageAligned p) (small : flags.toNat < 4096)
  (mapped : testbit flags.toUInt32 pageTableP = true)

include aligned small mapped

theorem stored_page_maps {m' : Memory}
    (directory : present (m'.entry cr3 (testbits v 22 32)) = true)
    (stored : m'.entry (m'.table cr3 (testbits v 22 32)) (testbits v 12 22) = p ||| flags.toUInt32)
    {o : UInt32} (bound : o.toNat < 4096) :
    addrTranslate m' cr3 ((v &&& 0xFFFFF000) + o) = p + o ∧
      hasAddr m' cr3 ((v &&& 0xFFFFF000) + o) = true := by
  obtain ⟨pde, pte⟩ := (same_page_iff v _).mp (page_offset_mask v bound)
  have flagsSmall : flags.toUInt32.toNat < pageSize := by simpa [pageSize] using small
  constructor
  · rw [addrTranslate_eq, pde, pte, stored, or_flags_mask aligned flagsSmall, page_offset_low v bound]
  · rw [hasAddr_eq, pde, pte, directory, stored, present, or_flags_present aligned flagsSmall, mapped]
    rfl

theorem setMmap_maps_of_present (ok : DirectoryOk m cr3)
    (here : present (m.entry cr3 (testbits v 22 32)) = true) :
    MapsPage m (setMmap m cr3 v p flags).2 cr3 v p := by
  rw [setMmap_present here]
  change MapsPage m (m.setEntry _ _ _) cr3 v p
  have keep := @setEntry_table_entry m cr3 ok _ (indexInPde_lt v) here _ (indexInPte_lt v)
    (p ||| flags.toUInt32) _ (indexInPde_lt v)
  constructor
  · intro o bound
    apply stored_page_maps aligned small mapped _ _ bound
    · rw [keep]
      exact here
    · have table : (m.setEntry (m.table cr3 (testbits v 22 32)) (testbits v 12 22)
          (p ||| flags.toUInt32)).table cr3 (testbits v 22 32) = m.table cr3 (testbits v 22 32) := by
        rw [Memory.table, keep, Memory.table]
      rw [table]
      exact m.entry_setEntry _ _ _
  · intro w other
    exact setEntry_table_keeps ok here _ other

theorem setMmap_absent_maps {n : Nat} (ok : DirectoryOk m cr3) (covers : m.Covers) (free : m.NextFree n)
    (missing : present (m.entry cr3 (testbits v 22 32)) = false) {o : UInt32} (bound : o.toNat < 4096) :
    addrTranslate (setMmap m cr3 v p flags).2 cr3 ((v &&& 0xFFFFF000) + o) = p + o ∧
      hasAddr (setMmap m cr3 v p flags).2 cr3 ((v &&& 0xFFFFF000) + o) = true := by
  apply stored_page_maps aligned small mapped _ _ bound
  · rw [setMmap_absent_entry ok covers free missing (indexInPde_lt v)]
    exact withTable_present _ _ _ _
  · rw [setMmap_absent_table ok covers free missing, setMmap_absent covers free missing]
    exact Memory.entry_setEntry _ _ _ _

/-- With a fresh page table, `set_mmap` maps the page and nothing else exactly
when no other entry that the frame held before looks like a present page. -/
theorem setMmap_maps_of_absent {n : Nat} (ok : DirectoryOk m cr3) (covers : m.Covers)
    (free : m.NextFree n) (missing : present (m.entry cr3 (testbits v 22 32)) = false) :
    MapsPage m (setMmap m cr3 v p flags).2 cr3 v p ↔
      ∀ j : UInt32, j.toNat < 1024 → j ≠ testbits v 12 22 →
        present (m.entry (UInt32.ofNat (n * pageSize)) j) = false := by
  have entry := @setMmap_absent_entry m cr3 v p flags n ok covers free missing _ (indexInPde_lt v)
  have table := @setMmap_absent_table m cr3 v p flags n ok covers free missing
  constructor
  · intro maps j small' different
    -- The page at entry `j` of the new table was not mapped before the call.
    obtain ⟨w, pde, pte⟩ : ∃ w : UInt32, testbits w 22 32 = testbits v 22 32 ∧
        testbits w 12 22 = j := by
      refine ⟨UInt32.ofNat ((testbits v 22 32).toNat * 4194304 + j.toNat * 4096), ?_⟩
      have pdeBound := indexInPde_lt v
      simp only [← UInt32.toNat_inj, indexInPde_toNat (UInt32.ofNat _), indexInPte_toNat (UInt32.ofNat _),
        UInt32.toNat_ofNat']
      omega
    have other : w &&& 0xFFFFF000 ≠ v &&& 0xFFFFF000 := by
      intro equal
      exact different (pte ▸ ((same_page_iff v w).mp equal).2)
    have same := (maps.2 w other).1
    rw [hasAddr_eq, hasAddr_eq, pde, pte, missing, entry, withTable_present, table,
      setMmap_absent_contents ok covers free missing small' different, Bool.true_and, Bool.false_and] at same
    exact same
  · intro clean
    constructor
    · intro o small'
      exact setMmap_absent_maps aligned small mapped ok covers free missing small'
    · intro w other
      by_cases pde : testbits w 22 32 = testbits v 22 32
      · have pte : testbits w 12 22 ≠ testbits v 12 22 := fun equal =>
          other ((same_page_iff v w).mpr ⟨pde, equal⟩)
        have before : hasAddr m cr3 w = false := by
          rw [hasAddr_eq, pde, missing]
          rfl
        refine ⟨?_, fun there => absurd there (by simp [before])⟩
        rw [before, hasAddr_eq, pde, table, setMmap_absent_contents ok covers free missing (indexInPte_lt w) pte,
          clean _ (indexInPte_lt w) pte, Bool.and_false]
      · exact setMmap_absent_keeps ok covers free missing pde

/-- `set_mmap` maps its page, and pages that were mapped stay as they are. -/
theorem setMmap_page (covers : m.Covers) (ok : DirectoryOk m cr3)
    (succeeds : present (m.entry cr3 (testbits v 22 32)) = false → ∃ n, m.NextFree n) :
    (∀ o : UInt32, o.toNat < 4096 →
      addrTranslate (setMmap m cr3 v p flags).2 cr3 ((v &&& 0xFFFFF000) + o) = p + o ∧
        hasAddr (setMmap m cr3 v p flags).2 cr3 ((v &&& 0xFFFFF000) + o) = true) ∧
    ∀ w : UInt32, w &&& 0xFFFFF000 ≠ v &&& 0xFFFFF000 → hasAddr m cr3 w = true →
      hasAddr (setMmap m cr3 v p flags).2 cr3 w = true ∧
        addrTranslate (setMmap m cr3 v p flags).2 cr3 w = addrTranslate m cr3 w := by
  cases here : present (m.entry cr3 (testbits v 22 32)) with
  | true =>
      obtain ⟨page, others⟩ : MapsPage m (setMmap m cr3 v p flags).2 cr3 v p :=
        setMmap_maps_of_present aligned small mapped ok here
      refine ⟨page, fun w other there => ?_⟩
      obtain ⟨has, translate⟩ := others w other
      exact ⟨has.trans there, translate there⟩
  | false =>
      obtain ⟨n, free⟩ := succeeds here
      refine ⟨fun o bound => setMmap_absent_maps aligned small mapped ok covers free here bound, fun w _ there => ?_⟩
      have pde : testbits w 22 32 ≠ testbits v 22 32 := by
        intro same
        rw [hasAddr_eq, same, here] at there
        cases there
      obtain ⟨has, translate⟩ := @setMmap_absent_keeps m cr3 v p flags n ok covers free here w pde
      exact ⟨has.trans there, translate there⟩

end SetMmap

/-- `set_mmap` maps its page and leaves every other page alone exactly when the
page table is already there, or the frame that becomes the table holds no other
word that reads as a present entry. -/
theorem set_mmap_maps_page_iff (m : Memory) (cr3 v p : UInt32) (flags : UInt16)
    (covers : m.Covers) (ok : DirectoryOk m cr3) (aligned : PageAligned p)
    (small : flags.toNat < 4096) (mapped : testbit flags.toUInt32 pageTableP = true)
    (succeeds : present (m.entry cr3 (testbits v 22 32)) = false → ∃ n, m.NextFree n) :
    MapsPage m (setMmap m cr3 v p flags).2 cr3 v p ↔
      (present (m.entry cr3 (testbits v 22 32)) = true ∨
        ∀ n, m.NextFree n → ∀ j : UInt32, j.toNat < 1024 → j ≠ testbits v 12 22 →
          present (m.entry (UInt32.ofNat (n * pageSize)) j) = false) := by
  cases here : present (m.entry cr3 (testbits v 22 32)) with
  | true => exact iff_of_true (setMmap_maps_of_present aligned small mapped ok here) (Or.inl rfl)
  | false =>
      obtain ⟨n, free⟩ := succeeds here
      rw [setMmap_maps_of_absent aligned small mapped ok covers free here]
      constructor
      · intro clean
        refine Or.inr fun k free' => ?_
        rw [free'.unique free]
        exact clean
      · rintro (impossible | clean)
        · cases impossible
        · exact clean n free

def sampleBitmap : Bitmap := ⟨fun i => if i = 0 then 0xFF else 0, 2 ^ 20⟩

theorem sampleBitmap_least : sampleBitmap.Least false 8 := by
  refine ⟨by decide, by decide, ?_⟩
  intro earlier bound
  interval_cases earlier <;> decide

/-- An empty page directory in frame 1, `filler` in every byte of every other frame. -/
def sampleMemory (filler : UInt8) : Memory where
  bytes a := if frameOf a = 1 then 0 else filler
  memoryAllocBitmap := sampleBitmap

theorem sampleMemory_entry (filler : UInt8) {i : UInt32} (bound : i.toNat < 1024) :
    (sampleMemory filler).entry 0x1000 i = 0 := by
  have zero : ∀ k < 4, (sampleMemory filler).bytes (addressPlace (0x1000 + 4 * i) k) = 0 := by
    intro k small
    have frame : frameOf (addressPlace (0x1000 + 4 * i) k) = frameOf 0x1000 :=
      entry_frame (by decide) bound small
    exact if_pos frame
  exact leWord_congr zero

theorem sampleMemory_directory (filler : UInt8) : DirectoryOk (sampleMemory filler) 0x1000 := by
  have empty : ∀ i : UInt32, i.toNat < 1024 →
      ¬present ((sampleMemory filler).entry 0x1000 i) = true := by
    intro i bound
    rw [sampleMemory_entry filler bound]
    decide
  exact
    { aligned := by decide
      taken := by
        change sampleBitmap.bit 1 = true
        decide
      tableTaken := fun i bound here => absurd here (empty i bound)
      tableApart := fun i bound here => absurd here (empty i bound)
      tablesDistinct := fun i _ bound _ here => absurd here (empty i bound) }

theorem sampleMemory_nextFree (filler : UInt8) : (sampleMemory filler).NextFree 8 :=
  sampleBitmap_least

theorem sampleMemory_fresh_entry (filler : UInt8) {j : UInt32} (bound : j.toNat < 1024) :
    (sampleMemory filler).entry (UInt32.ofNat (8 * pageSize)) j = leWord fun _ => filler := by
  have full : ∀ k < 4, (sampleMemory filler).bytes
      (addressPlace (UInt32.ofNat (8 * pageSize) + 4 * j) k) = filler := by
    intro k small
    have frame : frameOf (addressPlace (UInt32.ofNat (8 * pageSize) + 4 * j) k) =
        frameOf (UInt32.ofNat (8 * pageSize)) := entry_frame (frame_aligned 8) bound small
    rw [frameOf_frame (by decide)] at frame
    exact if_neg (by rw [frame]; decide)
  exact leWord_congr full

theorem set_mmap_maps_page_clean :
    MapsPage (sampleMemory 0) (setMmap (sampleMemory 0) 0x1000 0 0x5000 3).2 0x1000 0 0x5000 :=
  (set_mmap_maps_page_iff (sampleMemory 0) 0x1000 0 0x5000 3 rfl (sampleMemory_directory 0)
    (by decide) (by decide) (by decide) fun _ => ⟨8, sampleMemory_nextFree 0⟩).mpr (by
      refine Or.inr fun n free j bound _ => ?_
      rw [free.unique (sampleMemory_nextFree 0), sampleMemory_fresh_entry 0 bound]
      decide)

/-- A frame full of ones becomes a table in which every page is present. -/
theorem set_mmap_recycled_frame :
    (sampleMemory 0xFF).Covers ∧ DirectoryOk (sampleMemory 0xFF) 0x1000 ∧
      (sampleMemory 0xFF).NextFree 8 ∧
      ¬MapsPage (sampleMemory 0xFF) (setMmap (sampleMemory 0xFF) 0x1000 0 0x5000 3).2
        0x1000 0 0x5000 := by
  refine ⟨rfl, sampleMemory_directory _, sampleMemory_nextFree _, ?_⟩
  have missing : present ((sampleMemory 0xFF).entry 0x1000 (testbits 0 22 32)) = false := by
    rw [sampleMemory_entry _ (indexInPde_lt 0)]
    decide
  rw [setMmap_maps_of_absent (by decide) (by decide) (by decide) (sampleMemory_directory _) rfl
    (sampleMemory_nextFree _) missing]
  intro clean
  have entry := clean 1 (by decide) (by decide)
  rw [sampleMemory_fresh_entry _ (by decide)] at entry
  revert entry
  decide

end WegOS
