import WegOS.Paging
import WegOS.SchedInvariant

/-! The address spaces of different tasks are kept apart by the frames they own.

All directories share the page tables of the identity map below `ITSELF_END`.
Whatever else a directory names, and the directory itself, is in frames that no
other directory uses. -/

namespace WegOS

open LittleEndian Transition

/-! ## What one call does to its directory -/

theorem DirectoryOk.congr {m m' : Memory} {d : UInt32} (ok : DirectoryOk m d)
    (taken : ∀ n, m.Taken n → m'.Taken n)
    (entries : ∀ i : UInt32, i.toNat < 1024 → m'.entry d i = m.entry d i) : DirectoryOk m' d := by
  have tables : ∀ i : UInt32, i.toNat < 1024 → m'.table d i = m.table d i := by
    intro i bound
    rw [Memory.table, entries i bound, Memory.table]
  refine ⟨ok.aligned, taken _ ok.taken, ?_, ?_, ?_⟩
  · intro i bound here
    rw [entries i bound] at here
    rw [tables i bound]
    exact taken _ (ok.tableTaken i bound here)
  · intro i bound here
    rw [entries i bound] at here
    rw [tables i bound]
    exact ok.tableApart i bound here
  · intro i j boundI boundJ hereI hereJ
    rw [entries i boundI] at hereI
    rw [entries j boundJ] at hereJ
    rw [tables i boundI, tables j boundJ]
    exact ok.tablesDistinct i j boundI boundJ hereI hereJ

section Call

variable {m : Memory} {d v p : UInt32} {flags : UInt16} {n : Nat}

theorem taken_bitFree (m : Memory) (n k : Nat) :
    Memory.Taken { m with memoryAllocBitmap := bitFree m.memoryAllocBitmap n true } k ↔
      k = n ∨ m.Taken k := by
  simp only [Memory.Taken, bitFree_bit, Nat.cast_inj]
  by_cases same : k = n
  · simp [same]
  · simp [same]

theorem nextFree_not_taken (free : m.NextFree n) : ¬m.Taken n := by
  intro taken
  rw [Memory.Taken, free.2.1] at taken
  cases taken

theorem nextFree_lt (covers : m.Covers) (free : m.NextFree n) : n < 2 ^ 20 := covers ▸ free.1

theorem withTable_directoryOk (covers : m.Covers) (ok : DirectoryOk m d) (free : m.NextFree n)
    {index : UInt32} (bound : index.toNat < 1024) : DirectoryOk (m.withTable d index n) d := by
  have small := nextFree_lt covers free
  have fresh := nextFree_not_taken free
  have taken : ∀ k, (m.withTable d index n).Taken k ↔ k = n ∨ m.Taken k := taken_bitFree m n
  have here : frameOf ((m.withTable d index n).table d index) = n := by
    rw [withTable_table, frameOf_frame small]
  have others : ∀ i : UInt32, i.toNat < 1024 → i ≠ index →
      (m.withTable d index n).entry d i = m.entry d i := by
    intro i inside different
    exact Memory.entry_setEntry_of_ne _ _ ok.aligned ok.aligned bound inside (Or.inr different)
  have tables : ∀ i : UInt32, i.toNat < 1024 → i ≠ index →
      (m.withTable d index n).table d i = m.table d i := by
    intro i inside different
    rw [Memory.table, others i inside different, Memory.table]
  refine ⟨ok.aligned, (taken _).mpr (Or.inr ok.taken), ?_, ?_, ?_⟩
  · intro i inside there
    by_cases same : i = index
    · rw [same, here]
      exact (taken n).mpr (Or.inl rfl)
    · rw [others i inside same] at there
      rw [tables i inside same]
      exact (taken _).mpr (Or.inr (ok.tableTaken i inside there))
  · intro i inside there
    by_cases same : i = index
    · rw [same, here]
      exact fun equal => fresh (equal ▸ ok.taken)
    · rw [others i inside same] at there
      rw [tables i inside same]
      exact ok.tableApart i inside there
  · intro i j insideI insideJ thereI thereJ equal
    by_cases sameI : i = index
    · by_cases sameJ : j = index
      · rw [sameI, sameJ]
      · rw [others j insideJ sameJ] at thereJ
        rw [sameI, here, tables j insideJ sameJ] at equal
        exact absurd (ok.tableTaken j insideJ thereJ) (equal ▸ fresh)
    · rw [others i insideI sameI] at thereI
      rw [tables i insideI sameI] at equal
      by_cases sameJ : j = index
      · rw [sameJ, here] at equal
        exact absurd (ok.tableTaken i insideI thereI) (equal ▸ fresh)
      · rw [others j insideJ sameJ] at thereJ
        rw [tables j insideJ sameJ] at equal
        exact ok.tablesDistinct i j insideI insideJ thereI thereJ equal

end Call

/-! ## Ownership -/

def itselfEntries : Nat := 64

/-- The frames that a task's directory does not share: its own, and those of the page
tables above the identity map. -/
def OwnFrame (m : Memory) (d : UInt32) (n : Nat) : Prop :=
  n = frameOf d ∨ ∃ i : UInt32, itselfEntries ≤ i.toNat ∧ i.toNat < 1024 ∧
    present (m.entry d i) = true ∧ n = frameOf (m.table d i)

def UsedFrame (m : Memory) (d : UInt32) (n : Nat) : Prop :=
  n = frameOf d ∨ ∃ i : UInt32, i.toNat < 1024 ∧ present (m.entry d i) = true ∧
    n = frameOf (m.table d i)

theorem OwnFrame.used {m : Memory} {d : UInt32} {n : Nat} (own : OwnFrame m d n) : UsedFrame m d n := by
  rcases own with itself | ⟨i, _, bound, here, table⟩
  · exact Or.inl itself
  · exact Or.inr ⟨i, bound, here, table⟩

theorem DirectoryOk.used_taken {m : Memory} {d : UInt32} {n : Nat} (ok : DirectoryOk m d)
    (used : UsedFrame m d n) : m.Taken n := by
  rcases used with rfl | ⟨i, bound, here, rfl⟩
  · exact ok.taken
  · exact ok.tableTaken i bound here

def SameSpace (m m' : Memory) (d : UInt32) : Prop :=
  ∀ w, hasAddr m' d w = hasAddr m d w ∧
    (hasAddr m d w = true → addrTranslate m' d w = addrTranslate m d w)

theorem SameSpace.refl (m : Memory) (d : UInt32) : SameSpace m m d := fun _ => ⟨rfl, fun _ => rfl⟩

theorem SameSpace.trans {m m' m'' : Memory} {d : UInt32} (first : SameSpace m m' d)
    (second : SameSpace m' m'' d) : SameSpace m m'' d := by
  intro w
  obtain ⟨has, translate⟩ := first w
  obtain ⟨has', translate'⟩ := second w
  exact ⟨has'.trans has, fun mapped => (translate' (has.trans mapped)).trans (translate mapped)⟩

theorem walk_frames {m m' : Memory} {d : UInt32} (aligned : PageAligned d)
    (agree : ∀ a, UsedFrame m d (frameOf a) → m'.bytes a = m.bytes a) : SameSpace m m' d := by
  intro w
  apply walk_congr
  · exact Memory.entry_congr aligned (indexInPde_lt w) fun a inside => agree a (Or.inl inside)
  · intro here
    exact Memory.entry_congr (table_aligned _ _ _) (indexInPte_lt w) fun a inside =>
      agree a (Or.inr ⟨_, indexInPde_lt w, here, inside⟩)

/-- A call on directory `d` has changed bytes only in frames that `d` owns or that
were free, and `d` has gained at most frames that were free. -/
structure Touches (m m' : Memory) (d : UInt32) : Prop where
  covers : m'.Covers
  taken : ∀ n, m.Taken n → m'.Taken n
  bytes : ∀ a, ¬OwnFrame m d (frameOf a) → m.Taken (frameOf a) → m'.bytes a = m.bytes a
  directory : DirectoryOk m' d
  shared : ∀ i : UInt32, i.toNat < itselfEntries → m'.entry d i = m.entry d i
  gained : ∀ n, OwnFrame m' d n → OwnFrame m d n ∨ ¬m.Taken n

theorem Touches.trans {m m' m'' : Memory} {d : UInt32} (first : Touches m m' d)
    (second : Touches m' m'' d) : Touches m m'' d where
  covers := second.covers
  taken n taken := second.taken n (first.taken n taken)
  bytes a own taken := by
    rw [second.bytes a _ (first.taken _ taken), first.bytes a own taken]
    intro later
    rcases first.gained _ later with before | free
    · exact own before
    · exact free taken
  directory := second.directory
  shared i small := (second.shared i small).trans (first.shared i small)
  gained n later := by
    rcases second.gained n later with middle | free
    · exact first.gained n middle
    · exact Or.inr fun taken => free (first.taken n taken)

section Touches

variable {m : Memory} {d v : UInt32}

theorem own_congr {m m' : Memory} (entries : ∀ i : UInt32, i.toNat < 1024 → m'.entry d i = m.entry d i)
    {n : Nat} (own : OwnFrame m' d n) : OwnFrame m d n := by
  rcases own with itself | ⟨i, low, bound, here, table⟩
  · exact Or.inl itself
  · refine Or.inr ⟨i, low, bound, by rw [← entries i bound]; exact here, ?_⟩
    rw [table, Memory.table, entries i bound, Memory.table]

theorem pMalloc_touches {n : Nat} (covers : m.Covers) (ok : DirectoryOk m d) (free : m.NextFree n) :
    Touches m (pMalloc m).2 d := by
  rw [pMalloc_nextFree covers free]
  have taken : ∀ k, m.Taken k → Memory.Taken
      { m with memoryAllocBitmap := bitFree m.memoryAllocBitmap n true } k :=
    fun k before => (taken_bitFree m n k).mpr (Or.inr before)
  exact ⟨covers, taken, fun _ _ _ => rfl, ok.congr taken fun _ _ => rfl, fun _ _ => rfl,
    fun _ own => Or.inl (own_congr (fun _ _ => rfl) own)⟩

theorem setEntry_touches (covers : m.Covers) (ok : DirectoryOk m d) {i j : UInt32}
    (low : itselfEntries ≤ i.toNat) (bound : i.toNat < 1024) (here : present (m.entry d i) = true)
    (small : j.toNat < 1024) (word : UInt32) : Touches m (m.setEntry (m.table d i) j word) d := by
  have entries : ∀ k : UInt32, k.toNat < 1024 →
      (m.setEntry (m.table d i) j word).entry d k = m.entry d k :=
    fun k inside => setEntry_table_entry ok bound here small word inside
  refine ⟨covers, fun _ taken => taken, ?_, ok.congr (fun _ taken => taken) entries, ?_, ?_⟩
  · intro a own _
    apply m.setEntry_bytes _ _ (table_aligned _ _ _) small
    intro inside
    exact own (Or.inr ⟨i, low, bound, here, inside⟩)
  · intro k inside
    exact entries k (by simp only [itselfEntries] at inside; omega)
  · intro n own
    exact Or.inl (own_congr entries own)

theorem withTable_touches {n : Nat} (covers : m.Covers) (ok : DirectoryOk m d) (free : m.NextFree n)
    {index : UInt32} (low : itselfEntries ≤ index.toNat) (bound : index.toNat < 1024) :
    Touches m (m.withTable d index n) d := by
  have others : ∀ i : UInt32, i.toNat < 1024 → i ≠ index →
      (m.withTable d index n).entry d i = m.entry d i := by
    intro i inside different
    exact Memory.entry_setEntry_of_ne _ _ ok.aligned ok.aligned bound inside (Or.inr different)
  refine ⟨covers, fun k taken => (taken_bitFree m n k).mpr (Or.inr taken), ?_,
    withTable_directoryOk covers ok free bound, ?_, ?_⟩
  · intro a own _
    exact Memory.setEntry_bytes _ _ _ ok.aligned bound fun inside => own (Or.inl inside)
  · intro i inside
    simp only [itselfEntries] at inside low
    exact others i (by omega) (by rintro rfl; omega)
  · rintro k (itself | ⟨i, above, inside, here, table⟩)
    · exact Or.inl (Or.inl itself)
    · by_cases same : i = index
      · rw [same, withTable_table, frameOf_frame (nextFree_lt covers free)] at table
        exact Or.inr (table ▸ nextFree_not_taken free)
      · rw [others i inside same] at here
        rw [Memory.table, others i inside same, ← Memory.table] at table
        exact Or.inl (Or.inr ⟨i, above, inside, here, table⟩)

theorem setMmap_touches (covers : m.Covers) (ok : DirectoryOk m d)
    (low : itselfEntries ≤ (testbits v 22 32).toNat)
    (succeeds : present (m.entry d (testbits v 22 32)) = false → ∃ n, m.NextFree n) (p : UInt32)
    (flags : UInt16) : Touches m (setMmap m d v p flags).2 d := by
  cases here : present (m.entry d (testbits v 22 32)) with
  | true =>
      rw [setMmap_present here]
      exact setEntry_touches covers ok low (indexInPde_lt v) here (indexInPte_lt v) _
  | false =>
      obtain ⟨n, free⟩ := succeeds here
      have first := withTable_touches covers ok free low (indexInPde_lt v)
      have second := setEntry_touches first.covers first.directory low (indexInPde_lt v)
        (withTable_present m d (testbits v 22 32) n) (indexInPte_lt v) (p ||| flags.toUInt32)
      rw [withTable_table] at second
      rw [setMmap_absent covers free here]
      exact first.trans second

end Touches

/-! ## All directories together -/

/-- The invariant: `kernelPd` maps just the part below `ITSELF_END`, the directories of
`dirs` share that part, and what one of them owns no other directory uses. -/
structure Isolated (m : Memory) (kernelPd : UInt32) (dirs : List UInt32) : Prop where
  covers : m.Covers
  kernel : DirectoryOk m kernelPd
  kernelHigh : ∀ i : UInt32, itselfEntries ≤ i.toNat → i.toNat < 1024 →
    present (m.entry kernelPd i) = false
  kernelApart : ∀ d ∈ dirs, kernelPd ≠ d
  directory : ∀ d ∈ dirs, DirectoryOk m d
  shared : ∀ d ∈ dirs, ∀ i : UInt32, i.toNat < itselfEntries → m.entry d i = m.entry kernelPd i
  apart : ∀ d ∈ dirs, ∀ e ∈ kernelPd :: dirs, e ≠ d → ∀ n, OwnFrame m d n → ¬UsedFrame m e n

section Isolated

variable {m m' : Memory} {kernelPd : UInt32} {dirs : List UInt32}

theorem Isolated.subset {fewer : List UInt32} (isolated : Isolated m kernelPd dirs)
    (subset : ∀ d ∈ fewer, d ∈ dirs) : Isolated m kernelPd fewer where
  covers := isolated.covers
  kernel := isolated.kernel
  kernelHigh := isolated.kernelHigh
  kernelApart d member := isolated.kernelApart d (subset d member)
  directory d member := isolated.directory d (subset d member)
  shared d member := isolated.shared d (subset d member)
  apart d member e other := by
    apply isolated.apart d (subset d member) e
    rcases List.mem_cons.mp other with kernel | task
    · exact List.mem_cons.mpr (Or.inl kernel)
    · exact List.mem_cons_of_mem _ (subset e task)

theorem Isolated.ok (isolated : Isolated m kernelPd dirs) {e : UInt32} (member : e ∈ kernelPd :: dirs) :
    DirectoryOk m e := by
  rcases List.mem_cons.mp member with rfl | task
  · exact isolated.kernel
  · exact isolated.directory e task

theorem Isolated.keep_bytes (isolated : Isolated m kernelPd dirs) {d e : UInt32} (member : d ∈ dirs)
    (touches : Touches m m' d) (other : e ∈ kernelPd :: dirs) (different : e ≠ d) {a : UInt32}
    (used : UsedFrame m e (frameOf a)) : m'.bytes a = m.bytes a := by
  apply touches.bytes a
  · intro own
    exact isolated.apart d member e other different _ own used
  · exact (isolated.ok other).used_taken used

theorem Isolated.keep_entries (isolated : Isolated m kernelPd dirs) {d e : UInt32} (member : d ∈ dirs)
    (touches : Touches m m' d) (other : e ∈ kernelPd :: dirs) (different : e ≠ d) {i : UInt32}
    (bound : i.toNat < 1024) : m'.entry e i = m.entry e i :=
  Memory.entry_congr (isolated.ok other).aligned bound fun _ inside =>
    isolated.keep_bytes member touches other different (Or.inl inside)

theorem used_congr {e : UInt32} (entries : ∀ i : UInt32, i.toNat < 1024 → m'.entry e i = m.entry e i)
    {n : Nat} (used : UsedFrame m' e n) : UsedFrame m e n := by
  rcases used with itself | ⟨i, bound, here, table⟩
  · exact Or.inl itself
  · refine Or.inr ⟨i, bound, by rw [← entries i bound]; exact here, ?_⟩
    rw [table, Memory.table, entries i bound, Memory.table]

theorem Touches.used {d : UInt32} (touches : Touches m m' d) {n : Nat} (used : UsedFrame m' d n) :
    UsedFrame m d n ∨ OwnFrame m' d n := by
  rcases used with itself | ⟨i, bound, here, table⟩
  · exact Or.inl (Or.inl itself)
  · by_cases low : i.toNat < itselfEntries
    · refine Or.inl (Or.inr ⟨i, bound, by rw [← touches.shared i low]; exact here, ?_⟩)
      rw [table, Memory.table, touches.shared i low, Memory.table]
    · exact Or.inr (Or.inr ⟨i, by omega, bound, here, table⟩)

theorem Isolated.touch (isolated : Isolated m kernelPd dirs) {d : UInt32} (member : d ∈ dirs)
    (touches : Touches m m' d) : Isolated m' kernelPd dirs := by
  have kept : ∀ e ∈ kernelPd :: dirs, e ≠ d → ∀ i : UInt32, i.toNat < 1024 →
      m'.entry e i = m.entry e i :=
    fun e other different i bound => isolated.keep_entries member touches other different bound
  have kernelKept := kept kernelPd List.mem_cons_self (isolated.kernelApart d member)
  have directory : ∀ e ∈ dirs, DirectoryOk m' e := by
    intro e other
    by_cases same : e = d
    · exact same ▸ touches.directory
    · exact (isolated.directory e other).congr touches.taken
        (kept e (List.mem_cons_of_mem _ other) same)
  -- A frame that `d` owns now is not used by any other directory.
  have owned : ∀ e ∈ kernelPd :: dirs, e ≠ d → ∀ n, OwnFrame m' d n → ¬UsedFrame m e n := by
    intro e other different n own used
    rcases touches.gained n own with before | free
    · exact isolated.apart d member e other different n before used
    · exact free ((isolated.ok other).used_taken used)
  refine ⟨touches.covers, isolated.kernel.congr touches.taken kernelKept, ?_, isolated.kernelApart,
    directory, ?_, ?_⟩
  · intro i low bound
    rw [kernelKept i bound]
    exact isolated.kernelHigh i low bound
  · intro e other i low
    have bound : i.toNat < 1024 := by
      simp only [itselfEntries] at low
      omega
    rw [kernelKept i bound]
    by_cases same : e = d
    · rw [same, touches.shared i low]
      exact isolated.shared d member i low
    · rw [kept e (List.mem_cons_of_mem _ other) same i bound]
      exact isolated.shared e other i low
  · intro e other f third different n own used
    by_cases same : e = d
    · subst same
      exact owned f third different n own (used_congr (kept f third different) used)
    · have ownBefore := own_congr (kept e (List.mem_cons_of_mem _ other) same) own
      by_cases target : f = d
      · subst target
        rcases touches.used used with before | later
        · exact isolated.apart e other f third different n ownBefore before
        · exact owned e (List.mem_cons_of_mem _ other) same n later ownBefore.used
      · exact isolated.apart e other f third different n ownBefore
          (used_congr (kept f third target) used)

/-- No call on a task's directory is seen through another one. -/
theorem Isolated.walk_touch (isolated : Isolated m kernelPd dirs) {d e : UInt32} (member : d ∈ dirs)
    (touches : Touches m m' d) (other : e ∈ kernelPd :: dirs) (different : e ≠ d) : SameSpace m m' e :=
  walk_frames (isolated.ok other).aligned fun _ used =>
    isolated.keep_bytes member touches other different used

/-! ## New directories -/

theorem frameOf_sub {a toPd : UInt32} (aligned : PageAligned toPd) :
    (a - toPd).toNat < pageSize ↔ frameOf a = frameOf toPd := by
  have small := a.toNat_lt
  have smallTo := toPd.toNat_lt
  simp only [PageAligned, pageSize] at aligned
  rw [UInt32.toNat_sub, frameOf, frameOf]
  simp only [pageSize]
  omega

theorem copyPts_bytes (m : Memory) {fromPd toPd a : UInt32} (aligned : PageAligned toPd)
    (outside : frameOf a ≠ frameOf toPd) : (copyPts m fromPd toPd).bytes a = m.bytes a := by
  simp only [copyPts, frameOf_sub aligned, if_neg outside]

theorem copyPts_entry (m : Memory) {fromPd toPd i : UInt32} (aligned : PageAligned toPd)
    (bound : i.toNat < 1024) : (copyPts m fromPd toPd).entry toPd i = m.entry fromPd i := by
  have copied : ∀ k < 4, (copyPts m fromPd toPd).bytes (addressPlace (toPd + 4 * i) k) =
      m.bytes (addressPlace (fromPd + 4 * i) k) := by
    intro k small
    have inside := entry_frame aligned bound small
    have place : fromPd + (addressPlace (toPd + 4 * i) k - toPd) =
        addressPlace (fromPd + 4 * i) k := by
      have small := toPd.toNat_lt
      generalize 4 * i = offset
      apply UInt32.toNat_inj.mp
      simp only [addressPlace, UInt32.toNat_add, UInt32.toNat_sub]
      omega
    simp only [copyPts, frameOf_sub aligned, inside, if_true, place]
  simp only [Memory.entry, wordAt]
  exact leWord_congr copied

section Copied

variable {d : UInt32} (copied : ∀ i : UInt32, i.toNat < 1024 → m'.entry d i = m.entry kernelPd i)

include copied

theorem copied_table {i : UInt32} (bound : i.toNat < 1024) : m'.table d i = m.table kernelPd i := by
  rw [Memory.table, copied i bound, Memory.table]

theorem copied_directoryOk (kernel : DirectoryOk m kernelPd) (aligned : PageAligned d) (fresh : ¬m.Taken (frameOf d))
    (taken : m'.Taken (frameOf d)) (old : ∀ k, m.Taken k → m'.Taken k) : DirectoryOk m' d where
  aligned := aligned
  taken := taken
  tableTaken i bound here := by
    rw [copied i bound] at here
    rw [copied_table copied bound]
    exact old _ (kernel.tableTaken i bound here)
  tableApart i bound here equal := by
    rw [copied i bound] at here
    rw [copied_table copied bound] at equal
    exact fresh (equal ▸ kernel.tableTaken i bound here)
  tablesDistinct i j boundI boundJ hereI hereJ := by
    rw [copied i boundI] at hereI
    rw [copied j boundJ] at hereJ
    rw [copied_table copied boundI, copied_table copied boundJ]
    exact kernel.tablesDistinct i j boundI boundJ hereI hereJ

/-- The copy owns its frame alone, as the kernel's directory is empty above the map. -/
theorem copied_own (kernelHigh : ∀ i : UInt32, itselfEntries ≤ i.toNat → i.toNat < 1024 →
    present (m.entry kernelPd i) = false) {k : Nat} (own : OwnFrame m' d k) : k = frameOf d := by
  rcases own with itself | ⟨i, low, bound, here, _⟩
  · exact itself
  · rw [copied i bound, kernelHigh i low bound] at here
    cases here

theorem copied_used {k : Nat} (used : UsedFrame m' d k) : k = frameOf d ∨ UsedFrame m kernelPd k := by
  rcases used with itself | ⟨i, bound, here, table⟩
  · exact Or.inl itself
  · rw [copied i bound] at here
    rw [copied_table copied bound] at table
    exact Or.inr (Or.inr ⟨i, bound, here, table⟩)

end Copied

theorem Isolated.create {n : Nat} (isolated : Isolated m kernelPd dirs) (free : m.NextFree n) :
    Isolated (copyPts (pMalloc m).2 kernelPd (pMalloc m).1) kernelPd ((pMalloc m).1 :: dirs) ∧
      ∀ e ∈ kernelPd :: dirs, e ≠ (pMalloc m).1 ∧
        SameSpace m (copyPts (pMalloc m).2 kernelPd (pMalloc m).1) e := by
  have small := nextFree_lt isolated.covers free
  have fresh := nextFree_not_taken free
  rw [pMalloc_nextFree isolated.covers free]
  simp only
  generalize dEq : UInt32.ofNat (n * pageSize) = d
  generalize mEq : copyPts { m with memoryAllocBitmap := bitFree m.memoryAllocBitmap n true }
    kernelPd d = m'
  have aligned : PageAligned d := dEq ▸ frame_aligned n
  have frame : frameOf d = n := dEq ▸ frameOf_frame small
  have taken : ∀ k, m'.Taken k ↔ k = n ∨ m.Taken k := by
    intro k
    rw [← mEq]
    exact taken_bitFree m n k
  have old : ∀ k, m.Taken k → m'.Taken k := fun k before => (taken k).mpr (Or.inr before)
  have bytes : ∀ a, frameOf a ≠ n → m'.bytes a = m.bytes a := by
    intro a outside
    rw [← mEq]
    exact copyPts_bytes _ aligned (frame ▸ outside)
  have different : ∀ e ∈ kernelPd :: dirs, e ≠ d := by
    rintro e other rfl
    exact fresh (frame ▸ (isolated.ok other).taken)
  have usedBytes : ∀ e ∈ kernelPd :: dirs, ∀ a, UsedFrame m e (frameOf a) → m'.bytes a = m.bytes a := by
    intro e other a used
    apply bytes
    intro equal
    exact fresh (equal ▸ (isolated.ok other).used_taken used)
  have kept : ∀ e ∈ kernelPd :: dirs, ∀ i : UInt32, i.toNat < 1024 → m'.entry e i = m.entry e i :=
    fun e other i bound => Memory.entry_congr (isolated.ok other).aligned bound fun a inside =>
      usedBytes e other a (Or.inl inside)
  have copied : ∀ i : UInt32, i.toNat < 1024 → m'.entry d i = m.entry kernelPd i := by
    intro i bound
    rw [← mEq]
    exact copyPts_entry _ aligned bound
  have kernelKept := kept kernelPd List.mem_cons_self
  have freshFrame : ¬m.Taken (frameOf d) := frame.symm ▸ fresh
  have itself : DirectoryOk m' d :=
    copied_directoryOk copied isolated.kernel aligned freshFrame ((taken _).mpr (Or.inl frame)) old
  have usedTaken : ∀ e ∈ kernelPd :: dirs, ∀ k, UsedFrame m' e k → m.Taken k := fun e other k inside =>
    (isolated.ok other).used_taken (used_congr (kept e other) inside)
  refine ⟨⟨?_, isolated.kernel.congr old kernelKept, ?_, ?_, ?_, ?_, ?_⟩, fun e other =>
    ⟨different e other, walk_frames (isolated.ok other).aligned (usedBytes e other)⟩⟩
  · rw [← mEq]
    exact isolated.covers
  · intro i low bound
    rw [kernelKept i bound]
    exact isolated.kernelHigh i low bound
  · intro e member
    rcases List.mem_cons.mp member with rfl | task
    · exact different kernelPd List.mem_cons_self
    · exact isolated.kernelApart e task
  · intro e member
    rcases List.mem_cons.mp member with rfl | task
    · exact itself
    · exact (isolated.directory e task).congr old (kept e (List.mem_cons_of_mem _ task))
  · intro e member i low
    have bound : i.toNat < 1024 := by
      simp only [itselfEntries] at low
      omega
    rw [kernelKept i bound]
    rcases List.mem_cons.mp member with rfl | task
    · exact copied i bound
    · rw [kept e (List.mem_cons_of_mem _ task) i bound]
      exact isolated.shared e task i low
  · intro e member f third apart k owned inside
    have third' : f = d ∨ f ∈ kernelPd :: dirs := by
      simp only [List.mem_cons] at third ⊢
      tauto
    rcases List.mem_cons.mp member with rfl | task
    · rcases third' with same | other
      · exact apart same
      · exact freshFrame (copied_own copied isolated.kernelHigh owned ▸ usedTaken f other k inside)
    · have ownBefore := own_congr (kept e (List.mem_cons_of_mem _ task)) owned
      have ownTaken := (isolated.directory e task).used_taken ownBefore.used
      rcases third' with rfl | other
      · rcases copied_used copied inside with equal | shared
        · exact freshFrame (equal ▸ ownTaken)
        · exact isolated.apart e task kernelPd List.mem_cons_self (isolated.kernelApart e task) k
            ownBefore shared
      · exact isolated.apart e task f other apart k ownBefore (used_congr (kept f other) inside)

end Isolated

/-! ## The identity map of the kernel -/

/-- The kernel's globals before `memory_init`: `kernel_pd` and the allocation table are zero. -/
structure Zeroed (m : Memory) (kernelPd : UInt32) : Prop where
  directory : ∀ a, frameOf a = frameOf kernelPd → m.bytes a = 0
  table : ∀ i : Int, 0 ≤ i → i < 2 ^ 17 → m.memoryAllocBitmap.bits i = 0

def kernelFrames : Nat := 0x800000 / pageSize

structure Memory.Filled (m : Memory) (n : Nat) : Prop where
  covers : m.Covers
  taken : ∀ k < 2 ^ 20, m.Taken k ↔ k < n

structure TablesTo (m : Memory) (cr3 : UInt32) (k : Nat) : Prop where
  directory : DirectoryOk m cr3
  tables : ∀ i : UInt32, i.toNat < 1024 → (present (m.entry cr3 i) = true ↔ i.toNat * 1024 < k)

/-- After `k` pages of the identity map, one frame is taken for every 1024 pages. -/
structure IdentityMapped (m : Memory) (kernelPd : UInt32) (k : Nat) : Prop where
  directory : DirectoryOk m kernelPd
  tables : ∀ i : UInt32, i.toNat < 1024 → (present (m.entry kernelPd i) = true ↔ i.toNat * 1024 < k)
  filled : m.Filled (kernelFrames + (k + 1023) / 1024)

section MemoryInit

variable {m : Memory} {image : KernelImage} {kernelPd : UInt32}

theorem memoryAllocInit_eq (m : Memory) :
    ∃ bitmap, memoryAllocInit m = { m with memoryAllocBitmap := bitmap } ∧ bitmap.size = 2 ^ 20 ∧
      ∀ n : Nat, bitmap.bit n =
        if n < kernelFrames then true else (bitBind m.memoryAllocBitmap.bits (2 ^ 20)).bit n :=
  ⟨_, rfl, foldl_bitFree _ kernelFrames⟩

theorem memoryAllocInit_identityMapped (zeroed : Zeroed m image.kernelPd) :
    IdentityMapped (memoryAllocInit m) image.kernelPd 0 := by
  obtain ⟨bitmap, result, size, bit⟩ := memoryAllocInit_eq m
  rw [result]
  have taken : ∀ n < 2 ^ 20, Memory.Taken { m with memoryAllocBitmap := bitmap } n ↔
      n < kernelFrames + (0 + 1023) / 1024 := by
    intro n small
    have unset : (bitBind m.memoryAllocBitmap.bits (2 ^ 20)).bit n = false := by
      have byte := zeroed.table (n / 8) (by omega) (by omega)
      simp [bitBind, Bitmap.bit, byte]
    have value := bit n
    rw [unset] at value
    simp only [Memory.Taken, value]
    split_ifs with small
    · exact iff_of_true rfl (by omega)
    · exact iff_of_false (by decide) (by omega)
  have empty : ∀ i : UInt32, i.toNat < 1024 →
      ¬present (Memory.entry { m with memoryAllocBitmap := bitmap } image.kernelPd i) = true := by
    intro i bound
    have zero : Memory.entry { m with memoryAllocBitmap := bitmap } image.kernelPd i =
        leWord fun _ => 0 :=
      leWord_congr fun k small =>
        zeroed.directory _ (entry_frame image.kernelPd_aligned bound small)
    rw [zero]
    decide
  refine ⟨⟨image.kernelPd_aligned, ?_, ?_, ?_, ?_⟩, ?_, size, taken⟩
  · have inside := image.kernelPd_inside
    exact (taken _ (inside.trans (by decide))).mpr (Nat.lt_of_lt_of_le inside (Nat.le_add_right _ _))
  · exact fun i bound here => absurd here (empty i bound)
  · exact fun i bound here => absurd here (empty i bound)
  · exact fun i j bound _ here => absurd here (empty i bound)
  · exact fun i bound => iff_of_false (empty i bound) (by omega)

theorem Memory.Filled.nextFree {n : Nat} (filled : m.Filled n) (bound : n < 2 ^ 20) : m.NextFree n := by
  refine ⟨?_, ?_, ?_⟩
  · rw [filled.covers]
    exact bound
  · rw [← Bool.not_eq_true]
    intro taken
    exact absurd ((filled.taken n bound).mp taken) (Nat.lt_irrefl n)
  · intro earlier small
    exact (filled.taken earlier (small.trans bound)).mpr small

theorem Memory.Filled.not_taken {n k : Nat} (filled : m.Filled n) (bound : k < 2 ^ 20) (behind : n ≤ k) :
    ¬m.Taken k := fun taken => absurd ((filled.taken k bound).mp taken) (by omega)

theorem Memory.Filled.take {n : Nat} (filled : m.Filled n) :
    Memory.Filled { m with memoryAllocBitmap := bitFree m.memoryAllocBitmap n true } (n + 1) := by
  refine ⟨filled.covers, fun k small => (taken_bitFree m n k).trans ?_⟩
  rw [filled.taken k small]
  omega

theorem IdentityMapped.nextFree {k : Nat} (mapped : IdentityMapped m kernelPd k) (bound : k ≤ 65536) :
    m.NextFree (kernelFrames + (k + 1023) / 1024) := by
  have frames : kernelFrames = 2048 := rfl
  exact mapped.filled.nextFree (by omega)

theorem identity_index {k : Nat} (bound : k < 2 ^ 20) :
    (testbits (UInt32.ofNat (k * pageSize)) 22 32).toNat = k / 1024 := by
  rw [indexInPde_toNat, frame_address bound]
  simp only [pageSize]
  omega

/-- The next page needs a new table just when it is the first page of one. -/
theorem TablesTo.missing {k : Nat} (upTo : TablesTo m kernelPd k) (bound : k < 2 ^ 20) :
    present (m.entry kernelPd (testbits (UInt32.ofNat (k * pageSize)) 22 32)) = false ↔ k % 1024 = 0 := by
  rw [← Bool.not_eq_true, upTo.tables _ (indexInPde_lt _), identity_index bound]
  omega

theorem TablesTo.step {k : Nat} (covers : m.Covers) (upTo : TablesTo m kernelPd k) (bound : k < 2 ^ 20)
    (succeeds : k % 1024 = 0 → ∃ n, m.NextFree n) (p : UInt32) (flags : UInt16) :
    TablesTo (setMmap m kernelPd (UInt32.ofNat (k * pageSize)) p flags).2 kernelPd (k + 1) := by
  have index := identity_index bound
  have first := upTo.missing bound
  have inside := indexInPde_lt (UInt32.ofNat (k * pageSize))
  have pte := indexInPte_lt (UInt32.ofNat (k * pageSize))
  generalize UInt32.ofNat (k * pageSize) = v at index first inside pte ⊢
  cases here : present (m.entry kernelPd (testbits v 22 32)) with
  | true =>
      -- The table of this page is there, and the page is not the first one of it.
      have within := (upTo.tables _ inside).mp here
      rw [index] at within
      rw [setMmap_present here]
      have entries : ∀ i : UInt32, i.toNat < 1024 →
          (m.setEntry (m.table kernelPd (testbits v 22 32)) (testbits v 12 22)
            (p ||| flags.toUInt32)).entry kernelPd i = m.entry kernelPd i :=
        fun i small => setEntry_table_entry upTo.directory inside here pte _ small
      refine ⟨upTo.directory.congr (fun _ taken => taken) entries, ?_⟩
      intro i small
      rw [entries i small, upTo.tables i small]
      omega
  | false =>
      have start := first.mp here
      obtain ⟨n, free⟩ := succeeds start
      rw [setMmap_absent covers free here]
      have directory := withTable_directoryOk covers upTo.directory free inside
      have stored := fun (i : UInt32) (small : i.toNat < 1024) =>
        setEntry_table_entry directory inside (withTable_present m kernelPd (testbits v 22 32) _) pte
          (p ||| flags.toUInt32) small
      rw [withTable_table] at stored
      refine ⟨directory.congr (fun _ taken => ?_) stored, ?_⟩
      · rw [Memory.Taken, Memory.setEntry_bitmap]
        exact taken
      intro i small
      rw [stored i small]
      by_cases same : i = testbits v 22 32
      · rw [same, withTable_present, index]
        exact iff_of_true rfl (by omega)
      · have different : i.toNat ≠ k / 1024 := fun equal => same (UInt32.toNat_inj.mp (equal.trans index.symm))
        rw [withTable_entry_of_ne upTo.directory small inside same, upTo.tables i small]
        omega

theorem IdentityMapped.upTo {k : Nat} (mapped : IdentityMapped m kernelPd k) : TablesTo m kernelPd k :=
  ⟨mapped.directory, mapped.tables⟩

theorem IdentityMapped.step {k : Nat} (mapped : IdentityMapped m kernelPd k) (bound : k < 65536)
    (p : UInt32) (flags : UInt16) :
    IdentityMapped (setMmap m kernelPd (UInt32.ofNat (k * pageSize)) p flags).2 kernelPd (k + 1) := by
  have free := mapped.nextFree bound.le
  have missing := mapped.upTo.missing (show k < 2 ^ 20 by omega)
  obtain ⟨directory, tables⟩ := mapped.upTo.step mapped.filled.covers (by omega) (fun _ => ⟨_, free⟩) p flags
  refine ⟨directory, tables, ?_⟩
  cases here : present (m.entry kernelPd (testbits (UInt32.ofNat (k * pageSize)) 22 32)) with
  | true =>
      have later : ¬k % 1024 = 0 := by
        rw [← missing, here]
        decide
      rw [setMmap_present here]
      refine ⟨mapped.filled.covers, fun n small => ?_⟩
      rw [show (k + 1 + 1023) / 1024 = (k + 1023) / 1024 by omega]
      exact mapped.filled.taken n small
  | false =>
      have start := missing.mp here
      rw [setMmap_absent mapped.filled.covers free here]
      have next := mapped.filled.take
      rw [show kernelFrames + (k + 1023) / 1024 + 1 = kernelFrames + (k + 1 + 1023) / 1024 by omega] at next
      exact ⟨next.covers, next.taken⟩

theorem IdentityMapped.loop {k : Nat} (mapped : IdentityMapped m kernelPd 0) (bound : k ≤ 65536) :
    IdentityMapped ((List.range k).foldl (fun m i => (setMmap m kernelPd (UInt32.ofNat (i * pageSize))
      (UInt32.ofNat (i * pageSize)) pageTableFlagKernelReadWrite).2) m) kernelPd k := by
  induction k with
  | zero => exact mapped
  | succ k ih =>
      rw [List.range_succ, List.foldl_append, List.foldl_cons, List.foldl_nil]
      exact (ih (by omega)).step (by omega) _ _

theorem memoryInit_identityMapped (zeroed : Zeroed m image.kernelPd) :
    IdentityMapped (memoryInit m image.kernelPd) image.kernelPd 65536 := by
  have pages : (itselfEnd.toNat + (pageSize - 1)) / pageSize = 65536 := by decide
  rw [memoryInit, addMmapToItself, pages]
  exact (memoryAllocInit_identityMapped zeroed).loop (Nat.le_refl _)

theorem memoryInit_isolated (zeroed : Zeroed m image.kernelPd) :
    Isolated (memoryInit m image.kernelPd) image.kernelPd [] := by
  have mapped := memoryInit_identityMapped zeroed
  refine ⟨mapped.filled.covers, mapped.directory, ?_, by simp, by simp, by simp, by simp⟩
  intro i low bound
  rw [← Bool.not_eq_true, mapped.tables i bound]
  simp only [itselfEntries] at low
  omega

end MemoryInit

/-! ## Runs -/

def System.cr3 (s : System) (pid : Nat) : UInt32 := (s.kernel.taskManager.tasks pid).tss.cr3

def System.withMemory (s : System) (m : Memory) : System :=
  { s with kernel := { s.kernel with memory := m } }

/-- The events of the scheduler, and the calls on the directory of task `pid`. -/
inductive MemEvent
  | task (event : Event)
  | setMmap (pid : Nat) (v p : UInt32) (flags : UInt16)
  | loadMemory (pid : Nat) (v : UInt32) (flags : UInt16)
  | swapSectorSet (pid : Nat) (v sector : UInt32)

def memStep (image : KernelImage) (s : System) : MemEvent → Option System
  | .task event => step image s event
  | .setMmap pid v p flags =>
      some (s.withMemory (setMmap s.kernel.memory (s.cr3 pid) v p flags).2)
  | .loadMemory pid v flags => some (s.withMemory (loadMemory s.kernel.memory (s.cr3 pid) v flags).2)
  | .swapSectorSet pid v sector =>
      some (s.withMemory (swapSectorSet s.kernel.memory (s.cr3 pid) v sector))

def allocates (m : Memory) : Prop := (pMalloc m).1 ≠ 0xFFFFFFFF

def mapAllocates (m : Memory) (cr3 v : UInt32) : Prop :=
  present (m.entry cr3 (testbits v 22 32)) = true ∨ allocates m

/-- Calls are on live tasks and above the identity map, no allocation fails, and
`swap_sector_set` finds a page table. -/
def Allowed (s : System) : MemEvent → Prop
  | .task (.create _ _ _ _) => allocates s.kernel.memory
  | .task _ => True
  | .setMmap pid v _ _ => pid ∈ s.live ∧ itselfEnd ≤ v ∧ mapAllocates s.kernel.memory (s.cr3 pid) v
  | .loadMemory pid v _ => pid ∈ s.live ∧ itselfEnd ≤ v ∧ allocates s.kernel.memory ∧
      mapAllocates (pMalloc s.kernel.memory).2 (s.cr3 pid) v
  | .swapSectorSet pid v _ => pid ∈ s.live ∧ itselfEnd ≤ v ∧
      present (s.kernel.memory.entry (s.cr3 pid) (testbits v 22 32)) = true

def MemStep (image : KernelImage) : System → MemEvent → System → Prop :=
  Guarded (fun s event t => memStep image s event = some t) Allowed

def Spares (b : Nat) : MemEvent → Prop
  | .task (.exit _) => False
  | .task _ => True
  | .setMmap pid _ _ _ => pid ≠ b
  | .loadMemory pid _ _ => pid ≠ b
  | .swapSectorSet pid _ _ => pid ≠ b

structure Spaces (image : KernelImage) (s : System) : Prop where
  consistent : Consistent s
  isolated : Isolated s.kernel.memory image.kernelPd (s.live.map s.cr3)
  distinct : ∀ a ∈ s.live, ∀ b ∈ s.live, s.cr3 a = s.cr3 b → a = b

structure Undisturbed (s t : System) (b : Nat) : Prop where
  live : b ∈ t.live
  cr3 : t.cr3 b = s.cr3 b
  space : SameSpace s.kernel.memory t.kernel.memory (s.cr3 b)

section Runs

variable {image : KernelImage} {s t : System}

theorem allocates_nextFree {m : Memory} (succeeds : allocates m) : ∃ n, m.NextFree n := by
  by_contra full
  exact succeeds (by rw [pMalloc_full full])

theorem mapAllocates_nextFree {m : Memory} {cr3 v : UInt32} (succeeds : mapAllocates m cr3 v) :
    present (m.entry cr3 (testbits v 22 32)) = false → ∃ n, m.NextFree n := by
  intro missing
  rcases succeeds with here | free
  · rw [here] at missing
    cases missing
  · exact allocates_nextFree free

theorem itselfEnd_index {v : UInt32} (above : itselfEnd ≤ v) :
    itselfEntries ≤ (testbits v 22 32).toNat := by
  rw [indexInPde_toNat]
  have bound := UInt32.le_iff_toNat_le.mp above
  rw [show itselfEnd.toNat = 268435456 by decide] at bound
  simp only [itselfEntries]
  omega

theorem Spaces.directory (ok : Spaces image s) {a : Nat} (live : a ∈ s.live) :
    DirectoryOk s.kernel.memory (s.cr3 a) := ok.isolated.directory _ (List.mem_map_of_mem live)

theorem Spaces.call (ok : Spaces image s) {a : Nat} (live : a ∈ s.live) {m' : Memory}
    (touches : Touches s.kernel.memory m' (s.cr3 a)) :
    Spaces image (s.withMemory m') ∧ SameSpace s.kernel.memory m' image.kernelPd ∧
      ∀ b ∈ s.live, a ≠ b → Undisturbed s (s.withMemory m') b := by
  have member := List.mem_map_of_mem (f := s.cr3) live
  have consistent : Consistent (s.withMemory m') :=
    ⟨ok.consistent.placed, ok.consistent.described, ok.consistent.gone⟩
  refine ⟨⟨consistent, ok.isolated.touch member touches, ok.distinct⟩, ?_, ?_⟩
  · exact ok.isolated.walk_touch member touches List.mem_cons_self (ok.isolated.kernelApart _ member)
  · intro b liveB different
    refine ⟨liveB, rfl, ok.isolated.walk_touch member touches ?_ ?_⟩
    · exact List.mem_cons_of_mem _ (List.mem_map_of_mem liveB)
    · exact fun same => different (ok.distinct a live b liveB same.symm)

theorem Spaces.quiet (ok : Spaces image s) (consistent : Consistent t)
    (memory : t.kernel.memory = s.kernel.memory) (live : ∀ pid ∈ t.live, pid ∈ s.live)
    (tss : ∀ pid, t.cr3 pid = s.cr3 pid) :
    Spaces image t ∧ SameSpace s.kernel.memory t.kernel.memory image.kernelPd := by
  refine ⟨⟨consistent, ?_, ?_⟩, ?_⟩
  · rw [memory]
    apply ok.isolated.subset
    intro d member
    obtain ⟨pid, inside, rfl⟩ := List.mem_map.mp member
    rw [tss]
    exact List.mem_map_of_mem (live pid inside)
  · intro a inA b inB same
    rw [tss, tss] at same
    exact ok.distinct a (live a inA) b (live b inB) same
  · rw [memory]
    exact SameSpace.refl _ _

theorem Spaces.create (ok : Spaces image s) {flag eip esp ddl : UInt32} {pid : Nat} {k : Kernel}
    (free : allocates s.kernel.memory)
    (result : createTask image s.kernel flag eip esp ddl = some (pid, k)) :
    let t : System := ⟨k, pid :: s.live, s.exited.filter (· ≠ pid)⟩
    Spaces image t ∧ SameSpace s.kernel.memory t.kernel.memory image.kernelPd ∧
      ∀ b ∈ s.live, Undisturbed s t b := by
  intro t
  have consistent := ok.consistent.create result
  obtain ⟨n, nextFree⟩ := allocates_nextFree free
  obtain ⟨isolated, others⟩ := ok.isolated.create nextFree
  obtain ⟨_, _, _, memory, task, cr3, taskManager⟩ := createTask_eq result
  rw [← memory] at isolated others
  have fresh : pid ∉ s.live := (List.nodup_cons.mp consistent.placed.nodup).1
  have own : t.cr3 pid = (pMalloc s.kernel.memory).1 := by
    simp only [System.cr3, t, taskManager, setTaskState_tss, Function.update_self, cr3]
  have old : ∀ b ∈ s.live, t.cr3 b = s.cr3 b := by
    intro b live
    have other : b ≠ pid := fun same => fresh (same ▸ live)
    simp only [System.cr3, t, taskManager, setTaskState_tss, Function.update_of_ne other]
  have apart : ∀ b ∈ s.live, t.cr3 b ≠ t.cr3 pid := by
    intro b live same
    rw [own, old b live] at same
    exact (others _ (List.mem_cons_of_mem _ (List.mem_map_of_mem live))).1 same
  have dirs : t.live.map t.cr3 = (pMalloc s.kernel.memory).1 :: s.live.map s.cr3 := by
    rw [List.map_cons, own, List.map_congr_left old]
  refine ⟨⟨consistent, by rw [dirs]; exact isolated, ?_⟩, (others _ List.mem_cons_self).2, ?_⟩
  · intro a inA b inB same
    rcases List.mem_cons.mp inA with rfl | oldA
    · rcases List.mem_cons.mp inB with rfl | oldB
      · rfl
      · exact absurd same.symm (apart b oldB)
    · rcases List.mem_cons.mp inB with rfl | oldB
      · exact absurd same (apart a oldA)
      · rw [old a oldA, old b oldB] at same
        exact ok.distinct a oldA b oldB same
  · intro b live
    exact ⟨List.mem_cons_of_mem _ live, old b live,
      (others _ (List.mem_cons_of_mem _ (List.mem_map_of_mem live))).2⟩

/-- One event: the invariant, the kernel's space, and the spaces it spares. -/
theorem Spaces.step {event : MemEvent} (ok : Spaces image s) (step : MemStep image s event t) :
    Spaces image t ∧ SameSpace s.kernel.memory t.kernel.memory image.kernelPd ∧
      ∀ b ∈ s.live, Spares b event → Undisturbed s t b := by
  obtain ⟨allowed, result⟩ := step
  cases event with
  | task event =>
      have consistent := (ok.consistent.step result).1
      cases event with
      | create flag eip esp ddl =>
          obtain ⟨⟨pid, k⟩, created, same⟩ := Option.bind_eq_some_iff.mp result
          obtain rfl := Option.some.inj same
          obtain ⟨spaces, kernel, others⟩ := ok.create allowed created
          exact ⟨spaces, kernel, fun b live _ => others b live⟩
      | tick =>
          obtain ⟨tm, ticked, same⟩ := Option.bind_eq_some_iff.mp result
          obtain rfl := Option.some.inj same
          have tss := fun pid => congrArg Tss.cr3 (checkTaskAffairs_tss ticked pid)
          obtain ⟨spaces, kernel⟩ := ok.quiet consistent rfl (fun _ live => live) tss
          exact ⟨spaces, kernel, fun b live _ => ⟨live, tss b, SameSpace.refl _ _⟩⟩
      | sleep counter =>
          obtain ⟨tm, slept, same⟩ := Option.bind_eq_some_iff.mp result
          obtain rfl := Option.some.inj same
          have tss := fun pid => congrArg Tss.cr3 (sysSleep_tss slept pid)
          obtain ⟨spaces, kernel⟩ := ok.quiet consistent rfl (fun _ live => live) tss
          exact ⟨spaces, kernel, fun b live _ => ⟨live, tss b, SameSpace.refl _ _⟩⟩
      | exit code =>
          obtain ⟨k, exited, same⟩ := Option.bind_eq_some_iff.mp result
          obtain rfl := Option.some.inj same
          obtain ⟨memory, tss⟩ := sysExit_frame exited
          obtain ⟨spaces, kernel⟩ := ok.quiet consistent memory
            (fun _ live => List.mem_of_mem_filter live) fun pid => congrArg Tss.cr3 (tss pid)
          exact ⟨spaces, kernel, fun _ _ spared => absurd spared id⟩
  | setMmap pid v p flags =>
      obtain rfl := Option.some.inj result
      obtain ⟨live, above, succeeds⟩ := allowed
      exact ok.call live (setMmap_touches ok.isolated.covers (ok.directory live) (itselfEnd_index above)
        (mapAllocates_nextFree succeeds) p flags)
  | loadMemory pid v flags =>
      obtain rfl := Option.some.inj result
      obtain ⟨live, above, free, succeeds⟩ := allowed
      obtain ⟨n, nextFree⟩ := allocates_nextFree free
      have first := pMalloc_touches ok.isolated.covers (ok.directory live) nextFree
      have second := setMmap_touches first.covers first.directory (itselfEnd_index above)
        (mapAllocates_nextFree succeeds) (pMalloc s.kernel.memory).1 flags
      exact ok.call live (first.trans second)
  | swapSectorSet pid v sector =>
      obtain rfl := Option.some.inj result
      obtain ⟨live, above, here⟩ := allowed
      exact ok.call live (setEntry_touches ok.isolated.covers
        (ok.directory live) (itselfEnd_index above) (indexInPde_lt v) here
        (indexInPte_lt v) _)

/-- The system after `memory_init` and `task_manager_init`, before the first `create_task`. -/
def memStart (image : KernelImage) (k : Kernel) : System :=
  ⟨{ k with taskManager := taskManagerInit k.taskManager, memory := memoryInit k.memory image.kernelPd },
    [], []⟩

theorem memStart_spaces {k : Kernel} (zeroed : Zeroed k.memory image.kernelPd)
    (unused : k.taskManager.pidQueueSleeping.head = 0 ∧ k.taskManager.pidQueueSleeping.tail = 0) :
    Spaces image (memStart image k) := by
  have isolated := memoryInit_isolated zeroed
  simp only [memStart]
  generalize memoryInit k.memory image.kernelPd = m at isolated ⊢
  exact ⟨taskManagerInit_consistent unused m, isolated, by simp⟩

theorem Spaces.run {events : List MemEvent} (ok : Spaces image s)
    (run : Run (MemStep image) s events t) :
    Spaces image t ∧ SameSpace s.kernel.memory t.kernel.memory image.kernelPd ∧
      ∀ b ∈ s.live, (∀ event ∈ events, Spares b event) → Undisturbed s t b := by
  induction run with
  | refl => exact ⟨ok, SameSpace.refl _ _, fun b live _ => ⟨live, rfl, SameSpace.refl _ _⟩⟩
  | tail _ last ih =>
      obtain ⟨middle, kernel, others⟩ := ih
      obtain ⟨spaces, kernel', others'⟩ := middle.step last
      refine ⟨spaces, kernel.trans kernel', fun b live spared => ?_⟩
      have before := others b live fun event member => spared event (List.mem_append_left _ member)
      have after := others' b before.live (spared _ (by simp))
      exact ⟨after.live, after.cr3.trans before.cr3, before.space.trans (before.cr3 ▸ after.space)⟩

end Runs

theorem nextFree_allocates {m : Memory} {n : Nat} (covers : m.Covers) (free : m.NextFree n) : allocates m := by
  have bound := nextFree_lt covers free
  have address := congrArg Prod.fst (pMalloc_nextFree covers free)
  simp only at address
  rw [allocates, address]
  intro same
  have values := congrArg UInt32.toNat same
  rw [frame_address bound, show UInt32.toNat 0xFFFFFFFF = 4294967295 by decide] at values
  simp only [pageSize] at values
  omega

theorem Memory.Filled.allocates {m : Memory} {n : Nat} (filled : m.Filled n) (bound : n < 2 ^ 20) :
    allocates m := nextFree_allocates filled.covers (filled.nextFree bound)

theorem create_memStep (image : KernelImage) {s : System} {n : Nat} (filled : s.kernel.memory.Filled n)
    (bound : n < 2 ^ 20) (slot : getPidEmpty s.kernel.gdt < maxGdtTerms) (flag eip esp ddl : UInt32) :
    ∃ t, MemStep image s (.task (.create flag eip esp ddl)) t ∧
      t.live = getPidEmpty s.kernel.gdt :: s.live ∧ t.kernel.memory.Filled (n + 1) ∧
      t.kernel.gdt = Function.update s.kernel.gdt (getPidEmpty s.kernel.gdt)
        (makeGdtDescForTss (image.tssAddress (getPidEmpty s.kernel.gdt)) dplKernel) := by
  obtain ⟨k, created⟩ := createTask_some image flag eip esp ddl slot
  obtain ⟨_, _, gdt, memory, _⟩ := createTask_eq created
  refine ⟨⟨k, getPidEmpty s.kernel.gdt :: s.live, s.exited.filter (· ≠ getPidEmpty s.kernel.gdt)⟩,
    ⟨filled.allocates bound, ?_⟩, rfl, ?_, gdt⟩
  · simp only [memStep, step, created, Option.bind_eq_bind, Option.bind_some, Option.pure_def]
  · rw [memory, pMalloc_nextFree filled.covers (filled.nextFree bound)]
    exact ⟨filled.covers, filled.take.taken⟩

theorem memStart_filled {image : KernelImage} {k : Kernel} (zeroed : Zeroed k.memory image.kernelPd) :
    (memStart image k).kernel.memory.Filled 2112 := by
  have filled := (memoryInit_identityMapped zeroed).filled
  rw [show kernelFrames + (65536 + 1023) / 1024 = 2112 from rfl] at filled
  simp only [memStart]
  exact filled

theorem sampleKernel_zeroed : Zeroed sampleKernel.memory sampleImage.kernelPd :=
  ⟨fun _ _ => rfl, fun _ _ _ => rfl⟩

theorem sampleKernel_pid : getPidEmpty (memStart sampleImage sampleKernel).kernel.gdt = 5 :=
  show getPidEmpty sampleKernel.gdt = 5 by decide +kernel

theorem sampleKernel_created : ∃ s,
    MemStep sampleImage (memStart sampleImage sampleKernel) (.task (.create 1 0x400000 0x500000 9)) s ∧
      s.live = [5] ∧ s.kernel.memory.Filled 2113 ∧
      s.kernel.gdt = Function.update sampleKernel.gdt 5 (makeGdtDescForTss (sampleImage.tssAddress 5) dplKernel) := by
  have slot : getPidEmpty (memStart sampleImage sampleKernel).kernel.gdt < maxGdtTerms := by
    rw [sampleKernel_pid]
    decide
  obtain ⟨s, created, live, filled, gdt⟩ :=
    create_memStep sampleImage (memStart_filled sampleKernel_zeroed) (by decide) slot 1 0x400000 0x500000 9
  rw [sampleKernel_pid] at live gdt
  exact ⟨s, created, live, filled, gdt⟩

theorem sampleKernel_two : ∃ s t,
    MemStep sampleImage (memStart sampleImage sampleKernel) (.task (.create 1 0x400000 0x500000 9)) s ∧
      s.live = [5] ∧ s.kernel.memory.Filled 2113 ∧
      MemStep sampleImage s (.task (.create 1 0x410000 0x510000 9)) t ∧ t.live = [6, 5] ∧
      t.kernel.memory.Filled 2114 := by
  have secondPid : getPidEmpty (Function.update sampleKernel.gdt 5
      (makeGdtDescForTss (sampleImage.tssAddress 5) dplKernel)) = 6 := by decide +kernel
  obtain ⟨one, first, firstLive, firstFilled, firstGdt⟩ := sampleKernel_created
  have slot : getPidEmpty one.kernel.gdt = 6 := by
    rw [firstGdt]
    exact secondPid
  obtain ⟨s, second, live, filled, -⟩ :=
    create_memStep sampleImage firstFilled (by decide) (by rw [slot]; decide)
      1 0x410000 0x510000 9
  exact ⟨one, s, first, firstLive, firstFilled, second, by rw [live, slot, firstLive], filled⟩

end WegOS
