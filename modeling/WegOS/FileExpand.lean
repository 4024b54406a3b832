import WegOS.StoreFile

/-! Allocating sectors, and expanding a file by new ones at the end of its chain. -/

namespace WegOS

open LittleEndian CArray BlockChain

/-- `(1024 - 640) * 512 * 8`, the size of the bitmap that `fs_init` binds. -/
def fsAllocTableBits : Nat := (1024 - 640) * 512 * 8

def Marked (bitmap : Bitmap) (s : UInt32) : Prop := s.toNat < bitmap.size ∧ bitmap.bit s.toNat = true

def freeSectors (bitmap : Bitmap) : Nat :=
  ((Finset.range bitmap.size).filter fun n => bitmap.bit (n : Nat) = false).card

theorem least_of_free {bitmap : Bitmap} (free : 0 < freeSectors bitmap) : ∃ n, bitmap.Least false n := by
  obtain ⟨n, member⟩ := Finset.card_pos.mp free
  obtain ⟨inside, unmarked⟩ := Finset.mem_filter.mp member
  rcases bitmap.least_or_full false with least | full
  · exact least
  · have marked := full n (Finset.mem_range.mp inside)
    rw [unmarked] at marked
    cases marked

theorem le_freeSectors {bitmap : Bitmap} (sectors : Finset Nat)
    (clear : ∀ n ∈ sectors, n < bitmap.size ∧ bitmap.bit (n : Nat) = false) : sectors.card ≤ freeSectors bitmap := by
  refine Finset.card_le_card fun n member => Finset.mem_filter.mpr ?_
  exact ⟨Finset.mem_range.mpr (clear n member).1, (clear n member).2⟩

theorem freeSectors_mark {bitmap : Bitmap} {n : Nat} (inside : n < bitmap.size)
    (unmarked : bitmap.bit n = false) : freeSectors (bitFree bitmap n true) + 1 = freeSectors bitmap := by
  have rest : ((Finset.range bitmap.size).filter fun m => (bitFree bitmap n true).bit (m : Nat) = false) =
      ((Finset.range bitmap.size).filter fun m => bitmap.bit (m : Nat) = false).erase n := by
    ext m
    simp only [Finset.mem_filter, Finset.mem_range, Finset.mem_erase, bitFree_bit, Nat.cast_inj]
    split_ifs with here
    · simp [here]
    · simp [here]
  rw [freeSectors, bitFree_size, rest]
  exact Finset.card_erase_add_one (Finset.mem_filter.mpr ⟨Finset.mem_range.mpr inside, unmarked⟩)

/-- The sectors that are not marked, in the order in which `file_alloc` gives them. -/
def freshSectors (bitmap : Bitmap) : List UInt32 :=
  ((List.range bitmap.size).filter fun n => bitmap.bit (n : Nat) = false).map UInt32.ofNat

theorem range_filter_least {p q : Nat → Bool} {n size : Nat} (inside : n < size) (here : p n = true)
    (before : ∀ m < n, p m = false) (gone : q n = false) (others : ∀ m, m ≠ n → q m = p m) :
    (List.range size).filter p = n :: (List.range size).filter q := by
  obtain ⟨rest, rfl⟩ := Nat.exists_eq_add_of_lt inside
  have split : List.range (n + rest + 1) = List.range n ++ n :: (List.range rest).map (n + 1 + ·) := by
    rw [Nat.add_right_comm, List.range_add, List.range_succ, List.append_assoc]
    rfl
  have low : (List.range n).filter p = [] := by
    refine List.filter_eq_nil_iff.mpr fun m member => ?_
    rw [before m (List.mem_range.mp member)]
    decide
  have lowKept : (List.range n).filter q = [] := by
    refine List.filter_eq_nil_iff.mpr fun m member => ?_
    have below := List.mem_range.mp member
    rw [others m (Nat.ne_of_lt below), before m below]
    decide
  have high : ((List.range rest).map (n + 1 + ·)).filter q = ((List.range rest).map (n + 1 + ·)).filter p := by
    refine List.filter_congr fun m member => others m ?_
    obtain ⟨k, -, rfl⟩ := List.mem_map.mp member
    omega
  rw [split, List.filter_append, List.filter_append, low, lowKept, List.nil_append, List.nil_append,
    List.filter_cons_of_pos here, List.filter_cons_of_neg (by rw [gone]; decide), high]

theorem freshSectors_least {bitmap : Bitmap} {n : Nat} (least : bitmap.Least false n) :
    freshSectors bitmap = UInt32.ofNat n :: freshSectors (bitFree bitmap n true) := by
  obtain ⟨inside, unmarked, before⟩ := least
  rw [freshSectors, freshSectors, bitFree_size, ← List.map_cons]
  congr 1
  apply range_filter_least inside
  · exact decide_eq_true unmarked
  · exact fun m below => decide_eq_false (by rw [before m below]; decide)
  · exact decide_eq_false (by rw [bitFree_bit, if_pos rfl]; decide)
  · intro m other
    rw [bitFree_bit, if_neg (Nat.cast_injective.ne other)]

/-- The sectors `news` were not marked, and are now. They are the first that were free. -/
structure Allocated (news : List UInt32) (bitmap bitmap' : Bitmap) : Prop where
  size : bitmap'.size = fsAllocTableBits
  inside : ∀ s ∈ news, s.toNat < fsAllocTableBits
  fresh : ∀ s ∈ news, bitmap.bit s.toNat = false
  marks : ∀ s : UInt32, bitmap'.bit s.toNat = true ↔ bitmap.bit s.toNat = true ∨ s ∈ news
  free : freeSectors bitmap' + news.length = freeSectors bitmap
  order : freshSectors bitmap = news ++ freshSectors bitmap'

theorem Allocated.refl {bitmap : Bitmap} (size : bitmap.size = fsAllocTableBits) : Allocated [] bitmap bitmap where
  size := size
  inside := by simp
  fresh := by simp
  marks := by simp
  free := rfl
  order := rfl

theorem Allocated.trans {first second : List UInt32} {bitmap bitmap' bitmap'' : Bitmap}
    (before : Allocated first bitmap bitmap') (after : Allocated second bitmap' bitmap'') :
    Allocated (first ++ second) bitmap bitmap'' where
  size := after.size
  inside s member := by
    rcases List.mem_append.mp member with early | late
    · exact before.inside s early
    · exact after.inside s late
  fresh s member := by
    rcases List.mem_append.mp member with early | late
    · exact before.fresh s early
    · have unmarked := after.fresh s late
      cases marked : bitmap.bit s.toNat with
      | false => rfl
      | true =>
          rw [(before.marks s).mpr (Or.inl marked)] at unmarked
          cases unmarked
  marks s := by rw [after.marks, before.marks, List.mem_append, or_assoc]
  free := by
    have late := after.free
    have early := before.free
    rw [List.length_append]
    omega
  order := by rw [before.order, after.order, List.append_assoc]

theorem Allocated.take {news : List UInt32} {bitmap bitmap' : Bitmap} (allocated : Allocated news bitmap bitmap') :
    (freshSectors bitmap).take news.length = news := by
  rw [allocated.order, List.take_left]

theorem Allocated.marked {news : List UInt32} {bitmap bitmap' : Bitmap} (allocated : Allocated news bitmap bitmap')
    (size : bitmap.size = fsAllocTableBits) {x : UInt32} (marked : Marked bitmap x ∨ x ∈ news) : Marked bitmap' x := by
  rw [Marked, allocated.size, allocated.marks]
  rcases marked with old | new
  · exact ⟨size ▸ old.1, Or.inl old.2⟩
  · exact ⟨allocated.inside x new, Or.inr new⟩

theorem Allocated.not_mem {news : List UInt32} {bitmap bitmap' : Bitmap}
    (allocated : Allocated news bitmap bitmap') {s : UInt32} (marked : bitmap.bit s.toNat = true) : s ∉ news := by
  intro member
  rw [allocated.fresh s member] at marked
  cases marked

theorem fileAlloc_spec {fs : FileSystem} (size : fs.fileAllocBitmap.size = fsAllocTableBits)
    (free : 0 < freeSectors fs.fileAllocBitmap) :
    ∃ sector bitmap, fileAlloc fs = (sector, { fs with fileAllocBitmap := bitmap }) ∧
      Allocated [sector] fs.fileAllocBitmap bitmap := by
  obtain ⟨n, least⟩ := least_of_free free
  have inside : n < fsAllocTableBits := size ▸ least.1
  have whole : fs.fileAllocBitmap.size % 8 = 0 := by rw [size]; rfl
  have number : (UInt32.ofInt n).toNat = n := by
    have small : n < 2 ^ 32 := Nat.lt_trans inside (by decide)
    rw [UInt32.ofInt, UInt32.toNat_ofNat']
    omega
  refine ⟨UInt32.ofInt n, bitFree fs.fileAllocBitmap n true, ?_, ?_⟩
  · rw [fileAlloc, bitAlloc_least whole least]
    rfl
  · exact
      { size := size
        inside := by simpa [number] using inside
        fresh := by simpa [number] using least.2.1
        marks := by
          intro s
          have same : (s.toNat : Int) = n ↔ s = UInt32.ofInt n := by
            rw [Nat.cast_inj, ← UInt32.toNat_inj, number]
          rw [bitFree_bit, List.mem_singleton]
          split_ifs with here
          · simp [same.mp here]
          · simp [same.not.mp here]
        free := freeSectors_mark least.1 least.2.1
        order := by
          have same : UInt32.ofInt n = UInt32.ofNat n :=
            UInt32.toNat_inj.mp (number.trans (UInt32.toNat_ofNat_of_lt' (Nat.lt_trans inside (by decide))).symm)
          rw [same]
          exact freshSectors_least least }

def grownChain (bitmap : Bitmap) (chain : List UInt32) (size : Nat) : List UInt32 :=
  chain ++ (freshSectors bitmap).take (nthBlock size + 1 - chain.length)

theorem Allocated.grownChain {news chain : List UInt32} {bitmap bitmap' : Bitmap}
    (allocated : Allocated news bitmap bitmap') {size : Nat} (needed : news.length = nthBlock size + 1 - chain.length) :
    grownChain bitmap chain size = chain ++ news := by
  rw [WegOS.grownChain, ← needed, allocated.take]

/-- The chain got `news` at its end. What the sectors hold stays, and so does every sector
of another file. -/
structure Expanded (chain news : List UInt32) (fs fs' : FileSystem) : Prop where
  allocated : Allocated news fs.fileAllocBitmap fs'.fileAllocBitmap
  nodup : (chain ++ news).Nodup
  linked : Linked blockFormat fs'.disk (chain ++ news)
  frame : ∀ s, s ∉ chain ++ news → fs'.disk s = fs.disk s
  data : ∀ s, ∀ i < 508, (fs'.disk s).cell i = (fs.disk s).cell i

theorem Expanded.refl {fs : FileSystem} {chain : List UInt32} (size : fs.fileAllocBitmap.size = fsAllocTableBits)
    (linked : Linked blockFormat fs.disk chain) (nodup : chain.Nodup) : Expanded chain [] fs fs where
  allocated := Allocated.refl size
  nodup := by simpa using nodup
  linked := by simpa using linked
  frame _ _ := rfl
  data _ _ _ := rfl

theorem Expanded.trans {chain first second : List UInt32} {fs fs' fs'' : FileSystem}
    (before : Expanded chain first fs fs') (after : Expanded (chain ++ first) second fs' fs'') :
    Expanded chain (first ++ second) fs fs'' where
  allocated := before.allocated.trans after.allocated
  nodup := by
    rw [← List.append_assoc]
    exact after.nodup
  linked := by
    rw [← List.append_assoc]
    exact after.linked
  frame s outside := by
    rw [← List.append_assoc] at outside
    rw [after.frame s outside]
    exact before.frame s fun member => outside (List.mem_append_left _ member)
  data s i small := (after.data s i small).trans (before.data s i small)

theorem expand_one {fs : FileSystem} {init : List UInt32} {last new : UInt32} {bitmap : Bitmap}
    (linked : Linked blockFormat fs.disk (init ++ [last])) (nodup : (init ++ [last]).Nodup)
    (marked : ∀ s ∈ init ++ [last], fs.fileAllocBitmap.bit s.toNat = true)
    (allocated : Allocated [new] fs.fileAllocBitmap bitmap) {disk₁ : Disk}
    (joined : disk₁ = Function.update fs.disk last (withNextSector (fs.disk last) new)) :
    Expanded (init ++ [last]) [new] fs
      ⟨Function.update disk₁ new (withNextSector (disk₁ new) 0xFFFFFFFF), bitmap⟩ := by
  have notIn : new ∉ init ++ [last] := fun member => allocated.not_mem (marked new member) (by simp)
  have other : last ≠ new := by
    rintro rfl
    exact notIn (by simp)
  have linkOld : nextSector (Function.update disk₁ new (withNextSector (disk₁ new) 0xFFFFFFFF) last) = new := by
    rw [Function.update_of_ne other, joined, Function.update_self, nextSector_withNextSector]
  have away : ∀ s, s ≠ last → s ≠ new →
      Function.update disk₁ new (withNextSector (disk₁ new) 0xFFFFFFFF) s = fs.disk s := by
    intro s old young
    rw [Function.update_of_ne young, joined, Function.update_of_ne old]
  exact
    { allocated := allocated
      nodup := List.nodup_append.mpr ⟨nodup, by simp, by
        rintro s member t young rfl
        exact notIn (List.mem_singleton.mp young ▸ member)⟩
      linked := by
        apply linked.concat linkOld
        intro s member
        have old : s ≠ last := fun equal =>
          (List.nodup_append.mp nodup).2.2 s member last (by simp) equal
        have young : s ≠ new := by
          rintro rfl
          exact notIn (List.mem_append_left _ member)
        rw [away s old young]
      frame := by
        intro s outside
        apply away
        · rintro rfl
          exact outside (by simp)
        · rintro rfl
          exact outside (by simp)
      data := by
        intro s i small
        by_cases young : s = new
        · subst young
          simp only [Function.update_self]
          rw [withNextSector_cell _ _ small, joined, Function.update_of_ne (Ne.symm other)]
        · simp only [Function.update_of_ne young]
          rw [joined]
          by_cases old : s = last
          · rw [old, Function.update_self, withNextSector_cell _ _ small]
          · rw [Function.update_of_ne old] }

/-- The loop of `file_expand` gives a file as many new sectors as it asks for. -/
theorem expandFrom_spec {need : Nat} (fs : FileSystem) (file : FileT) {chain : List UInt32}
    (size : fs.fileAllocBitmap.size = fsAllocTableBits) (free : need ≤ freeSectors fs.fileAllocBitmap)
    (linked : Linked blockFormat fs.disk chain) (nodup : chain.Nodup)
    (last : chain.getLast? = some file.lastSector)
    (marked : ∀ s ∈ chain, fs.fileAllocBitmap.bit s.toNat = true) :
    ∃ fs' news last', expandFrom need fs file = (fs', { file with lastSector := last' }) ∧
      news.length = need ∧ (chain ++ news).getLast? = some last' ∧ Expanded chain news fs fs' := by
  induction need generalizing fs file chain with
  | zero =>
      exact ⟨fs, [], file.lastSector, rfl, rfl, by simpa using last, Expanded.refl size linked nodup⟩
  | succ need ih =>
      obtain ⟨new, bitmap, alloc, allocated⟩ := fileAlloc_spec size (by omega)
      obtain ⟨init, rfl⟩ := List.getLast?_eq_some_iff.mp last
      let disk := Function.update fs.disk file.lastSector (withNextSector (fs.disk file.lastSector) new)
      let fs₁ : FileSystem := ⟨Function.update disk new (withNextSector (disk new) 0xFFFFFFFF), bitmap⟩
      have one : Expanded _ [new] fs fs₁ := expand_one linked nodup marked allocated rfl
      have left : need ≤ freeSectors bitmap := by
        have total := allocated.free
        rw [List.length_singleton] at total
        omega
      obtain ⟨fs', news, last', result, length, final, more⟩ :=
        ih fs₁ { file with lastSector := new } allocated.size left one.linked one.nodup (by simp) (by
          intro s member
          rw [allocated.marks]
          rcases List.mem_append.mp member with old | here
          · exact Or.inl (marked s old)
          · exact Or.inr here)
      refine ⟨fs', new :: news, last', ?_, by rw [List.length_cons, length], ?_, one.trans more⟩
      · rw [expandFrom, alloc]
        exact result
      · rw [← final, List.append_assoc (init ++ [file.lastSector])]
        rfl

theorem expandFrom_fileSize (need : Nat) (fs : FileSystem) (file : FileT) :
    (expandFrom need fs file).2.fileSize = file.fileSize := by
  induction need generalizing fs file with
  | zero => rfl
  | succ need ih => exact ih _ _

end WegOS
