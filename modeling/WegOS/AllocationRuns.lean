import WegOS.BitAllocation
import WegOS.Lib.Transition

/-! No index of a bitmap is handed out while it is held. -/

namespace WegOS

open Transition

/-! ## The two operations -/

structure SetsBit (before after : Bitmap) (index : Int) (value : Bool) : Prop where
  size : after.size = before.size
  bit : ∀ n : Int, after.bit n = if n = index then value else before.bit n

theorem bitFree_sets (bitmap : Bitmap) (index : Int) (value : Bool) :
    SetsBit bitmap (bitFree bitmap index value) index value :=
  ⟨rfl, bitFree_bit bitmap index value⟩

/-- The least index that reads `want` is handed out and flipped, if there is one. -/
structure Allocates (bitmap : Bitmap) (want : Bool) (result : Int × Bitmap) : Prop where
  least_or_unchanged : (∃ n : Nat, bitmap.Least want n ∧ result.1 = n ∧
    SetsBit bitmap result.2 n !want) ∨ result = (-1, bitmap)
  full_iff : result.1 = -1 ↔ ∀ n < bitmap.size, bitmap.bit (n : Nat) ≠ want

theorem bitAlloc_allocates {bitmap : Bitmap} (whole : bitmap.size % 8 = 0) (want : Bool) :
    Allocates bitmap want (bitAlloc bitmap want) := by
  rcases bitmap.least_or_full want with ⟨n, least⟩ | full
  · rw [bitAlloc_least whole least]
    refine ⟨Or.inl ⟨n, least, rfl, bitFree_sets bitmap n !want⟩, ?_⟩
    constructor
    · intro none
      exact absurd none (by omega)
    · intro missing
      exact absurd least.2.1 (missing n least.1)
  · rw [bitAlloc_full full]
    refine ⟨Or.inr rfl, iff_of_true rfl fun n bound equal => ?_⟩
    have value := full n bound
    rw [equal] at value
    cases want <;> simp at value

/-! ## Runs -/

structure Allocation where
  bitmap : Bitmap
  held : List Nat

inductive AllocEvent
  | alloc
  | free (index : Nat)

def allocStep (s : Allocation) : AllocEvent → Option Allocation
  | .alloc =>
      let (index, bitmap) := bitAlloc s.bitmap false
      some ⟨bitmap, if index = -1 then s.held else index.toNat :: s.held⟩
  | .free index =>
      if index ∈ s.held then some ⟨bitFree s.bitmap index false, s.held.erase index⟩ else none

def AllocStep (s : Allocation) (event : AllocEvent) (t : Allocation) : Prop :=
  allocStep s event = some t

structure Allocation.Sound (s : Allocation) : Prop where
  whole : s.bitmap.size % 8 = 0
  marked : ∀ index ∈ s.held, s.bitmap.bit (index : Nat) = true
  once : s.held.Nodup

theorem Allocation.Sound.fresh {s : Allocation} (sound : s.Sound) {n : Nat}
    (result : (bitAlloc s.bitmap false).1 = n) : n ∉ s.held := by
  intro member
  rcases (bitAlloc_allocates sound.whole false).least_or_unchanged with ⟨m, least, value, _⟩ | full
  · obtain rfl : m = n := by omega
    have clear := least.2.1
    rw [sound.marked m member] at clear
    cases clear
  · rw [full] at result
    exact absurd result (by omega)

theorem Allocation.Sound.step {s t : Allocation} {event : AllocEvent} (sound : s.Sound)
    (step : AllocStep s event t) : t.Sound := by
  cases event with
  | alloc =>
      have next : t = ⟨(bitAlloc s.bitmap false).2, if (bitAlloc s.bitmap false).1 = -1 then s.held
          else (bitAlloc s.bitmap false).1.toNat :: s.held⟩ := (Option.some.inj step).symm
      rcases (bitAlloc_allocates sound.whole false).least_or_unchanged with
        ⟨n, least, value, sets⟩ | full
      · have handed : (bitAlloc s.bitmap false).1 ≠ -1 := by omega
        have same : (bitAlloc s.bitmap false).1.toNat = n := by omega
        rw [next, if_neg handed, same]
        refine ⟨sets.size ▸ sound.whole, ?_, List.nodup_cons.mpr ⟨sound.fresh value, sound.once⟩⟩
        intro index member
        rw [sets.bit]
        rcases List.mem_cons.mp member with rfl | before
        · rw [if_pos rfl]
          rfl
        · split_ifs
          · rfl
          · exact sound.marked index before
      · rw [next, full, if_pos rfl]
        exact sound
  | free index =>
      simp only [AllocStep, allocStep] at step
      split_ifs at step
      obtain rfl := Option.some.inj step
      refine ⟨sound.whole, ?_, sound.once.erase index⟩
      intro other member
      obtain ⟨different, before⟩ := (sound.once.mem_erase_iff).mp member
      rw [bitFree_bit, if_neg (by omega)]
      exact sound.marked other before

/-- `bit_alloc` hands out and flips the least index that reads `want`, and changes nothing
and returns -1 exactly if there is none; `bit_free` sets just its bit. In every run of the
two no index is handed out while it is held. -/
theorem bit_allocation_exact {bitmap : Bitmap} (whole : bitmap.size % 8 = 0) :
    (∀ want, Allocates bitmap want (bitAlloc bitmap want)) ∧
      (∀ index < bitmap.size, ∀ value,
        SetsBit bitmap (bitFree bitmap (index : Nat) value) index value) ∧
      ∀ events t, Run AllocStep ⟨bitmap, []⟩ events t →
        t.held.Nodup ∧ ∀ n : Nat, (bitAlloc t.bitmap false).1 = n → n ∉ t.held := by
  refine ⟨bitAlloc_allocates whole, fun index _ => bitFree_sets bitmap index, ?_⟩
  intro events t run
  have start : Allocation.Sound ⟨bitmap, []⟩ := ⟨whole, by simp, List.nodup_nil⟩
  have sound : t.Sound := run.invariant start fun _ _ _ before step => before.step step
  exact ⟨sound.once, fun n result => sound.fresh result⟩

def sampleFrames : Bitmap := ⟨fun i => if i = 0 then 0xFF else 0, 64⟩

/-- The frames below 8 are taken; 8 is handed out, given back and handed out again. -/
theorem bit_allocation_exact_frames :
    ∃ t, Run AllocStep ⟨sampleFrames, []⟩ [.alloc, .free 8, .alloc] t ∧ t.held = [8] ∧
      ∀ n : Nat, (bitAlloc t.bitmap false).1 = n → n ∉ t.held := by
  have ends : ([.alloc, .free 8, .alloc].foldlM allocStep ⟨sampleFrames, []⟩).map
      Allocation.held = some [8] := by decide +kernel
  obtain ⟨t, result, held⟩ := Option.map_eq_some_iff.mp ends
  have run := Run.of_foldlM result
  exact ⟨t, run, held, ((bit_allocation_exact (by decide)).2.2 _ t run).2⟩

end WegOS
