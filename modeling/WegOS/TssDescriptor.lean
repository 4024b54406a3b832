import WegOS.Bit
import WegOS.Task

/-! The descriptor of a task in the GDT, as the processor reads it. -/

namespace WegOS

def gdtTypeStart : UInt8 := 8
def gdtTypeEnd : UInt8 := 12
def gdtSStart : UInt8 := 12
def gdtSEnd : UInt8 := 13

def isTss (type : UInt32) : Bool := type == 0b1001 || type == 0b1011

def isATssDescriptor (desc : GdtDesc) : Bool :=
  testbits desc.high gdtSStart gdtSEnd == 0 && isTss (testbits desc.high gdtTypeStart gdtTypeEnd)

/-! ## The layout of a descriptor -/

namespace GdtDesc

def base (desc : GdtDesc) : Nat :=
  desc.low.toNat / 2 ^ 16 + desc.high.toNat % 2 ^ 8 * 2 ^ 16 + desc.high.toNat / 2 ^ 24 * 2 ^ 24

def limit (desc : GdtDesc) : Nat := desc.low.toNat % 2 ^ 16 + desc.high.toNat / 2 ^ 16 % 2 ^ 4 * 2 ^ 16

def type (desc : GdtDesc) : Nat := desc.high.toNat / 2 ^ 8 % 2 ^ 4

def system (desc : GdtDesc) : Nat := desc.high.toNat / 2 ^ 12 % 2

def dpl (desc : GdtDesc) : Nat := desc.high.toNat / 2 ^ 13 % 2 ^ 2

def present (desc : GdtDesc) : Nat := desc.high.toNat / 2 ^ 15 % 2

end GdtDesc

structure DescribesTss (desc : GdtDesc) (baseAddr : UInt32) (dpl : UInt8) : Prop where
  base : desc.base = baseAddr.toNat
  limit : desc.limit = 0xFFFFF
  system : desc.system = 0
  type : desc.type = 9
  present : desc.present = 1
  dpl : desc.dpl = dpl.toNat
  accepted : isATssDescriptor desc = true

theorem isATssDescriptor_iff (desc : GdtDesc) :
    isATssDescriptor desc = true ↔ desc.system = 0 ∧ (desc.type = 9 ∨ desc.type = 11) := by
  have system : (testbits desc.high gdtSStart gdtSEnd).toNat = desc.system :=
    testbits_toNat desc.high (by decide) (by decide) (by decide)
  have type : (testbits desc.high gdtTypeStart gdtTypeEnd).toNat = desc.type :=
    testbits_toNat desc.high (by decide) (by decide) (by decide)
  rw [isATssDescriptor, isTss, Bool.and_eq_true, Bool.or_eq_true, beq_iff_eq, beq_iff_eq, beq_iff_eq,
    ← UInt32.toNat_inj, ← UInt32.toNat_inj, ← UInt32.toNat_inj, system, type]
  rfl

/-! ## What `make_gdt_desc_for_tss` writes -/

theorem and_mask (n low width : Nat) : n &&& (2 ^ width - 1) <<< low = (n / 2 ^ low % 2 ^ width) <<< low := by
  rw [← Nat.and_two_pow_sub_one_eq_mod, ← Nat.shiftRight_eq_div_pow, Nat.shiftLeft_and_distrib]
  apply Nat.eq_of_testBit_eq
  intro i
  simp only [Nat.testBit_and, Nat.testBit_shiftLeft, Nat.testBit_shiftRight]
  by_cases above : low ≤ i
  · simp [above, Nat.add_sub_cancel' above]
  · simp [above]

theorem makeGdtDescForTss_low (baseAddr : UInt32) (dpl : UInt8) :
    (makeGdtDescForTss baseAddr dpl).low.toNat = baseAddr.toNat % 2 ^ 16 * 2 ^ 16 + 0xFFFF := by
  have masked : (baseAddr &&& 0xFFFF).toNat = baseAddr.toNat % 2 ^ 16 :=
    (UInt32.toNat_and ..).trans (Nat.and_two_pow_sub_one_eq_mod _ 16)
  have shifted : ((baseAddr &&& 0xFFFF) <<< 16).toNat = (baseAddr.toNat % 2 ^ 16) <<< 16 := by
    rw [UInt32.toNat_shiftLeft, masked]
    apply Nat.mod_eq_of_lt
    rw [Nat.shiftLeft_eq]
    change baseAddr.toNat % 2 ^ 16 * 2 ^ 16 < _
    omega
  simp only [makeGdtDescForTss]
  rw [UInt32.toNat_or, shifted, ← Nat.shiftLeft_eq]
  exact (Nat.shiftLeft_add_eq_or_of_lt (show 0xFFFF < 2 ^ 16 by decide) _).symm

/-- The DPL goes to bits 12 and 13. -/
theorem makeGdtDescForTss_high (baseAddr : UInt32) {dpl : UInt8} (level : dpl.toNat < 4) :
    (makeGdtDescForTss baseAddr dpl).high.toNat =
      baseAddr.toNat / 2 ^ 24 * 2 ^ 24 + (0xF8900 + dpl.toNat * 2 ^ 12) + baseAddr.toNat / 2 ^ 16 % 2 ^ 8 := by
  have bound := baseAddr.toNat_lt
  have top : (baseAddr &&& 0xFF000000).toNat = (baseAddr.toNat / 2 ^ 24) <<< 24 := by
    calc
      _ = baseAddr.toNat &&& (2 ^ 8 - 1) <<< 24 := UInt32.toNat_and ..
      _ = (baseAddr.toNat / 2 ^ 24 % 2 ^ 8) <<< 24 := and_mask _ 24 8
      _ = (baseAddr.toNat / 2 ^ 24) <<< 24 := by rw [Nat.mod_eq_of_lt (by omega)]
  have middle : ((baseAddr &&& 0xFF0000) >>> 16).toNat = baseAddr.toNat / 2 ^ 16 % 2 ^ 8 := by
    calc
      _ = (baseAddr.toNat &&& (2 ^ 8 - 1) <<< 16) >>> 16 := by
        rw [UInt32.toNat_shiftRight, UInt32.toNat_and]
        rfl
      _ = (baseAddr.toNat / 2 ^ 16 % 2 ^ 8) <<< 16 >>> 16 := by rw [and_mask]
      _ = baseAddr.toNat / 2 ^ 16 % 2 ^ 8 := Nat.shiftLeft_shiftRight ..
  have flags : ((0xF8900 : UInt32) ||| dpl.toUInt32 <<< 12).toNat = (0xF89 + dpl.toNat * 2 ^ 4) <<< 8 := by
    have small : dpl.toUInt32 = UInt32.ofNat dpl.toNat := by
      apply UInt32.toNat_inj.mp
      rw [UInt8.toNat_toUInt32, UInt32.toNat_ofNat']
      omega
    rw [small]
    generalize dpl.toNat = level at *
    have each : ∀ n < 4, ((0xF8900 : UInt32) ||| UInt32.ofNat n <<< 12).toNat = (0xF89 + n * 2 ^ 4) <<< 8 := by
      decide
    exact each _ level
  have order : (makeGdtDescForTss baseAddr dpl).high = (baseAddr &&& (0xFF000000 : UInt32)) |||
      (((0xF8900 : UInt32) ||| dpl.toUInt32 <<< 12) ||| (baseAddr &&& 0xFF0000) >>> 16) := by
    simp only [makeGdtDescForTss]
    rw [UInt32.or_assoc, UInt32.or_assoc, UInt32.or_assoc, UInt32.or_comm (_ >>> (16 : UInt32))]
  rw [order, UInt32.toNat_or, UInt32.toNat_or, top, flags, middle,
    ← Nat.shiftLeft_add_eq_or_of_lt (Nat.mod_lt _ (by decide)), ← Nat.shiftLeft_add_eq_or_of_lt,
    Nat.shiftLeft_eq, Nat.shiftLeft_eq]
  · omega
  · rw [Nat.shiftLeft_eq]
    omega

/-- The DPL ends one bit too low: it is read back exactly if it is 0. -/
theorem describesTss_iff (baseAddr : UInt32) {dpl : UInt8} (level : dpl.toNat < 4) :
    DescribesTss (makeGdtDescForTss baseAddr dpl) baseAddr dpl ↔ dpl = 0 := by
  have low := makeGdtDescForTss_low baseAddr dpl
  have high := makeGdtDescForTss_high baseAddr level
  have bound := baseAddr.toNat_lt
  constructor
  · intro describes
    have system := describes.system
    have own := describes.dpl
    simp only [GdtDesc.system, GdtDesc.dpl, high] at system own
    apply UInt8.toNat_inj.mp
    rw [UInt8.toNat_zero]
    omega
  · rintro rfl
    rw [UInt8.toNat_zero] at high
    constructor
    · simp only [GdtDesc.base, low, high]
      omega
    · simp only [GdtDesc.limit, low, high]
      omega
    · simp only [GdtDesc.system, high]
      omega
    · simp only [GdtDesc.type, high]
      omega
    · simp only [GdtDesc.present, high]
      omega
    · simp only [GdtDesc.dpl, high, UInt8.toNat_zero]
      omega
    · rw [isATssDescriptor_iff]
      simp only [GdtDesc.system, GdtDesc.type, high]
      omega

theorem makeGdtDescForTss_injective {baseAddr baseAddr' : UInt32} {dpl dpl' : UInt8} (level : dpl.toNat < 4)
    (level' : dpl'.toNat < 4) (same : makeGdtDescForTss baseAddr dpl = makeGdtDescForTss baseAddr' dpl') :
    baseAddr = baseAddr' ∧ dpl = dpl' := by
  have lows := congrArg (fun desc : GdtDesc => desc.low.toNat) same
  have highs := congrArg (fun desc : GdtDesc => desc.high.toNat) same
  simp only [makeGdtDescForTss_low] at lows
  simp only [makeGdtDescForTss_high _ level, makeGdtDescForTss_high _ level'] at highs
  constructor
  · apply UInt32.toNat_inj.mp
    omega
  · apply UInt8.toNat_inj.mp
    omega

/-- Of the four levels only that of the kernel comes through, and no two of all the
descriptors are the same. -/
theorem tss_descriptor_iff (baseAddr : UInt32) (dpl : UInt8) (level : dpl.toNat < 4) :
    (DescribesTss (makeGdtDescForTss baseAddr dpl) baseAddr dpl ∧
      ∀ (baseAddr' : UInt32) (dpl' : UInt8), dpl'.toNat < 4 →
        makeGdtDescForTss baseAddr' dpl' = makeGdtDescForTss baseAddr dpl → baseAddr' = baseAddr ∧ dpl' = dpl) ↔
      dpl = dplKernel := by
  constructor
  · intro both
    exact (describesTss_iff baseAddr level).mp both.1
  · intro kernel
    exact ⟨(describesTss_iff baseAddr level).mpr kernel,
      fun baseAddr' dpl' level' same => makeGdtDescForTss_injective level' level same⟩

theorem tss_descriptor_kernel : DescribesTss (makeGdtDescForTss 0x123456 0) 0x123456 0 :=
  ((tss_descriptor_iff 0x123456 0 (by decide)).mpr rfl).1

/-- With the level of a user task, the descriptor is not that of a task at all. -/
theorem tss_descriptor_user : (makeGdtDescForTss 0 3).system = 1 ∧ (makeGdtDescForTss 0 3).dpl = 1 ∧
    isATssDescriptor (makeGdtDescForTss 0 3) = false ∧ ¬DescribesTss (makeGdtDescForTss 0 3) 0 3 :=
  ⟨by decide, by decide, by decide, fun describes => absurd describes.system (by decide)⟩

end WegOS
