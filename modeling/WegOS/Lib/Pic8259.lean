import Mathlib.Tactic

/-! Two 8259 interrupt controllers, the second on line 2 of the first, in fully nested mode. -/

namespace Pic8259

/-- What the next byte for the data port is: one of three words of the initialisation, or the mask. -/
inductive Stage
  | base | wiring | mode | ready
  deriving DecidableEq

structure Chip where
  stage : Stage
  alone : Bool
  wantsMode : Bool
  base : BitVec 8
  wiring : BitVec 8
  auto : Bool
  masked : BitVec 8
  requested : BitVec 8
  serving : BitVec 8
  deriving DecidableEq

def first (lines : BitVec 8) : Option (Fin 8) := (List.finRange 8).find? fun line => lines.getLsbD line

def bit (line : Fin 8) : BitVec 8 := BitVec.twoPow 8 line

namespace Chip

def endOfInterrupt (c : Chip) : Chip :=
  match first c.serving with
  | none => c
  | some line => { c with serving := c.serving &&& ~~~bit line }

/-- A byte for the command port: ICW1, or the end of an interrupt. The other commands are left out. -/
def command (c : Chip) (value : BitVec 8) : Chip :=
  if value.getLsbD 4 then
    { c with stage := .base, alone := value.getLsbD 1, wantsMode := value.getLsbD 0, auto := false, masked := 0,
             requested := 0, serving := 0 }
  else if value &&& 0xF8 = 0x20 then c.endOfInterrupt
  else c

def afterWiring (c : Chip) : Stage := if c.wantsMode then .mode else .ready

def data (c : Chip) (value : BitVec 8) : Chip :=
  match c.stage with
  | .base => { c with base := value &&& 0xF8, stage := if c.alone then c.afterWiring else .wiring }
  | .wiring => { c with wiring := value, stage := c.afterWiring }
  | .mode => { c with auto := value.getLsbD 1, stage := .ready }
  | .ready => { c with masked := value }

def raise (c : Chip) (line : Fin 8) : Chip := { c with requested := c.requested ||| bit line }

def next (c : Chip) (requests : BitVec 8) : Option (Fin 8) :=
  if c.stage = .ready then
    (first (requests &&& ~~~c.masked)).filter fun line => (first c.serving).all (line < ·)
  else none

def accept (c : Chip) (line : Fin 8) : Chip :=
  { c with requested := c.requested &&& ~~~bit line, serving := if c.auto then c.serving else c.serving ||| bit line }

end Chip

structure Pics where
  master : Chip
  slave : Chip
  deriving DecidableEq

abbrev irq (n : Nat) : Fin 16 := Fin.ofNat 16 n

def ownLine (line : Fin 16) : Fin 8 := ⟨line.val % 8, Nat.mod_lt _ (by decide)⟩

namespace Pics

def raise (p : Pics) (line : Fin 16) : Pics :=
  if line = 2 then p
  else if line.val < 8 then { p with master := p.master.raise (ownLine line) }
  else { p with slave := p.slave.raise (ownLine line) }

/-- What the first controller sees: the second one's output is its line 2. -/
def requests (p : Pics) : BitVec 8 :=
  if (p.slave.next p.slave.requested).isSome then p.master.requested ||| bit 2 else p.master.requested

/-- The processor takes an interrupt: its vector, from the controller that has the line. -/
def acknowledge (p : Pics) : Option (BitVec 8 × Pics) :=
  match p.master.next p.requests with
  | none => none
  | some line =>
      if p.master.wiring.getLsbD line ∧ p.slave.wiring = line.val then
        match p.slave.next p.slave.requested with
        | none => none
        | some inner => some (p.slave.base + inner.val, ⟨p.master.accept line, p.slave.accept inner⟩)
      else some (p.master.base + line.val, { p with master := p.master.accept line })

def outb (p : Pics) (port : UInt16) (value : UInt8) : Pics :=
  if port = 0x20 then { p with master := p.master.command value.toBitVec }
  else if port = 0x21 then { p with master := p.master.data value.toBitVec }
  else if port = 0xA0 then { p with slave := p.slave.command value.toBitVec }
  else if port = 0xA1 then { p with slave := p.slave.data value.toBitVec }
  else p

def inb (p : Pics) (port : UInt16) : UInt8 :=
  if port = 0x21 then UInt8.ofBitVec p.master.masked
  else if port = 0xA1 then UInt8.ofBitVec p.slave.masked
  else 0

end Pics

/-! ## One controller -/

section Chips

variable {c : Chip}

/-- The five bytes that set a controller up, whatever state it was in. -/
theorem Chip.initialised (c : Chip) (base wiring mask : BitVec 8) :
    (((((c.command 0x11).data base).data wiring).data 0x01).data mask) =
      { stage := .ready, alone := false, wantsMode := true, base := base &&& 0xF8, wiring := wiring, auto := false,
        masked := mask, requested := 0, serving := 0 } := rfl

theorem Chip.data_ready (ready : c.stage = .ready) (value : BitVec 8) : c.data value = { c with masked := value } := by
  obtain ⟨stage, alone, wantsMode, base, wiring, auto, masked, requested, serving⟩ := c
  obtain rfl : stage = .ready := ready
  rfl

theorem first_none : ∀ lines : BitVec 8, first lines = none ↔ lines = 0 := by decide +kernel

theorem first_bit : ∀ line : Fin 8, first (bit line) = some line := by decide +kernel

theorem Chip.next_free (ready : c.stage = .ready) (free : c.serving = 0) (requests : BitVec 8) :
    c.next requests = first (requests &&& ~~~c.masked) := by
  have nothing : first c.serving = none := (first_none _).mpr free
  rw [Chip.next, if_pos ready, nothing]
  cases first (requests &&& ~~~c.masked) <;> rfl

theorem Chip.accept_ended (free : c.serving = 0) (manual : c.auto = false) (line : Fin 8) :
    (c.accept line).command 0x20 = { c with requested := c.requested &&& ~~~bit line } := by
  have serving : (c.accept line).serving = bit line := by simp [Chip.accept, manual, free]
  have ended : (c.accept line).command 0x20 = (c.accept line).endOfInterrupt := by
    rw [Chip.command, if_neg (by decide), if_pos (by decide)]
  have cleared : bit line &&& ~~~bit line = 0 := BitVec.and_not_self _
  rw [ended, Chip.endOfInterrupt, serving, first_bit]
  simp only [cleared]
  rw [← free]
  rfl

end Chips

/-! ## The pair -/

/-- Both controllers are set up, the second on line 2, and serve nothing. -/
structure Pics.Free (p : Pics) : Prop where
  master : p.master.stage = .ready ∧ p.master.serving = 0 ∧ p.master.auto = false
  slave : p.slave.stage = .ready ∧ p.slave.serving = 0 ∧ p.slave.auto = false
  wiring : p.master.wiring = bit 2 ∧ p.slave.wiring = 2
  quiet : p.master.requested.getLsbD 2 = false

section Pairs

variable {p : Pics}

theorem Pics.Free.requests_eq (free : p.Free) : p.requests =
    if p.slave.requested &&& ~~~p.slave.masked = 0 then p.master.requested else p.master.requested ||| bit 2 := by
  rw [Pics.requests, Chip.next_free free.slave.1 free.slave.2.1]
  by_cases nothing : p.slave.requested &&& ~~~p.slave.masked = 0
  · rw [if_pos nothing, (first_none _).mpr nothing]
    rfl
  · rw [if_neg nothing, if_pos]
    rw [Option.isSome_iff_ne_none, ne_eq, first_none]
    exact nothing

theorem Pics.Free.acknowledge_eq (free : p.Free) : p.acknowledge =
    (first (p.requests &&& ~~~p.master.masked)).bind fun line =>
      if line = 2 then
        (first (p.slave.requested &&& ~~~p.slave.masked)).map fun inner =>
          (p.slave.base + inner.val, ⟨p.master.accept line, p.slave.accept inner⟩)
      else some (p.master.base + line.val, { p with master := p.master.accept line }) := by
  rw [Pics.acknowledge, Chip.next_free free.master.1 free.master.2.1]
  cases first (p.requests &&& ~~~p.master.masked) with
  | none => rfl
  | some line =>
      have cascade : (p.master.wiring.getLsbD line ∧ p.slave.wiring = line.val) ↔ line = 2 := by
        rw [free.wiring.1, free.wiring.2]
        revert line
        decide
      simp only [cascade, Option.bind_some]
      split_ifs with second
      · rw [Chip.next_free free.slave.1 free.slave.2.1]
        cases first (p.slave.requested &&& ~~~p.slave.masked) <;> rfl
      · rfl

end Pairs

/-! ## Sixteen lines in one order -/

/-- What the pair amounts to, as long as nothing is being served. -/
structure Lines where
  requested : Fin 16 → Bool
  masked : Fin 16 → Bool

namespace Lines

def order : List (Fin 16) := [0, 1, 8, 9, 10, 11, 12, 13, 14, 15, 3, 4, 5, 6, 7]

/-- Nothing of the second controller comes through where line 2 is masked. -/
def due (l : Lines) (line : Fin 16) : Bool :=
  l.requested line && !l.masked line && (decide (line.val < 8) || !l.masked 2)

def pick (l : Lines) : Option (Fin 16) := order.find? l.due

def raise (l : Lines) (line : Fin 16) : Lines :=
  if line = 2 then l else { l with requested := Function.update l.requested line true }

def drop (l : Lines) (line : Fin 16) : Lines := { l with requested := Function.update l.requested line false }

def mask (l : Lines) (line : Fin 16) (off : Bool) : Lines := { l with masked := Function.update l.masked line off }

end Lines

def both (master slave : BitVec 8) (line : Fin 16) : Bool :=
  (if line.val < 8 then master else slave).getLsbD (ownLine line)

def lower (i : Fin 8) : Fin 16 := ⟨i.val, by omega⟩

def upper (i : Fin 8) : Fin 16 := ⟨8 + i.val, by omega⟩

namespace Pics

def chip (p : Pics) (line : Fin 16) : Chip := if line.val < 8 then p.master else p.slave

def lines (p : Pics) : Lines :=
  ⟨both p.master.requested p.slave.requested, both p.master.masked p.slave.masked⟩

def vector (p : Pics) (line : Fin 16) : BitVec 8 := (p.chip line).base + (ownLine line).val

def accept (p : Pics) (line : Fin 16) : Pics :=
  if line.val < 8 then { p with master := p.master.accept (ownLine line) }
  else ⟨p.master.accept 2, p.slave.accept (ownLine line)⟩

end Pics

section Order

variable {p : Pics}

theorem first_parts (b : BitVec 8) : first b =
    ([0, 1].find? fun i : Fin 8 => b.getLsbD i).or
      ((if b.getLsbD 2 then some 2 else none).or
        ([3, 4, 5, 6, 7].find? fun i : Fin 8 => b.getLsbD i)) := by
  revert b
  decide +kernel

theorem Lines.pick_parts (l : Lines) : l.pick =
    (([0, 1].find? fun i => l.due (lower i)).map lower).or
      ((((List.finRange 8).find? fun i => l.due (upper i)).map upper).or
        (([3, 4, 5, 6, 7].find? fun i => l.due (lower i)).map lower)) := by
  have parts : Lines.order =
      ([0, 1] : List (Fin 8)).map lower ++
        ((List.finRange 8).map upper ++ ([3, 4, 5, 6, 7] : List (Fin 8)).map lower) := rfl
  rw [Lines.pick, parts, List.find?_append, List.find?_append, List.find?_map, List.find?_map, List.find?_map]
  rfl

theorem unmasked_bit (requested masked : BitVec 8) (i : Fin 8) :
    (requested &&& ~~~masked).getLsbD i = (requested.getLsbD i && !masked.getLsbD i) := by
  rw [BitVec.getLsbD_and, BitVec.getLsbD_not, decide_eq_true i.isLt, Bool.true_and]

theorem both_lower (master slave : BitVec 8) (i : Fin 8) : both master slave (lower i) = master.getLsbD i := by
  have same : ownLine (lower i) = i := Fin.ext (Nat.mod_eq_of_lt i.isLt)
  have below : (lower i).val < 8 := i.isLt
  rw [both, if_pos below, same]

theorem both_upper (master slave : BitVec 8) (i : Fin 8) : both master slave (upper i) = slave.getLsbD i := by
  have same : ownLine (upper i) = i := Fin.ext (by simp [ownLine, upper])
  have above : ¬(upper i).val < 8 := by simp [upper]
  rw [both, if_neg above, same]

theorem Pics.due_lower (p : Pics) (i : Fin 8) :
    p.lines.due (lower i) = (p.master.requested &&& ~~~p.master.masked).getLsbD i := by
  have below : (lower i).val < 8 := i.isLt
  simp only [Lines.due, Pics.lines, both_lower, unmasked_bit, below, decide_true, Bool.true_or, Bool.and_true]

theorem Pics.due_upper (p : Pics) (i : Fin 8) : p.lines.due (upper i) =
    ((p.slave.requested &&& ~~~p.slave.masked).getLsbD i && !p.master.masked.getLsbD 2) := by
  have above : ¬(upper i).val < 8 := by simp [upper]
  simp only [Lines.due, Pics.lines, both_upper, unmasked_bit, above, decide_false, Bool.false_or]
  rfl

theorem Pics.serves_lower (p : Pics) (i : Fin 8) :
    (p.vector (lower i), p.accept (lower i)) = (p.master.base + i.val, { p with master := p.master.accept i }) := by
  have same : ownLine (lower i) = i := Fin.ext (Nat.mod_eq_of_lt i.isLt)
  have below : (lower i).val < 8 := i.isLt
  rw [Pics.vector, Pics.accept, Pics.chip, if_pos below, if_pos below, same]

theorem Pics.serves_upper (p : Pics) (i : Fin 8) : (p.vector (upper i), p.accept (upper i)) =
    (p.slave.base + i.val, ⟨p.master.accept 2, p.slave.accept i⟩) := by
  have same : ownLine (upper i) = i := Fin.ext (by simp [ownLine, upper])
  have above : ¬(upper i).val < 8 := by simp [upper]
  rw [Pics.vector, Pics.accept, Pics.chip, if_neg above, if_neg above, same]

theorem Pics.Free.unmasked_own (free : p.Free) {i : Fin 8} (other : i ≠ 2) :
    (p.requests &&& ~~~p.master.masked).getLsbD i = (p.master.requested &&& ~~~p.master.masked).getLsbD i := by
  have apart : (bit 2).getLsbD i = false := by
    revert i
    decide
  rw [free.requests_eq, unmasked_bit, unmasked_bit]
  split_ifs
  · rfl
  · rw [BitVec.getLsbD_or, apart, Bool.or_false]

theorem Pics.Free.unmasked_cascade (free : p.Free) : (p.requests &&& ~~~p.master.masked).getLsbD 2 =
    ((first (p.slave.requested &&& ~~~p.slave.masked)).isSome && !p.master.masked.getLsbD 2) := by
  have here : (p.requests &&& ~~~p.master.masked).getLsbD 2 = (p.requests.getLsbD 2 && !p.master.masked.getLsbD 2) :=
    unmasked_bit p.requests p.master.masked 2
  rw [here, free.requests_eq]
  split_ifs with nothing
  · rw [free.quiet, (first_none _).mpr nothing]
    rfl
  · have second : (bit 2).getLsbD 2 = true := rfl
    have some := Option.isSome_iff_ne_none.mpr fun none => nothing ((first_none _).mp none)
    rw [BitVec.getLsbD_or, second, Bool.or_true, some]

/-- A free pair serves its lines in one order. -/
theorem Pics.Free.acknowledge_lines (free : p.Free) :
    p.acknowledge = p.lines.pick.map fun line => (p.vector line, p.accept line) := by
  have own : ∀ is : List (Fin 8), 2 ∉ is →
      (is.find? fun i : Fin 8 => (p.requests &&& ~~~p.master.masked).getLsbD i) =
        is.find? fun i : Fin 8 => (p.master.requested &&& ~~~p.master.masked).getLsbD i := by
    intro is absent
    apply List.find?_congr
    intro i member
    apply free.unmasked_own
    rintro rfl
    exact absent member
  have ours : ∀ i : Fin 8, i ≠ 2 → (if i = 2 then
      (first (p.slave.requested &&& ~~~p.slave.masked)).map fun inner =>
        (p.slave.base + inner.val, (⟨p.master.accept i, p.slave.accept inner⟩ : Pics))
      else some (p.master.base + i.val, { p with master := p.master.accept i })) =
        some (p.vector (lower i), p.accept (lower i)) := by
    intro i other
    rw [if_neg other, p.serves_lower]
  have late : ∀ found, ([3, 4, 5, 6, 7].find? fun i : Fin 8 =>
      (p.master.requested &&& ~~~p.master.masked).getLsbD i) = some found → found ≠ 2 := by
    rintro _ found rfl
    simpa using List.mem_of_find?_eq_some found
  rw [free.acknowledge_eq, first_parts, own _ (by decide), own _ (by decide), free.unmasked_cascade, Lines.pick_parts]
  simp only [Pics.due_lower, Pics.due_upper]
  -- the lines 0 and 1, then the second controller, unless its line is masked, then the others
  cases soon : [0, 1].find? fun i : Fin 8 => (p.master.requested &&& ~~~p.master.masked).getLsbD i with
  | some i =>
      refine ours i ?_
      rintro rfl
      simpa using List.mem_of_find?_eq_some soon
  | none =>
      cases closed : p.master.masked.getLsbD 2 with
      | true =>
          have blocked : (List.finRange 8).find? (fun _ => false) = none := List.find?_eq_none.mpr (by simp)
          simp only [Bool.not_true, Bool.and_false, Bool.false_eq_true, if_false, Option.none_or, Option.map_none,
            blocked]
          cases rest : [3, 4, 5, 6, 7].find?
              fun i : Fin 8 => (p.master.requested &&& ~~~p.master.masked).getLsbD i with
          | none => rfl
          | some i => exact ours i (late i rest)
      | false =>
          simp only [Bool.not_false, Bool.and_true, Option.none_or, Option.map_none]
          rw [← first]
          cases theirs : first (p.slave.requested &&& ~~~p.slave.masked) with
          | some i => exact congrArg some (p.serves_upper i).symm
          | none =>
              cases rest : [3, 4, 5, 6, 7].find?
                  fun i : Fin 8 => (p.master.requested &&& ~~~p.master.masked).getLsbD i with
              | none => rfl
              | some i =>
                  have there := ours i (late i rest)
                  rw [theirs] at there
                  exact there

end Order

/-! ## From one interrupt to the next -/

namespace Pics

def drop (p : Pics) (line : Fin 16) : Pics :=
  if line.val < 8 then { p with master := { p.master with requested := p.master.requested &&& ~~~bit (ownLine line) } }
  else { p with slave := { p.slave with requested := p.slave.requested &&& ~~~bit (ownLine line) } }

end Pics

section Turns

variable {p : Pics}

theorem Chip.raise_ended (c : Chip) (line : Fin 8) :
    (c.raise line).command 0x20 = (c.command 0x20).raise line := by
  have ended : ∀ c : Chip, c.command 0x20 = c.endOfInterrupt := by
    intro c
    rw [Chip.command, if_neg (by decide), if_pos (by decide)]
  rw [ended, ended, Chip.endOfInterrupt, Chip.endOfInterrupt, Chip.raise]
  cases first c.serving <;> rfl

/-- What is requested in the meantime does not touch the ends of interrupts. -/
theorem Pics.raise_ended_master (p : Pics) (line : Fin 16) :
    (p.raise line).outb 0x20 0x20 = (p.outb 0x20 0x20).raise line := by
  have ended : ∀ p : Pics, p.outb 0x20 0x20 = { p with master := p.master.command 0x20 } := fun p => rfl
  rw [ended, ended, Pics.raise, Pics.raise]
  split_ifs
  · rfl
  · exact congrArg (Pics.mk · p.slave) (p.master.raise_ended _)
  · rfl

theorem Pics.raise_ended_slave (p : Pics) (line : Fin 16) :
    (p.raise line).outb 0xA0 0x20 = (p.outb 0xA0 0x20).raise line := by
  have ended : ∀ p : Pics, p.outb 0xA0 0x20 = { p with slave := p.slave.command 0x20 } := fun p => rfl
  rw [ended, ended, Pics.raise, Pics.raise]
  split_ifs
  · rfl
  · rfl
  · exact congrArg (Pics.mk p.master) (p.slave.raise_ended _)

theorem Pics.Free.ended_lower (free : p.Free) {line : Fin 16} (below : line.val < 8) :
    (p.accept line).outb 0x20 0x20 = p.drop line := by
  rw [Pics.accept, if_pos below, Pics.drop, if_pos below]
  exact congrArg (Pics.mk · p.slave) (Chip.accept_ended free.master.2.1 free.master.2.2 _)

theorem Pics.Free.ended_upper (free : p.Free) {line : Fin 16} (above : ¬line.val < 8) :
    ((p.accept line).outb 0xA0 0x20).outb 0x20 0x20 = p.drop line := by
  have silent : p.master.requested &&& ~~~bit 2 = p.master.requested := by
    have kept : ∀ requested : BitVec 8, requested.getLsbD 2 = false → requested &&& ~~~bit 2 = requested := by
      decide +kernel
    exact kept _ free.quiet
  have master : (p.master.accept 2).command 0x20 = p.master := by
    rw [Chip.accept_ended free.master.2.1 free.master.2.2, silent]
  rw [Pics.accept, if_neg above, Pics.drop, if_neg above]
  calc
    _ = Pics.mk ((p.master.accept 2).command 0x20) ((p.slave.accept (ownLine line)).command 0x20) := rfl
    _ = _ := by rw [master, Chip.accept_ended free.slave.2.1 free.slave.2.2]

theorem Pics.Free.raise (free : p.Free) (line : Fin 16) : (p.raise line).Free := by
  rw [Pics.raise]
  split_ifs with cascade below
  · exact free
  · refine ⟨free.master, free.slave, free.wiring, ?_⟩
    have apart : ∀ line : Fin 16, line ≠ 2 → line.val < 8 → (bit (ownLine line)).getLsbD 2 = false := by decide
    exact (BitVec.getLsbD_or).trans (by rw [free.quiet, apart line cascade below]; rfl)
  · exact ⟨free.master, free.slave, free.wiring, free.quiet⟩

theorem Pics.Free.drop (free : p.Free) (line : Fin 16) : (p.drop line).Free := by
  rw [Pics.drop]
  split_ifs
  · exact ⟨free.master, free.slave, free.wiring, (BitVec.getLsbD_and).trans (by rw [free.quiet]; rfl)⟩
  · exact ⟨free.master, free.slave, free.wiring, free.quiet⟩

theorem set_get (bits : BitVec 8) (i j : Fin 8) :
    (bits ||| bit i).getLsbD j = if j = i then true else bits.getLsbD j := by
  have own : (bit i).getLsbD j = decide (j = i) := by
    revert i j
    decide
  rw [BitVec.getLsbD_or, own]
  split_ifs with same <;> simp [same]

theorem clear_get (bits : BitVec 8) (i j : Fin 8) :
    (bits &&& ~~~bit i).getLsbD j = if j = i then false else bits.getLsbD j := by
  have own : (bit i).getLsbD j = decide (j = i) := by
    revert i j
    decide
  rw [unmasked_bit, own]
  split_ifs with same <;> simp [same]

section Both

variable {master slave bits : BitVec 8} {line : Fin 16} {value : Bool}

theorem ownLine_inj : ∀ a b : Fin 16, (a.val < 8 ↔ b.val < 8) → (ownLine a = ownLine b ↔ a = b) := by decide

theorem both_update_lower (below : line.val < 8)
    (changed : ∀ j : Fin 8, bits.getLsbD j = if j = ownLine line then value else master.getLsbD j) :
    both bits slave = Function.update (both master slave) line value := by
  funext other
  rw [Function.update_apply, both, both]
  by_cases near : other.val < 8
  · simp only [if_pos near, changed, ownLine_inj other line (iff_of_true near below)]
  · have apart : other ≠ line := fun same => near (same ▸ below)
    rw [if_neg near, if_neg near, if_neg apart]

theorem both_update_upper (above : ¬line.val < 8)
    (changed : ∀ j : Fin 8, bits.getLsbD j = if j = ownLine line then value else slave.getLsbD j) :
    both master bits = Function.update (both master slave) line value := by
  funext other
  rw [Function.update_apply, both, both]
  by_cases near : other.val < 8
  · have apart : other ≠ line := fun same => above (same ▸ near)
    rw [if_pos near, if_pos near, if_neg apart]
  · simp only [if_neg near, changed, ownLine_inj other line (iff_of_false near above)]

end Both

theorem Pics.raise_lines (p : Pics) (line : Fin 16) : (p.raise line).lines = p.lines.raise line := by
  rw [Pics.raise, Lines.raise]
  split_ifs with cascade below
  · rfl
  · exact congrArg (Lines.mk · p.lines.masked) (both_update_lower below fun j => set_get _ _ _)
  · exact congrArg (Lines.mk · p.lines.masked) (both_update_upper below fun j => set_get _ _ _)

theorem Pics.drop_lines (p : Pics) (line : Fin 16) : (p.drop line).lines = p.lines.drop line := by
  rw [Pics.drop, Lines.drop]
  split_ifs with below
  · exact congrArg (Lines.mk · p.lines.masked) (both_update_lower below fun j => clear_get _ _ _)
  · exact congrArg (Lines.mk · p.lines.masked) (both_update_upper below fun j => clear_get _ _ _)

end Turns

end Pic8259
