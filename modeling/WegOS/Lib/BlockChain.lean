import Mathlib.Tactic

/-! Files stored as chains of linked blocks.

Every block holds `cap` items and the number of the next sector. A file is the
list of its sectors, in order, and its content the items of its blocks one after
the other. -/

namespace BlockChain

/-- How items and links are laid out in a block. -/
structure Format (Sector Block α : Type) where
  cap : Nat
  cap_pos : 0 < cap
  next : Block → Sector
  item : Block → Nat → α

variable {Sector Block α : Type} (format : Format Sector Block α) {disk disk' : Sector → Block}
  {chain : List Sector}

def Linked (disk : Sector → Block) (chain : List Sector) : Prop :=
  chain.IsChain fun s t => format.next (disk s) = t

def follow (disk : Sector → Block) : Nat → Sector → Sector
  | 0, s => s
  | k + 1, s => follow disk k (format.next (disk s))

def chainFrom (disk : Sector → Block) : Nat → Sector → List Sector
  | 0, _ => []
  | count + 1, s => s :: chainFrom disk count (format.next (disk s))

def content [Inhabited Sector] (disk : Sector → Block) (chain : List Sector) (i : Nat) : α :=
  format.item (disk (chain.getD (i / format.cap) default)) (i % format.cap)

variable {format}

theorem Linked.next_eq (linked : Linked format disk chain) {i : Nat} (bound : i + 1 < chain.length) :
    format.next (disk chain[i]) = chain[i + 1] :=
  List.isChain_iff_getElem.mp linked i bound

theorem Linked.getElem?_next (linked : Linked format disk chain) {k : Nat} {s : Sector}
    (here : chain[k]? = some s) (bound : k + 1 < chain.length) :
    chain[k + 1]? = some (format.next (disk s)) := by
  obtain ⟨_, rfl⟩ := List.getElem?_eq_some_iff.mp here
  rw [List.getElem?_eq_getElem bound, linked.next_eq bound]

theorem Linked.follow_eq (linked : Linked format disk chain) {k i : Nat} (bound : i + k < chain.length) :
    follow format disk k chain[i] = chain[i + k] := by
  induction k generalizing i with
  | zero => rfl
  | succ k ih =>
      rw [follow, linked.next_eq (by omega), ih (by omega)]
      congr 1
      omega

theorem Linked.congr (linked : Linked format disk chain)
    (same : ∀ s ∈ chain, format.next (disk' s) = format.next (disk s)) : Linked format disk' chain := by
  apply List.isChain_iff_getElem.mpr
  intro i bound
  rw [same _ (List.getElem_mem _)]
  exact linked.next_eq bound

theorem Linked.concat {init : List Sector} {last new : Sector} (linked : Linked format disk (init ++ [last]))
    (joined : format.next (disk' last) = new)
    (same : ∀ s ∈ init, format.next (disk' s) = format.next (disk s)) :
    Linked format disk' (init ++ [last] ++ [new]) := by
  obtain ⟨before, _, link⟩ := List.isChain_append.mp linked
  have inner : Linked format disk' init := Linked.congr before same
  refine List.isChain_append.mpr ⟨List.isChain_append.mpr ⟨inner, List.isChain_singleton _, ?_⟩,
    List.isChain_singleton _, ?_⟩
  · intro s final t head
    rw [same s (List.mem_of_getLast? final)]
    exact link s final t head
  · intro s final t head
    simp only [List.getLast?_append, List.getLast?_singleton, Option.some_or, Option.mem_def,
      Option.some.injEq, List.head?_cons] at final head
    rw [← final, ← head]
    exact joined

@[simp] theorem length_chainFrom (count : Nat) (s : Sector) :
    (chainFrom format disk count s).length = count := by
  induction count generalizing s with
  | zero => rfl
  | succ count ih => rw [chainFrom, List.length_cons, ih]

theorem chainFrom_linked (count : Nat) (s : Sector) :
    Linked format disk (chainFrom format disk count s) := by
  induction count generalizing s with
  | zero => exact List.isChain_nil
  | succ count ih =>
      cases count with
      | zero => exact List.isChain_singleton s
      | succ count => exact List.IsChain.cons_cons rfl (ih _)

theorem Linked.chainFrom_eq (linked : Linked format disk chain) {s : Sector}
    (first : chain[0]? = some s) : chainFrom format disk chain.length s = chain := by
  induction chain generalizing s with
  | nil => rfl
  | cons t chain ih =>
      obtain rfl : t = s := by simpa using first
      rw [List.length_cons, chainFrom]
      cases chain with
      | nil => rfl
      | cons u chain =>
          obtain ⟨link, rest⟩ := List.isChain_cons_cons.mp linked
          rw [link, ih rest rfl]

theorem Linked.chainFrom_subset (linked : Linked format disk chain) {count k : Nat} {s : Sector}
    (here : chain[k]? = some s) (bound : k + count ≤ chain.length) :
    ∀ t ∈ chainFrom format disk count s, t ∈ chain := by
  induction count generalizing k s with
  | zero => simp [chainFrom]
  | succ count ih =>
      intro t member
      rcases List.mem_cons.mp member with rfl | later
      · exact List.mem_of_getElem? here
      · cases count with
        | zero => cases later
        | succ count => exact ih (linked.getElem?_next here (by omega)) (by omega) t later

theorem chainFrom_succ (count : Nat) (s : Sector) :
    chainFrom format disk (count + 1) s = chainFrom format disk count s ++ [follow format disk count s] := by
  induction count generalizing s with
  | zero => rfl
  | succ count ih => rw [chainFrom, ih, chainFrom, follow, List.cons_append]

theorem take_chainFrom {count m : Nat} (short : m ≤ count) (s : Sector) :
    (chainFrom format disk count s).take m = chainFrom format disk m s := by
  induction count generalizing m s with
  | zero =>
      obtain rfl := Nat.le_zero.mp short
      rfl
  | succ count ih =>
      cases m with
      | zero => rfl
      | succ m => rw [chainFrom, chainFrom, List.take_succ_cons, ih (Nat.le_of_succ_le_succ short)]

theorem chainFrom_congr {count : Nat} {s : Sector}
    (same : ∀ t ∈ chainFrom format disk count s, format.next (disk' t) = format.next (disk t)) :
    chainFrom format disk' count s = chainFrom format disk count s := by
  induction count generalizing s with
  | zero => rfl
  | succ count ih =>
      rw [chainFrom, chainFrom, same s List.mem_cons_self]
      rw [ih fun t member => same t (List.mem_cons_of_mem _ member)]

section Walk

variable [DecidableEq Sector] (format)

/-- The sectors met from one link to the next, up to the mark `stop`. -/
def walk (stop : Sector) (disk : Sector → Block) : Nat → Sector → Option (List Sector)
  | 0, _ => none
  | fuel + 1, s =>
      if s = stop then some [] else (walk stop disk fuel (format.next (disk s))).map (s :: ·)

variable {format}

/-- A chain whose last block has the mark is what the walk meets. -/
theorem Linked.walk_eq {stop s last : Sector} (linked : Linked format disk chain) (first : chain[0]? = some s)
    (inside : stop ∉ chain) (final : chain.getLast? = some last) (marked : format.next (disk last) = stop) :
    walk format stop disk (chain.length + 1) s = some chain := by
  induction chain generalizing s with
  | nil => simp at first
  | cons t chain ih =>
      obtain rfl : t = s := by simpa using first
      obtain ⟨other, outside⟩ := not_or.mp (List.mem_cons.not.mp inside)
      rw [List.length_cons, walk, if_neg (Ne.symm other)]
      cases chain with
      | nil =>
          obtain rfl : t = last := by simpa using final
          rw [marked, List.length_nil, walk, if_pos rfl]
          rfl
      | cons u chain =>
          obtain ⟨link, rest⟩ := List.isChain_cons_cons.mp linked
          rw [link, ih rest rfl outside (by simpa using final)]
          rfl

end Walk

section Content

variable [Inhabited Sector]

theorem content_eq {i : Nat} (bound : i / format.cap < chain.length) :
    content format disk chain i = format.item (disk chain[i / format.cap]) (i % format.cap) := by
  rw [content, List.getD_eq_getElem?_getD, List.getElem?_eq_getElem bound, Option.getD_some]

theorem content_at {k j : Nat} (bound : k < chain.length) (inside : j < format.cap) :
    content format disk chain (k * format.cap + j) = format.item (disk chain[k]) j := by
  have quotient : (k * format.cap + j) / format.cap = k := by
    rw [Nat.add_comm, Nat.add_mul_div_right _ _ format.cap_pos, Nat.div_eq_of_lt inside, Nat.zero_add]
  have remainder : (k * format.cap + j) % format.cap = j := by
    rw [Nat.add_comm, Nat.add_mul_mod_self_right, Nat.mod_eq_of_lt inside]
  rw [content_eq (by rw [quotient]; exact bound), remainder]
  simp only [quotient]

theorem content_congr {i : Nat} (bound : i / format.cap < chain.length)
    (same : ∀ s ∈ chain, ∀ j < format.cap, format.item (disk' s) j = format.item (disk s) j) :
    content format disk' chain i = content format disk chain i := by
  rw [content_eq bound, content_eq bound]
  exact same _ (List.getElem_mem _) _ (Nat.mod_lt _ format.cap_pos)

theorem content_append {more : List Sector} {i : Nat} (bound : i / format.cap < chain.length) :
    content format disk (chain ++ more) i = content format disk chain i := by
  rw [content_eq bound, content_eq (by rw [List.length_append]; omega),
    List.getElem_append_left bound]

theorem content_update [DecidableEq Sector] (nodup : chain.Nodup) {k : Nat} (inside : k < chain.length)
    (block : Block) {i : Nat} (bound : i / format.cap < chain.length) :
    content format (Function.update disk chain[k] block) chain i =
      if i / format.cap = k then format.item block (i % format.cap) else content format disk chain i := by
  rw [content_eq bound, content_eq bound]
  by_cases same : i / format.cap = k
  · subst same
    rw [Function.update_self, if_pos rfl]
  · have other : chain[i / format.cap] ≠ chain[k] := fun equal =>
      same ((nodup.getElem_inj_iff).mp equal)
    rw [Function.update_of_ne other, if_neg same]

end Content

/-! ## Walks that come back to a chain

From every sector the last step of the walk is the link that a chain has there, and the walk
leads from a sector of the chain to the one as many places on. -/

section Along

variable {k n : Nat} {path : Nat → Sector}

/-- A sector of the chain is not met later than along the chain: each place behind it takes a
step more. -/
theorem Linked.met_in_time (linked : Linked format disk chain) (nodup : chain.Nodup)
    (final : chain[k + n]? = some (path n))
    (leaves : ∀ m < n, ∃ m', m ≤ m' ∧ m' < n ∧ path m' = path m ∧
      path (m' + 1) = format.next (disk (path m))) {left i a : Nat} (place : i + left = n) (time : a ≤ n)
    (here : chain[k + i]? = some (path a)) : a ≤ i := by
  induction left generalizing i a with
  | zero => omega
  | succ left ih =>
      have inside := (List.getElem?_eq_some_iff.mp final).1
      have before : a < n := by
        rcases Nat.lt_or_eq_of_le time with before | rfl
        · exact before
        · have same := (List.getElem?_inj inside nodup).mp (final.trans here.symm)
          omega
      obtain ⟨m', later, inner, back, step⟩ := leaves a before
      have next : chain[k + (i + 1)]? = some (path (m' + 1)) := by
        have room : k + i + 1 < chain.length := by omega
        rw [step]
        exact linked.getElem?_next here room
      have bound := ih (by omega) (by omega) next
      omega

theorem Linked.walk_along (linked : Linked format disk chain) (nodup : chain.Nodup)
    (first : chain[k]? = some (path 0)) (final : chain[k + n]? = some (path n))
    (leaves : ∀ m < n, ∃ m', m ≤ m' ∧ m' < n ∧ path m' = path m ∧
      path (m' + 1) = format.next (disk (path m))) {m : Nat} (time : m ≤ n) :
    chain[k + m]? = some (path m) := by
  induction m with
  | zero => exact first
  | succ m ih =>
      have here := ih (by omega)
      obtain ⟨m', later, inner, back, step⟩ := leaves m (by omega)
      have bound : m' ≤ m :=
        linked.met_in_time nodup final leaves (Nat.add_sub_cancel' (by omega)) (by omega) (back ▸ here)
      obtain rfl : m' = m := Nat.le_antisymm bound later
      have last := (List.getElem?_eq_some_iff.mp final).1
      have room : k + m' + 1 < chain.length := by omega
      rw [step]
      exact linked.getElem?_next here room

end Along

/-! ## Overwriting

`length` items from item `start` on are replaced, and nothing else changes: no link,
no other item of the file, no sector outside it. -/

section Overwrites

variable [Inhabited Sector]

structure Overwrites (format : Format Sector Block α) (chain : List Sector) (disk disk' : Sector → Block)
    (start length : Nat) (items : Nat → α) : Prop where
  frame : ∀ s, s ∉ chain → disk' s = disk s
  links : ∀ s, format.next (disk' s) = format.next (disk s)
  content : ∀ i, i / format.cap < chain.length →
    content format disk' chain i =
      if start ≤ i ∧ i < start + length then items (i - start) else content format disk chain i

variable {first second third : Sector → Block} {start n m : Nat} {items : Nat → α}

theorem Overwrites.refl (disk : Sector → Block) (start : Nat) (items : Nat → α) :
    Overwrites format chain disk disk start 0 items where
  frame _ _ := rfl
  links _ := rfl
  content i _ := (if_neg (by omega)).symm

theorem Overwrites.trans (before : Overwrites format chain first second start n items)
    (after : Overwrites format chain second third (start + n) m fun i => items (n + i)) :
    Overwrites format chain first third start (n + m) items where
  frame s outside := (after.frame s outside).trans (before.frame s outside)
  links s := (after.links s).trans (before.links s)
  content i bound := by
    rw [after.content i bound, before.content i bound]
    split_ifs
    · congr 1
      omega
    all_goals first | rfl | omega

theorem Overwrites.congr {items' : Nat → α} (before : Overwrites format chain first second start n items)
    (same : ∀ i < n, items' i = items i) : Overwrites format chain first second start n items' where
  frame := before.frame
  links := before.links
  content i bound := by
    rw [before.content i bound]
    split_ifs with inside
    · exact (same _ (by omega)).symm
    · rfl

theorem Overwrites.linked (before : Overwrites format chain first second start n items)
    {other : List Sector} (linked : Linked format first other) : Linked format second other :=
  linked.congr fun s _ => before.links s

theorem Overwrites.block [DecidableEq Sector] (nodup : chain.Nodup) {k : Nat} (inside : k < chain.length)
    {block : Block} {offset : Nat} (room : offset + n ≤ format.cap)
    (link : format.next block = format.next (disk chain[k]))
    (cells : ∀ j < format.cap, format.item block j =
      if offset ≤ j ∧ j < offset + n then items (j - offset) else format.item (disk chain[k]) j) :
    Overwrites format chain disk (Function.update disk chain[k] block) (k * format.cap + offset) n items where
  frame s outside := by
    apply Function.update_of_ne
    rintro rfl
    exact outside (List.getElem_mem _)
  links s := by
    by_cases here : s = chain[k]
    · rw [here, Function.update_self, link]
    · rw [Function.update_of_ne here]
  content i bound := by
    have split := Nat.div_add_mod' i format.cap
    have small := Nat.mod_lt i format.cap_pos
    rw [content_update nodup inside block bound]
    by_cases here : i / format.cap = k
    · subst here
      rw [if_pos rfl, cells _ small, content_eq bound]
      split_ifs
      · congr 1
        omega
      all_goals first | rfl | omega
    · rw [if_neg here, if_neg]
      rintro ⟨low, high⟩
      apply here
      apply Nat.div_eq_of_lt_le (by omega)
      rw [Nat.add_mul, Nat.one_mul]
      omega

end Overwrites

end BlockChain
