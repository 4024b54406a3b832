import WegOS.SemaphoreCount

/-! How many tasks are between their `wait` and their `signal`. -/

namespace WegOS

open Transition

structure Holders (ι : Type) where
  system : SyncSystem ι
  inside : ι → List Nat

section Holders

variable {ι : Type} [DecidableEq ι] {image : KernelImage}

def Holders.running (s : Holders ι) : Nat := s.system.system.kernel.taskManager.pidRunning

/-- A `wait` that does not block returns at once, one that blocks returns when its task is woken. -/
def Holders.note (s : Holders ι) (event : SyncEvent ι) (system : SyncSystem ι) : Holders ι :=
  match event with
  | .task _ => { s with system := system }
  | .wait i =>
      if (system.semaphores i).count < 0 then { s with system := system }
      else ⟨system, Function.update s.inside i (s.inside i ++ [s.running])⟩
  | .signal i =>
      ⟨system, Function.update s.inside i ((s.inside i).erase s.running ++ (s.system.waiters i).take 1)⟩

def holdersStep (image : KernelImage) (s : Holders ι) (event : SyncEvent ι) : Option (Holders ι) :=
  (syncStep image s.system event).map (s.note event)

def HoldersStep (image : KernelImage) (s : Holders ι) (event : SyncEvent ι) (t : Holders ι) : Prop :=
  holdersStep image s event = some t

/-- A task does not wait for what it holds, and signals only that. -/
def InTurn (s : Holders ι) : SyncEvent ι → Prop
  | .task _ => True
  | .wait i => s.running ∉ s.inside i
  | .signal i => s.running ∈ s.inside i

instance (s : Holders ι) (event : SyncEvent ι) : Decidable (InTurn s event) :=
  match event with
  | .task _ => isTrue trivial
  | .wait i => inferInstanceAs (Decidable (s.running ∉ s.inside i))
  | .signal i => inferInstanceAs (Decidable (s.running ∈ s.inside i))

def holdersStart (image : KernelImage) (k k' : Kernel) (counts : ι → Nat) : Holders ι :=
  ⟨syncStart image k k' fun i => Int16.ofNat (counts i), fun _ => []⟩

structure Excludes (count : Nat) (s : Holders ι) (i : ι) : Prop where
  few : (s.inside i).length ≤ count
  once : (s.inside i).Nodup
  outside : ∀ pid ∈ s.system.waiters i, pid ∉ s.inside i
  busy : s.system.waiters i ≠ [] → (s.inside i).length = count

structure CountsHolders (count : Nat) (s : Holders ι) (i : ι) : Prop where
  counter : (s.system.semaphores i).count.toInt = count - (s.inside i).length - (s.system.waiters i).length
  waiting : ((s.system.waiters i).length : Int) = max 0 (-(s.system.semaphores i).count.toInt)
  once : (s.inside i).Nodup
  outside : ∀ pid ∈ s.system.waiters i, pid ∉ s.inside i

variable {s t : Holders ι} {i : ι} {count : Nat} {q : PidQueue} {system : SyncSystem ι}

omit [DecidableEq ι] in
theorem CountsHolders.excludes (counts : CountsHolders count s i) : Excludes count s i := by
  have counter := counts.counter
  have waiting := counts.waiting
  refine ⟨by omega, counts.once, counts.outside, fun some => ?_⟩
  have positive := List.length_pos_iff.mpr some
  omega

omit [DecidableEq ι] in
theorem CountsHolders.congr (counts : CountsHolders count s i)
    (semaphore : t.system.semaphores i = s.system.semaphores i) (inside : t.inside i = s.inside i) :
    CountsHolders count t i := by
  have waiters : t.system.waiters i = s.system.waiters i := by
    rw [SyncSystem.waiters, semaphore]
    rfl
  refine ⟨?_, ?_, ?_, ?_⟩
  · rw [semaphore, inside, waiters]
    exact counts.counter
  · rw [semaphore, waiters]
    exact counts.waiting
  · rw [inside]
    exact counts.once
  · rw [inside, waiters]
    exact counts.outside

theorem CountsHolders.wait (counts : CountsHolders count s i) (ok : WaitingIn s.system q)
    (turn : s.running ∉ s.inside i) (taken : SyncStep image s.system (.wait i) system) :
    CountsHolders count (s.note (.wait i) system) i := by
  obtain ⟨busy, -, counter, called⟩ := ok.wait taken
  have space : (s.system.waiters i).length + 1 < maxGdtTerms := ok.waiting.waiters_space busy i
  have value := counts.counter
  have waiting := counts.waiting
  simp only [maxGdtTerms] at space
  have less : ((s.system.semaphores i).count - 1).toInt = (s.system.semaphores i).count.toInt - 1 :=
    toInt_sub_one (by omega)
  rcases called with ⟨free, queue, -, -⟩ | ⟨blocks, waiters, -, -⟩
  · have noted : s.note (.wait i) system = ⟨system, Function.update s.inside i (s.inside i ++ [s.running])⟩ := by
      rw [← counter] at free
      exact if_neg free
    have same : system.waiters i = s.system.waiters i := by
      rw [SyncSystem.waiters, queue]
      rfl
    have nobody : s.system.waiters i = [] := by
      rw [lt_zero_iff, less] at free
      exact List.length_eq_zero_iff.mp (by omega)
    rw [lt_zero_iff, less] at free
    rw [noted]
    refine ⟨?_, ?_, ?_, ?_⟩
    · simp only [Function.update_self, same, counter, less, List.length_append, List.length_singleton]
      push_cast
      omega
    · simp only [same, counter, less]
      omega
    · simp only [Function.update_self]
      exact List.nodup_append.mpr ⟨counts.once, List.nodup_singleton _, by
        rintro p member _ last rfl
        rw [List.mem_singleton.mp last] at member
        exact turn member⟩
    · simp only [same, nobody]
      simp
  · have noted : s.note (.wait i) system = { s with system := system } := by
      rw [← counter] at blocks
      exact if_pos blocks
    rw [lt_zero_iff, less] at blocks
    rw [noted]
    refine ⟨?_, ?_, counts.once, ?_⟩
    · simp only [waiters, counter, less, List.length_append, List.length_singleton]
      push_cast
      omega
    · simp only [waiters, counter, less, List.length_append, List.length_singleton]
      push_cast
      omega
    · intro pid member
      rw [waiters, List.mem_append, List.mem_singleton] at member
      rcases member with before | rfl
      · exact counts.outside pid before
      · exact turn

theorem CountsHolders.signal (range : count ≤ 32767) (counts : CountsHolders count s i) (ok : WaitingIn s.system q)
    (turn : s.running ∈ s.inside i) (taken : SyncStep image s.system (.signal i) system) :
    CountsHolders count (s.note (.signal i) system) i := by
  obtain ⟨-, counter, called⟩ := ok.signal taken
  have value := counts.counter
  have waiting := counts.waiting
  have some := List.length_pos_of_mem turn
  have more : ((s.system.semaphores i).count + 1).toInt = (s.system.semaphores i).count.toInt + 1 :=
    toInt_add_one (by omega)
  have left : ((s.inside i).erase s.running).length = (s.inside i).length - 1 := List.length_erase_of_mem turn
  have noted : s.note (.signal i) system =
      ⟨system, Function.update s.inside i ((s.inside i).erase s.running ++ (s.system.waiters i).take 1)⟩ := rfl
  rw [noted]
  rcases called with ⟨nobody, queue, -, -⟩ | ⟨pid, rest, _, _, front, after, -, -⟩
  · have same : system.waiters i = [] := by
      rw [← nobody, SyncSystem.waiters, queue]
      rfl
    rw [nobody] at waiting value
    refine ⟨?_, ?_, ?_, ?_⟩
    · simp only [Function.update_self, same, nobody, counter, more, List.take_nil, List.append_nil, left,
        List.length_nil] at value ⊢
      omega
    · simp only [same, counter, more, List.length_nil] at waiting ⊢
      omega
    · simp only [Function.update_self, nobody, List.take_nil, List.append_nil]
      exact counts.once.erase _
    · simp [same]
  · have distinct : (pid :: rest).Nodup := by
      rw [← front]
      exact ok.waiting.matched.once i
    rw [front, List.length_cons] at waiting value
    refine ⟨?_, ?_, ?_, ?_⟩
    · simp only [Function.update_self, front, after, counter, more, List.take_succ_cons, List.take_zero,
        List.length_append, List.length_singleton, left]
      push_cast at value ⊢
      omega
    · simp only [after, counter, more]
      omega
    · simp only [Function.update_self, front, List.take_succ_cons, List.take_zero]
      have new : pid ∉ s.inside i := counts.outside pid (front ▸ List.mem_cons_self)
      exact List.nodup_append.mpr ⟨counts.once.erase _, List.nodup_singleton _, by
        rintro p member _ last rfl
        rw [List.mem_singleton.mp last] at member
        exact new (List.mem_of_mem_erase member)⟩
    · simp only [Function.update_self, front, after, List.take_succ_cons, List.take_zero]
      intro p member inside
      rw [List.mem_append, List.mem_singleton] at inside
      rcases inside with before | rfl
      · exact counts.outside p (front ▸ List.mem_cons_of_mem _ member) (List.mem_of_mem_erase before)
      · exact (List.nodup_cons.mp distinct).1 member

theorem Holders.step_counts {counts : ι → Nat} (range : ∀ i, counts i ≤ 32767) {event : SyncEvent ι}
    (start : (∃ q, WaitingIn s.system q) ∧ ∀ i, CountsHolders (counts i) s i)
    (taken : Guarded (HoldersStep image) InTurn s event t) :
    (∃ q, WaitingIn t.system q) ∧ ∀ i, CountsHolders (counts i) t i := by
  obtain ⟨⟨q, ok⟩, exactly⟩ := start
  obtain ⟨turn, result⟩ := taken
  obtain ⟨system, taken, rfl⟩ := Option.map_eq_some_iff.mp result
  have kept : (s.note event system).system = system := by
    cases event with
    | task event => rfl
    | wait i =>
        rw [Holders.note]
        split_ifs <;> rfl
    | signal i => rfl
  refine ⟨by rw [kept]; exact ok.step taken, fun j => ?_⟩
  cases event with
  | task event => exact (exactly j).congr (congrFun (ok.task taken).2 j) rfl
  | wait i =>
      by_cases own : j = i
      · subst own
        exact (exactly j).wait ok turn taken
      · have same := congrFun (ok.wait taken).2.1 j
        rw [Function.update_of_ne own] at same
        refine (exactly j).congr (by rw [kept]; exact same) ?_
        rw [Holders.note]
        split_ifs
        · rfl
        · exact Function.update_of_ne own ..
  | signal i =>
      by_cases own : j = i
      · subst own
        exact (exactly j).signal (range j) ok turn taken
      · have same := congrFun (ok.signal taken).1 j
        rw [Function.update_of_ne own] at same
        exact (exactly j).congr same (Function.update_of_ne own ..)

/-- In every run in which tasks signal just what they hold, no more tasks are inside than the semaphore was
started with, none of them twice, and a task waits only while as many are inside. -/
theorem critical_section_bounded {idle : IdleImage} {k k' : Kernel} {counts : ι → Nat} {events : List (SyncEvent ι)}
    (unused : k.taskManager.pidQueueSleeping.head = 0 ∧ k.taskManager.pidQueueSleeping.tail = 0)
    (started : schedInit image idle k = some k') (range : ∀ i, counts i ≤ 32767)
    (run : Run (Guarded (HoldersStep image) InTurn) (holdersStart image k k' counts) events t) :
    ∀ i, Excludes (counts i) t i := by
  have start : (∃ q, WaitingIn (holdersStart image k k' counts).system q) ∧
      ∀ i, CountsHolders (counts i) (holdersStart image k k' counts) i := by
    have nobody : ∀ i, (holdersStart image k k' counts).system.waiters i = [] := fun i => pidQueueInit_holds.elems_eq
    have counter : ∀ i, ((holdersStart image k k' counts).system.semaphores i).count.toInt = counts i :=
      fun i => Int16.toInt_ofNat_of_lt (Nat.lt_succ_of_le (range i))
    refine ⟨⟨_, (syncStart_waiting _ unused started).waitingIn⟩, fun i => ⟨?_, ?_, List.nodup_nil, ?_⟩⟩
    · rw [nobody, counter]
      simp [holdersStart]
    · rw [nobody, counter]
      simp
    · simp [nobody]
  obtain ⟨-, exactly⟩ := run.invariant start fun _ _ _ before taken => Holders.step_counts range before taken
  exact fun i => (exactly i).excludes

end Holders

def sampleMutex : List (SyncEvent Unit) :=
  .task (.create 1 0x400000 0x500000 9) :: (List.replicate 100 (.task .tick) ++ [.wait ()] ++
    List.replicate 100 (.task .tick) ++ [.wait ()] ++ List.replicate 100 (.task .tick) ++ [.signal ()])

theorem critical_section_bounded_mutex : ∃ t,
    Run (Guarded (HoldersStep sampleImage) InTurn) (holdersStart sampleImage sampleKernel sampleStart.kernel fun _ => 1)
      sampleMutex t ∧ t.inside () = [6] ∧ Excludes 1 t () := by
  have ends : (sampleMutex.foldlM (fun s event => if InTurn s event then holdersStep sampleImage s event else none)
      (holdersStart sampleImage sampleKernel sampleStart.kernel fun _ => 1)).map (fun t => t.inside ()) =
        some [6] := by
    decide +kernel
  obtain ⟨t, result, inside⟩ := Option.map_eq_some_iff.mp ends
  have run := Run.guarded_of_foldlM result
  exact ⟨t, run, inside, critical_section_bounded ⟨rfl, rfl⟩ sampleStart_started (fun _ => by decide) run ()⟩

end WegOS
