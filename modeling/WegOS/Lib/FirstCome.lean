import WegOS.Lib.Transition

/-! Items that wait in line, over the runs of a system that serves them. -/

namespace FirstCome

open Transition

variable {State Event α : Type}

/-- What waits in a state, and which items come and are served in a step. -/
structure Server (State Event α : Type) where
  waiting : State → List α
  arrivals : State → Event → State → List α
  served : State → Event → State → List α

structure Record (State α : Type) where
  state : State
  arrived : List α
  served : List α

def Record.start (s : State) : Record State α := ⟨s, [], []⟩

variable {server : Server State Event α} {step : State → Event → State → Prop}

def Server.Recorded (server : Server State Event α) (step : State → Event → State → Prop)
    (r : Record State α) (event : Event) (r' : Record State α) : Prop :=
  step r.state event r'.state ∧
    r'.arrived = r.arrived ++ server.arrivals r.state event r'.state ∧
    r'.served = r.served ++ server.served r.state event r'.state

def Server.InOrder (server : Server State Event α) (s : State) (event : Event) (t : State) : Prop :=
  server.waiting s ++ server.arrivals s event t = server.served s event t ++ server.waiting t

theorem Server.run_recorded {s t : State} {events : List Event} (run : Run step s events t) :
    ∃ r, Run (server.Recorded step) (Record.start s) events r ∧ r.state = t := by
  induction run with
  | refl => exact ⟨_, Run.refl _, rfl⟩
  | @tail t u events event _ last ih =>
      obtain ⟨r, before, rfl⟩ := ih
      exact ⟨⟨u, r.arrived ++ server.arrivals r.state event u, r.served ++ server.served r.state event u⟩,
        before.tail ⟨last, rfl, rfl⟩, rfl⟩

theorem Server.run_of_recorded {r r' : Record State α} {events : List Event}
    (run : Run (server.Recorded step) r events r') : Run step r.state events r'.state := by
  induction run with
  | refl => exact Run.refl _
  | tail _ last ih => exact ih.tail last.1

theorem Server.step_of_served {s : State} {r : Record State α} {events : List Event} {a : α}
    (run : Run (server.Recorded step) (Record.start s) events r) (member : a ∈ r.served) :
    ∃ before event u v, before ++ [event] <+: events ∧ Run step s before u ∧ step u event v ∧
      a ∈ server.served u event v := by
  induction run with
  | refl => exact absurd member List.not_mem_nil
  | @tail mid r events event before last ih =>
      obtain ⟨taken, -, served⟩ := last
      rw [served] at member
      rcases List.mem_append.mp member with old | new
      · obtain ⟨first, one, u, v, front, rest⟩ := ih old
        exact ⟨first, one, u, v, front.trans (List.prefix_append _ _), rest⟩
      · exact ⟨events, event, mid.state, r.state, List.prefix_refl _, Server.run_of_recorded before, taken, new⟩

section Order

variable {ok : State → Prop} {s : State} {r : Record State α} {events : List Event}

/-- What has come is what was served and what still waits, in this order. -/
theorem Server.run_inOrder (kept : ∀ s event t, ok s → step s event t → ok t)
    (one : ∀ s event t, ok s → step s event t → server.InOrder s event t) (start : ok s)
    (run : Run (server.Recorded step) (Record.start s) events r) :
    server.waiting s ++ r.arrived = r.served ++ server.waiting r.state := by
  induction run with
  | refl => exact List.append_nil _
  | @tail mid r events event before last ih =>
      obtain ⟨taken, arrived, served⟩ := last
      have fine : ok mid.state := (Server.run_of_recorded before).invariant start kept
      have next : server.InOrder mid.state event r.state := one _ _ _ fine taken
      calc
        server.waiting s ++ r.arrived
            = mid.served ++ (server.waiting mid.state ++ server.arrivals mid.state event r.state) := by
          rw [arrived, ← List.append_assoc, ih, List.append_assoc]
        _ = r.served ++ server.waiting r.state := by
          rw [next, served, List.append_assoc]

theorem served_or_waiting {waiting arrived served left : List α} (order : waiting ++ arrived = served ++ left)
    {k : Nat} {a : α} (place : waiting[k]? = some a) :
    if k < served.length then served[k]? = some a else left[k - served.length]? = some a := by
  have here : (served ++ left)[k]? = some a := by
    rw [← order, List.getElem?_append_left (List.getElem?_eq_some_iff.mp place).1]
    exact place
  split_ifs with before
  · rwa [List.getElem?_append_left before] at here
  · rwa [List.getElem?_append_right (Nat.not_lt.mp before)] at here

end Order

/-! ## In bounded time -/

section Time

variable {ok : State → Prop} {s : State} {r : Record State α} {events : List Event} {ticks : Event → Nat}
  {clock : State → Nat} {period : Nat}

/-- Ticks run the clock down; only a service winds it up, to at most `period` more. -/
theorem Server.run_ticks_le (kept : ∀ s event t, ok s → step s event t → ok t)
    (one : ∀ s event t, ok s → step s event t →
      ticks event + clock t ≤ clock s + period * (server.served s event t).length) (start : ok s)
    (run : Run (server.Recorded step) (Record.start s) events r) :
    (events.map ticks).sum + clock r.state ≤ clock s + period * r.served.length := by
  induction run with
  | refl => exact Nat.le_of_eq (by simp [Record.start])
  | @tail mid r events event before last ih =>
      have fine : ok mid.state := (Server.run_of_recorded before).invariant start kept
      have next := one _ _ _ fine last.1
      rw [List.map_append, List.sum_append, List.map_singleton, List.sum_singleton, last.2.2, List.length_append,
        Nat.mul_add]
      omega

/-- With a clock that stays between 1 and `period`, an item at place `k` is served within
`k + 1` periods. -/
theorem Server.served_in_time (kept : ∀ s event t, ok s → step s event t → ok t)
    (order : ∀ s event t, ok s → step s event t → server.InOrder s event t)
    (one : ∀ s event t, ok s → step s event t →
      ticks event + clock t ≤ clock s + period * (server.served s event t).length)
    (positive : ∀ s, ok s → 0 < clock s) (bounded : ∀ s, ok s → clock s ≤ period) (start : ok s) {k : Nat} {a : α}
    (place : (server.waiting s)[k]? = some a) (run : Run (server.Recorded step) (Record.start s) events r)
    (enough : period * (k + 1) ≤ (events.map ticks).sum) : r.served[k]? = some a := by
  have total := Server.run_ticks_le kept one start run
  have fine : ok r.state := (Server.run_of_recorded run).invariant start kept
  have low := positive _ fine
  have high := bounded _ start
  have served : k < r.served.length := by
    by_contra few
    have less : period * r.served.length ≤ period * k := Nat.mul_le_mul_left _ (Nat.not_lt.mp few)
    rw [Nat.mul_add] at enough
    omega
  have result := served_or_waiting (Server.run_inOrder kept order start run) place
  rwa [if_pos served] at result

end Time

/-! ## Taking turns -/

/-- Of a whole cycle of turns of equal length each takes its length, wherever the cycle is entered. -/
theorem count_turn (length start : Nat) {turns turn : Nat} (inside : turn < turns) (positive : 0 < length) :
    Nat.count (fun n => (start + n) / length % turns = turn) (length * turns) = length := by
  have cycle : ∀ n, (length * turns + n) / length % turns = n / length % turns := by
    intro n
    rw [Nat.add_comm, Nat.add_mul_div_left n turns positive, Nat.add_mod_right]
  have whole : Nat.count (fun n => n / length % turns = turn) (length * turns) = length := by
    have interval : ((Finset.range (length * turns)).filter fun n => n / length % turns = turn) =
        Finset.Ico (length * turn) (length * turn + length) := by
      ext n
      simp only [Finset.mem_filter, Finset.mem_range, Finset.mem_Ico]
      constructor
      · rintro ⟨low, here⟩
        rw [Nat.mod_eq_of_lt (Nat.div_lt_of_lt_mul low)] at here
        subst here
        have split := Nat.div_add_mod n length
        have left := Nat.mod_lt n positive
        omega
      · rintro ⟨low, high⟩
        have here : n / length = turn :=
          Nat.div_eq_of_lt_le (by rwa [Nat.mul_comm]) (by rwa [Nat.mul_comm, Nat.mul_succ])
        have bound : length * (turn + 1) ≤ length * turns := Nat.mul_le_mul_left length inside
        rw [here, Nat.mod_eq_of_lt inside]
        exact ⟨by rw [Nat.mul_succ] at bound; omega, rfl⟩
    rw [Nat.count_eq_card_filter_range, interval, Nat.card_Ico]
    omega
  -- The turns before the start are as many as those that come after the cycle.
  have shifted := Nat.count_add (p := fun n => n / length % turns = turn) start (length * turns)
  have wrapped := Nat.count_add (p := fun n => n / length % turns = turn) (length * turns) start
  simp only [cycle] at wrapped
  rw [Nat.add_comm] at shifted
  omega

end FirstCome
