import RGraph.Runtime.Scheduler
import Mathlib.Algebra.BigOperators.Fin
import Mathlib.Data.Fintype.Basic

/-!
# The scheduler lets no lane wait long

`allowance lane w` bounds the requests of other lanes that a worker at `w`
starts before it takes one from `lane`. Every start of another lane uses one
of them up, and nothing else raises it while the lane is not empty. `turn lane
w` bounds in the same way how often the worker has to get on until then, so a
worker that goes on does take the request.
-/

namespace RGraph.Runtime

variable {α C : Type} {ch : Channel α C} {lane k : Fin 4} {s : Scheduler C}

def below (lane : Fin 4) : Nat := ∑ j with j < lane, LANE_WEIGHTS j

def above (lane : Fin 4) : Nat := ∑ j with lane < j, LANE_WEIGHTS j

def between (k lane : Fin 4) : Nat := ∑ j with k < j ∧ j < lane, LANE_WEIGHTS j

def allowance (lane : Fin 4) : Worker → Nat
  | .top => below lane
  | .drain k budget served =>
    if k < lane then budget + between k lane
    else if k = lane ∧ 0 < budget then 0
    -- the lane's turn is over; an idle cycle ends with one more receive
    else below lane + max (budget + above k) (if served then 0 else 1)
  | .blocked => below lane + 1
  | .stopped => 0

/-- The moves from the top of the loop on: each lane before costs one more than
its weight, when it is found empty or its budget is used up. -/
def turnFromTop (lane : Fin 4) : Nat := 2 + ∑ j with j < lane, (LANE_WEIGHTS j + 1)

def turn (lane : Fin 4) : Worker → Nat
  | .top => turnFromTop lane
  | .drain k budget _ =>
    if k < lane then budget + 2 + ∑ j with k < j ∧ j < lane, (LANE_WEIGHTS j + 1)
    else if k = lane ∧ 0 < budget then 1
    -- through the rest of the cycle and its end
    else budget + 2 + ∑ j with k < j, (LANE_WEIGHTS j + 1) + turnFromTop lane
  | .blocked => 1 + turnFromTop lane
  | .stopped => 0

/-- No lane has more than its weight left. -/
def Worker.Budgeted : Worker → Prop
  | .drain k budget _ => budget ≤ LANE_WEIGHTS k
  | _ => True

theorem allowance_drain_le : ∀ lane k : Fin 4, ∀ budget ≤ LANE_WEIGHTS k,
    ∀ served, allowance lane (.drain k budget served) ≤ 15 ∧
      turn lane (.drain k budget served) ≤ 21 := by
  decide +kernel

theorem allowance_le {w : Worker} (h : w.Budgeted) : allowance lane w ≤ 15 ∧ turn lane w ≤ 21 := by
  cases w with
  | top | blocked => revert lane; decide
  | stopped => exact ⟨Nat.zero_le _, Nat.zero_le _⟩
  | drain k budget served => exact allowance_drain_le lane k budget h served

theorem allowance_cycle : allowance lane (.drain 0 (LANE_WEIGHTS 0) false) ≤ below lane ∧
    turn lane (.drain 0 (LANE_WEIGHTS 0) false) + 1 ≤ turnFromTop lane := by
  revert lane
  decide

theorem allowance_advance (served : Bool) :
    allowance lane (advance k served) ≤ allowance lane (.drain k 0 served) ∧
      turn lane (advance k served) + 1 ≤ turn lane (.drain k 0 served) := by
  revert lane k served
  decide

theorem allowance_mono (h : k ≠ lane) (n : Nat) (served : Bool) :
    allowance lane (.drain k 0 served) ≤ allowance lane (.drain k (n + 1) served) ∧
      turn lane (.drain k 0 served) ≤ turn lane (.drain k (n + 1) served) := by
  simp only [allowance, turn, h, false_and, if_false]
  split <;> omega

/-- A start of another lane is paid for. -/
theorem allowance_taken (h : k ≠ lane) (n : Nat) (served : Bool) :
    allowance lane (.drain k n true) + 1 ≤ allowance lane (.drain k (n + 1) served) ∧
      turn lane (.drain k n true) + 1 ≤ turn lane (.drain k (n + 1) served) := by
  simp only [allowance, turn, h, false_and, if_false, if_true]
  split <;> omega

theorem budgeted_advance (served : Bool) : (advance k served).Budgeted := by
  unfold advance
  split
  · exact le_rfl
  · cases served <;> trivial

theorem budgeted_recv {taken empty : Worker} (ht : taken.Budgeted)
    (he : empty.Budgeted) : (s.recv ch k taken empty).2.worker.Budgeted := by
  unfold Scheduler.recv
  split
  · exact he
  · exact ht

theorem budgeted_step (h : s.worker.Budgeted) (a : Action α) : (s.step ch a).2.worker.Budgeted := by
  obtain ⟨lanes, shutdown, w⟩ := s
  cases a with
  | send | stop => exact h
  | timeout =>
    rw [Scheduler.step]
    split
    · trivial
    · exact h
  | work =>
    cases w with
    | top =>
      cases shutdown
      · exact le_rfl
      · trivial
    | drain k budget served =>
      cases budget with
      | zero => exact budgeted_advance served
      | succ n => exact budgeted_recv (Nat.le_of_succ_le h) (budgeted_advance served)
    | blocked => exact budgeted_recv trivial trivial
    | stopped => trivial

theorem budgeted_run (as : List (Action α)) : ∀ {s : Scheduler C},
    s.worker.Budgeted → (s.run ch as).2.worker.Budgeted := by
  induction as with
  | nil => exact id
  | cons a as ih => exact fun h => ih (budgeted_step h a)

/-! ## Waiting -/

/-- What has been paid when the lane waits on, for `started` requests of other
lanes and `moved` moves. -/
def Paid (lane : Fin 4) (w w' : Worker) (started moved : Nat) : Prop :=
  allowance lane w' + started ≤ allowance lane w ∧ turn lane w' + moved ≤ turn lane w

/-- The lane's turn has come, or it waits on and pays for what is done. -/
def Waits (ch : Channel α C) (lane : Fin 4) (s : Scheduler C) (moved : Nat)
    (r : Option (Fin 4 × α) × Scheduler C) : Prop :=
  (∃ req, r.1 = some (lane, req)) ∨ (ch.queued (r.2.lanes lane) ≠ [] ∧
    Paid lane s.worker r.2.worker r.1.toList.length moved)

theorem waits_recv (hch : ch.Fifo) {taken empty : Worker} {moved : Nat}
    (h : ch.queued (s.lanes lane) ≠ []) (ht : k ≠ lane → Paid lane s.worker taken 1 moved)
    (he : k ≠ lane → ch.tryRecv (s.lanes k) = none → Paid lane s.worker empty 0 moved) :
    Waits ch lane s moved (s.recv ch k taken empty) := by
  unfold Scheduler.recv
  split
  · next hnone =>
      have hk : k ≠ lane := by
        rintro rfl
        exact h ((hch.none _).mp hnone)
      exact .inr ⟨h, he hk hnone⟩
  · next req rest hsome =>
      by_cases hk : k = lane
      · subst hk
        exact .inl ⟨req, rfl⟩
      · refine .inr ⟨?_, ht hk⟩
        simpa [Function.update_of_ne (Ne.symm hk)] using h

theorem waits_step (hch : ch.Fifo) (h : ch.queued (s.lanes lane) ≠ []) (a : Action α) :
    Waits ch lane s (s.moves ch a).toNat (s.step ch a) := by
  obtain ⟨lanes, shutdown, w⟩ := s
  cases a with
  | send k req =>
    refine .inr ⟨?_, le_rfl, le_rfl⟩
    by_cases hk : lane = k
    · simp [Scheduler.step, hk, hch.send]
    · simpa [Scheduler.step, hk] using h
  | stop => exact .inr ⟨h, le_rfl, le_rfl⟩
  | timeout =>
    rw [Scheduler.step]
    split
    · next hw =>
        obtain rfl : w = .blocked := hw
        exact .inr ⟨h, Nat.le_succ _, (Nat.add_comm _ _).le⟩
    · next hw =>
        have hasleep : (w == .blocked) = false := beq_eq_false_iff_ne.mpr hw
        refine .inr ⟨h, le_rfl, ?_⟩
        simp [Scheduler.moves, hasleep]
  | work =>
    cases w with
    | top =>
      refine .inr ⟨by cases shutdown <;> exact h, ?_⟩
      cases shutdown
      · exact allowance_cycle
      · exact ⟨Nat.zero_le _, Nat.le_add_right_of_le (Nat.le_succ 1)⟩
    | drain k budget served =>
      cases budget with
      | zero => exact .inr ⟨h, allowance_advance served⟩
      | succ n =>
        refine waits_recv hch h (fun hk => allowance_taken hk n served) fun hk _ => ?_
        have hmono := allowance_mono hk n served
        exact ⟨(allowance_advance served).1.trans hmono.1,
          (allowance_advance served).2.trans hmono.2⟩
    | blocked =>
      refine waits_recv hch h (fun _ => ⟨le_rfl, ?_⟩) fun _ hnone => ⟨le_rfl, ?_⟩
      · exact (Nat.add_le_add_left (Bool.toNat_le _) _).trans (Nat.add_comm _ _).le
      · simp [Scheduler.moves, hnone]
    | stopped => exact .inr ⟨h, le_rfl, le_rfl⟩

theorem length_takeWhile_start (p : Fin 4 × α → Bool)
    (start : Option (Fin 4 × α)) (starts : List (Fin 4 × α)) :
    ((start.toList ++ starts).takeWhile p).length ≤
      (starts.takeWhile p).length + start.toList.length := by
  cases start with
  | none => exact le_rfl
  | some x => cases hp : p x <;> simp [hp]

theorem length_others_le (hch : ch.Fifo) (as : List (Action α)) :
    ∀ {s : Scheduler C}, ch.queued (s.lanes lane) ≠ [] →
      ((s.run ch as).1.takeWhile (·.1 ≠ lane)).length ≤ allowance lane s.worker := by
  induction as with
  | nil => exact fun _ => Nat.zero_le _
  | cons a as ih =>
    intro s h
    rcases waits_step hch h a with ⟨req, hstart⟩ | ⟨h', hpaid⟩
    · simp [Scheduler.run, hstart]
    · calc ((s.run ch (a :: as)).1.takeWhile (·.1 ≠ lane)).length
          ≤ (((s.step ch a).2.run ch as).1.takeWhile (·.1 ≠ lane)).length +
              (s.step ch a).1.toList.length := length_takeWhile_start _ _ _
        _ ≤ allowance lane (s.step ch a).2.worker +
              (s.step ch a).1.toList.length := Nat.add_le_add_right (ih h') _
        _ ≤ allowance lane s.worker := hpaid.1

/-- The requests of a lane, among those started. -/
def onLane (lane : Fin 4) (starts : List (Fin 4 × α)) : List α :=
  starts.filterMap fun (k, req) => if k = lane then some req else none

/-- A worker that gets on often enough takes a request from the lane. -/
theorem onLane_ne_nil (hch : ch.Fifo) (as : List (Action α)) :
    ∀ {s : Scheduler C}, ch.queued (s.lanes lane) ≠ [] →
      turn lane s.worker < s.moveCount ch as → onLane lane (s.run ch as).1 ≠ [] := by
  induction as with
  | nil => exact fun _ h => absurd h (Nat.not_lt_zero _)
  | cons a as ih =>
    intro s h hmoves
    rw [Scheduler.run, onLane, List.filterMap_append]
    rcases waits_step hch h a with ⟨req, hstart⟩ | ⟨h', hpaid⟩
    · simp [hstart]
    · have hrest := ih h' (by
        have hle := hpaid.2
        rw [Scheduler.moveCount] at hmoves
        omega)
      exact fun hnil => hrest (List.append_eq_nil_iff.mp hnil).2

/-- The requests sent to a lane. -/
def sentTo (lane : Fin 4) (as : List (Action α)) : List α :=
  as.filterMap fun
    | .send k req => if k = lane then some req else none
    | _ => none

theorem onLane_recv (hch : ch.Fifo) (taken empty : Worker) :
    onLane lane (s.recv ch k taken empty).1.toList ++
      ch.queued ((s.recv ch k taken empty).2.lanes lane) = ch.queued (s.lanes lane) := by
  unfold Scheduler.recv
  split
  · rfl
  · next req rest hsome =>
      by_cases hk : k = lane
      · subst hk
        simp [onLane, hch.some _ _ _ hsome]
      · simp [onLane, hk, Function.update_of_ne (Ne.symm hk)]

theorem onLane_step (hch : ch.Fifo) (a : Action α) :
    onLane lane (s.step ch a).1.toList ++ ch.queued ((s.step ch a).2.lanes lane) =
      ch.queued (s.lanes lane) ++ sentTo lane [a] := by
  obtain ⟨lanes, shutdown, w⟩ := s
  cases a with
  | send k req =>
    by_cases hk : k = lane
    · subst hk
      simp [Scheduler.step, onLane, sentTo, hch.send]
    · simp [Scheduler.step, onLane, sentTo, hk, Function.update_of_ne (Ne.symm hk)]
  | stop => exact (List.append_nil _).symm
  | timeout =>
    rw [Scheduler.step]
    split <;> exact (List.append_nil _).symm
  | work =>
    refine Eq.trans ?_ (List.append_nil _).symm
    cases w with
    | top => cases shutdown <;> rfl
    | drain k budget served =>
      cases budget with
      | zero => rfl
      | succ n => exact onLane_recv hch _ _
    | blocked => exact onLane_recv hch _ _
    | stopped => rfl

theorem onLane_run (hch : ch.Fifo) (as : List (Action α)) : ∀ {s : Scheduler C},
    onLane lane (s.run ch as).1 ++ ch.queued ((s.run ch as).2.lanes lane) =
      ch.queued (s.lanes lane) ++ sentTo lane as := by
  induction as with
  | nil => exact (List.append_nil _).symm
  | cons a as ih =>
    intro s
    calc onLane lane (s.run ch (a :: as)).1 ++ ch.queued ((s.run ch (a :: as)).2.lanes lane)
        = onLane lane (s.step ch a).1.toList ++ (onLane lane ((s.step ch a).2.run ch as).1 ++
              ch.queued (((s.step ch a).2.run ch as).2.lanes lane)) := by
          rw [Scheduler.run, onLane, List.filterMap_append, List.append_assoc]
          rfl
      _ = (onLane lane (s.step ch a).1.toList ++ ch.queued ((s.step ch a).2.lanes lane)) ++
            sentTo lane as := by rw [ih, List.append_assoc]
      _ = ch.queued (s.lanes lane) ++ sentTo lane (a :: as) := by
          rw [onLane_step hch, List.append_assoc, sentTo, sentTo, sentTo, ← List.filterMap_append]
          rfl

/-- From any state the worker can be in, with any arrivals after it: while a
request is at the head of a lane, at most fifteen of other lanes go before it,
and it is started by the time the worker has got on 22 times; the requests of a
lane are started as they were sent, those waiting first. -/
theorem lanes_are_served (hch : ch.Fifo) (before after : List (Action α)) (lane : Fin 4) :
    let s := ((Scheduler.init ch).run ch before).2
    (ch.queued (s.lanes lane) ≠ [] →
      ((s.run ch after).1.takeWhile (·.1 ≠ lane)).length ≤ 15 ∧
      (22 ≤ s.moveCount ch after →
        (onLane lane (s.run ch after).1).head? = (ch.queued (s.lanes lane)).head?)) ∧
    onLane lane (s.run ch after).1 ++ ch.queued ((s.run ch after).2.lanes lane) =
      ch.queued (s.lanes lane) ++ sentTo lane after := by
  intro s
  have hbound : allowance lane s.worker ≤ 15 ∧ turn lane s.worker ≤ 21 :=
    allowance_le (budgeted_run before trivial)
  have hfifo := @onLane_run _ _ _ lane hch after s
  refine ⟨fun h => ⟨(length_others_le hch after h).trans hbound.1, fun hmoves => ?_⟩, hfifo⟩
  have hstarted := onLane_ne_nil hch after h (hbound.2.trans_lt hmoves)
  rw [← List.head?_append_of_ne_nil _ hstarted, hfifo, List.head?_append_of_ne_nil _ h]

/-- A queue as a list. -/
def listChannel : Channel Nat (List Nat) where
  empty := []
  send c req := c ++ [req]
  tryRecv
    | [] => none
    | req :: rest => some (req, rest)
  queued c := c

/-- A request of the last lane, when the first lane is never empty. -/
theorem lanes_are_served_busy :
    let before : List (Action Nat) := [.work, .send 3 7, .send 0 1]
    let after := (List.range 22).flatMap fun i => [.send 0 i, .work]
    let s := ((Scheduler.init listChannel).run listChannel before).2
    (onLane 3 (s.run listChannel after).1).head? = some 7 := by
  have hfifo : listChannel.Fifo := by
    refine ⟨rfl, fun _ _ => rfl, fun c => ?_, fun c req rest h => ?_⟩
    · cases c <;> simp [listChannel]
    · cases c <;> simp_all [listChannel]
  exact ((lanes_are_served hfifo _ _ 3).1 (by decide)).2 (by decide)

end RGraph.Runtime
