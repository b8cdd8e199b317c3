import Mathlib

/-!
# Runs of a step function

A component whose operations are always enabled is a function
`step : σ → ο → σ`, and a run of it is a list of operations folded into a
state. Claims about every run are proved one way only: an invariant that the
initial state has and that one step keeps. When a step keeps it only under
some condition on the operation and on the state it starts from, the run has
to meet the condition at every step; that is `Guarded`, and `run_inv` is the
induction, done once.

`Guarded` is closed under prefixes, so an invariant of the final state of
every guarded run is an invariant of every state such a run passes through.
-/

namespace RGraph.Lib

open List

variable {σ ο : Type*}

/-- The state after the operations `ops`, in order. -/
def run (step : σ → ο → σ) (s : σ) (ops : List ο) : σ := ops.foldl step s

/-- Every operation of the run meets `ok` in the state it is applied to. -/
def Guarded (step : σ → ο → σ) (ok : σ → ο → Prop) : σ → List ο → Prop
  | _, [] => True
  | s, o :: ops => ok s o ∧ Guarded step ok (step s o) ops

variable {step : σ → ο → σ} {ok : σ → ο → Prop}

@[simp] theorem run_nil (s : σ) : run step s [] = s := rfl

@[simp] theorem run_cons (s : σ) (o : ο) (ops : List ο) :
    run step s (o :: ops) = run step (step s o) ops := rfl

theorem run_append (s : σ) (as bs : List ο) : run step s (as ++ bs) = run step (run step s as) bs :=
  foldl_append

@[simp] theorem guarded_nil (s : σ) : Guarded step ok s [] := trivial

theorem guarded_cons {s : σ} {o : ο} {ops : List ο} :
    Guarded step ok s (o :: ops) ↔ ok s o ∧ Guarded step ok (step s o) ops :=
  Iff.rfl

theorem guarded_append {as bs : List ο} : ∀ {s : σ}, Guarded step ok s (as ++ bs) ↔
      Guarded step ok s as ∧ Guarded step ok (run step s as) bs := by
  induction as with
  | nil => intro s; simp
  | cons o as ih =>
    intro s
    rw [cons_append, guarded_cons, guarded_cons, ih, run_cons, and_assoc]

/-- A prefix of a guarded run is guarded. -/
theorem Guarded.take {s : σ} {ops : List ο} (h : Guarded step ok s ops)
    (n : Nat) : Guarded step ok s (ops.take n) := by
  rw [← take_append_drop n ops, guarded_append] at h
  exact h.1

/-- Every operation of a guarded run meets the condition where it is. -/
theorem Guarded.at {s : σ} {ops : List ο} (h : Guarded step ok s ops) {n : Nat}
    {o : ο} (ho : ops[n]? = some o) : ok (run step s (ops.take n)) o := by
  obtain ⟨hlt, heq⟩ := List.getElem?_eq_some_iff.mp ho
  rw [← take_append_drop n ops, guarded_append, drop_eq_getElem_cons hlt, heq] at h
  exact h.2.1

/-- A weaker condition is met as well. -/
theorem Guarded.mono {ok' : σ → ο → Prop} (h : ∀ s o, ok s o → ok' s o) :
    ∀ {s : σ} {ops : List ο}, Guarded step ok s ops → Guarded step ok' s ops := by
  intro s ops
  induction ops generalizing s with
  | nil => intro _; trivial
  | cons o ops ih => intro hg; exact ⟨h s o hg.1, ih hg.2⟩

/-- A condition that every step meets is no condition. -/
theorem Guarded.of_forall (h : ∀ s o, ok s o) (s : σ) (ops : List ο) : Guarded step ok s ops := by
  induction ops generalizing s with
  | nil => trivial
  | cons o ops ih => exact ⟨h s o, ih (step s o)⟩

/-- A condition that does not look at the state holds for every operation. -/
theorem Guarded.of_mem {P : ο → Prop} (h : ∀ s o, ok s o → P o) :
    ∀ {s : σ} {ops : List ο}, Guarded step ok s ops → ∀ o ∈ ops, P o := by
  intro s ops
  induction ops generalizing s with
  | nil => exact fun _ _ ho => absurd ho not_mem_nil
  | cons o ops ih =>
    intro hg p hp
    rcases mem_cons.mp hp with rfl | hp
    · exact h s p hg.1
    · exact ih hg.2 p hp

/-- A step function seen through `f`, when what `f` shows of a step depends
only on what it shows of the state. -/
theorem run_map {τ : Type*} {step' : τ → ο → τ} {f : σ → τ}
    (hf : ∀ s o, f (step s o) = step' (f s) o) :
    ∀ (s : σ) (ops : List ο), f (run step s ops) = run step' (f s) ops := by
  intro s ops
  induction ops generalizing s with
  | nil => rfl
  | cons o ops ih => rw [run_cons, run_cons, ih, hf]

theorem guarded_map {τ : Type*} {step' : τ → ο → τ} {ok' : τ → ο → Prop}
    {f : σ → τ} (hf : ∀ s o, f (step s o) = step' (f s) o) :
    ∀ {s : σ} {ops : List ο}, Guarded step (fun s o => ok' (f s) o) s ops ↔
      Guarded step' ok' (f s) ops := by
  intro s ops
  induction ops generalizing s with
  | nil => exact Iff.rfl
  | cons o ops ih => rw [guarded_cons, guarded_cons, ih, hf]

instance Guarded.decidable (step : σ → ο → σ) (ok : σ → ο → Prop)
    [∀ s o, Decidable (ok s o)] :
    ∀ s (ops : List ο), Decidable (Guarded step ok s ops)
  | _, [] => isTrue trivial
  | s, o :: ops =>
    have := Guarded.decidable step ok (step s o) ops
    inferInstanceAs (Decidable (ok s o ∧ Guarded step ok (step s o) ops))

/-- What one guarded step keeps, a guarded run keeps. -/
theorem run_inv {Inv : σ → Prop} (hstep : ∀ s o, Inv s → ok s o → Inv (step s o)) :
    ∀ {s : σ} {ops : List ο}, Inv s → Guarded step ok s ops → Inv (run step s ops) := by
  intro s ops
  induction ops generalizing s with
  | nil => intro hs _; exact hs
  | cons o ops ih =>
    intro hs h
    exact ih (hstep s o hs h.1) h.2

/-- The same, read at every state the run passes through. -/
theorem run_inv_take {Inv : σ → Prop} (hstep : ∀ s o, Inv s → ok s o → Inv (step s o))
    {s : σ} {ops : List ο} (hs : Inv s) (h : Guarded step ok s ops) (n : Nat) :
    Inv (run step s (ops.take n)) :=
  run_inv hstep hs (h.take n)

/-- When the condition of a step is exactly that it keeps the invariant, the
condition of a run is that every state has it. -/
theorem guarded_iff_inv {Inv : σ → Prop} (hstep : ∀ s o, Inv s → (Inv (step s o) ↔ ok s o)) :
    ∀ {s : σ} {ops : List ο}, Inv s →
      (Guarded step ok s ops ↔ ∀ n, Inv (run step s (ops.take n))) := by
  intro s ops hs
  refine ⟨fun h => run_inv_take (fun s o hs => (hstep s o hs).mpr) hs h, ?_⟩
  induction ops generalizing s with
  | nil => exact fun _ => trivial
  | cons o ops ih =>
    intro h
    have hinv : Inv (step s o) := h 1
    exact ⟨(hstep s o hs).mp hinv, ih hinv fun n => h (n + 1)⟩

end RGraph.Lib
