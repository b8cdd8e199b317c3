import Mathlib
/-!
# Programs that can stop without a result

A call ends in one of three ways: with a result, with a panic (an index out of
range, a failed assertion, an `unwrap` of nothing), or never. `Res` has the
result or the way it failed. A loop whose termination depends on the data it
runs over is given the largest number of rounds it can make without coming
back to a place where it has been; a loop that uses them up does not end.
-/

namespace RGraph.Lib

inductive Fault where
  | panic
  | diverge
  deriving DecidableEq, Repr

abbrev Res (α : Type) := Except Fault α

namespace Res

/-- `v[i]` and `unwrap`: what is not there cannot be read. -/
def unwrap {α : Type} : Option α → Res α
  | some a => .ok a
  | none => .error .panic

@[simp] theorem ok_bind {α β : Type} (a : α) (f : α → Res β) :
    (Except.ok a >>= f : Res β) = f a := rfl

end Res

/-- A method with `&mut self`: it may change the state, then return `Ok` or
`Err` (the changes stay either way), or not come back. -/
def Call (σ ε α : Type) := σ → Res (Except ε α × σ)

namespace Call

variable {σ ε α β : Type}

instance : Monad (Call σ ε) where
  pure a := fun s => .ok (.ok a, s)
  bind x f := fun s =>
    match x s with
    | .error e => .error e
    | .ok (.error e, s) => .ok (.error e, s)
    | .ok (.ok a, s) => f a s

def lift (x : Res α) : Call σ ε α := fun s =>
  match x with
  | .error e => .error e
  | .ok a => .ok (.ok a, s)

def panic : Call σ ε α := fun _ => .error .panic

/-- `return Err(e)` -/
def fail (e : ε) : Call σ ε α := fun s => .ok (.error e, s)

/-- `ok_or(e)?` -/
def require (e : ε) : Option α → Call σ ε α
  | none => fail e
  | some a => pure a

/-- A computation that leaves the state alone and returns `Ok` or `Err`. -/
def ofResult (x : Res (Except ε α)) : Call σ ε α := fun s =>
  match x with
  | .error e => .error e
  | .ok r => .ok (r, s)

def get : Call σ ε σ := fun s => .ok (.ok s, s)

def modify (f : σ → σ) : Call σ ε Unit := fun s => .ok (.ok (), f s)

/-- `if c { x?; }` -/
def when (c : Bool) (x : Call σ ε Unit) : Call σ ε Unit :=
  if c then x else pure ()

@[simp] theorem lift_bind (a : α) (f : α → Call σ ε β) : (lift (.ok a) >>= f) = f a := rfl

@[simp] theorem require_bind (e : ε) (a : α) (f : α → Call σ ε β) :
    (require e (some a) >>= f) = f a := rfl

@[simp] theorem get_bind (f : σ → Call σ ε β) (s : σ) : (get >>= f) s = f s s := rfl

@[simp] theorem modify_bind (g : σ → σ) (f : Unit → Call σ ε β) (s : σ) :
    (modify g >>= f) s = f () (g s) := rfl

/-- A call that went well, and what comes after it. -/
theorem bind_of_ok {x : Call σ ε α} {s s' : σ} {a : α}
    (h : x s = .ok (.ok a, s')) (f : α → Call σ ε β) : (x >>= f) s = f a s' := by
  simp only [bind, h]

/-- What a call answers; the state it leaves aside. -/
def answer (x : Call σ ε α) (s : σ) : Res (Except ε α) := (x s).map Prod.fst

/-- The state a call leaves. -/
def after (x : Call σ ε α) (s : σ) : σ :=
  match x s with
  | .ok (_, s') => s'
  | .error _ => s

theorem after_eq {x : Call σ ε α} {s s' : σ} {r : Except ε α}
    (h : x s = .ok (r, s')) : after x s = s' := by
  simp only [after, h]

theorem eq_of_answer {x : Call σ ε α} {s : σ} {r : Except ε α}
    (h : answer x s = .ok r) : x s = .ok (r, after x s) := by
  rw [answer] at h
  rw [after]
  cases hx : x s with
  | error fault =>
    rw [hx] at h
    cases h
  | ok y =>
    rw [hx] at h
    cases h
    rfl

/-! ### What a call that has returned did -/

variable {x : Call σ ε α} {f : α → Call σ ε β} {s s' : σ} {a : α} {b : β}
  {e err : ε}

theorem bind_ok : (x >>= f) s = .ok (.ok b, s') ↔
    ∃ a s₁, x s = .ok (.ok a, s₁) ∧ f a s₁ = .ok (.ok b, s') := by
  simp only [bind]
  constructor
  · intro h
    split at h
    · cases h
    · cases h
    · next a s₁ hx => exact ⟨a, s₁, hx, h⟩
  · rintro ⟨a, s₁, hx, hf⟩
    rw [hx]
    exact hf

theorem bind_err : (x >>= f) s = .ok (.error err, s') ↔ x s = .ok (.error err, s') ∨
      ∃ a s₁, x s = .ok (.ok a, s₁) ∧ f a s₁ = .ok (.error err, s') := by
  simp only [bind]
  constructor
  · intro h
    split at h
    · cases h
    · next e s₁ hx =>
        cases h
        exact .inl hx
    · next a s₁ hx => exact .inr ⟨a, s₁, hx, h⟩
  · rintro (hx | ⟨a, s₁, hx, hf⟩)
    · rw [hx]
    · rw [hx]
      exact hf

/-- However two calls in a row return, the first has failed or the second has
returned so. -/
theorem bind_cases {r : Except ε β} (h : (x >>= f) s = .ok (r, s')) :
    (∃ err, r = .error err ∧ x s = .ok (.error err, s')) ∨
      ∃ a s₁, x s = .ok (.ok a, s₁) ∧ f a s₁ = .ok (r, s') := by
  cases r with
  | ok b => exact .inr (bind_ok.mp h)
  | error err =>
    rcases bind_err.mp h with hx | hf
    · exact .inl ⟨err, rfl, hx⟩
    · exact .inr hf

theorem pure_ok {a' : α} : (pure a : Call σ ε α) s = .ok (.ok a', s') ↔ a = a' ∧ s = s' := by
  show Except.ok (Except.ok a, s) = _ ↔ _
  simp

theorem pure_not_err : (pure a : Call σ ε α) s ≠ .ok (.error err, s') := by
  intro h
  cases h

theorem fail_not_ok : (fail e : Call σ ε α) s ≠ .ok (.ok a, s') := by
  intro h
  cases h

theorem fail_err : (fail e : Call σ ε α) s = .ok (.error err, s') ↔ e = err ∧ s = s' := by
  show Except.ok (Except.error e, s) = _ ↔ _
  simp

theorem require_ok {o : Option α} :
    (require e o : Call σ ε α) s = .ok (.ok a, s') ↔ o = some a ∧ s = s' := by
  cases o with
  | none => simp [require, fail_not_ok]
  | some b => simp [require, pure_ok]

theorem require_err {o : Option α} : (require e o : Call σ ε α) s = .ok (.error err, s') ↔
      o = none ∧ e = err ∧ s = s' := by
  cases o with
  | none => simp [require, fail_err]
  | some b => simp [require, pure_not_err]

theorem modify_ok {g : σ → σ} {u : Unit} :
    (modify g : Call σ ε Unit) s = .ok (.ok u, s') ↔ g s = s' := by
  show Except.ok (Except.ok (), g s) = _ ↔ _
  simp

theorem modify_not_err {g : σ → σ} : (modify g : Call σ ε Unit) s ≠ .ok (.error err, s') := by
  intro h
  cases h

theorem lift_ok {r : Res α} : (lift r : Call σ ε α) s = .ok (.ok a, s') ↔ r = .ok a ∧ s = s' := by
  cases r with
  | error fault => simp [lift]
  | ok b => simp [lift]

theorem ofResult_ok {r : Res (Except ε α)} : (ofResult r : Call σ ε α) s = .ok (.ok a, s') ↔
      r = .ok (.ok a) ∧ s = s' := by
  cases r with
  | error fault => simp [ofResult]
  | ok b => simp [ofResult]

/-! ### What a call leaves alone -/

/-- However the call returns, the states before and after are related. -/
def Frame (R : σ → σ → Prop) (x : Call σ ε α) : Prop := ∀ s r s', x s = .ok (r, s') → R s s'

namespace Frame

variable {R : σ → σ → Prop}

/-- What the second call does must not undo what the first has done. -/
theorem bind_of {S : σ → σ → Prop} (hx : Frame R x)
    (hf : ∀ a, Frame S (f a)) (h : ∀ s s₁ s₂, R s s₁ → S s₁ s₂ → R s s₂) : Frame R (x >>= f) := by
  intro s r s' hs
  cases r with
  | ok b =>
    obtain ⟨a, s₁, hxs, hfs⟩ := bind_ok.mp hs
    exact h s s₁ s' (hx s _ s₁ hxs) (hf a s₁ _ s' hfs)
  | error err =>
    rcases bind_err.mp hs with hxs | ⟨a, s₁, hxs, hfs⟩
    · exact hx s _ s' hxs
    · exact h s s₁ s' (hx s _ s₁ hxs) (hf a s₁ _ s' hfs)

theorem bind [IsTrans σ R] (hx : Frame R x) (hf : ∀ a, Frame R (f a)) :
    Frame R (x >>= f) := hx.bind_of hf IsTrans.trans

section

variable [Std.Refl R]

theorem pure (a : α) : Frame R (Pure.pure a : Call σ ε α) := by
  intro s r s' h
  cases h
  exact Std.Refl.refl s

theorem fail (e : ε) : Frame R (Call.fail e : Call σ ε α) := by
  intro s r s' h
  cases h
  exact Std.Refl.refl s

theorem get : Frame R (Call.get : Call σ ε σ) := by
  intro s r s' h
  cases h
  exact Std.Refl.refl s

theorem require (e : ε) (o : Option α) : Frame R (Call.require e o : Call σ ε α) := by
  cases o with
  | none => exact fail e
  | some a => exact pure a

theorem lift (x : Res α) : Frame R (Call.lift x : Call σ ε α) := by
  intro s r s' h
  cases x with
  | error fault => cases h
  | ok a =>
    cases h
    exact Std.Refl.refl s

theorem ofResult (x : Res (Except ε α)) : Frame R (Call.ofResult x : Call σ ε α) := by
  intro s r s' h
  cases x with
  | error fault => cases h
  | ok a =>
    cases h
    exact Std.Refl.refl s

theorem when (c : Bool) {x : Call σ ε Unit} (hx : Frame R x) : Frame R (Call.when c x) := by
  cases c with
  | true => exact hx
  | false => exact pure ()

end

theorem modify {g : σ → σ} (hg : ∀ s, R s (g s)) : Frame R (Call.modify g : Call σ ε Unit) := by
  intro s r s' h
  cases h
  exact hg s

theorem mono {R' : σ → σ → Prop} (hx : Frame R x) (h : ∀ s s', R s s' → R' s s') : Frame R' x :=
  fun s r s' hs => h s s' (hx s r s' hs)

end Frame

instance : IsPreorder σ fun s s' => s' = s where
  refl _ := rfl
  trans _ _ _ h h' := h'.trans h

/-- A call that keeps `P` is one whose frame is `P s → P s'`. -/
instance (P : σ → Prop) : IsPreorder σ fun s s' => P s → P s' where
  refl _ := id
  trans _ _ _ h h' := h' ∘ h

/-! ### What holds however a call returns -/

/-- However the call returns, `P` holds of the state then. -/
def Leaves (P : σ → Prop) (x : Call σ ε α) (s : σ) : Prop := ∀ r s', x s = .ok (r, s') → P s'

namespace Leaves

variable {P : σ → Prop}

theorem bind (hx : Leaves P x s) (hf : ∀ a s', x s = .ok (.ok a, s') → Leaves P (f a) s') :
    Leaves P (x >>= f) s := by
  intro r s' h
  rcases bind_cases h with ⟨err, -, hxs⟩ | ⟨a, s₁, hxs, hfs⟩
  · exact hx _ s' hxs
  · exact hf a s₁ hxs _ s' hfs

theorem of_frame (hx : Frame (fun s s' => P s → P s') x) (hs : P s) : Leaves P x s :=
  fun r s' h => hx s r s' h hs

theorem when {c : Bool} {x : Call σ ε Unit} (hx : Leaves P x s) (hs : P s) :
    Leaves P (Call.when c x) s := by
  cases c with
  | true => exact hx
  | false =>
    intro r s' h
    cases h
    exact hs

theorem mono {P' : σ → Prop} (hx : Leaves P x s) (h : ∀ s, P s → P' s) : Leaves P' x s :=
  fun r s' hs => h s' (hx r s' hs)

end Leaves

/-! ### What a call leaves open -/

/-- The call returns `Err`. -/
def Fails (x : Call σ ε α) (s : σ) : Prop := ∃ err s', x s = .ok (.error err, s')

/-- The call returns `Ok`, and `P` holds of its result and the state then. -/
def Then (x : Call σ ε α) (P : α → σ → Prop) (s : σ) : Prop :=
  ∃ a s', x s = .ok (.ok a, s') ∧ P a s'

/-- The call is made while something is open. It is still open if the call
fails in a way that `escape` describes, closed if it fails in another way,
and `post` holds if the call succeeds. -/
def Exits (opened closed escape post : σ → Prop) (x : Call σ ε α) : Prop :=
  ∀ s r s', opened s → x s = .ok (r, s') → match r with
    | .ok _ => ¬ escape s ∧ post s'
    | .error _ => escape s ∧ opened s' ∨ ¬ escape s ∧ closed s'

namespace Exits

variable {opened closed post C : σ → Prop} {D : α → σ → Prop}

/-- A failure that nothing is done about. -/
theorem of_frame (hx : Frame (fun s s' => opened s → opened s') x) :
    Exits opened closed (Fails x) opened x := by
  intro s r s' hs h
  cases r with
  | ok a =>
    refine ⟨fun hf => ?_, hx s _ s' h hs⟩
    obtain ⟨err, s₁, hf⟩ := hf
    rw [h] at hf
    cases hf
  | error err => exact .inl ⟨⟨err, s', h⟩, hx s _ s' h hs⟩

/-- Two calls in a row. -/
theorem bind (hx : Exits opened closed C opened x)
    (hf : ∀ a, Exits opened closed (D a) post (f a)) :
    Exits opened closed (fun s => C s ∨ Then x D s) post (x >>= f) := by
  intro s r s' hs h
  have hthen : ∀ a s₁, x s = .ok (.ok a, s₁) → ¬ C s → ((C s ∨ Then x D s) ↔ D a s₁) := by
    intro a s₁ hxs hC
    refine ⟨fun hd => ?_, fun hd => Or.inr ⟨a, s₁, hxs, hd⟩⟩
    obtain ⟨a', s₂, hxs', hd⟩ := hd.resolve_left hC
    rw [hxs] at hxs'
    cases hxs'
    exact hd
  cases r with
  | ok b =>
    obtain ⟨a, s₁, hxs, hfs⟩ := bind_ok.mp h
    obtain ⟨hC, hs₁⟩ := hx s _ s₁ hs hxs
    obtain ⟨hD, hpost⟩ := hf a s₁ _ s' hs₁ hfs
    exact ⟨fun hd => hD ((hthen a s₁ hxs hC).mp hd), hpost⟩
  | error err =>
    rcases bind_err.mp h with hxs | ⟨a, s₁, hxs, hfs⟩
    · rcases hx s _ s' hs hxs with ⟨hC, hs'⟩ | ⟨hC, hs'⟩
      · exact .inl ⟨Or.inl hC, hs'⟩
      · refine .inr ⟨fun hd => ?_, hs'⟩
        obtain ⟨a, s₁, hxs', -⟩ := hd.resolve_left hC
        rw [hxs] at hxs'
        cases hxs'
    · obtain ⟨hC, hs₁⟩ := hx s _ s₁ hs hxs
      rcases hf a s₁ _ s' hs₁ hfs with ⟨hD, hs'⟩ | ⟨hD, hs'⟩
      · exact .inl ⟨(hthen a s₁ hxs hC).mpr hD, hs'⟩
      · exact .inr ⟨fun hd => hD ((hthen a s₁ hxs hC).mp hd), hs'⟩

theorem congr {C' : σ → Prop} (hx : Exits opened closed C post x)
    (h : ∀ s, C s ↔ C' s) : Exits opened closed C' post x := by
  rw [← funext fun s => propext (h s)]
  exact hx

/-- However the call returns, either it escaped or what was open is closed. -/
theorem returned {r : Except ε α} (hx : Exits opened closed C closed x)
    (hs : opened s) (h : x s = .ok (r, s')) : C s ∧ opened s' ∨ ¬ C s ∧ closed s' := by
  cases r with
  | ok a => exact .inr (hx s _ s' hs h)
  | error err => exact hx s _ s' hs h

end Exits

end Call

/-- The bisection loop: `lo` and `hi` close in on the first index where `test`
fails. The interval shrinks in every round, so its length bounds the rounds. -/
def bisect (test : Nat → Res Bool) : Nat → Nat → Nat → Res Nat
  | 0, lo, _ => .ok lo
  | rounds + 1, lo, hi =>
    if lo < hi then do
      let mid := (lo + hi) / 2
      if ← test mid then bisect test rounds (mid + 1) hi
      else bisect test rounds lo mid
    else .ok lo

/-- On a test that holds exactly below `n`, bisection finds `n`. -/
theorem bisect_eq {test : Nat → Res Bool} {n : Nat} : ∀ {rounds lo hi : Nat},
    lo ≤ n → n ≤ hi → hi - lo ≤ rounds → (∀ i, i < hi → test i = .ok (decide (i < n))) →
    bisect test rounds lo hi = .ok n := by
  intro rounds
  induction rounds with
  | zero =>
    intro lo hi hlo hhi hr _
    rw [bisect, show lo = n by omega]
  | succ rounds ih =>
    intro lo hi hlo hhi hr ht
    rw [bisect]
    split
    · next hlt =>
        dsimp only
        rw [ht _ (by omega), Res.ok_bind]
        by_cases hmid : (lo + hi) / 2 < n
        · rw [if_pos (decide_eq_true hmid)]
          exact ih (by omega) hhi (by omega) ht
        · rw [if_neg (by simpa using hmid)]
          exact ih hlo (by omega) (by omega) fun i hi' => ht i (by omega)
    · next hge => rw [show lo = n by omega]

end RGraph.Lib
