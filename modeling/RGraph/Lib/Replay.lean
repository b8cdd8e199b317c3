import Mathlib

/-!
# Replaying versioned writes

A store maps keys to values, and each value carries a version. Replaying a
write puts its value in place unless the value there is at least as new. A
list of writes in the order of their versions, replayed over a store whose
values are old or come from the list, leaves at each key the newest value the
list has for it. A replay that broke off can be taken up from the start.
-/

namespace RGraph.Lib

open List

variable {κ β : Type*} [DecidableEq κ] (version : β → Nat)

def replayStep (f : κ → β) (w : κ × β) : κ → β :=
  if version w.2 ≤ version (f w.1) then f else Function.update f w.1 w.2

def replay (f : κ → β) (ws : List (κ × β)) : κ → β := ws.foldl (replayStep version) f

variable {version} {f : κ → β} {k : κ} {b : β}

theorem replayStep_ne {w : κ × β} (h : w.1 ≠ k) : replayStep version f w k = f k := by
  rw [replayStep]
  split
  · rfl
  · exact Function.update_of_ne (Ne.symm h) _ _

theorem replayStep_self (c : β) : replayStep version f (k, c) k =
    if version c ≤ version (f k) then f k else c := by
  rw [replayStep]
  split
  · rfl
  · exact Function.update_self _ _ _

theorem replay_of_not_mem {ws : List (κ × β)} (h : ∀ w ∈ ws, w.1 ≠ k) :
    replay version f ws k = f k := by
  induction ws generalizing f with
  | nil => rfl
  | cons w ws ih =>
    have hrest := ih (f := replayStep version f w) fun v hv => h v (mem_cons_of_mem _ hv)
    rw [replayStep_ne (h w mem_cons_self)] at hrest
    exact hrest

/-- Writes of a key that are no newer than what the store has there. -/
theorem replay_of_le {ws : List (κ × β)} (h : ∀ c, (k, c) ∈ ws → version c ≤ version (f k)) :
    replay version f ws k = f k := by
  induction ws generalizing f with
  | nil => rfl
  | cons w ws ih =>
    obtain ⟨k', c⟩ := w
    have hstep : replayStep version f (k', c) k = f k := by
      by_cases hk : k' = k
      · subst hk
        rw [replayStep_self, if_pos (h c mem_cons_self)]
      · exact replayStep_ne hk
    refine (ih fun c' hc' => ?_).trans hstep
    rw [hstep]
    exact h c' (mem_cons_of_mem _ hc')

/-- The newest write of a key wins, if the store has nothing newer there. -/
theorem replay_newest {ws : List (κ × β)}
    (hsorted : ws.Pairwise fun v w => version v.2 < version w.2) (hmem : (k, b) ∈ ws)
    (hlast : ∀ c, (k, c) ∈ ws → version c ≤ version b)
    (hstore : version (f k) < version b ∨ f k = b) : replay version f ws k = b := by
  induction ws generalizing f with
  | nil => cases hmem
  | cons w ws ih =>
    obtain ⟨hw, hsorted⟩ := pairwise_cons.mp hsorted
    have hlast' : ∀ c, (k, c) ∈ ws → version c ≤ version b :=
      fun c hc => hlast c (mem_cons_of_mem _ hc)
    rcases mem_cons.mp hmem with rfl | hin
    · -- the write itself: all that follow are newer, so of other keys
      have hnone : ∀ v ∈ ws, v.1 ≠ k := by
        rintro ⟨_, c⟩ hv rfl
        exact Nat.not_lt.mpr (hlast' c hv) (hw _ hv)
      refine (replay_of_not_mem hnone).trans ?_
      rw [replayStep_self]
      split
      · next hle => exact hstore.resolve_left (Nat.not_lt.mpr hle)
      · rfl
    · refine ih hsorted hin hlast' ?_
      obtain ⟨k', c⟩ := w
      by_cases hk : k' = k
      · subst hk
        rw [replayStep_self]
        split
        · exact hstore
        · exact .inl (hw _ hin)
      · rw [replayStep_ne hk]
        exact hstore

theorem replay_append (f : κ → β) (vs ws : List (κ × β)) :
    replay version f (vs ++ ws) = replay version (replay version f vs) ws :=
  foldl_append

/-- What a key ends with depends on what it starts with. -/
theorem replay_congr {g : κ → β} {ws : List (κ × β)} (h : f k = g k) :
    replay version f ws k = replay version g ws k := by
  induction ws generalizing f g with
  | nil => exact h
  | cons w ws ih =>
    refine ih ?_
    obtain ⟨k', c⟩ := w
    by_cases hk : k' = k
    · subst hk
      rw [replayStep_self, replayStep_self, h]
    · rw [replayStep_ne hk, replayStep_ne hk, h]

/-- A key ends at least as new as it was, and as every write of it. -/
theorem le_version_replay {n : Nat} {ws : List (κ × β)}
    (h : n ≤ version (f k) ∨ ∃ c, (k, c) ∈ ws ∧ n ≤ version c) :
    n ≤ version (replay version f ws k) := by
  induction ws generalizing f with
  | nil => exact h.resolve_right (by simp)
  | cons w ws ih =>
    refine ih ?_
    obtain ⟨k', c⟩ := w
    by_cases hk : k' = k
    · subst hk
      rw [replayStep_self]
      split <;> grind
    · rw [replayStep_ne hk]
      grind

/-- Replay takes up where it broke off, read at one key. -/
theorem replay_resume (f : κ → β) (pre suf : List (κ × β)) :
    replay version (replay version f pre) (pre ++ suf) k = replay version f (pre ++ suf) k := by
  rw [replay_append, replay_append]
  exact replay_congr (replay_of_le fun c hc =>
    le_version_replay (.inr ⟨c, hc, Nat.le_refl _⟩))

end RGraph.Lib
