import RGraph.Index.Latch
import RGraph.Lib.Run

/-!
# Who holds a latch

An entry summarises the guards on its page. The number of readers is the number
of shared guards as long as it does not wrap, and the writer flag is set exactly
while the one exclusive guard lives. The intention flag has no count behind it:
two intention guards set it once, and the first of them to be dropped clears it.
So the summary is right in the runs in which no intention latch is taken on a
page that has one.
-/

namespace RGraph.Index

open RGraph.Lib Function

/-! ## Reading the table -/

namespace LatchTable

theorem entry_update (t : LatchTable) (p q : PageId) (e : Option LatchEntry) :
    entry (update t p e) q = if q = p then e.getD .new else t.entry q := by
  rw [entry, update_apply]
  split <;> rfl

theorem entry_latch (t : LatchTable) (p q : PageId) (mode : LatchMode) :
    (t.latch p mode).2.entry q =
      if q = p ∧ (t.entry p).canAcquire mode then (t.entry p).acquire mode
      else t.entry q := by
  rw [latch]
  by_cases hq : q = p
  · subst hq
    split
    · next hcan => rw [entry_update, if_pos rfl, if_pos ⟨rfl, hcan⟩]; rfl
    · next hcan =>
        rw [entry_update, if_pos rfl, if_neg fun h => hcan h.2]
        rfl
  · rw [if_neg (show ¬ (q = p ∧ _) from fun h => hq h.1)]
    split <;> rw [entry_update, if_neg hq]

theorem fst_latch (t : LatchTable) (p : PageId) (mode : LatchMode) :
    (t.latch p mode).1 = (t.entry p).canAcquire mode := by
  rw [latch]
  split
  · next hcan => exact hcan.symm
  · next hcan => exact (Bool.not_eq_true _ ▸ hcan).symm

theorem eq_new_of_isIdle {e : LatchEntry} (h : e.isIdle = true) : e = .new := by
  obtain ⟨readers, writer, intention, version⟩ := e
  simp only [LatchEntry.isIdle, Bool.and_eq_true, beq_iff_eq, Bool.not_eq_true'] at h
  obtain ⟨⟨⟨rfl, rfl⟩, rfl⟩, rfl⟩ := h
  rfl

/-- Taking an idle entry out changes nothing that can be read. -/
theorem entry_release (t : LatchTable) (p q : PageId) (mode : LatchMode) :
    (t.release p mode).entry q = if q = p ∧ (t p).isSome then (t.entry p).release mode
      else t.entry q := by
  rw [release]
  cases he : t p with
  | none => rw [if_neg fun h => Bool.false_ne_true h.2]
  | some e =>
    have hentry : t.entry p = e := by rw [entry, he]; rfl
    dsimp only
    simp only [entry_update, hentry, Option.isSome_some, and_true]
    split
    · split
      · next hidle => exact (eq_new_of_isIdle hidle).symm
      · rfl
    · rfl

end LatchTable

/-! ## Guards on a page -/

namespace LatchCoupling

/-- The number of live guards on a page, for each mode. -/
def held (s : LatchCoupling) (p : PageId) (mode : LatchMode) : Nat :=
  s.guards.countP fun g => g.pageId = p ∧ g.mode = mode

theorem held_latch (s : LatchCoupling) (thread : Nat) (p q : PageId) (mode : LatchMode) :
    (latchStep s (.latch thread p mode)).held q = if q = p ∧ (s.table.entry p).canAcquire mode then
        update (s.held p) mode (s.held p mode + 1)
      else s.held q := by
  funext mode'
  rw [latchStep]
  simp only [held, LatchTable.fst_latch]
  by_cases hcan : (s.table.entry p).canAcquire mode = true
  · by_cases hq : q = p
    · subst hq
      by_cases hmode : mode' = mode
      · subst hmode
        simp [hcan]
      · have hne : mode ≠ mode' := Ne.symm hmode
        simp [hcan, hmode, hne, held]
    · have hne : p ≠ q := Ne.symm hq
      simp [hcan, hq, hne, held]
  · simp [hcan, held]

variable {s : LatchCoupling} {g : LatchGuard}

theorem held_drop (hg : g ∈ s.guards) (q : PageId) : (latchStep s (.drop g)).held q =
      if q = g.pageId then update (s.held q) g.mode (s.held q g.mode - 1)
      else s.held q := by
  funext mode
  rw [latchStep, if_pos hg, held, List.countP_erase]
  by_cases hq : q = g.pageId
  · subst hq
    by_cases hmode : mode = g.mode
    · subst hmode
      simp [hg, held]
    · have hne : g.mode ≠ mode := Ne.symm hmode
      simp [hmode, hne, held]
  · have hne : g.pageId ≠ q := Ne.symm hq
    simp [hq, hne, held]

theorem held_pos (hg : g ∈ s.guards) : 0 < s.held g.pageId g.mode :=
  List.countP_pos_iff.mpr ⟨g, hg, by simp⟩

/-! What an entry and the guards on its page have to do with each other. -/

variable {P : LatchEntry → (LatchMode → Nat) → Prop}

theorem forall_entry_latch (hs : ∀ q, P (s.table.entry q) (s.held q))
    {thread : Nat} {p : PageId} {mode : LatchMode} (hp : (s.table.entry p).canAcquire mode = true →
      P ((s.table.entry p).acquire mode)
        (update (s.held p) mode (s.held p mode + 1))) (q : PageId) :
    P ((latchStep s (.latch thread p mode)).table.entry q)
      ((latchStep s (.latch thread p mode)).held q) := by
  rw [held_latch]
  show P ((s.table.latch p mode).2.entry q) _
  rw [LatchTable.entry_latch]
  split
  · next h => exact hp h.2
  · exact hs q

theorem forall_entry_drop (hs : ∀ q, P (s.table.entry q) (s.held q))
    (hg : g ∈ s.guards) (hin : P ((s.table.entry g.pageId).release g.mode)
      (update (s.held g.pageId) g.mode (s.held g.pageId g.mode - 1)))
    (hout : s.table g.pageId = none → P .new (update (s.held g.pageId) g.mode
        (s.held g.pageId g.mode - 1))) (q : PageId) :
    P ((latchStep s (.drop g)).table.entry q) ((latchStep s (.drop g)).held q) := by
  rw [held_drop hg, latchStep, if_pos hg, LatchTable.entry_release]
  by_cases hq : q = g.pageId
  · subst hq
    rw [if_pos (show g.pageId = g.pageId from rfl)]
    cases he : s.table g.pageId with
    | none =>
      rw [if_neg fun h => Bool.false_ne_true h.2, LatchTable.entry, he]
      exact hout he
    | some e =>
      rw [if_pos ⟨rfl, rfl⟩]
      exact hin
  · rw [if_neg fun h => hq h.1, if_neg hq]
    exact hs q

end LatchCoupling

/-! ## The writer flag

The flag of a page is set when an exclusive guard is acquired and cleared when
that guard is dropped; nothing else touches it. So it is right in every run. -/

/-- There is one exclusive guard if the flag is set and none if not. -/
def WriterOk (e : LatchEntry) (n : LatchMode → Nat) : Prop := n .exclusive = e.writer.toNat

variable {e : LatchEntry} {mode : LatchMode}

theorem not_writer_of_canAcquire (h : e.canAcquire mode = true) : e.writer = false := by
  cases mode <;> simp only [LatchEntry.canAcquire, Bool.and_eq_true, Bool.not_eq_true'] at h
  · exact h
  · exact h.1.2
  · exact h

variable {n : LatchMode → Nat}

theorem WriterOk.acquire (h : WriterOk e n) (hcan : e.canAcquire mode = true) :
    WriterOk (e.acquire mode) (update n mode (n mode + 1)) := by
  have hw := not_writer_of_canAcquire hcan
  cases mode <;> simp_all [WriterOk, LatchEntry.acquire]

theorem WriterOk.release (h : WriterOk e n) (hn : 0 < n mode) :
    WriterOk (e.release mode) (update n mode (n mode - 1)) := by
  cases mode with
  | shared =>
    rw [LatchEntry.release]
    split <;> simpa [WriterOk] using h
  | exclusive =>
    have hle := Bool.toNat_le e.writer
    rw [WriterOk] at h
    simp only [WriterOk, LatchEntry.release, update_self, Bool.toNat_false]
    omega
  | intention => simpa [WriterOk, LatchEntry.release] using h

/-! ## Exclusive guards are alone -/

/-- The entry is a summary of the guards on its page. -/
structure Summary (e : LatchEntry) (n : LatchMode → Nat) : Prop where
  readers : e.readers = n .shared
  writer : WriterOk e n
  intention : n .intention = e.intention.toNat
  alone : e.writer = true → n .shared = 0 ∧ n .intention = 0

def Summarised (s : LatchCoupling) : Prop := ∀ p, Summary (s.table.entry p) (s.held p)

theorem summarised_new : Summarised .new := fun _ => ⟨rfl, rfl, rfl, nofun⟩

/-- An intention latch is asked for only where there is none, and the number of
readers does not wrap. -/
def Countable (s : LatchCoupling) : LatchEvent → Prop
  | .latch _ pageId mode =>
    (mode = .intention → (s.table.entry pageId).intention = false) ∧
    (mode = .shared → (s.table.entry pageId).readers + 1 < 2 ^ 32)
  | .drop _ => True

instance Countable.decidable : ∀ s event, Decidable (Countable s event)
  | _, .latch _ _ _ => inferInstanceAs (Decidable (_ ∧ _))
  | _, .drop _ => isTrue trivial

theorem Summary.acquire (h : Summary e n) (hcan : e.canAcquire mode = true)
    (hi : mode = .intention → e.intention = false) (hr : mode = .shared → e.readers + 1 < 2 ^ 32) :
    Summary (e.acquire mode) (update n mode (n mode + 1)) := by
  have hw := not_writer_of_canAcquire hcan
  have hreaders := h.readers
  have hint := h.intention
  cases mode with
  | shared =>
    have hmod : (e.readers + 1) % 2 ^ 32 = e.readers + 1 := Nat.mod_eq_of_lt (hr rfl)
    refine ⟨?_, h.writer.acquire hcan, ?_, fun hwr => ?_⟩
    · simp only [LatchEntry.acquire, hmod, update_self]
      rw [hreaders]
    · simpa [LatchEntry.acquire] using hint
    · simp [LatchEntry.acquire, hw] at hwr
  | exclusive =>
    simp only [LatchEntry.canAcquire, Bool.and_eq_true, beq_iff_eq, Bool.not_eq_true'] at hcan
    refine ⟨?_, h.writer.acquire (by simp [LatchEntry.canAcquire, hcan]), ?_, fun _ => ?_⟩
    · simpa [LatchEntry.acquire] using hreaders
    · simpa [LatchEntry.acquire] using hint
    · rw [hcan.2] at hint
      simpa [← hreaders, hcan.1.1] using hint
  | intention =>
    rw [hi rfl] at hint
    refine ⟨?_, h.writer.acquire hcan, ?_, fun hwr => ?_⟩
    · simpa [LatchEntry.acquire] using hreaders
    · simpa [LatchEntry.acquire] using hint
    · simp [LatchEntry.acquire, hw] at hwr

theorem Summary.release (h : Summary e n) (hn : 0 < n mode) :
    Summary (e.release mode) (update n mode (n mode - 1)) := by
  have hreaders := h.readers
  have hint := h.intention
  have hwr := h.writer.release hn
  cases mode with
  | shared =>
    have hpos : 0 < e.readers := by rw [hreaders]; exact hn
    simp only [LatchEntry.release, if_pos hpos] at hwr ⊢
    refine ⟨?_, hwr, ?_, fun hw => ?_⟩
    · simp [hreaders]
    · simpa using hint
    · have := (h.alone hw).1
      omega
  | exclusive =>
    refine ⟨?_, hwr, ?_, fun hw => ?_⟩
    · simpa [LatchEntry.release] using hreaders
    · simpa [LatchEntry.release] using hint
    · simp [LatchEntry.release] at hw
  | intention =>
    refine ⟨?_, hwr, ?_, fun hw => ?_⟩
    · simpa [LatchEntry.release] using hreaders
    · have hle := Bool.toNat_le e.intention
      simp only [LatchEntry.release, update_self, Bool.toNat_false]
      omega
    · have := (h.alone hw).2
      omega

/-- No other guard lives on the page of an exclusive guard. -/
def ExclusiveAlone (s : LatchCoupling) : Prop :=
  ∀ g ∈ s.guards, g.mode = .exclusive → ∀ g' ∈ s.guards.erase g, g'.pageId ≠ g.pageId

instance ExclusiveAlone.decidable (s : LatchCoupling) :
    Decidable (ExclusiveAlone s) :=
  inferInstanceAs (Decidable (∀ g ∈ s.guards, g.mode = .exclusive →
    ∀ g' ∈ s.guards.erase g, g'.pageId ≠ g.pageId))

theorem Summarised.step {s : LatchCoupling} {event : LatchEvent}
    (hs : Summarised s) (hok : Countable s event) : Summarised (latchStep s event) := by
  intro p
  cases event with
  | latch thread q mode =>
    exact LatchCoupling.forall_entry_latch hs (fun hcan => (hs q).acquire hcan hok.1 hok.2) p
  | drop g =>
    by_cases hg : g ∈ s.guards
    · have hpos := LatchCoupling.held_pos hg
      refine LatchCoupling.forall_entry_drop hs hg ((hs g.pageId).release hpos)
        (fun hnone => ?_) p
      -- the entry of a page with a guard is in the table
      have hnew := hs g.pageId
      rw [LatchTable.entry, hnone] at hnew
      have hzero : s.held g.pageId g.mode = 0 := by
        cases g.mode with
        | shared => exact hnew.readers.symm
        | exclusive => exact hnew.writer
        | intention => exact hnew.intention
      omega
    · rw [latchStep, if_neg hg]
      exact hs p

theorem Summarised.exclusiveAlone {s : LatchCoupling} (hs : Summarised s) : ExclusiveAlone s := by
  intro g hg hmode g' hg' hpage
  have hsum := hs g.pageId
  have hpos := LatchCoupling.held_pos hg
  rw [hmode, hsum.writer] at hpos
  have hw : (s.table.entry g.pageId).writer = true := by
    cases hw : (s.table.entry g.pageId).writer with
    | false => rw [hw] at hpos; exact absurd hpos (Nat.lt_irrefl 0)
    | true => rfl
  obtain ⟨hshared, hint⟩ := hsum.alone hw
  have hpos' := LatchCoupling.held_pos (List.mem_of_mem_erase hg')
  rw [hpage] at hpos'
  cases hmode' : g'.mode with
  | shared => rw [hmode', hshared] at hpos'; exact Nat.lt_irrefl 0 hpos'
  | intention => rw [hmode', hint] at hpos'; exact Nat.lt_irrefl 0 hpos'
  | exclusive =>
    -- a second exclusive guard would be counted
    have hone : s.held g.pageId .exclusive = 1 := by
      rw [hsum.writer, hw]
      rfl
    have hmem : g' ∈ (latchStep s (.drop g)).guards := by
      rw [latchStep, if_pos hg]
      exact hg'
    have hrest := LatchCoupling.held_pos hmem
    rw [hpage, hmode', LatchCoupling.held_drop hg, if_pos rfl, hmode, update_self, hone] at hrest
    exact Nat.lt_irrefl 0 hrest

theorem exclusive_guard_alone {events : List LatchEvent}
    (hg : Guarded latchStep Countable .new events) : ExclusiveAlone (run latchStep .new events) :=
  (run_inv (fun _ _ hs hok => hs.step hok) summarised_new hg).exclusiveAlone

/-- A reader and an intention holder leave, and a writer comes. -/
theorem exclusive_guard_alone_writer :
    let events : List LatchEvent :=
      [.latch 1 7 .shared, .latch 2 7 .intention, .latch 3 7 .exclusive,
        .drop ⟨1, 7, .shared⟩, .drop ⟨2, 7, .intention⟩,
        .latch 3 7 .exclusive]
    ⟨3, 7, .exclusive⟩ ∈ (run latchStep .new events).guards ∧
      ExclusiveAlone (run latchStep .new events) :=
  ⟨by decide, exclusive_guard_alone (by decide)⟩

/-- Two intention guards and one flag: the first to leave clears it. -/
theorem exclusive_beside_intention : ¬ ∀ events : List LatchEvent,
      ExclusiveAlone (run latchStep .new events) := by
  intro hclaim
  exact absurd (hclaim [.latch 1 7 .intention, .latch 2 7 .intention,
    .drop ⟨1, 7, .intention⟩, .latch 3 7 .exclusive]) (by decide)

end RGraph.Index
