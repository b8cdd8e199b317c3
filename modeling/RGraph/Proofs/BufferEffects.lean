import RGraph.Proofs.BufferPins

/-!
# What a step of the pool can do

One inversion of `BufferPool.step`: what it may make of a frame, whom it lets
own or find a frame, and what it writes to the data file. `Proofs.WriteBack`
follows the LSNs in the frames with it.
-/

namespace RGraph.Buffer

open List

namespace BufferPool

/-- What a step may make of a frame, given what has been written after it. -/
inductive Change (s : BufferPool) (op : PoolOp) (writes : List PageWrite)
    (id : FrameId) : Frame → Prop
  /-- Pin count and reference bit. -/
  | touch {d : FrameDescriptor} (pageId : d.pageId = (s.frame id).desc.pageId)
      (inflight : d.ioInflight = (s.frame id).desc.ioInflight)
      (state : d.state = (s.frame id).desc.state)
      (lsn : d.lastLsn = (s.frame id).desc.lastLsn) :
      Change s op writes id ⟨d, (s.frame id).buf⟩
  | clean (back : s.writesBack op = some id)
      (written : ⟨(s.frame id).desc.pageId, (s.frame id).buf, s.durable⟩ ∈ writes) :
      Change s op writes id ⟨(s.frame id).desc.markClean, (s.frame id).buf⟩
  /-- A write-back that failed. -/
  | stick (back : s.writesBack op = some id)
      (failed : ∀ t io, op = .advance t io → io.result = .failed) :
      Change s op writes id
        ⟨{ (s.frame id).desc with ioInflight := true }, (s.frame id).buf⟩
  /-- A victim is reset or reserved. -/
  | take {t : Nat} {d : FrameDescriptor}
      (victim : (s.threads t).victim = some id) (state : d.state ≠ .dirty) :
      Change s op writes id ⟨d, (s.frame id).buf⟩
  /-- A reserved frame is published or given up. -/
  | give {t : Nat} {p : PageId} {d : FrameDescriptor} (owned : s.Owned t id p)
      (state : d.state ≠ .dirty) : Change s op writes id ⟨d, (s.frame id).buf⟩
  | load {t : Nat} {p : PageId} {buf : PageImage} (owned : s.Owned t id p)
      (read : buf = .zeroed ∨ buf = s.file p) :
      Change s op writes id ⟨(s.frame id).desc, buf⟩
  | modify {g : PageGuard} {lsn : Nat} (eq : op = .modify g lsn)
      (mem : g ∈ s.guards) (on : g.frameId = id)
      (inflight : (s.frame id).desc.ioInflight = false) :
      Change s op writes id ((s.frame id).modify lsn)

structure Effect (s : BufferPool) (op : PoolOp) (s' : BufferPool) : Prop where
  frame : ∀ id, Change s op s'.writes id (s'.frame id)
  durable : s'.durable = s.durable
  owned : ∀ u id p, s'.Owned u id p → s.Owned u id p ∨ (s.threads u).victim = some id
  victim : ∀ u id, (s'.threads u).victim = some id → (s.threads u).victim = some id ∨
      ∃ io, op = .advance u io ∧ s.picks u = some id
  written : s'.file = s.file ∧ s'.writes = s.writes ∨ ∃ id, s.writesBack op = some id ∧
      s'.file = Function.update s.file (s.frame id).desc.pageId (s.frame id).buf ∧
      s'.writes = ⟨(s.frame id).desc.pageId, (s.frame id).buf, s.durable⟩ ::
        s.writes

section Effect

variable {s s' : BufferPool} {op : PoolOp} {t : Nat} {id : FrameId}
  {p : PageId} {writes : List PageWrite}

theorem Change.refl (s : BufferPool) (op : PoolOp) (id : FrameId) :
    Change s op writes id (s.frame id) :=
  .touch (d := (s.frame id).desc) rfl rfl rfl rfl

theorem Change.setFrame {f : Frame} (h : Change s op writes id f) (i : FrameId) :
    Change s op writes i ((s.setFrame id f).frame i) := by
  by_cases hi : i = id
  · subst hi
    rw [setFrame_frame_self]
    exact h
  · rw [setFrame_frame_of_ne s f hi]
    exact .refl s op i

/-- No thread moves and nothing is written. -/
theorem Effect.of_frame (h : ∀ id, Change s op s'.writes id (s'.frame id))
    (hthreads : s'.threads = s.threads) (hdurable : s'.durable = s.durable)
    (hfile : s'.file = s.file) (hwrites : s'.writes = s.writes) :
    Effect s op s' where
  frame := h
  durable := hdurable
  owned u id p ho := .inl (by rwa [Owned, hthreads] at ho)
  victim u id hv := .inl (by rwa [hthreads] at hv)
  written := .inl ⟨hfile, hwrites⟩

/-- A thread moves on after the rest of the step. -/
theorem Effect.goto {pc : Pc} (h : Effect s op s') (ht : s'.threads = s.threads)
    (howns : ∀ x ∈ pc.owns, x ∈ (s.threads t).owns ∨ (s.threads t).victim = some x.1)
    (hvictim : ∀ id, pc.victim = some id → (s.threads t).victim = some id ∨
      ∃ io, op = .advance t io ∧ s.picks t = some id) :
    Effect s op (s'.goto t pc) where
  frame := h.frame
  durable := h.durable
  owned u id p ho := by
    by_cases hu : u = t
    · subst hu
      rw [Owned, goto_threads, Function.update_self] at ho
      exact howns _ ho
    · rw [Owned, goto_threads, Function.update_of_ne hu, ht] at ho
      exact .inl ho
  victim u id hv := by
    by_cases hu : u = t
    · subst hu
      rw [goto_threads, Function.update_self] at hv
      exact hvictim id hv
    · rw [goto_threads, Function.update_of_ne hu, ht] at hv
      exact .inl hv
  written := h.written

theorem Effect.refl (s : BufferPool) (op : PoolOp) : Effect s op s :=
  .of_frame (.refl s op) rfl rfl rfl rfl

/-- One frame gets a new descriptor or new bytes. -/
theorem Effect.setFrame {f : Frame} (h : Change s op s.writes id f) :
    Effect s op (s.setFrame id f) :=
  .of_frame h.setFrame rfl rfl rfl rfl

theorem Effect.hit {s₁ : BufferPool} (h : Effect s op s₁)
    (ht : s₁.threads = s.threads) (hid : s₁.frame id = s.frame id) :
    Effect s op (s₁.hit t id p) := by
  have hpin : Effect s op { s₁.setDesc id (s₁.frame id).desc.pin with
      guards := ⟨id, p⟩ :: s₁.guards } :=
    { frame := fun i => by
        show Change s op s₁.writes i ((s₁.setDesc id (s₁.frame id).desc.pin).frame i)
        by_cases hi : i = id
        · subst hi
          rw [setDesc_frame_self, hid]
          exact .touch rfl rfl rfl rfl
        · rw [setDesc_frame_of_ne s₁ _ hi]
          exact h.frame i
      durable := h.durable
      owned := h.owned
      victim := h.victim
      written := h.written }
  exact hpin.goto ht (by simp) (by simp)

theorem keeps {pc pc' : Pc} (hpc : s.threads t = pc) (h : pc'.owns = pc.owns) :
    ∀ x ∈ pc'.owns, x ∈ (s.threads t).owns ∨ (s.threads t).victim = some x.1 := by
  intro x hx
  rw [h] at hx
  rw [hpc]
  exact .inl hx

theorem Effect.probed (h : Probed s op s') : Effect s op s' ∧ s'.threads = s.threads := by
  cases h with
  | same => exact ⟨.refl s op, rfl⟩
  | touch id => exact ⟨.setFrame (.touch rfl rfl rfl rfl), rfl⟩
  | clean back =>
    exact ⟨⟨(Change.clean back mem_cons_self).setFrame, rfl,
      fun _ _ _ => .inl, fun _ _ => .inl, .inr ⟨_, back, rfl, rfl⟩⟩, rfl⟩
  | stick back failed => exact ⟨.setFrame (.stick back failed), rfl⟩
  | sync back =>
    exact ⟨⟨.refl s op, rfl, fun _ _ _ => .inl, fun _ _ => .inl, .inr ⟨_, back, rfl, rfl⟩⟩, rfl⟩

theorem Effect.search {io : Io} (h : Search s t (.advance t io) s') :
    Effect s (.advance t io) s' := by
  cases h with
  | stay => exact .refl s _
  | @pass s₁ hand pc probed next victim keeps =>
    obtain ⟨he, ht⟩ := Effect.probed probed
    have hhand : Effect s (.advance t io) { s₁ with clockHand := hand } :=
      ⟨he.frame, he.durable, he.owned, he.victim, he.written⟩
    refine hhand.goto ht (fun x hx => .inl (next.owns.subset hx)) ?_
    rw [victim]
    nofun
  | hit pins mapped owns => exact (Effect.refl s _).hit rfl rfl
  | found picks next victim owns empty unpinned =>
    refine Effect.goto (.of_frame (.refl s _) rfl rfl rfl rfl) rfl
      (fun x hx => .inl (owns ▸ hx)) fun id hid => .inr ⟨io, rfl, ?_⟩
    cases victim.symm.trans hid
    exact picks

theorem effect_unmap {w : Want} (hpc : s.threads t = .unmap w id) (io : Io) :
    Effect s (.advance t io) (s.advance t io) := by
  rw [advance, hpc]
  dsimp only
  unfold BufferPool.unmap
  dsimp only
  split
  · refine Effect.goto ?_ rfl (keeps hpc rfl) (by rw [hpc]; simp)
    exact .of_frame (.refl s _) rfl rfl rfl rfl
  · exact (Effect.refl s _).goto rfl (keeps hpc rfl) (by rw [hpc]; simp)

theorem reset_ne_dirty (d : FrameDescriptor) : d.reset.state ≠ .dirty := nofun

theorem reserve_ne_dirty (d : FrameDescriptor) (p : PageId) : (d.reserve p).state ≠ .dirty := nofun

/-- What a thread does with the frame that it has found. -/
theorem effect_take {d : FrameDescriptor}
    (hv : (s.threads t).victim = some id) (hd : d.state ≠ .dirty) : Effect s op (s.setDesc id d) :=
  .setFrame (.take hv hd)

theorem effect_reserve (hs : s.Sound) {n : Nat}
    (hpc : s.threads t = .chosen (.fix p n) id) (io : Io) :
    Effect s (.advance t io) (s.advance t io) := by
  have hv : (s.threads t).victim = some id := by rw [hpc]; rfl
  have hun : s.Unmapped id := hs.free t id (by rw [hpc]; rfl)
  have hreset : Effect s (.advance t io) (s.setDesc id (s.frame id).desc.reset) :=
    effect_take hv (reset_ne_dirty _)
  rw [advance, hpc]
  dsimp only
  unfold BufferPool.reserve
  dsimp only
  split
  · exact hreset.goto rfl (by simp) (by simp)
  · next other hp =>
      refine hreset.hit rfl (setDesc_frame_of_ne s _ ?_)
      rintro rfl
      exact hun p hp
  · have htake : Effect s (.advance t io) ((s.map p (some .loading)).setDesc id
        ((s.frame id).desc.reserve p)) :=
      .of_frame (Change.setFrame (.take hv (reserve_ne_dirty _ _))) rfl rfl rfl rfl
    refine htake.goto rfl (fun x hx => .inr ?_) (by simp)
    rw [mem_singleton.mp hx]
    exact hv

theorem effect_loaded {ok : Bool} (hpc : s.threads t = .loaded p id ok)
    (io : Io) : Effect s (.advance t io) (s.advance t io) := by
  have ho : s.Owned t id p := by
    rw [Owned, hpc]
    exact mem_singleton_self _
  rw [advance, hpc]
  cases ok with
  | true =>
    dsimp only
    rw [if_pos rfl]
    unfold BufferPool.publish
    dsimp only
    split
    · refine Effect.goto ?_ rfl (by simp) (by simp)
      exact .of_frame (Change.setFrame (.give ho (by rintro ⟨⟩))) rfl rfl rfl rfl
    · refine Effect.goto ?_ rfl (by simp) (by simp)
      exact .of_frame (Change.setFrame (.give ho (by rintro ⟨⟩))) rfl rfl rfl rfl
  | false =>
    have hgive : Effect s (.advance t io) ((s.setDesc id (s.frame id).desc.reset).map p none) :=
      .of_frame (Change.setFrame (.give ho (by rintro ⟨⟩))) rfl rfl rfl rfl
    exact hgive.goto rfl (by simp) (by simp)

theorem effect_publish {todo : List (FrameId × PageId)}
    (hpc : s.threads t = .publish ((id, p) :: todo)) (io : Io) :
    Effect s (.advance t io) (s.advance t io) := by
  have ho : s.Owned t id p := by
    rw [Owned, hpc]
    exact mem_cons_self
  have howns : ∀ x ∈ todo, x ∈ (s.threads t).owns ∨ (s.threads t).victim = some x.1 := by
    intro x hx
    rw [hpc]
    exact .inl (mem_cons_of_mem _ hx)
  rw [advance, hpc]
  dsimp only
  unfold BufferPool.publishPrefetched
  dsimp only
  split
  · refine Effect.goto ?_ rfl howns (by simp)
    exact .of_frame (Change.setFrame (.give ho (by rintro ⟨⟩))) rfl rfl rfl rfl
  · refine Effect.goto ?_ rfl howns (by simp)
    exact .setFrame (.give ho (by rintro ⟨⟩))

theorem advance_effect (hs : s.Sound) (t : Nat) (io : Io) :
    Effect s (.advance t io) (s.advance t io) := by
  cases hpc : s.threads t with
  | unmap w id => exact effect_unmap hpc io
  | evict w id =>
    rw [BufferPool.advance, hpc]
    refine Effect.goto (effect_take (t := t) ?_ (reset_ne_dirty _)) rfl
      (keeps hpc rfl) (by rw [hpc]; simp)
    rw [hpc]
    rfl
  | chosen w id =>
    cases w with
    | fix p n => exact effect_reserve hs hpc io
    | prefetch next left filled =>
      rw [BufferPool.advance, hpc]
      refine Effect.goto (effect_take (by rw [hpc]; rfl)
        (reserve_ne_dirty _ _)) rfl ?_ (by simp)
      intro x hx
      rw [hpc]
      rcases mem_cons.mp hx with rfl | hx
      · exact .inr rfl
      · exact .inl hx
  | loading p id =>
    rw [BufferPool.advance, hpc]
    have ho : s.Owned t id p := by
      rw [Owned, hpc]
      exact mem_singleton_self _
    refine Effect.goto (.setFrame (.load ho ?_)) rfl (keeps hpc rfl) (by simp)
    split
    · exact .inr rfl
    · exact .inl rfl
  | loaded p id ok => exact effect_loaded hpc io
  | fill todo filled =>
    cases todo with
    | nil => exact .search (advance_search io (by rw [hpc]; rfl))
    | cons x todo =>
      have ho : s.Owned t x.1 x.2 := by
        rw [Owned, hpc]
        exact hs.fill t _ filled hpc mem_cons_self
      rw [BufferPool.advance, hpc]
      dsimp only
      split
      · exact Effect.goto (.setFrame (.load ho (.inr rfl))) rfl (keeps hpc rfl) (by simp)
      · exact Effect.goto (.setFrame (.load ho (.inl rfl))) rfl (by simp) (by simp)
  | publish todo =>
    cases todo with
    | nil => exact .search (advance_search io (by rw [hpc]; rfl))
    | cons x todo => exact effect_publish hpc io
  | _ => exact .search (advance_search io (by rw [hpc]; rfl))

theorem step_effect (hs : s.Sound) (op : PoolOp) : Effect s op (s.step op) := by
  cases op with
  | fix t p =>
    rw [BufferPool.step]
    split
    · exact (Effect.refl s _).goto rfl (by simp) (by simp)
    · exact .refl s _
  | advance t io => exact advance_effect hs t io
  | modify g lsn =>
    unfold BufferPool.step
    dsimp only
    split
    · next h => exact .setFrame (.modify rfl h.1 rfl (Bool.not_eq_true _ ▸ h.2))
    · exact .refl s _
  | drop g =>
    rw [BufferPool.step]
    split
    · exact .of_frame (Change.setFrame (.touch rfl rfl rfl rfl)) rfl rfl rfl rfl
    · exact .refl s _

/-! ## What follows from it -/

/-- Nobody has a guard on a frame that a sweep has found. -/
theorem no_guard_of_victim (hs : s.Sound) (hp : s.Pins) {t : Nat}
    (hv : (s.threads t).victim = some id) : ∀ g ∈ s.guards, g.frameId ≠ id := by
  have hzero : guardsOn s.guards id = 0 := by
    cases hpc : s.threads t with
    | unmap w i =>
      rw [hpc] at hv
      cases hv
      rw [← hp.count, hp.unmapping t w id hpc]
      rfl
    | evict w i =>
      rw [hpc] at hv
      cases hv
      exact hp.guardsOn_eq_zero (hs.free t id (by rw [hpc]; rfl))
    | chosen w i =>
      rw [hpc] at hv
      cases hv
      exact hp.guardsOn_eq_zero (hs.free t id (by rw [hpc]; rfl))
    | _ =>
      rw [hpc] at hv
      cases hv
  intro g hg hid
  exact countP_eq_zero.mp hzero g hg (beq_iff_eq.mpr hid)

/-- Only a change through a guard makes a frame dirty. -/
theorem Change.not_dirty {f : Frame} (h : Change s op writes id f)
    (hst : (s.frame id).desc.state ≠ .dirty)
    (hg : ∀ g lsn, op = .modify g lsn → g ∈ s.guards → g.frameId ≠ id) : f.desc.state ≠ .dirty := by
  cases h with
  | touch _ _ state _ => exact fun hd => hst (state ▸ hd)
  | clean _ _ => nofun
  | stick _ _ => exact hst
  | take _ state => exact state
  | give _ state => exact state
  | load _ _ => exact hst
  | modify eq mem on _ => exact absurd on (hg _ _ eq mem)

/-- The frames that a thread has found or reserved are not dirty. -/
structure Orderly (s : BufferPool) : Prop where
  sound : s.Sound
  pins : s.Pins
  victim : ∀ t id, (s.threads t).victim = some id → (s.frame id).desc.state ≠ .dirty
  owned : ∀ t id p, s.Owned t id p → (s.frame id).desc.state ≠ .dirty

theorem orderly_new (n : Nat) : (new n).Orderly := ⟨sound_new n, pins_new n, nofun, nofun⟩

theorem Orderly.step (h : s.Orderly) (hok : s.Undisturbed op) : (s.step op).Orderly := by
  have he := step_effect h.sound op
  have hvictim : ∀ {t id}, (s.threads t).victim = some id →
      ((s.step op).frame id).desc.state ≠ .dirty := by
    intro t id hv
    refine (he.frame id).not_dirty (h.victim t id hv) fun g _ _ hg => ?_
    exact no_guard_of_victim h.sound h.pins hv g hg
  refine ⟨h.sound.step hok.1, h.pins.step h.sound hok, fun t id hv => ?_, fun t id p ho => ?_⟩
  · rcases he.victim t id hv with hv | ⟨io, rfl, hpick⟩
    · exact hvictim hv
    · exact (he.frame id).not_dirty (not_dirty_of_picks hpick).1 nofun
  · rcases he.owned t id p ho with ho | hv
    · refine (he.frame id).not_dirty (h.owned t id p ho) fun g _ _ hg hid => ?_
      have hheld := h.pins.held g hg
      rw [hid] at hheld
      exact (h.sound.owned t id p ho).2.2.2 _ hheld
    · exact hvictim hv

theorem Orderly.of_eq (h : s.Orderly) (hthreads : s'.threads = s.threads)
    (hshard : s'.shard = s.shard) (hframe : s'.frame = s.frame)
    (hguards : s'.guards = s.guards) (hfile : ∀ p, (s'.file p).pageId = p) :
    s'.Orderly where
  sound := h.sound.of_eq hthreads hshard hframe hfile
  pins := h.pins.of_eq hthreads hshard hguards fun _ => by rw [hframe]
  victim t id hv := by
    rw [hframe]
    exact h.victim t id (hthreads ▸ hv)
  owned t id p ho := by
    rw [hframe]
    rw [Owned, hthreads] at ho
    exact h.owned t id p ho

/-- A frame gets a new descriptor while its bytes are left alone. -/
theorem Orderly.setDesc {d : FrameDescriptor} (h : s.Orderly) (hs : (s.setDesc id d).Sound)
    (hpin : d.pinCount = (s.frame id).desc.pinCount)
    (hd : d.state = (s.frame id).desc.state ∨ d.state ≠ .dirty) : (s.setDesc id d).Orderly := by
  have hstate : ∀ i, (s.frame i).desc.state ≠ .dirty →
      ((s.setDesc id d).frame i).desc.state ≠ .dirty := by
    intro i hi
    by_cases hid : i = id
    · subst hid
      rw [setDesc_frame_self]
      rcases hd with hst | hst
      · exact hst ▸ hi
      · exact hst
    · rwa [setDesc_frame_of_ne s d hid]
  exact ⟨hs, h.pins.setFrame hpin, fun t i hv => hstate i (h.victim t i hv),
    fun t i p ho => hstate i (h.owned t i p ho)⟩

end Effect

end BufferPool

end RGraph.Buffer
