import RGraph.Proofs.BufferSteps

/-!
# Pins and guards

The pin count of a frame is the number of its guards, and a guard's page is
mapped to its frame, as long as nobody pins a frame between the moment a sweep
reads its pin count and the removal of its mapping. Nothing in the pool closes
that window: `fix_page` pins under the lock of a shard that the sweep takes only
afterwards, and the sweep does not look at the count again.
-/

namespace RGraph.Buffer

open RGraph.Lib List Function

namespace BufferPool

/-- How many guards there are on a frame. -/
def guardsOn (guards : List PageGuard) (id : FrameId) : Nat := guards.countP (·.frameId == id)

theorem guardsOn_cons (guards : List PageGuard) (id i : FrameId) (p : PageId) :
    guardsOn (⟨id, p⟩ :: guards) i = guardsOn guards i + if i = id then 1 else 0 := by
  by_cases hi : i = id
  · subst hi
    simp [guardsOn]
  · simp [guardsOn, hi, Ne.symm hi]

structure Pins (s : BufferPool) : Prop where
  count : ∀ id, (s.frame id).desc.pinCount.toNat = guardsOn s.guards id
  held : ∀ g ∈ s.guards, s.shard g.pageId = some (.frame g.frameId)
  unmapping : ∀ t w id, s.threads t = .unmap w id → (s.frame id).desc.pinCount = 0

/-- The frame whose page a thread is about to unmap. -/
def unmaps : Pc → Option FrameId
  | .unmap _ id => some id
  | _ => none

theorem pins_new (n : Nat) : (new n).Pins := ⟨fun _ => rfl, nofun, nofun⟩

section Moves

variable {s s' : BufferPool} {t : Nat} {pc : Pc} {id : FrameId} {p : PageId}
  {d : FrameDescriptor}

theorem Pins.guardsOn_eq_zero (h : s.Pins) (hun : s.Unmapped id) : guardsOn s.guards id = 0 := by
  refine countP_eq_zero.mpr fun g hg hid => ?_
  rw [beq_iff_eq] at hid
  exact hun g.pageId (hid ▸ h.held g hg)

theorem Pins.page_ne (h : s.Pins) (hp : ∀ id, s.shard p ≠ some (.frame id)) :
    ∀ g ∈ s.guards, g.pageId ≠ p := by
  rintro g hg rfl
  exact hp _ (h.held g hg)

theorem Pins.goto (h : s.Pins)
    (hpc : ∀ w id, pc = .unmap w id → (s.frame id).desc.pinCount = 0) :
    (s.goto t pc).Pins where
  count := h.count
  held := h.held
  unmapping u w id hu := by
    by_cases hut : u = t
    · subst hut
      rw [goto_threads, update_self] at hu
      exact hpc w id hu
    · rw [goto_threads, update_of_ne hut] at hu
      exact h.unmapping u w id hu

theorem Pins.move (h : s.Pins) (hpc : unmaps pc = none) : (s.goto t pc).Pins := by
  refine h.goto fun w id heq => ?_
  subst heq
  cases hpc

theorem Pins.of_eq (h : s.Pins) (hthreads : s'.threads = s.threads)
    (hshard : s'.shard = s.shard) (hguards : s'.guards = s.guards)
    (hpin : ∀ id, (s'.frame id).desc.pinCount = (s.frame id).desc.pinCount) :
    s'.Pins where
  count id := by
    rw [hpin, hguards]
    exact h.count id
  held g hg := by
    rw [hguards] at hg
    rw [hshard]
    exact h.held g hg
  unmapping u w id hu := by
    rw [hthreads] at hu
    rw [hpin]
    exact h.unmapping u w id hu

theorem Pins.setFrame (h : s.Pins) {f : Frame} (hf : f.desc.pinCount = (s.frame id).desc.pinCount) :
    (s.setFrame id f).Pins := by
  refine h.of_eq rfl rfl rfl fun i => ?_
  by_cases hi : i = id
  · subst hi
    rw [setFrame_frame_self, hf]
  · rw [setFrame_frame_of_ne s f hi]

theorem Pins.load (h : s.Pins) (p : PageId) (id : FrameId) (ok : Bool) : (s.load p id ok).Pins :=
  h.setFrame rfl

/-- A frame that no page is mapped to may get a new descriptor. -/
theorem Pins.setDesc_zero (h : s.Pins) (hun : s.Unmapped id)
    (hd : d.pinCount = 0) : (s.setDesc id d).Pins := by
  refine h.of_eq rfl rfl rfl fun i => ?_
  by_cases hi : i = id
  · subst hi
    rw [setDesc_frame_self, hd, ← UInt16.toNat_inj, h.count, h.guardsOn_eq_zero hun]
    rfl
  · rw [setDesc_frame_of_ne s d hi]

theorem Pins.map (h : s.Pins) (hp : ∀ g ∈ s.guards, g.pageId ≠ p)
    (m : Option Mapping) : (s.map p m).Pins where
  count := h.count
  held g hg := by
    rw [map_shard, update_of_ne (hp g hg)]
    exact h.held g hg
  unmapping := h.unmapping

/-- A guard is added on a mapped frame. -/
theorem Pins.guard (h : s.Pins) (hp : s.shard p = some (.frame id))
    (hun : ∀ u w, s.threads u ≠ .unmap w id)
    (hd : d.pinCount.toNat = (s.frame id).desc.pinCount.toNat + 1) :
    ({ s.setDesc id d with guards := ⟨id, p⟩ :: s.guards } : BufferPool).Pins
    where
  count i := by
    show ((s.setDesc id d).frame i).desc.pinCount.toNat = guardsOn (⟨id, p⟩ :: s.guards) i
    rw [guardsOn_cons]
    by_cases hi : i = id
    · subst hi
      rw [setDesc_frame_self, if_pos rfl, hd, h.count]
    · rw [setDesc_frame_of_ne s d hi, if_neg hi, h.count, Nat.add_zero]
  held g hg := by
    rcases mem_cons.mp hg with rfl | hg
    · exact hp
    · exact h.held g hg
  unmapping u w i hu := by
    have hi : i ≠ id := fun hi => hun u w (hi ▸ hu)
    show ((s.setDesc id d).frame i).desc.pinCount = 0
    rw [setDesc_frame_of_ne s d hi]
    exact h.unmapping u w i hu

/-- A guard is dropped. -/
theorem Pins.drop (h : s.Pins) {g : PageGuard} (hg : g ∈ s.guards) :
    ({ s.setDesc g.frameId (s.frame g.frameId).desc.unpin with
      guards := s.guards.erase g } : BufferPool).Pins := by
  have hcount : ∀ i, guardsOn s.guards i =
      guardsOn (s.guards.erase g) i + if i = g.frameId then 1 else 0 := by
    intro i
    rw [← guardsOn_cons]
    exact (perm_cons_erase hg).countP_eq _
  constructor
  case count =>
    intro i
    show ((s.setDesc g.frameId _).frame i).desc.pinCount.toNat = guardsOn (s.guards.erase g) i
    have hc := hcount i
    rw [← h.count] at hc
    by_cases hi : i = g.frameId
    · subst hi
      rw [if_pos rfl] at hc
      rw [setDesc_frame_self, FrameDescriptor.unpin]
      dsimp only
      rw [if_neg fun h0 => by rw [h0] at hc; cases hc]
      rw [UInt16.toNat_sub_of_le _ _ (UInt16.le_iff_toNat_le.mpr (by
        show 1 ≤ _; omega))]
      show _ - 1 = _
      omega
    · rw [if_neg hi] at hc
      rw [setDesc_frame_of_ne s _ hi]
      exact hc
  case held => exact fun g' hg' => h.held g' (mem_of_mem_erase hg')
  case unmapping =>
    intro u w i hu
    show ((s.setDesc g.frameId _).frame i).desc.pinCount = 0
    have h0 := h.unmapping u w i hu
    by_cases hi : i = g.frameId
    · subst hi
      rw [setDesc_frame_self, FrameDescriptor.unpin]
      exact if_pos h0
    · rw [setDesc_frame_of_ne s _ hi]
      exact h0

end Moves

/-- A sweep finds no frame that another thread has found, and nobody pins a
frame that a thread is about to unmap, or as often as `u16::MAX` times. -/
def Undisturbed (s : BufferPool) (op : PoolOp) : Prop :=
  s.Exclusive op ∧ match op with
    | .advance t _ => ∀ id, s.pins t = some id →
        (∀ u w, s.threads u ≠ .unmap w id) ∧ (s.frame id).desc.pinCount.toNat + 1 < 2 ^ 16
    | _ => True

section Steps

variable {s s' : BufferPool} {t : Nat} {id : FrameId} {p : PageId}

theorem Pins.hit (h : s.Pins) (hp : s.shard p = some (.frame id))
    (hun : ∀ u w, s.threads u ≠ .unmap w id) (hlt : (s.frame id).desc.pinCount.toNat + 1 < 2 ^ 16) :
    (s.hit t id p).Pins := by
  have hd : (s.frame id).desc.pin.pinCount.toNat = (s.frame id).desc.pinCount.toNat + 1 := by
    show ((s.frame id).desc.pinCount + 1).toNat = _
    rw [UInt16.toNat_add]
    exact Nat.mod_eq_of_lt hlt
  exact (h.guard hp hun hd).move rfl

theorem Pins.probed {op : PoolOp} (h : s.Pins) (hp : Probed s op s') : s'.Pins := by
  cases hp with
  | same => exact h
  | touch id => exact h.setFrame rfl
  | @clean id back =>
    have hclean : (s.setDesc id (s.frame id).desc.markClean).Pins := h.setFrame rfl
    exact hclean.of_eq rfl rfl rfl fun _ => rfl
  | stick back _ => exact h.setFrame rfl
  | sync back => exact h.of_eq rfl rfl rfl fun _ => rfl

theorem Pins.search (h : s.Pins) {io : Io} (hsearch : Search s t (.advance t io) s')
    (hok : s.Undisturbed (.advance t io)) : s'.Pins := by
  cases hsearch with
  | stay => exact h
  | pass probed next victim keeps =>
    refine Pins.goto ((h.probed probed).of_eq rfl rfl rfl fun _ => rfl) ?_
    rintro w id rfl
    cases victim
  | hit pins mapped owns => exact h.hit mapped (hok.2 _ pins).1 (hok.2 _ pins).2
  | found picks next victim owns empty unpinned =>
    exact Pins.goto (h.of_eq rfl rfl rfl fun _ => rfl) unpinned

theorem Pins.unmap {w : Want} (h : s.Pins) (hpc : s.threads t = .unmap w id)
    (io : Io) : (s.advance t io).Pins := by
  rw [advance, hpc]
  dsimp only
  unfold BufferPool.unmap
  dsimp only
  split
  · next hp =>
      refine (h.map (fun g hg heq => ?_) none).move rfl
      have hc := h.count id
      rw [h.unmapping t w id hpc] at hc
      have hid : g.frameId = id := by
        have hheld := h.held g hg
        rw [heq, hp.2] at hheld
        cases hheld
        rfl
      exact countP_eq_zero.mp hc.symm g hg (beq_iff_eq.mpr hid)
  · exact h.move rfl

theorem Pins.evict {w : Want} (h : s.Pins) (hs : s.Sound)
    (hpc : s.threads t = .evict w id) (io : Io) : (s.advance t io).Pins := by
  rw [advance, hpc]
  exact (h.setDesc_zero (hs.free t id (by rw [hpc]; rfl)) rfl).move rfl

theorem Pins.reserve {n : Nat} (h : s.Pins) (hs : s.Sound)
    (hpc : s.threads t = .chosen (.fix p n) id) (io : Io)
    (hok : s.Undisturbed (.advance t io)) : (s.advance t io).Pins := by
  have hun : s.Unmapped id := hs.free t id (by rw [hpc]; rfl)
  have h' : (s.setDesc id (s.frame id).desc.reset).Pins := h.setDesc_zero hun rfl
  rw [advance, hpc]
  dsimp only
  unfold BufferPool.reserve
  dsimp only
  split
  · exact h'.move rfl
  · next other hp =>
      have hpins : s.pins t = some other := by simp only [pins, hpc, hp]
      obtain ⟨hno, hlt⟩ := hok.2 other hpins
      have hne : other ≠ id := by
        rintro rfl
        exact hun p hp
      refine h'.hit hp hno ?_
      rw [setDesc_frame_of_ne s _ hne]
      exact hlt
  · next hnone =>
      have hne : ∀ i, s.shard p ≠ some (.frame i) := by
        intro i
        simp [hnone]
      refine ((h.map (h.page_ne hne) (some .loading)).setDesc_zero (fun q hq => ?_) rfl).move rfl
      by_cases hqp : q = p
      · subst hqp
        rw [map_shard, update_self] at hq
        cases hq
      · rw [map_shard, update_of_ne hqp] at hq
        exact hun q hq

/-- The publication of a page that nobody has mapped. -/
theorem Pins.publish {readahead : Option PageId} (h : s.Pins) (hs : s.Sound)
    (ho : s.Owned t id p) (hp : s.shard p = some .loading) : (s.publish t p id readahead).Pins := by
  have hun := (hs.owned t id p ho).2.2.2
  have hne := h.page_ne (p := p) fun i => by simp [hp]
  have h' : ({ (s.setDesc id { (s.frame id).desc with
      ioInflight := false, state := .clean, pinCount := 1,
      clockRef := true }).map p (some (.frame id)) with
      guards := ⟨id, p⟩ :: s.guards } : BufferPool).Pins := by
    constructor
    case count =>
      intro i
      show ((s.setDesc id _).frame i).desc.pinCount.toNat = guardsOn (⟨id, p⟩ :: s.guards) i
      rw [guardsOn_cons]
      by_cases hi : i = id
      · subst hi
        rw [setDesc_frame_self, if_pos rfl, h.guardsOn_eq_zero hun]
        rfl
      · rw [setDesc_frame_of_ne s _ hi, if_neg hi, h.count, Nat.add_zero]
    case held =>
      intro g hg
      show update s.shard p (some (.frame id)) g.pageId = _
      rcases mem_cons.mp hg with rfl | hg
      · exact update_self ..
      · rw [update_of_ne (hne g hg)]
        exact h.held g hg
    case unmapping =>
      intro u w i hu
      have hi : i ≠ id := by
        rintro rfl
        have hu : s.threads u = .unmap w i := hu
        exact hs.victim u i (by rw [hu]; rfl) t p ho
      show ((s.setDesc id _).frame i).desc.pinCount = 0
      rw [setDesc_frame_of_ne s _ hi]
      exact h.unmapping u w i hu
  cases readahead with
  | none => exact h'.move rfl
  | some start => exact h'.move rfl

theorem Pins.loaded {ok : Bool} (h : s.Pins) (hs : s.Sound)
    (hpc : s.threads t = .loaded p id ok) (io : Io) : (s.advance t io).Pins := by
  have ho : s.Owned t id p := by
    rw [Owned, hpc]
    exact mem_singleton_self _
  have hp := hs.loads t p (by rw [hpc]; rfl)
  rw [advance, hpc]
  cases ok with
  | true => exact h.publish hs ho hp
  | false =>
    have h' : (s.setDesc id (s.frame id).desc.reset).Pins :=
      h.setDesc_zero (hs.owned t id p ho).2.2.2 rfl
    refine (h'.map (h.page_ne fun i => ?_) none).move rfl
    simp [hp]

theorem Pins.publishPrefetched {todo : List (FrameId × PageId)} (h : s.Pins)
    (hs : s.Sound) (hpc : s.threads t = .publish ((id, p) :: todo)) (io : Io) :
    (s.advance t io).Pins := by
  have ho : s.Owned t id p := by
    rw [Owned, hpc]
    exact mem_cons_self
  have hun := (hs.owned t id p ho).2.2.2
  rw [advance, hpc]
  dsimp only
  unfold BufferPool.publishPrefetched
  dsimp only
  split
  · next hp =>
      refine Pins.move (Pins.map (h.setDesc_zero hun rfl) ?_ _) rfl
      refine h.page_ne fun i => ?_
      simp [hp.2.2]
  · refine Pins.move ?_ rfl
    exact h.setDesc_zero hun rfl

theorem Pins.advance (h : s.Pins) (hs : s.Sound) (t : Nat) (io : Io)
    (hok : s.Undisturbed (.advance t io)) : (s.advance t io).Pins := by
  cases hpc : s.threads t with
  | unmap w id => exact h.unmap hpc io
  | evict w id => exact h.evict hs hpc io
  | chosen w id =>
    cases w with
    | fix p n => exact h.reserve hs hpc io hok
    | prefetch next left filled =>
      rw [BufferPool.advance, hpc]
      refine Pins.move ?_ rfl
      exact h.setDesc_zero (hs.free t id (by rw [hpc]; rfl)) rfl
  | loading p id =>
    rw [BufferPool.advance, hpc]
    exact (h.load p id _).move rfl
  | loaded p id ok => exact h.loaded hs hpc io
  | fill todo filled =>
    cases todo with
    | nil => exact h.search (advance_search io (by rw [hpc]; rfl)) hok
    | cons x todo =>
      rw [BufferPool.advance, hpc]
      dsimp only
      split
      · exact (h.load x.2 x.1 true).move rfl
      · exact (h.load x.2 x.1 false).move rfl
  | publish todo =>
    cases todo with
    | nil => exact h.search (advance_search io (by rw [hpc]; rfl)) hok
    | cons x todo => exact h.publishPrefetched hs hpc io
  | _ => exact h.search (advance_search io (by rw [hpc]; rfl)) hok

theorem Pins.step (h : s.Pins) (hs : s.Sound) {op : PoolOp}
    (hok : s.Undisturbed op) : (s.step op).Pins := by
  cases op with
  | fix t p =>
    rw [BufferPool.step]
    split
    · exact h.move rfl
    · exact h
  | advance t io => exact h.advance hs t io hok
  | modify g lsn =>
    unfold BufferPool.step
    dsimp only
    split
    · exact h.setFrame rfl
    · exact h
  | drop g =>
    rw [BufferPool.step]
    split
    · next hg => exact h.drop hg
    · exact h

end Steps

theorem undisturbed_of_none {s : BufferPool} {t : Nat} {io : Io}
    (hpick : s.picks t = none) (hpin : s.pins t = none) : s.Undisturbed (.advance t io) := by
  refine ⟨exclusive_of_none hpick, fun id hid => ?_⟩
  rw [hpin] at hid
  cases hid

end BufferPool

end RGraph.Buffer
