import RGraph.Proofs.BufferPool

/-!
# Two pages never share a frame

A step of a thread is a move or two of `Proofs.BufferPool`. The invariant needs
one thing of the run: that a sweep does not find a frame that another one has
found and whose thread has not reserved it yet. The pool does nothing to ensure
that, as the first pass of a sweep leaves the empty frame it returns as it is.
-/

namespace RGraph.Buffer

open RGraph.Lib List Function

namespace BufferPool

/-- The frame that a sweep finds with its next step. -/
def picks (s : BufferPool) (t : Nat) : Option FrameId :=
  match s.threads t with
  | .scan _ start i =>
    let id := (start + i) % s.frameCount
    let d := (s.frame id).desc
    if i < s.frameCount ∧ d.state = .empty ∧ ¬ d.ioInflight then some id
    else none
  | .sweep _ scanned =>
    let d := (s.frame s.clockHand).desc
    if scanned < s.frameCount * 2 ∧ ¬ d.isPinned ∧ ¬ d.ioInflight ∧
        (d.state = .clean ∨ d.state = .empty) then some s.clockHand
    else none
  | _ => none

/-- No sweep finds a frame that another thread has found and not reserved. -/
def Exclusive (s : BufferPool) : PoolOp → Prop
  | .advance t _ => ∀ id, s.picks t = some id →
      ∀ u, u ≠ t → (s.threads u).victim ≠ some id
  | _ => True

/-- The mapped frame that a thread pins with its next step. -/
def pins (s : BufferPool) (t : Nat) : Option FrameId :=
  let mapped (pageId : PageId) : Option FrameId :=
    match s.shard pageId with
    | some (.frame id) => some id
    | _ => none
  match s.threads t with
  | .lookup pageId => mapped pageId
  | .waiting pageId => mapped pageId
  | .chosen (.fix pageId _) _ => mapped pageId
  | _ => none

/-- The dirty frame that a sweep writes back with its next step. -/
def writesBack (s : BufferPool) : PoolOp → Option FrameId
  | .advance t _ =>
    match s.threads t with
    | .sweep _ scanned =>
      let d := (s.frame s.clockHand).desc
      if scanned < s.frameCount * 2 ∧ ¬ d.isPinned ∧ ¬ d.ioInflight ∧
          d.state = .dirty ∧ ¬ d.clockRef ∧ d.pageId ≠ 0 ∧ ¬ s.ioFailed
      then some s.clockHand
      else none
    | _ => none
  | _ => none

/-! ## What a thread does before it has a frame to work on -/

/-- What becomes of the frame that a sweep looks at. -/
inductive Probed (s : BufferPool) (op : PoolOp) : BufferPool → Prop
  | same : Probed s op s
  | touch (id : FrameId) : Probed s op
      (s.setDesc id { (s.frame id).desc with clockRef := false })
  | clean {id : FrameId} (back : s.writesBack op = some id) : Probed s op
      ((s.write (s.frame id).desc.pageId (s.frame id).buf).setDesc id (s.frame id).desc.markClean)
  | stick {id : FrameId} (back : s.writesBack op = some id)
      (failed : ∀ t io, op = .advance t io → io.result = .failed) : Probed s op
      (s.setDesc id { (s.frame id).desc with ioInflight := true })
  | sync {id : FrameId} (back : s.writesBack op = some id) : Probed s op
      { s.write (s.frame id).desc.pageId (s.frame id).buf with
        ioFailed := true }

/-- A step of a thread that looks for a page or for a frame. It keeps the
frames it has reserved unless a write-back of its sweep fails. -/
inductive Search (s : BufferPool) (t : Nat) (op : PoolOp) : BufferPool → Prop
  | stay : Search s t op s
  | pass {s₁ : BufferPool} {hand : Nat} {pc : Pc} (probed : Probed s op s₁)
      (next : (s.threads t).Next pc) (victim : pc.victim = none)
      (keeps : (pc = .idle ∧ ∃ w n, s.threads t = .sweep w n) ∨
        ∀ x ∈ (s.threads t).owns, x ∈ pc.owns) :
      Search s t op ({ s₁ with clockHand := hand }.goto t pc)
  | hit {id : FrameId} {p : PageId} (pins : s.pins t = some id)
      (mapped : s.shard p = some (.frame id))
      (owns : (s.threads t).owns = []) : Search s t op (s.hit t id p)
  | found {hand : Nat} {id : FrameId} {pc : Pc} (picks : s.picks t = some id)
      (next : (s.threads t).Next pc) (victim : pc.victim = some id)
      (owns : pc.owns = (s.threads t).owns)
      (empty : pc.free = some id → (s.frame id).desc.state = .empty)
      (unpinned : ∀ w i, pc = .unmap w i → (s.frame i).desc.pinCount = 0) :
      Search s t op ({ s with clockHand := hand }.goto t pc)

section Search

variable {s s' : BufferPool} {t : Nat} {op : PoolOp} {pc pc' : Pc}
  {id : FrameId} {p : PageId}

theorem Search.goto (hpc : s.threads t = pc) (hn : pc.Next pc')
    (hv : pc'.victim = none) (hk : ∀ x ∈ pc.owns, x ∈ pc'.owns) (hand : Nat) :
    Search s t op ({ s with clockHand := hand }.goto t pc') :=
  .pass .same (hpc ▸ hn) hv (.inr (hpc ▸ hk))

theorem search_lookup (hpc : s.threads t = pc)
    (hlook : pc = .lookup p ∨ pc = .waiting p) (io : Io) :
    Search s t (.advance t io) (s.advance t io) := by
  have hhit : ∀ id, s.shard p = some (.frame id) →
      Search s t (.advance t io) (s.hit t id p) := by
    intro id hp
    refine .hit ?_ hp ?_
    · rcases hlook with rfl | rfl <;> simp only [pins, hpc, hp]
    · rcases hlook with rfl | rfl <;> rw [hpc] <;> rfl
  rcases hlook with rfl | rfl <;> rw [advance, hpc] <;> dsimp only <;> split
  · exact .goto hpc (by constructor <;> simp) rfl nofun s.clockHand
  · next id hp => exact hhit id hp
  · exact .goto hpc (by constructor <;> simp) rfl nofun s.clockHand
  · exact .stay
  · next id hp => exact hhit id hp
  · exact .goto hpc (by constructor <;> simp) rfl nofun s.clockHand

theorem search_scan {w : Want} {start i : Nat} (hpc : s.threads t = .scan w start i) (io : Io) :
    Search s t (.advance t io) (s.advance t io) := by
  rw [advance, hpc]
  dsimp only
  split
  · next hi =>
      split
      · next hd =>
          refine .found ?_ ?_ rfl ?_ (fun _ => hd.1) nofun
          · rw [picks, hpc]
            exact if_pos ⟨hi, hd⟩
          · rw [hpc]
            constructor <;> simp [List.Subperm.refl]
          · rw [hpc]
            rfl
      · exact .goto hpc (by constructor <;> simp [List.Subperm.refl]) rfl (by simp) s.clockHand
  · exact .goto hpc (by constructor <;> simp [List.Subperm.refl]) rfl (by simp) s.clockHand

/-- A write-back of a dirty victim. -/
theorem flush_probed (hand : Nat) (io : IoResult) (hio : ∀ t i, op = .advance t i → i.result = io)
    (hback : (s.frame id).desc.pageId ≠ 0 → ¬ s.ioFailed → s.writesBack op = some id) :
    (∀ s', flushSingleFrame { s with clockHand := hand } id io = some s' →
        ∃ s₁, Probed s op s₁ ∧ s' = { s₁ with clockHand := hand }) ∧
      (flushSingleFrame { s with clockHand := hand } id io = none →
        ∃ s₁, Probed s op s₁ ∧ flushFailed { s with clockHand := hand } id io =
          { s₁ with clockHand := hand }) := by
  unfold flushSingleFrame flushFailed
  dsimp only
  split
  · exact ⟨fun s' h => ⟨s, .same, (Option.some.inj h).symm⟩, nofun⟩
  · next h0 =>
      split
      · exact ⟨nofun, fun _ => ⟨s, .same, rfl⟩⟩
      · next hok =>
          have hback := hback h0 hok
          split
          · exact ⟨fun s' h => ⟨s, .same, (Option.some.inj h).symm⟩, nofun⟩
          · cases io with
            | failed => exact ⟨nofun, fun _ => ⟨_, .stick hback hio, rfl⟩⟩
            | syncFailed => exact ⟨nofun, fun _ => ⟨_, .sync hback, rfl⟩⟩
            | ok =>
              exact ⟨fun s' h => ⟨_, .clean hback, (Option.some.inj h).symm⟩, nofun⟩

theorem search_probe {w : Want} {n : Nat} (hpc : s.threads t = .sweep w n)
    (hn : n < s.frameCount * 2) (io : Io) :
    Search s t (.advance t io) (s.probe t w n io.result) := by
  have hnext : (s.threads t).Next (.sweep w (n + 1)) := by
    rw [hpc]
    constructor <;> simp [List.Subperm.refl]
  have hkeeps : ∀ x ∈ (s.threads t).owns, x ∈ (Pc.sweep w (n + 1)).owns := by
    rw [hpc]
    exact fun _ h => h
  unfold probe
  dsimp only
  split
  · exact .pass .same hnext rfl (.inr hkeeps)
  · next hd =>
      obtain ⟨hpin, hin⟩ := not_or.mp hd
      -- the frame is not pinned when it is found
      have hzero : (s.frame s.clockHand).desc.pinCount = 0 := by
        rw [FrameDescriptor.isPinned, decide_eq_true_eq, UInt16.not_lt] at hpin
        exact UInt16.le_zero_iff.mp hpin
      have hfound : (s.frame s.clockHand).desc.state = .clean ∨
          (s.frame s.clockHand).desc.state = .empty →
          Search s t (.advance t io)
            ({ s with clockHand := (s.clockHand + 1) % s.frameCount }.goto t
              (.unmap w s.clockHand)) := by
        intro hst
        refine .found ?_ ?_ rfl ?_ (by simp) ?_
        · rw [picks, hpc]
          exact if_pos ⟨hn, hpin, hin, hst⟩
        · rw [hpc]
          constructor <;> simp [List.Subperm.refl]
        · rw [hpc]
          rfl
        · rintro _ _ ⟨⟩
          exact hzero
      split
      · next hst => exact hfound (.inl hst)
      · next hst => exact hfound (.inr hst)
      · next hst =>
          split
          · exact .pass (.touch s.clockHand) hnext rfl (.inr hkeeps)
          · next href =>
              have hback : (s.frame s.clockHand).desc.pageId ≠ 0 → ¬ s.ioFailed →
                  s.writesBack (.advance t io) = some s.clockHand := by
                intro h0 hio
                simp only [writesBack, hpc]
                exact if_pos ⟨hn, hpin, hin, hst, href, h0, hio⟩
              obtain ⟨hok, hfail⟩ := flush_probed ((s.clockHand + 1) % s.frameCount) io.result
                (by rintro _ _ ⟨⟩; rfl) hback
              split
              · next s' hflush =>
                  obtain ⟨s₁, h₁, rfl⟩ := hok s' hflush
                  exact .pass h₁ hnext rfl (.inr hkeeps)
              · next hflush =>
                  obtain ⟨s₁, h₁, heq⟩ := hfail hflush
                  rw [heq]
                  refine .pass h₁ ?_ rfl (.inl ⟨rfl, w, n, hpc⟩)
                  constructor <;> simp
      · exact .pass .same hnext rfl (.inr hkeeps)
      · exact .pass .same hnext rfl (.inr hkeeps)

theorem search_sweep {w : Want} {n : Nat} (hpc : s.threads t = .sweep w n)
    (io : Io) : Search s t (.advance t io) (s.advance t io) := by
  rw [advance, hpc]
  dsimp only
  split
  · next hn => exact search_probe hpc hn io
  · cases w with
    | fix p sweeps =>
      rw [noVictim]
      split
      · exact .goto hpc (by constructor <;> simp) rfl (by simp) s.clockHand
      · exact .goto hpc (by constructor <;> simp) rfl (by simp) s.clockHand
    | prefetch next left filled =>
      refine .goto hpc ?_ rfl (by simp) s.clockHand
      constructor <;> simp [(reverse_perm filled).subperm]

theorem search_range {next : PageId} {left : Nat} {filled : List (FrameId × PageId)}
    (hpc : s.threads t = .prefetch next left filled) (count : Nat) :
    Search s t op (s.rangeNext t count next left filled) := by
  unfold rangeNext
  split
  · refine .goto hpc ?_ rfl (by simp) s.clockHand
    constructor <;> simp [(reverse_perm filled).subperm]
  · split
    · exact .goto hpc (by constructor <;> simp [List.Subperm.refl]) rfl (by simp) s.clockHand
    · next h0 =>
        refine .goto hpc ?_ rfl (by simp) s.clockHand
        constructor <;> simp [List.Subperm.refl]
        exact fun h => h0 (.inl h)

/-- The places of a thread from which a step is a `Search`. -/
def searches : Pc → Bool
  | .unmap _ _ => false
  | .evict _ _ => false
  | .chosen _ _ => false
  | .loading _ _ => false
  | .loaded _ _ _ => false
  | .fill todo _ => todo.isEmpty
  | .publish todo => todo.isEmpty
  | _ => true

theorem advance_search (io : Io) (h : searches (s.threads t) = true) :
    Search s t (.advance t io) (s.advance t io) := by
  cases hpc : s.threads t with
  | idle =>
    rw [advance, hpc]
    exact .stay
  | lookup p => exact search_lookup hpc (.inl rfl) io
  | waiting p => exact search_lookup hpc (.inr rfl) io
  | scan w start i => exact search_scan hpc io
  | sweep w n => exact search_sweep hpc io
  | prefetch next left filled =>
    rw [advance, hpc]
    exact search_range hpc maxPrefetchPages
  | fill todo filled =>
    rw [hpc] at h
    cases isEmpty_iff.mp h
    rw [advance, hpc]
    exact .goto hpc (by constructor <;> simp [List.Subperm.refl]) rfl (by simp) s.clockHand
  | publish todo =>
    rw [hpc] at h
    cases isEmpty_iff.mp h
    rw [advance, hpc]
    exact .goto hpc (by constructor <;> simp) rfl (by simp) s.clockHand
  | _ =>
    rw [hpc] at h
    cases h

theorem not_dirty_of_picks {t : Nat} (h : s.picks t = some id) : (s.frame id).desc.state ≠ .dirty ∧
      (s.frame id).desc.ioInflight = false := by
  unfold picks at h
  split at h
  · dsimp only at h
    split at h
    · next hd =>
        cases h
        exact ⟨by rw [hd.2.1]; decide, Bool.not_eq_true _ ▸ hd.2.2⟩
    · cases h
  · dsimp only at h
    split at h
    · next hd =>
        cases h
        refine ⟨fun hst => ?_, Bool.not_eq_true _ ▸ hd.2.2.1⟩
        rcases hd.2.2.2 with hst' | hst' <;> rw [hst] at hst' <;> cases hst'
    · cases h
  · cases h

theorem advance_of_writesBack (h : s.writesBack op = some id) : ∃ t io, op = .advance t io := by
  cases op with
  | advance t io => exact ⟨t, io, rfl⟩
  | _ => cases h

theorem of_writesBack (h : s.writesBack op = some id) :
    (s.frame id).desc.ioInflight = false ∧ (s.frame id).desc.pageId ≠ 0 := by
  unfold writesBack at h
  split at h
  · split at h
    · dsimp only at h
      split at h
      · next hd =>
          cases h
          exact ⟨Bool.not_eq_true _ ▸ hd.2.2.1, hd.2.2.2.2.2.1⟩
      · cases h
    · cases h
  · cases h

end Search

/-! ## The steps of a thread -/

section Steps

variable {s s' : BufferPool} {t : Nat} {op : PoolOp} {id : FrameId} {p : PageId}

/-- A frame that is not in flight is reserved by nobody. -/
theorem Sound.not_owned (hs : s.Sound)
    (hin : (s.frame id).desc.ioInflight = false) (u : Nat) (p : PageId) : ¬ s.Owned u id p := by
  intro ho
  rw [(hs.owned u id p ho).2.2.1] at hin
  cases hin

theorem Sound.hit (hs : s.Sound) : (s.hit t id p).Sound := by
  have hpin : (s.setDesc id (s.frame id).desc.pin).Sound :=
    hs.kept ⟨rfl, fun h => h, rfl, fun h => h⟩
  have hidle : ((s.setDesc id (s.frame id).desc.pin).goto t .idle).Sound :=
    hpin.goto (by constructor <;> simp) rfl
  exact hidle.of_eq rfl rfl rfl hs.file

theorem Sound.probed (hs : s.Sound) (h : Probed s op s') : s'.Sound ∧ s'.threads = s.threads := by
  have hfile : ∀ {id}, s.writesBack op = some id → ∀ p, (update s.file
      (s.frame id).desc.pageId (s.frame id).buf p).pageId = p := by
    intro id hback p
    obtain ⟨hin, h0⟩ := of_writesBack hback
    by_cases hp : p = (s.frame id).desc.pageId
    · subst hp
      rw [update_self]
      exact hs.content id hin h0
    · rw [update_of_ne hp]
      exact hs.file p
  cases h with
  | same => exact ⟨hs, rfl⟩
  | touch id => exact ⟨hs.kept ⟨rfl, fun h => h, rfl, fun h => h⟩, rfl⟩
  | @clean id back =>
    have hclean : (s.setDesc id (s.frame id).desc.markClean).Sound := by
      refine hs.kept ⟨rfl, fun h => ?_, rfl, nofun⟩
      rw [(of_writesBack back).1] at h
      cases h
    exact ⟨hclean.of_eq rfl rfl rfl (hfile back), rfl⟩
  | stick back _ => exact ⟨hs.kept ⟨rfl, fun _ => rfl, rfl, fun h => h⟩, rfl⟩
  | sync back => exact ⟨hs.of_eq rfl rfl rfl (hfile back), rfl⟩

theorem Sound.search (hs : s.Sound) {io : Io}
    (h : Search s t (.advance t io) s') (hex : s.Exclusive (.advance t io)) : s'.Sound := by
  cases h with
  | stay => exact hs
  | pass probed next victim keeps =>
    obtain ⟨hs₁, ht⟩ := hs.probed probed
    exact (hs₁.goto (ht ▸ next) victim).of_eq rfl rfl rfl hs₁.file
  | hit pins mapped owns => exact hs.hit
  | found picks next victim owns empty unpinned =>
    refine Sound.of_eq (hs.goto_found next fun i hi => ?_) rfl rfl rfl hs.file
    cases victim.symm.trans hi
    exact ⟨hs.not_owned (not_dirty_of_picks picks).2,
      fun hf p hp => (hs.mapped p _ hp).2.2.2 (empty hf), hex _ picks⟩

theorem Sound.unmap {w : Want} (hs : s.Sound)
    (hpc : s.threads t = .unmap w id) (io : Io) : (s.advance t io).Sound := by
  have hv : (s.threads t).victim = some id := by rw [hpc]; rfl
  have hgoto : ∀ {s' : BufferPool}, s'.Sound → s'.threads = s.threads →
      s'.Unmapped id → (s'.goto t (.evict w id)).Sound := by
    intro s' h' ht hun
    refine h'.goto_found ?_ fun i hi => ?_
    · rw [ht, hpc]
      constructor <;> simp [List.Subperm.refl]
    · cases hi
      exact ⟨h'.victim t id (ht ▸ hv), fun _ => hun,
        fun u hu hv' => hu (h'.alone u t id hv' (ht ▸ hv))⟩
  rw [advance, hpc]
  dsimp only
  unfold BufferPool.unmap
  dsimp only
  split
  · next h =>
      refine hgoto (hs.map (by simp) fun u hu => ?_) rfl fun q hq => ?_
      · have hl := hs.loads u _ hu
        rw [h.2] at hl
        cases hl
      · by_cases hqp : q = (s.frame id).desc.pageId
        · subst hqp
          rw [map_shard, update_self] at hq
          cases hq
        · rw [map_shard, update_of_ne hqp] at hq
          exact hqp (hs.mapped q id hq).2.1.symm
  · next h =>
      refine hgoto hs rfl fun q hq => h ?_
      obtain ⟨h0, hpage, -⟩ := hs.mapped q id hq
      exact ⟨hpage ▸ h0, hpage ▸ hq⟩

/-- The frame that a thread has found and unmapped gets a new descriptor. -/
theorem Sound.setDesc_free (hs : s.Sound)
    (hfree : (s.threads t).free = some id) {d : FrameDescriptor}
    (hd : Frame.Consistent ⟨d, (s.frame id).buf⟩) : (s.setDesc id d).Sound :=
  hs.setDesc (hs.free t id hfree) (hs.victim t id (Pc.victim_of_free hfree)) hd

theorem Sound.evict {w : Want} (hs : s.Sound)
    (hpc : s.threads t = .evict w id) (io : Io) : (s.advance t io).Sound := by
  have hfree : (s.threads t).free = some id := by rw [hpc]; rfl
  have hv := Pc.victim_of_free hfree
  have hs' := hs.setDesc_free (d := .new) hfree fun _ h => absurd rfl h
  rw [advance, hpc]
  refine hs'.goto_found ?_ fun i hi => ?_
  · show (s.threads t).Next _
    rw [hpc]
    constructor <;> simp [List.Subperm.refl]
  · cases hi
    exact ⟨hs.victim t id hv, fun _ => hs.free t id hfree,
      fun u hu hv' => hu (hs.alone u t id hv' hv)⟩

theorem Sound.reserve {n : Nat} (hs : s.Sound)
    (hpc : s.threads t = .chosen (.fix p n) id) (io : Io) : (s.advance t io).Sound := by
  have hfree : (s.threads t).free = some id := by rw [hpc]; rfl
  have hs' := hs.setDesc_free (d := .new) hfree fun _ h => absurd rfl h
  rw [advance, hpc]
  dsimp only
  unfold BufferPool.reserve
  dsimp only
  split
  · refine hs'.goto ?_ rfl
    show (s.threads t).Next _
    rw [hpc]
    constructor <;> simp
  · exact hs'.hit
  · next hnone =>
      have hno : ∀ u, (s.threads u).loads ≠ some p := by
        intro u hu
        rw [hs.loads u p hu] at hnone
        cases hnone
      have hmap := hs.map (m := some .loading) nofun hno
      have hdesc := hmap.setDesc_free hfree (d := (s.frame id).desc.reserve p) nofun
      refine hdesc.takes (p := p) hfree ?_ rfl rfl nofun nofun
        (hs.wants t p (by rw [hpc]; rfl)) ?_ ?_ fun q hq => ?_
      · show _ = (id, p) :: (s.threads t).owns
        rw [hpc]
        rfl
      · rw [setDesc_frame_self]
        rfl
      · rw [setDesc_frame_self]
        rfl
      · cases hq
        exact ⟨update_self .., fun u _ => hno u⟩

theorem Sound.reserve_prefetch {next left : Nat} {filled : List (FrameId × PageId)} (hs : s.Sound)
    (hpc : s.threads t = .chosen (.prefetch next left filled) id) (io : Io) :
    (s.advance t io).Sound := by
  have hfree : (s.threads t).free = some id := by rw [hpc]; rfl
  have hdesc := hs.setDesc_free hfree (d := (s.frame id).desc.reserve next) nofun
  rw [advance, hpc]
  refine hdesc.takes (p := next) hfree ?_ rfl rfl nofun nofun
    (hs.wants t next (by rw [hpc]; rfl)) ?_ ?_ nofun
  · show _ = (id, next) :: (s.threads t).owns
    rw [hpc]
    rfl
  · rw [setDesc_frame_self]
    rfl
  · rw [setDesc_frame_self]
    rfl

/-- A reserved frame is filled by its thread. -/
theorem Sound.fillBuf (hs : s.Sound) (ho : s.Owned t id p)
    (ht : ∀ q, s.threads t ≠ .loaded q id true) (buf : PageImage) :
    (s.setFrame id { s.frame id with buf := buf }).Sound := by
  obtain ⟨-, -, hin, hun⟩ := hs.owned t id p ho
  refine hs.setFrame (fun q hq => absurd hq (hun q))
    (fun u q hu => ⟨(hs.owned u id q hu).2.1, hin⟩) (fun u q hu => ?_)
    fun hno _ => absurd (hin.symm.trans hno) (by decide)
  rw [hs.apart u t id q p (owned_of_loaded hu) ho] at hu
  exact absurd hu (ht q)

theorem Sound.loading (hs : s.Sound) (hpc : s.threads t = .loading p id)
    (io : Io) : (s.advance t io).Sound := by
  have hmine : ∀ x ∈ [(id, p)], x ∈ (s.threads t).owns := by
    rw [hpc]
    exact fun _ h => h
  have hl : (s.threads t).loads = some p := by rw [hpc]; rfl
  have hs' : (s.load p id (io.result = .ok)).Sound :=
    hs.fillBuf (hmine _ mem_cons_self) (by simp [hpc]) _
  rw [advance, hpc]
  refine hs'.moves
    { owned := fun i q hx => hs'.owned t i q (hmine _ hx)
      nodup := nodup_singleton _
      apart := fun u i q r hu hr hx => hu (hs.apart u t i r q hr (hmine _ hx))
      prey := fun u i q _ hv hx => hs.victim u i hv t q (hmine _ hx)
      victim := nofun, free := nofun, wants := nofun, fill := nofun
      loads := fun q hq => ?_, loaded := fun q i heq => ?_ }
  · cases hq
    exact ⟨hs.loads t p hl, fun u hu hq => hu (hs.loader u t p hq hl)⟩
  · obtain ⟨rfl, rfl, hok⟩ := Pc.loaded.inj heq
    rw [load, setFrame_frame_self, if_pos hok]
    exact hs.file p

theorem Sound.loaded_step {ok : Bool} (hs : s.Sound)
    (hpc : s.threads t = .loaded p id ok) (io : Io) : (s.advance t io).Sound := by
  have hown := owned_of_loaded hpc
  have howns : (s.threads t).owns = [(id, p)] := by rw [hpc]; rfl
  have hl : (s.threads t).loads = some p := by rw [hpc]; rfl
  obtain ⟨-, hpage, -, hun⟩ := hs.owned t id p hown
  rw [advance, hpc]
  cases ok with
  | true =>
    have hpub : ∀ pc : Pc, pc.owns = [] → pc.wants = none → pc.loads = none →
        pc.victim = none → (∀ todo filled, pc ≠ .fill todo filled) →
        (((s.goto t pc).setDesc id { (s.frame id).desc with
          ioInflight := false, state := .clean, pinCount := 1,
          clockRef := true }).map p (some (.frame id))).Sound := by
      intro pc hnone hw hload hv hf
      refine hs.publishes ⟨?_, hload, ?_, ?_⟩ (howns.trans (by rw [hnone])) hv
        hpage rfl (hs.loaded t p id hpc) (.inr hl)
      · rw [hnone]
        exact nil_subperm
      · rw [hw]
        simp
      · exact fun todo filled heq => absurd heq (hf todo filled)
    dsimp only [publish]
    rw [if_pos rfl]
    split
    · exact (hpub .idle rfl rfl rfl rfl (by simp)).of_eq rfl rfl rfl hs.file
    · exact (hpub (.prefetch _ _ []) rfl rfl rfl rfl (by simp)).of_eq rfl rfl rfl hs.file
  | false =>
    -- the thread lets go of the frame before the frame is reset
    have h₁ : (s.goto t .idle).Sound :=
      hs.goto (by constructor <;> simp) rfl
    have h₂ := h₁.setDesc (d := .new) hun
      (hs.not_owned_of_next (p := p) (by rw [hpc]; rfl)) fun _ h => absurd rfl h
    refine h₂.map (p := p) (by simp) fun u hu => ?_
    by_cases hut : u = t
    · subst hut
      change (update s.threads u .idle u).loads = some p at hu
      rw [update_self] at hu
      cases hu
    · change (update s.threads t .idle u).loads = some p at hu
      rw [update_of_ne hut] at hu
      exact hut (hs.loader u t p hu hl)

theorem Sound.fill_step {todo filled : List (FrameId × PageId)} (hs : s.Sound)
    (hpc : s.threads t = .fill ((id, p) :: todo) filled) (io : Io) : (s.advance t io).Sound := by
  have hsub := hs.fill t _ filled hpc
  have hl : ∀ buf, (s.setFrame id { s.frame id with buf := buf }).Sound :=
    hs.fillBuf (by rw [Owned, hpc]; exact hsub mem_cons_self) (by simp [hpc])
  rw [advance, hpc]
  dsimp only
  split
  · refine (hl _).goto ?_ rfl
    show (s.threads t).Next _
    rw [hpc]
    constructor <;> simp [List.Subperm.refl]
    exact fun x hx => hsub (mem_cons_of_mem _ hx)
  · refine (hl _).goto ?_ rfl
    constructor <;> simp

theorem Sound.publish_step {todo : List (FrameId × PageId)} (hs : s.Sound)
    (hpc : s.threads t = .publish ((id, p) :: todo)) (io : Io) : (s.advance t io).Sound := by
  have howns : (s.threads t).owns = (id, p) :: todo := by rw [hpc]; rfl
  have hnext : (s.threads t).Next (.publish todo) := by
    rw [hpc]
    constructor <;> simp [List.Subperm.cons_self]
  obtain ⟨-, hpage, -, hun⟩ := hs.owned t id p (by
    rw [Owned, howns]; exact mem_cons_self)
  rw [advance, hpc]
  dsimp only
  unfold publishPrefetched
  dsimp only
  split
  · next h => exact hs.publishes hnext howns rfl hpage rfl h.2.1 (.inl h.2.2)
  · exact (hs.goto hnext rfl).setDesc hun
      (hs.not_owned_of_next (p := p) howns) fun _ h => absurd rfl h

theorem Sound.advance (hs : s.Sound) (t : Nat) (io : Io)
    (hex : s.Exclusive (.advance t io)) : (s.advance t io).Sound := by
  cases hpc : s.threads t with
  | unmap w id => exact hs.unmap hpc io
  | evict w id => exact hs.evict hpc io
  | chosen w id =>
    cases w with
    | fix p n => exact hs.reserve hpc io
    | prefetch next left filled => exact hs.reserve_prefetch hpc io
  | loading p id => exact hs.loading hpc io
  | loaded p id ok => exact hs.loaded_step hpc io
  | fill todo filled =>
    cases todo with
    | nil => exact hs.search (advance_search io (by rw [hpc]; rfl)) hex
    | cons x todo => exact hs.fill_step hpc io
  | publish todo =>
    cases todo with
    | nil => exact hs.search (advance_search io (by rw [hpc]; rfl)) hex
    | cons x todo => exact hs.publish_step hpc io
  | _ => exact hs.search (advance_search io (by rw [hpc]; rfl)) hex

theorem Sound.step (hs : s.Sound) {op : PoolOp} (hex : s.Exclusive op) : (s.step op).Sound := by
  cases op with
  | fix t p =>
    rw [BufferPool.step]
    split
    · next h =>
        refine hs.goto ?_ rfl
        rw [h.1]
        constructor <;> simp [h.2]
    · exact hs
  | advance t io => exact hs.advance t io hex
  | modify g lsn =>
    unfold BufferPool.step
    dsimp only
    split
    · exact hs.kept ⟨rfl, fun h => h, rfl, nofun⟩
    · exact hs
  | drop g =>
    rw [BufferPool.step]
    split
    · have hpin : (s.setDesc g.frameId (s.frame g.frameId).desc.unpin).Sound :=
        hs.kept ⟨rfl, fun h => h, rfl, fun h => h⟩
      exact hpin.of_eq rfl rfl rfl hs.file
    · exact hs

end Steps

/-! ## Whole runs -/

theorem run_sound {n : Nat} {ops : List PoolOp}
    (h : Guarded step Exclusive (new n) ops) : (run step (new n) ops).Sound :=
  run_inv (fun _ _ hs hex => hs.step hex) (sound_new n) h

/-- No two pages are mapped to one frame, and a frame holds the page that is
mapped to it. -/
structure Apart (s : BufferPool) : Prop where
  apart : ∀ p q id, s.shard p = some (.frame id) → s.shard q = some (.frame id) → p = q
  holds : ∀ p id, s.shard p = some (.frame id) →
    (s.frame id).desc.pageId = p ∧ (s.frame id).buf.pageId = p

theorem Sound.pages_apart {s : BufferPool} (hs : s.Sound) : s.Apart where
  apart p q id hp hq := by
    rw [← (hs.mapped p id hp).2.1, ← (hs.mapped q id hq).2.1]
  holds p id hp := ⟨(hs.mapped p id hp).2.1, (hs.mapped p id hp).2.2.1⟩

/-- A step of a thread whose I/O succeeds and that starts no readahead. -/
def go (t : Nat) : PoolOp := .advance t ⟨.ok, none⟩

theorem exclusive_of_none {s : BufferPool} {t : Nat} {io : Io}
    (h : s.picks t = none) : s.Exclusive (.advance t io) := by
  intro id hid
  rw [h] at hid
  cases hid

theorem pages_share_no_frame (n : Nat) (ops : List PoolOp)
    (h : Guarded step Exclusive (new n) ops) : (run step (new n) ops).Apart :=
  (run_sound h).pages_apart

theorem pages_share_no_frame_fix :
    (run step (new 1) [.fix 1 7, go 1, go 1, go 1, go 1, go 1]).shard 7 = some (.frame 0) ∧
      (run step (new 1) [.fix 1 7, go 1, go 1, go 1, go 1, go 1]).Apart := by
  refine ⟨by decide, pages_share_no_frame 1 _ ⟨trivial, ?_, ?_, ?_, ?_, ?_,
    trivial⟩⟩
  · exact exclusive_of_none rfl
  · intro id _ u hu
    show (update (update (fun _ => Pc.idle) 1 _) 1 _ u).victim ≠ some id
    rw [update_of_ne hu, update_of_ne hu]
    nofun
  · exact exclusive_of_none rfl
  · exact exclusive_of_none rfl
  · exact exclusive_of_none rfl

/-- Two threads find the one empty frame before either of them reserves it. -/
theorem sweeps_share_a_frame : ¬ ∀ (n : Nat) (ops : List PoolOp), (run step (new n) ops).Apart := by
  intro h
  have hs := h 1 [.fix 1 7, .fix 2 8, go 1, go 2, go 1, go 2, go 1, go 2,
    go 1, go 2, go 1, go 2]
  exact absurd (hs.apart 7 8 0 (by decide) (by decide)) (by decide)

end BufferPool

end RGraph.Buffer
