import RGraph.Buffer.Publication
import RGraph.Proofs.BufferPins

/-!
# A guard keeps its page while frames are published

A thread that publishes a frame releases it first. Between that and the pin, or
the mapping, the frame looks like one that a sweep may take. While no sweep
finds it then, a pool in which frames are released shows another pool in which
they are not, and the steps of the one are steps of the other: what is proved
of `BufferPool`, where publication is one step, is true here.
-/

namespace RGraph.Buffer

open RGraph.Lib List Function

/-! ## A step leaves alone what it does not look at -/

namespace BufferPool

/-- The frame of a mapped page. -/
def mapped (s : BufferPool) (p : PageId) : List FrameId :=
  match s.shard p with
  | some (.frame id) => [id]
  | _ => []

/-- The frames that a step of a thread reads or writes. The first pass of a
sweep is left out: it takes empty frames only. -/
def touches (s : BufferPool) (t : Nat) : List FrameId :=
  match s.threads t with
  | .lookup p => s.mapped p
  | .waiting p => s.mapped p
  | .sweep _ n => if n < s.frameCount * 2 then [s.clockHand] else []
  | .unmap _ id => [id]
  | .evict _ id => [id]
  | .chosen w id => id :: s.mapped w.page
  | .loading _ id => [id]
  | .loaded _ id _ => [id]
  | .fill (x :: _) _ => [x.1]
  | .publish (x :: _) => [x.1]
  | _ => []

section Local

variable {X : FrameId → Prop} {s r r' r₁ r₁' : BufferPool} {g : FrameId → Frame} {t : Nat}
  {id : FrameId} {f : Frame}

/-- From `s`, and from `s` with the frames `g`, thread `t` has come to `r` and
to `r'` without touching the frames in `X`. -/
structure Local (X : FrameId → Prop) (s : BufferPool) (g : FrameId → Frame) (t : Nat)
    (r r' : BufferPool) : Prop where
  rest : r' = { r with frame := r'.frame }
  same : ∀ id, ¬ X id → r'.frame id = r.frame id
  left : ∀ id, X id → r.frame id = s.frame id
  right : ∀ id, X id → r'.frame id = g id
  others : ∀ u, u ≠ t → r.threads u = s.threads u

theorem Local.refl (hg : ∀ id, ¬ X id → g id = s.frame id) :
    Local X s g t s { s with frame := g } :=
  ⟨rfl, hg, fun _ _ => rfl, fun _ _ => rfl, fun _ _ => rfl⟩

theorem Local.setFrame (h : Local X s g t r r') (hid : ¬ X id) (f : Frame) :
    Local X s g t (r.setFrame id f) (r'.setFrame id f) := by
  have hne : ∀ i, X i → i ≠ id := by
    rintro i hi rfl
    exact hid hi
  refine ⟨?_, fun i hi => ?_, fun i hi => ?_, fun i hi => ?_, h.others⟩
  · rw [h.rest]
    rfl
  · by_cases heq : i = id
    · subst heq
      rw [setFrame_frame_self, setFrame_frame_self]
    · rw [setFrame_frame_of_ne _ f heq, setFrame_frame_of_ne _ f heq, h.same i hi]
  · rw [setFrame_frame_of_ne _ f (hne i hi), h.left i hi]
  · rw [setFrame_frame_of_ne _ f (hne i hi), h.right i hi]

theorem Local.setDesc (h : Local X s g t r r') (hid : ¬ X id) (d : FrameDescriptor) :
    Local X s g t (r.setDesc id d) (r'.setDesc id d) := by
  rw [BufferPool.setDesc, BufferPool.setDesc, h.same id hid]
  exact h.setFrame hid _

/-- What is not a frame is changed in both. -/
theorem Local.of_eq (h : Local X s g t r r') (hframe : r₁.frame = r.frame)
    (hrest : r₁' = { r₁ with frame := r'.frame })
    (hothers : ∀ u, u ≠ t → r₁.threads u = r.threads u) : Local X s g t r₁ r₁' := by
  subst hrest
  refine ⟨rfl, fun i hi => ?_, fun i hi => ?_, fun i hi => h.right i hi,
    fun u hu => (hothers u hu).trans (h.others u hu)⟩
  · rw [hframe]
    exact h.same i hi
  · rw [hframe, h.left i hi]

theorem Local.goto (h : Local X s g t r r') (pc : Pc) :
    Local X s g t (r.goto t pc) (r'.goto t pc) := by
  refine h.of_eq rfl ?_ fun u hu => update_of_ne hu ..
  rw [h.rest]
  rfl

theorem Local.map (h : Local X s g t r r') (p : PageId) (m : Option Mapping) :
    Local X s g t (r.map p m) (r'.map p m) := by
  refine h.of_eq rfl ?_ fun _ _ => rfl
  rw [h.rest]
  rfl

theorem Local.hit (h : Local X s g t r r') (hid : ¬ X id) (p : PageId) :
    Local X s g t (r.hit t id p) (r'.hit t id p) := by
  rw [BufferPool.hit, BufferPool.hit, h.same id hid]
  refine ((h.setDesc hid _).goto .idle).of_eq rfl ?_ fun _ _ => rfl
  rw [h.rest]
  rfl

theorem Local.load (h : Local X s g t r r') (hid : ¬ X id) (p : PageId) (ok : Bool) :
    Local X s g t (r.load p id ok) (r'.load p id ok) := by
  have hfile : r'.file = r.file := by rw [h.rest]
  rw [BufferPool.load, BufferPool.load, h.same id hid, hfile]
  exact h.setFrame hid _

theorem Local.write (h : Local X s g t r r') (p : PageId) (image : PageImage) :
    Local X s g t (r.write p image) (r'.write p image) := by
  refine h.of_eq rfl ?_ fun _ _ => rfl
  rw [h.rest]
  rfl

theorem Local.flush (h : Local X s g t r r') (hid : ¬ X id) (io : IoResult) :
    (∃ q q', r.flushSingleFrame id io = some q ∧ r'.flushSingleFrame id io = some q' ∧
        Local X s g t q q') ∨
      r.flushSingleFrame id io = none ∧ r'.flushSingleFrame id io = none ∧
        Local X s g t (r.flushFailed id io) (r'.flushFailed id io) := by
  have hfailed : r'.ioFailed = r.ioFailed := by rw [h.rest]
  simp only [flushSingleFrame, flushFailed, h.same id hid, hfailed]
  split
  · exact .inl ⟨r, r', rfl, rfl, h⟩
  split
  · exact .inr ⟨rfl, rfl, h⟩
  split
  · exact .inl ⟨r, r', rfl, rfl, h⟩
  cases io with
  | ok => exact .inl ⟨_, _, rfl, rfl, (h.write _ _).setDesc hid _⟩
  | failed => exact .inr ⟨rfl, rfl, h.setDesc hid _⟩
  | syncFailed =>
    refine .inr ⟨rfl, rfl, (h.write (r.frame id).desc.pageId (r.frame id).buf).of_eq rfl ?_
      fun _ _ => rfl⟩
    rw [h.rest]
    rfl

theorem Local.probe (hg : ∀ id, ¬ X id → g id = s.frame id) (hX : ¬ X s.clockHand)
    (w : Want) (n : Nat) (io : IoResult) :
    Local X s g t (s.probe t w n io) ({ s with frame := g }.probe t w n io) := by
  have hrefl : Local X s g t { s with clockHand := (s.clockHand + 1) % s.frameCount }
      { s with frame := g, clockHand := (s.clockHand + 1) % s.frameCount } :=
    (Local.refl hg).of_eq rfl rfl fun _ _ => rfl
  simp only [BufferPool.probe, hg _ hX]
  split
  · exact hrefl.goto _
  split
  · exact hrefl.goto _
  · exact hrefl.goto _
  · split
    · exact (hrefl.setDesc hX _).goto _
    · rcases hrefl.flush hX io with ⟨q, q', hq, hq', hl⟩ | ⟨hq, hq', hl⟩ <;> rw [hq, hq']
      · exact hl.goto _
      · exact hl.goto _
  · exact hrefl.goto _
  · exact hrefl.goto _

theorem Local.reserve (h : Local X s g t r r') (hid : ¬ X id) (p : PageId)
    (hp : ∀ other, r.shard p = some (.frame other) → ¬ X other) :
    Local X s g t (r.reserve t p id) (r'.reserve t p id) := by
  have hshard : r'.shard = r.shard := by rw [h.rest]
  simp only [BufferPool.reserve, h.same id hid, hshard]
  split
  · exact (h.setDesc hid _).goto _
  · next other hother => exact (h.setDesc hid _).hit (hp other hother) p
  · exact ((h.map p _).setDesc hid _).goto _

/-- What a thread does to frames that it does not touch is nothing. -/
theorem advance_local (hg : ∀ id, ¬ X id → g id = s.frame id)
    (hX : ∀ id, X id → (s.frame id).desc.ioInflight = true ∧ (g id).desc.state ≠ .empty)
    (htouch : ∀ id ∈ s.touches t, ¬ X id) (io : Io) :
    Local X s g t (s.advance t io) ({ s with frame := g }.advance t io) := by
  have hrefl : Local X s g t s { s with frame := g } := .refl hg
  have hmapped : ∀ {p id}, s.shard p = some (.frame id) → id ∈ s.mapped p := by
    intro p id hp
    simp [mapped, hp]
  simp only [touches] at htouch
  simp only [advance]
  cases hpc : s.threads t with
  | idle => exact hrefl
  | lookup p =>
    simp only [hpc] at htouch ⊢
    split
    · exact hrefl.goto _
    · next id hp => exact hrefl.hit (htouch id (hmapped hp)) p
    · exact hrefl.goto _
  | waiting p =>
    simp only [hpc] at htouch ⊢
    split
    · exact hrefl
    · next id hp => exact hrefl.hit (htouch id (hmapped hp)) p
    · exact hrefl.goto _
  | scan w start i =>
    dsimp only
    split
    · -- a frame in `X` is empty in neither
      have hsame : ((g ((start + i) % s.frameCount)).desc.state = .empty ∧
            ¬ (g ((start + i) % s.frameCount)).desc.ioInflight) ↔
          ((s.frame ((start + i) % s.frameCount)).desc.state = .empty ∧
            ¬ (s.frame ((start + i) % s.frameCount)).desc.ioInflight) := by
        by_cases hid : X ((start + i) % s.frameCount)
        · simp [hX _ hid]
        · rw [hg _ hid]
      simp only [hsame]
      split
      · refine Local.goto ?_ _
        exact hrefl.of_eq rfl rfl fun _ _ => rfl
      · exact hrefl.goto _
    · exact hrefl.goto _
  | sweep w n =>
    simp only [hpc] at htouch ⊢
    split
    · next hn =>
        rw [if_pos hn] at htouch
        exact .probe hg (htouch _ mem_cons_self) w n io.result
    · cases w with
      | fix p sweeps =>
        simp only [noVictim]
        split
        · exact hrefl.goto _
        · exact hrefl.goto _
      | prefetch next left filled => exact hrefl.goto _
  | unmap w id =>
    simp only [hpc] at htouch ⊢
    simp only [unmap, hg id (htouch id mem_cons_self)]
    split
    · exact (hrefl.map _ none).goto _
    · exact hrefl.goto _
  | evict w id =>
    simp only [hpc] at htouch ⊢
    rw [hg id (htouch id mem_cons_self)]
    exact (hrefl.setDesc (htouch id mem_cons_self) _).goto _
  | chosen w id =>
    simp only [hpc] at htouch ⊢
    have hid := htouch id mem_cons_self
    cases w with
    | fix p n =>
      exact hrefl.reserve hid p fun other hp => htouch other (mem_cons_of_mem _ (hmapped hp))
    | prefetch next left filled =>
      dsimp only
      rw [hg id hid]
      exact (hrefl.setDesc hid _).goto _
  | loading p id =>
    simp only [hpc] at htouch ⊢
    exact (hrefl.load (htouch id mem_cons_self) p _).goto _
  | loaded p id ok =>
    simp only [hpc] at htouch ⊢
    have hid := htouch id mem_cons_self
    simp only [publish, loadFailed, hg id hid]
    split
    · split <;> refine Local.goto ?_ _ <;>
        exact ((hrefl.setDesc hid _).map p _).of_eq rfl rfl fun _ _ => rfl
    · exact ((hrefl.setDesc hid _).map p _).goto _
  | prefetch next left filled =>
    simp only [prefetchNext, rangeNext]
    split
    · exact hrefl.goto _
    · split
      · exact hrefl.goto _
      · exact hrefl.goto _
  | fill todo filled =>
    cases todo with
    | nil => exact hrefl.goto _
    | cons x todo =>
      simp only [hpc] at htouch ⊢
      have hid := htouch x.1 mem_cons_self
      split
      · exact (hrefl.load hid x.2 true).goto _
      · exact (hrefl.load hid x.2 false).goto _
  | publish todo =>
    cases todo with
    | nil => exact hrefl.goto _
    | cons x todo =>
      simp only [hpc] at htouch ⊢
      have hid := htouch x.1 mem_cons_self
      simp only [publishPrefetched, hg x.1 hid]
      split
      · exact ((hrefl.setDesc hid _).map x.2 _).goto _
      · exact (hrefl.setDesc hid _).goto _

end Local

/-! ## Calls of `prefetch_range` -/

section Range

variable {s : BufferPool} {op : RangeOp}

def RangeUndisturbed (s : BufferPool) : RangeOp → Prop
  | .pool op => s.Undisturbed op
  | _ => True

theorem Sound.rangeStep (hs : s.Sound) (hp : s.Pins) (hok : s.RangeUndisturbed op) :
    (s.rangeStep op).Sound ∧ (s.rangeStep op).Pins := by
  cases op with
  | pool op => exact ⟨hs.step hok.1, hp.step hs hok⟩
  | call t start count =>
    rw [BufferPool.rangeStep]
    split
    · next hidle =>
        refine ⟨hs.goto ?_ rfl, hp.move rfl⟩
        rw [hidle]
        constructor <;> simp
    · exact ⟨hs, hp⟩
  | page t count =>
    rw [BufferPool.rangeStep]
    split
    · next hpc =>
        have hnone : s.Undisturbed (.advance t ⟨.ok, none⟩) :=
          undisturbed_of_none (by rw [picks, hpc]) (by simp only [pins, hpc])
        have hsearch : Search s t (.advance t ⟨.ok, none⟩) _ := search_range hpc count
        exact ⟨hs.search hsearch hnone.1, hp.search hsearch hnone⟩
    · exact ⟨hs, hp⟩

end Range

end BufferPool

/-! ## Released frames -/

/-- The frame that a thread is about to publish. -/
def Pc.publishing : Pc → Option FrameId
  | .loaded _ id true => some id
  | .publish (x :: _) => some x.1
  | _ => none

theorem Pc.owns_of_publishing {pc : Pc} {id : FrameId} (h : pc.publishing = some id) :
    ∃ p, (id, p) ∈ pc.owns := by
  unfold publishing at h
  split at h
  · next p _ =>
      cases h
      exact ⟨p, mem_singleton_self _⟩
  · next x _ =>
      cases h
      exact ⟨x.2, mem_cons_self⟩
  · cases h

/-- The frame with the first stores of its publication. -/
def Frame.opened (f : Frame) : Frame :=
  { f with desc := { f.desc with ioInflight := false, state := .clean } }

namespace SplitPool

open BufferPool

variable {s : SplitPool} {b r r' : BufferPool} {t : Nat} {id : FrameId} {p : PageId}
  {op : RangeOp}

/-- A thread has released the frame and not published it. -/
def Open (s : SplitPool) (id : FrameId) : Prop :=
  ∃ t, s.released t = true ∧ (s.pool.threads t).publishing = some id

/-- Nothing is found twice or pinned while it is unmapped, and no sweep finds a
frame that a thread has released and not published. -/
def Undisturbed (s : SplitPool) (op : RangeOp) : Prop :=
  s.pool.RangeUndisturbed op ∧ ∀ t io id, op = .pool (.advance t io) →
    s.pool.picks t = some id → ¬ s.Open id

/-- The frames that are released in `s` are still in flight in `b`. -/
structure Shows (s : SplitPool) (b : BufferPool) : Prop where
  rest : s.pool = { b with frame := s.pool.frame }
  shut : ∀ id, ¬ s.Open id → s.pool.frame id = b.frame id
  opened : ∀ id, s.Open id → s.pool.frame id = (b.frame id).opened
  publishing : ∀ t, s.released t = true → (s.pool.threads t).publishing ≠ none
  valid : ∀ t id p todo, s.released t = true → s.pool.threads t = .publish ((id, p) :: todo) →
    (b.frame id).buf.pageId = p

theorem shows_new (n : Nat) : Shows (new n) (.new n) where
  rest := rfl
  shut _ _ := rfl
  opened := nofun
  publishing := nofun
  valid := nofun

theorem Shows.threads (h : Shows s b) : s.pool.threads = b.threads := by rw [h.rest]

theorem Shows.shard (h : Shows s b) : s.pool.shard = b.shard := by rw [h.rest]

theorem Shows.owned (h : Shows s b) (ho : s.Open id) :
    ∃ t p, s.released t = true ∧ b.Owned t id p := by
  obtain ⟨t, ht, hid⟩ := ho
  obtain ⟨p, hp⟩ := Pc.owns_of_publishing hid
  exact ⟨t, p, ht, by rwa [Owned, ← h.threads]⟩

section Shut

variable (h : Shows s b) (hs : b.Sound)

include h hs

theorem shut_of_mapped (hp : b.shard p = some (.frame id)) : ¬ s.Open id := by
  intro ho
  obtain ⟨t, q, -, howned⟩ := h.owned ho
  exact (hs.owned t id q howned).2.2.2 p hp

theorem shut_of_victim (hv : (b.threads t).victim = some id) : ¬ s.Open id := by
  intro ho
  obtain ⟨u, q, -, howned⟩ := h.owned ho
  exact hs.victim t id hv u q howned

theorem shut_of_owned (ho : b.Owned t id p) (ht : s.released t = false) : ¬ s.Open id := by
  intro hopen
  obtain ⟨u, q, hu, howned⟩ := h.owned hopen
  rw [hs.apart u t id q p howned ho, ht] at hu
  cases hu

theorem inflight_of_open (ho : s.Open id) : (b.frame id).desc.ioInflight = true ∧
    (s.pool.frame id).desc.state ≠ .empty := by
  obtain ⟨t, p, -, howned⟩ := h.owned ho
  refine ⟨(hs.owned t id p howned).2.2.1, ?_⟩
  rw [h.opened id ho]
  nofun

/-- The frames that a step touches are not those that others have released. -/
theorem shut_of_touches (hp : b.Pins) (ht : s.released t = false)
    (hpick : ∀ id, s.pool.picks t = some id → ¬ s.Open id) : ∀ id ∈ b.touches t, ¬ s.Open id := by
  have hmapped : ∀ p, ∀ id ∈ b.mapped p, ¬ s.Open id := by
    intro p id hid
    rw [mapped] at hid
    split at hid
    · next hq =>
        cases mem_singleton.mp hid
        exact shut_of_mapped h hs hq
    · cases hid
  intro id hid
  unfold touches at hid
  split at hid
  · exact hmapped _ id hid
  · exact hmapped _ id hid
  · next w n hpc =>
      split at hid
      · next hn =>
          cases mem_singleton.mp hid
          intro ho
          -- a released frame is not pinned, so the sweep would find it
          obtain ⟨u, q, -, howned⟩ := h.owned ho
          have hzero := hp.count b.clockHand
          rw [hp.guardsOn_eq_zero (hs.owned u _ q howned).2.2.2] at hzero
          have hpin : (b.frame b.clockHand).desc.pinCount = 0 := UInt16.toNat_inj.mp hzero
          have hhand : s.pool.clockHand = b.clockHand := by rw [h.rest]
          have hcount : s.pool.frameCount = b.frameCount := by rw [h.rest]
          refine hpick b.clockHand ?_ ho
          rw [picks, h.threads, hpc]
          simp only [hhand, hcount, h.opened _ ho]
          exact if_pos ⟨hn, by simp [Frame.opened, FrameDescriptor.isPinned, hpin],
            by rintro ⟨⟩, .inl rfl⟩
      · cases hid
  · next hpc =>
      cases mem_singleton.mp hid
      exact shut_of_victim h hs (by rw [hpc]; rfl)
  · next hpc =>
      cases mem_singleton.mp hid
      exact shut_of_victim h hs (by rw [hpc]; rfl)
  · next hpc =>
      rcases mem_cons.mp hid with rfl | hid
      · exact shut_of_victim h hs (by rw [hpc]; rfl)
      · exact hmapped _ id hid
  · next q _ hpc =>
      cases mem_singleton.mp hid
      exact shut_of_owned h hs (p := q) (by rw [Owned, hpc]; exact mem_singleton_self _) ht
  · next q _ _ hpc =>
      cases mem_singleton.mp hid
      exact shut_of_owned h hs (p := q) (by rw [Owned, hpc]; exact mem_singleton_self _) ht
  · next x todo filled hpc =>
      cases mem_singleton.mp hid
      refine shut_of_owned h hs (p := x.2) ?_ ht
      rw [Owned, hpc]
      exact hs.fill t _ filled hpc mem_cons_self
  · next x todo hpc =>
      cases mem_singleton.mp hid
      exact shut_of_owned h hs (p := x.2) (by rw [Owned, hpc]; exact mem_cons_self) ht
  · cases hid

end Shut

/-! ## Steps -/

/-- A step that is not taken by a thread that has released a frame. -/
theorem Shows.local (h : Shows s b) (hl : Local s.Open b s.pool.frame t r r')
    (ht : s.released t = true → r.threads t = b.threads t) : Shows ⟨r', s.released⟩ r := by
  have hthreads : ∀ u, s.released u = true → r'.threads u = s.pool.threads u := by
    intro u hu
    rw [hl.rest, h.threads]
    by_cases hut : u = t
    · exact hut ▸ ht (hut ▸ hu)
    · exact hl.others u hut
  have hopen : ∀ i, Open ⟨r', s.released⟩ i ↔ s.Open i := by
    intro i
    constructor
    · rintro ⟨u, hu, hi⟩
      exact ⟨u, hu, hthreads u hu ▸ hi⟩
    · rintro ⟨u, hu, hi⟩
      exact ⟨u, hu, (hthreads u hu).symm ▸ hi⟩
  constructor
  case rest => exact hl.rest
  case shut => exact fun i hi => hl.same i fun ho => hi ((hopen i).mpr ho)
  case opened =>
    intro i hi
    have ho := (hopen i).mp hi
    rw [hl.right i ho, hl.left i ho, h.opened i ho]
  case publishing =>
    intro u hu
    rw [show r'.threads u = _ from hthreads u hu]
    exact h.publishing u hu
  case valid =>
    intro u i q todo hu hpc
    rw [show r'.threads u = _ from hthreads u hu] at hpc
    have ho : s.Open i := ⟨u, hu, by rw [hpc]; rfl⟩
    rw [hl.left i ho]
    exact h.valid u i q todo hu hpc

theorem Shows.release (h : Shows s b) (hs : b.Sound) (ht : s.released t = false)
    (hid : (s.pool.threads t).publishing = some id)
    (hvalid : ∀ p todo, s.pool.threads t = .publish ((id, p) :: todo) →
      (b.frame id).buf.pageId = p) : Shows (s.setReleased t (s.pool.release id) true) b := by
  obtain ⟨p, hown⟩ := Pc.owns_of_publishing hid
  have hshut : ¬ s.Open id := shut_of_owned h hs (p := p) (by rwa [Owned, ← h.threads]) ht
  have hopen : ∀ i, (s.setReleased t (s.pool.release id) true).Open i ↔ s.Open i ∨ i = id := by
    intro i
    constructor
    · rintro ⟨u, hu, hi⟩
      by_cases hut : u = t
      · subst hut
        exact .inr (Option.some.inj (hi.symm.trans hid))
      · exact .inl ⟨u, (update_of_ne hut ..).symm.trans hu, hi⟩
    · rintro (⟨u, hu, hi⟩ | rfl)
      · refine ⟨u, (update_of_ne (fun hut => ?_) ..).trans hu, hi⟩
        rw [hut, ht] at hu
        cases hu
      · exact ⟨t, update_self .., hid⟩
  have hof : ∀ {u}, (s.setReleased t (s.pool.release id) true).released u = true → u ≠ t →
      s.released u = true := fun hu hut => (update_of_ne hut ..).symm.trans hu
  constructor
  case rest =>
    show s.pool.release id = { b with frame := (s.pool.release id).frame }
    rw [h.rest]
    rfl
  case shut =>
    intro i hi
    rw [hopen, not_or] at hi
    exact (setFrame_frame_of_ne s.pool _ hi.2).trans (h.shut i hi.1)
  case opened =>
    intro i hi
    by_cases heq : i = id
    · subst heq
      refine (setFrame_frame_self s.pool i _).trans ?_
      rw [h.shut i hshut]
      rfl
    · rcases (hopen i).mp hi with hi | hi
      · exact (setFrame_frame_of_ne s.pool _ heq).trans (h.opened i hi)
      · exact absurd hi heq
  case publishing =>
    intro u hu hnone
    by_cases hut : u = t
    · subst hut
      cases hid.symm.trans hnone
    · exact h.publishing u (hof hu hut) hnone
  case valid =>
    intro u i q todo hu hpc
    by_cases hut : u = t
    · subst hut
      have hpc : s.pool.threads u = .publish ((i, q) :: todo) := hpc
      rw [hpc] at hid
      cases hid
      exact hvalid q todo hpc
    · exact h.valid u i q todo (hof hu hut) hpc

/-- A released frame is published. -/
theorem Shows.finish {f : Frame} (h : Shows s b) (hs : b.Sound)
    (hid : (s.pool.threads t).publishing = some id)
    (hrest : r' = { r with frame := r'.frame }) (hr : r.frame = update b.frame id f)
    (hr' : r'.frame = update s.pool.frame id f)
    (hothers : ∀ u, u ≠ t → r.threads u = b.threads u) : Shows (s.setReleased t r' false) r := by
  have hthreads : ∀ u, u ≠ t → r'.threads u = s.pool.threads u := by
    intro u hu
    rw [hrest, h.threads]
    exact hothers u hu
  have hof : ∀ {u}, (s.setReleased t r' false).released u = true → u ≠ t ∧
      s.released u = true := by
    intro u hu
    have hut : u ≠ t := by
      rintro rfl
      cases (update_self ..).symm.trans hu
    exact ⟨hut, (update_of_ne hut ..).symm.trans hu⟩
  have hopen : ∀ i, (s.setReleased t r' false).Open i ↔ s.Open i ∧ i ≠ id := by
    intro i
    constructor
    · rintro ⟨u, hu, hi⟩
      obtain ⟨hut, hrel⟩ := hof hu
      have hi : (s.pool.threads u).publishing = some i := hthreads u hut ▸ hi
      refine ⟨⟨u, hrel, hi⟩, ?_⟩
      rintro rfl
      obtain ⟨p, hp⟩ := Pc.owns_of_publishing hi
      obtain ⟨q, hq⟩ := Pc.owns_of_publishing hid
      rw [h.threads] at hp hq
      exact hut (hs.apart u t i p q hp hq)
    · rintro ⟨⟨u, hu, hi⟩, hne⟩
      have hut : u ≠ t := by
        rintro rfl
        exact hne (Option.some.inj (hi.symm.trans hid))
      exact ⟨u, (update_of_ne hut ..).trans hu, (hthreads u hut).symm ▸ hi⟩
  constructor
  case rest => exact hrest
  case shut =>
    intro i hi
    show r'.frame i = r.frame i
    rw [hr, hr']
    by_cases heq : i = id
    · subst heq
      rw [update_self, update_self]
    · rw [update_of_ne heq, update_of_ne heq]
      exact h.shut i fun ho => hi ((hopen i).mpr ⟨ho, heq⟩)
  case opened =>
    intro i hi
    obtain ⟨ho, hne⟩ := (hopen i).mp hi
    show r'.frame i = (r.frame i).opened
    rw [hr, hr', update_of_ne hne, update_of_ne hne]
    exact h.opened i ho
  case publishing =>
    intro u hu
    obtain ⟨hut, hrel⟩ := hof hu
    show (r'.threads u).publishing ≠ none
    rw [hthreads u hut]
    exact h.publishing u hrel
  case valid =>
    intro u i q todo hu hpc
    obtain ⟨hut, hrel⟩ := hof hu
    have hpc : s.pool.threads u = .publish ((i, q) :: todo) := hthreads u hut ▸ hpc
    have ho : s.Open i := ⟨u, hrel, by rw [hpc]; rfl⟩
    have hne : i ≠ id := ((hopen i).mp ⟨u, hu, by
      show (r'.threads u).publishing = _
      rw [hthreads u hut, hpc]
      rfl⟩).2
    rw [hr, update_of_ne hne]
    exact h.valid u i q todo hrel hpc

/-- A step of a pool is answered by a step of the other, with another outcome of
its I/O if it publishes a frame, or by none. -/
inductive Answer (b : BufferPool) (op : RangeOp) : BufferPool → Prop
  | none : Answer b op b
  | step : b.RangeUndisturbed op → Answer b op (b.rangeStep op)
  | publish {t : Nat} {io : Io} (io' : Io) : op = .pool (.advance t io) →
      (b.threads t).publishing ≠ none → Answer b op (b.advance t io')

theorem Answer.sound {b' : BufferPool} (h : Answer b op b') (hs : b.Sound) (hp : b.Pins) :
    b'.Sound ∧ b'.Pins := by
  cases h with
  | none => exact ⟨hs, hp⟩
  | step hok => exact hs.rangeStep hp hok
  | @publish t io io' _ hpub =>
    have hok : b.RangeUndisturbed (.pool (.advance t io')) := by
      refine undisturbed_of_none ?_ ?_ <;> cases hpc : b.threads t <;>
        simp_all [picks, pins, Pc.publishing]
    exact hs.rangeStep hp hok

theorem Shows.buf (h : Shows s b) (id : FrameId) : (s.pool.frame id).buf = (b.frame id).buf := by
  by_cases ho : s.Open id
  · rw [h.opened id ho]
    rfl
  · rw [h.shut id ho]

theorem Shows.picks (h : Shows s b) (hs : b.Sound) (hid : b.picks t = some id) :
    s.pool.picks t = some id := by
  have hshut : s.pool.frame id = b.frame id := by
    refine h.shut id fun ho => ?_
    cases (not_dirty_of_picks hid).2.symm.trans (inflight_of_open h hs ho).1
  rw [h.rest]
  unfold BufferPool.picks at hid ⊢
  dsimp only
  split at hid <;> try cases hid
  all_goals
    dsimp only at hid
    split at hid <;> cases hid
    rw [hshut]
    rename_i hd
    exact if_pos hd

theorem mapped_of_pins (h : b.pins t = some id) : ∃ p, b.shard p = some (.frame id) := by
  simp only [pins] at h
  split at h <;> (try split at h) <;> cases h <;> exact ⟨_, by assumption⟩

theorem Shows.undisturbed (h : Shows s b) (hs : b.Sound) (hok : s.Undisturbed op) :
    b.RangeUndisturbed op := by
  cases op with
  | pool op =>
    cases op with
    | advance t io =>
      have hpins : b.pins t = s.pool.pins t := by rw [h.rest]; rfl
      refine ⟨fun id hid u hu => ?_, fun id hid => ?_⟩
      · rw [← h.threads]
        exact hok.1.1 id (h.picks hs hid) u hu
      · obtain ⟨p, hp⟩ := mapped_of_pins hid
        rw [← h.threads, ← h.shut id (shut_of_mapped h hs hp)]
        exact hok.1.2 id (hpins ▸ hid)
    | fix t p => exact hok.1
    | modify g lsn => exact hok.1
    | drop g => exact hok.1
  | call t start count => trivial
  | page t count => trivial

/-- The second step of a publication, of `fix_page` and of `prefetch_range`. -/
theorem Shows.publishReleased (h : Shows s b) (hs : b.Sound) (ht : s.released t = true)
    (hpc : s.pool.threads t = .loaded p id true) (readahead : Option PageId) :
    Shows (s.setReleased t (s.pool.publishReleased t p id readahead) false)
      (b.publish t p id readahead) := by
  have hid : (s.pool.threads t).publishing = some id := by rw [hpc]; rfl
  have hframe := h.opened id ⟨t, ht, hid⟩
  cases readahead <;> refine h.finish hs hid ?_ rfl ?_ fun u hu => update_of_ne hu .. <;>
    simp only [BufferPool.publishReleased, BufferPool.publish]
  all_goals first
    | exact congrArg (fun f => update s.pool.frame id
        { f with desc := { f.desc with pinCount := 1, clockRef := true } }) hframe
    | rw [h.rest]; rfl

theorem Shows.mapReleased {todo : List (FrameId × PageId)} (h : Shows s b) (hs : b.Sound)
    (ht : s.released t = true) (hpc : s.pool.threads t = .publish ((id, p) :: todo)) :
    Shows (s.setReleased t ((s.pool.mapReleased p id).goto t (.publish todo)) false)
      ((b.publishPrefetched p id true).goto t (.publish todo)) := by
  have hid : (s.pool.threads t).publishing = some id := by rw [hpc]; rfl
  have hframe := h.opened id ⟨t, ht, hid⟩
  simp only [BufferPool.mapReleased, publishPrefetched, h.shard]
  by_cases hp : b.shard p = none
  · rw [if_pos hp, if_pos ⟨trivial, h.valid t id p todo ht hpc, hp⟩]
    refine h.finish hs hid ?_ rfl ?_ fun u hu => update_of_ne hu ..
    · rw [h.rest]
      rfl
    · exact congrArg (fun f => update s.pool.frame id
        { f with desc := { f.desc with pinCount := 0, clockRef := false } }) hframe
  · rw [if_neg hp, if_neg fun hc => hp hc.2.2]
    refine h.finish hs hid ?_ rfl ?_ fun u hu => update_of_ne hu ..
    · rw [h.rest]
      rfl
    · exact congrArg (fun f => update s.pool.frame id { f with desc := f.desc.reset }) hframe

theorem Shows.advance (h : Shows s b) (hs : b.Sound) (hp : b.Pins) (t : Nat) (io : Io)
    (hok : s.Undisturbed (.pool (.advance t io))) :
    ∃ b', Answer b (.pool (.advance t io)) b' ∧ Shows (s.advance t io) b' := by
  have hbase : s.released t = false → ∃ b', Answer b (.pool (.advance t io)) b' ∧
      Shows { s with pool := s.pool.advance t io } b' := by
    intro ht
    refine ⟨_, .step (h.undisturbed hs hok), h.local (t := t) ?_ (by simp [ht])⟩
    have hl := advance_local (s := b) (g := s.pool.frame) (X := s.Open) h.shut
      (fun id ho => inflight_of_open h hs ho)
      (shut_of_touches h hs hp ht fun id hid => hok.2 t io id rfl hid) io
    rwa [← h.rest] at hl
  unfold SplitPool.advance
  split
  · next p id hpc =>
      have hpc' : b.threads t = .loaded p id true := by rw [← h.threads, hpc]
      split
      · next ht =>
          refine ⟨b.advance t io, .publish io rfl (by rw [hpc']; rintro ⟨⟩), ?_⟩
          rw [BufferPool.advance, hpc']
          exact h.publishReleased hs ht hpc io.readahead
      · next ht =>
          refine ⟨b, .none, h.release hs (Bool.not_eq_true _ ▸ ht) (by rw [hpc]; rfl)
            fun q todo hq => ?_⟩
          cases hpc.symm.trans hq
  · next id p todo hpc =>
      have hpc' : b.threads t = .publish ((id, p) :: todo) := by rw [← h.threads, hpc]
      dsimp only
      split
      · next ht =>
          refine ⟨b.advance t ⟨.ok, none⟩, .publish _ rfl (by rw [hpc']; rintro ⟨⟩), ?_⟩
          rw [BufferPool.advance, hpc']
          exact h.mapReleased hs ht hpc
      · next ht =>
          have ht := Bool.not_eq_true _ ▸ ht
          split
          · next hvalid =>
              refine ⟨b, .none, h.release hs ht (by rw [hpc]; rfl) fun q todo' hq => ?_⟩
              cases hpc.symm.trans hq
              rw [← h.buf]
              exact hvalid.2
          · next hvalid =>
              obtain ⟨b', hb, hs'⟩ := hbase ht
              refine ⟨b', hb, ?_⟩
              have hreset : s.pool.advance t io =
                  (s.pool.setDesc id (s.pool.frame id).desc.reset).goto t (.publish todo) := by
                simp only [BufferPool.advance, hpc, publishPrefetched]
                rw [if_neg fun hc => hvalid ⟨of_decide_eq_true hc.1, hc.2.1⟩]
              rwa [hreset] at hs'
  · next hloaded hpublish =>
      refine hbase (Bool.eq_false_iff.mpr fun ht => h.publishing t ht ?_)
      unfold Pc.publishing
      split
      · next hpc => exact absurd hpc (hloaded _ _)
      · next x todo hpc => exact absurd hpc (hpublish x.1 x.2 todo)
      · rfl

/-- A thread that is at another place has released no frame. -/
theorem Shows.move (h : Shows s b) {t : Nat} (hpc : (b.threads t).publishing = none)
    (hl : Local s.Open b s.pool.frame t r r') : Shows ⟨r', s.released⟩ r :=
  h.local hl fun ht => absurd (h.threads ▸ hpc) (h.publishing t ht)

theorem Shows.step (h : Shows s b) (hs : b.Sound) (hp : b.Pins) (hok : s.Undisturbed op) :
    ∃ b', Answer b op b' ∧ Shows (s.step op) b' := by
  have hrefl : ∀ t, Local s.Open b s.pool.frame t b s.pool := fun t => by
    have hl : Local s.Open b s.pool.frame t b { b with frame := s.pool.frame } := .refl h.shut
    rwa [← h.rest] at hl
  have hguards : s.pool.guards = b.guards := by rw [h.rest]
  -- a guard's frame is mapped, so nobody is about to publish it
  have hshut : ∀ {g}, g ∈ b.guards → ¬ s.Open g.frameId :=
    fun hg => shut_of_mapped h hs (hp.held _ hg)
  have hstep := Answer.step (h.undisturbed hs hok)
  cases op with
  | pool op =>
    cases op with
    | advance t io => exact h.advance hs hp t io hok
    | fix t p =>
      refine ⟨_, hstep, ?_⟩
      simp only [SplitPool.step, BufferPool.rangeStep, BufferPool.step, h.threads]
      split
      · next hidle => exact h.move (by rw [hidle.1]; rfl) ((hrefl t).goto _)
      · exact h
    | modify g lsn =>
      refine ⟨_, hstep, ?_⟩
      simp only [SplitPool.step, BufferPool.rangeStep, BufferPool.step, hguards]
      by_cases hg : g ∈ b.guards
      · rw [h.shut _ (hshut hg)]
        split
        · exact h.local ((hrefl 0).setFrame (hshut hg) _) fun _ => rfl
        · exact h
      · rw [if_neg fun hc => hg hc.1, if_neg fun hc => hg hc.1]
        exact h
    | drop g =>
      refine ⟨_, hstep, ?_⟩
      simp only [SplitPool.step, BufferPool.rangeStep, BufferPool.step, hguards]
      split
      · next hg =>
          rw [h.shut _ (hshut hg)]
          refine h.local (((hrefl 0).setDesc (hshut hg) _).of_eq rfl ?_ fun _ _ => rfl)
            fun _ => rfl
          rw [h.rest]
          rfl
      · exact h
  | call t start count =>
    refine ⟨_, hstep, ?_⟩
    simp only [SplitPool.step, BufferPool.rangeStep, h.threads]
    split
    · next hidle => exact h.move (by rw [hidle]; rfl) ((hrefl t).goto _)
    · exact h
  | page t count =>
    refine ⟨_, hstep, ?_⟩
    have hcount : s.pool.frameCount = b.frameCount := by rw [h.rest]
    simp only [SplitPool.step, BufferPool.rangeStep, h.threads]
    split
    · next hpc =>
        have hnone : (b.threads t).publishing = none := by rw [hpc]; rfl
        simp only [rangeNext, hcount, h.shard]
        split
        · exact h.move hnone ((hrefl t).goto _)
        · split
          · exact h.move hnone ((hrefl t).goto _)
          · refine h.move hnone ?_
            rw [startSweep, startSweep, show s.pool.clockHand = b.clockHand by rw [h.rest]]
            exact (hrefl t).goto _
    · exact h

/-! ## Whole runs -/

/-- What the pool shows is in order. -/
def Shown (s : SplitPool) : Prop := ∃ b, Shows s b ∧ b.Sound ∧ b.Pins

theorem Shown.step (h : s.Shown) (hok : s.Undisturbed op) : (s.step op).Shown := by
  obtain ⟨b, hb, hs, hp⟩ := h
  obtain ⟨b', hans, hb'⟩ := hb.step hs hp hok
  exact ⟨b', hb', hans.sound hs hp⟩

/-- The frame of a guard holds the page that was asked for and is still mapped
for it. -/
def Holds (s : BufferPool) : Prop :=
  ∀ g ∈ s.guards, s.shard g.pageId = some (.frame g.frameId) ∧
    (s.frame g.frameId).desc.pageId = g.pageId ∧
    (s.frame g.frameId).buf.pageId = g.pageId

theorem Shown.holds (h : s.Shown) : Holds s.pool := by
  obtain ⟨b, hb, hs, hp⟩ := h
  intro g hg
  have hguards : s.pool.guards = b.guards := by rw [hb.rest]
  have hheld := hp.held g (hguards ▸ hg)
  obtain ⟨-, hpage, hbuf, -⟩ := hs.mapped _ _ hheld
  rw [hb.shard, hb.shut _ (shut_of_mapped hb hs hheld)]
  exact ⟨hheld, hpage, hbuf⟩

theorem guards_keep_their_page (n : Nat) (ops : List RangeOp)
    (h : Guarded step Undisturbed (new n) ops) : Holds (run step (new n) ops).pool := by
  have hnew : (new n).Shown := ⟨.new n, shows_new n, sound_new n, pins_new n⟩
  exact (run_inv (fun _ _ hs hok => hs.step hok) hnew h).holds

/-- Page `7` is fixed twice, the second time by a hit. -/
def hitRun : List RangeOp :=
  [.pool (.fix 1 7), .pool (go 1), .pool (go 1), .pool (go 1), .pool (go 1), .pool (go 1),
    .pool (go 1), .pool (.fix 1 7), .pool (go 1)]

theorem undisturbed_go {s : SplitPool} {t : Nat} (hpick : s.pool.picks t = none)
    (hpin : s.pool.pins t = none) : s.Undisturbed (.pool (go t)) := by
  refine ⟨undisturbed_of_none hpick hpin, fun t io id hop hid => ?_⟩
  cases hop
  cases hpick.symm.trans hid

theorem guards_keep_their_page_hit : (run step (new 1) hitRun).pool.guards = [⟨0, 7⟩, ⟨0, 7⟩] ∧
      Holds (run step (new 1) hitRun).pool := by
  refine ⟨by decide, guards_keep_their_page 1 hitRun
    ⟨⟨⟨trivial, trivial⟩, nofun⟩, undisturbed_go rfl rfl, ?_, undisturbed_go rfl rfl,
      undisturbed_go rfl rfl, undisturbed_go rfl rfl, undisturbed_go rfl rfl,
      ⟨⟨trivial, trivial⟩, nofun⟩, ?_, trivial⟩⟩
  · refine ⟨⟨fun id _ u hu => ?_, nofun⟩, fun t io id _ _ => by rintro ⟨u, hu, -⟩; cases hu⟩
    show (update (update (fun _ => Pc.idle) 1 _) 1 _ u).victim ≠ some id
    rw [update_of_ne hu, update_of_ne hu]
    nofun
  · refine ⟨⟨exclusive_of_none rfl, fun id hid => ⟨fun u w => ?_, ?_⟩⟩, fun t io id hop hid => ?_⟩
    · by_cases hu : u = 1
      · subst hu
        nofun
      · show update (update (update (update (update (update (update
          (fun _ => Pc.idle) 1 _) 1 _) 1 _) 1 _) 1 _) 1 _) 1 _ u ≠ .unmap w id
        simp only [update_of_ne hu]
        nofun
    · cases hid
      decide
    · cases hop
      cases hid

/-- A page is fixed between the look at the pin count of its frame and the
removal of its mapping. -/
theorem guard_loses_its_page :
    ¬ ∀ (n : Nat) (ops : List RangeOp), Holds (run step (new n) ops).pool := by
  intro h
  have hs := h 1 (([.fix 1 7, go 1, go 1, go 1, go 1, go 1, go 1, .drop ⟨0, 7⟩,
    .fix 2 8, go 2, go 2, go 2, go 2, .fix 3 7, go 3, go 2, go 2, go 2, go 2,
    go 2, go 2] : List PoolOp).map .pool)
  exact absurd (hs ⟨0, 7⟩ (by decide)).1 (by decide)

-- A sweep finds the frame of page `7` before its pin is counted.
example : ¬ Holds (run step (new 1) (([.fix 1 7, go 1, go 1, go 1, go 1, go 1, .fix 2 8, go 2,
    go 2, go 2, go 2, go 1, go 2] : List PoolOp).map .pool)).pool :=
  fun h => absurd (h ⟨0, 7⟩ (by decide)).1 (by decide)

end SplitPool

end RGraph.Buffer
