import RGraph.Proofs.Publication

/-!
# What a prefetch leaves behind

`prefetch_range` reserves its frames one by one, then reads into all of them
and publishes them. A frame that it has reserved is in the loading state, and
only the call that reserved it takes it out of that state. So a frame is lost
when a call returns in between: on a read that fails, which a range past the
end of the file makes fail, and on a write-back of its sweep.

Here every other way out of a call is shown to settle its frames, for any
number of threads, as long as these do not disturb each other: first for the
pool in which a publication is one step, then for the one in which it is two.
-/

namespace RGraph.Buffer

open RGraph.Lib Function

namespace BufferPool

variable {s s' : BufferPool} {t : Nat} {pc : Pc}

/-- A prefetch returns with an error, from its reads or from a sweep, while it
has frames reserved. -/
def failsHolding (s : BufferPool) : RangeOp → Bool
  | .pool (.advance t io) =>
    (s.advance t io).threads t = .idle && match s.threads t with
      | .fill _ _ => true
      | .sweep w _ => !w.filled.isEmpty
      | _ => false
  | _ => false

/-- The frame has its page and is mapped for it, or it is free. -/
def Settled (s : BufferPool) (id : FrameId) (p : PageId) : Prop :=
  s.shard p = some (.frame id) ∧ (s.frame id).buf.pageId = p ∧
      (s.frame id).desc.state = .clean ∧
      (s.frame id).desc.ioInflight = false ∨
    (s.frame id).desc = .new

/-- Every frame and every page that is being loaded has a call that loads
it. -/
structure Attended (s : BufferPool) : Prop where
  frame : ∀ id, (s.frame id).desc.state = .loading → ∃ t p, s.Owned t id p
  page : ∀ p, s.shard p = some .loading → ∃ t, (s.threads t).loads = some p

/-- What a step of a thread may do to frames and pages that are loaded. -/
structure Keeps (s s' : BufferPool) (t : Nat) : Prop where
  others : ∀ u, u ≠ t → s'.threads u = s.threads u
  frame : ∀ id, (s'.frame id).desc.state = .loading →
    (s.frame id).desc.state = .loading ∨ ∃ p, s'.Owned t id p
  page : ∀ p, s'.shard p = some .loading →
    s.shard p = some .loading ∨ (s'.threads t).loads = some p
  owned : ∀ id p, s.Owned t id p → s'.Owned t id p ∨ (s'.frame id).desc.state ≠ .loading ∧
      ((s.threads t).loads = none → s'.Settled id p)
  loads : ∀ p, (s.threads t).loads = some p →
    (s'.threads t).loads = some p ∨ s'.shard p ≠ some .loading

theorem Attended.keeps (hs : s.Attended) (h : Keeps s s' t) : s'.Attended where
  frame id hid := by
    rcases h.frame id hid with hold | ⟨p, hp⟩
    · obtain ⟨u, p, hu⟩ := hs.frame id hold
      by_cases hut : u = t
      · subst hut
        rcases h.owned id p hu with hp | hne
        · exact ⟨u, p, hp⟩
        · exact absurd hid hne.1
      · exact ⟨u, p, by rwa [Owned, h.others u hut]⟩
    · exact ⟨t, p, hp⟩
  page p hp := by
    rcases h.page p hp with hold | ht
    · obtain ⟨u, hu⟩ := hs.page p hold
      by_cases hut : u = t
      · subst hut
        rcases h.loads p hu with hl | hne
        · exact ⟨u, hl⟩
        · exact absurd hp hne
      · exact ⟨u, by rwa [h.others u hut]⟩
    · exact ⟨t, ht⟩

theorem Keeps.refl (s : BufferPool) (t : Nat) : Keeps s s t :=
  ⟨fun _ _ => rfl, fun _ => .inl, fun _ => .inl, fun _ _ => .inl, fun _ => .inl⟩

/-- Nothing is loaded that was not. -/
structure Quiet (s s' : BufferPool) : Prop where
  frame : ∀ id, (s'.frame id).desc.state = .loading → (s.frame id).desc.state = .loading
  page : ∀ p, s'.shard p = some .loading → s.shard p = some .loading

theorem Quiet.of_eq (hf : s'.frame = s.frame) (hp : s'.shard = s.shard) : Quiet s s' := by
  constructor <;> simp [hf, hp]

theorem Quiet.setFrame {id : FrameId} {f : Frame}
    (hframe : s'.frame = (s.setFrame id f).frame) (hp : s'.shard = s.shard)
    (hf : f.desc.state = .loading → (s.frame id).desc.state = .loading) : Quiet s s' := by
  refine ⟨fun i hi => ?_, by simp [hp]⟩
  rw [hframe] at hi
  by_cases heq : i = id
  · subst heq
    rw [setFrame_frame_self] at hi
    exact hf hi
  · rwa [setFrame_frame_of_ne s f heq] at hi

/-- A thread goes on with all it has. -/
theorem Keeps.goes {pc pc' : Pc} (hpc : s.threads t = pc)
    (hthreads : s'.threads = update s.threads t pc')
    (hq : Quiet s s') (howns : ∀ x ∈ pc.owns, x ∈ pc'.owns)
    (hloads : ∀ p, pc.loads = some p → pc'.loads = some p) :
    Keeps s s' t where
  others u hu := by rw [hthreads, update_of_ne hu]
  frame id hid := .inl (hq.frame id hid)
  page p hp := .inl (hq.page p hp)
  owned id p ho := .inl (by
    rw [Owned, hthreads, update_self]
    exact howns _ (hpc ▸ ho))
  loads p hp := .inl (by
    rw [hthreads, update_self]
    exact hloads p (hpc ▸ hp))

theorem Keeps.goto {pc pc' : Pc} (hpc : s.threads t = pc) (howns : ∀ x ∈ pc.owns, x ∈ pc'.owns)
    (hloads : ∀ p, pc.loads = some p → pc'.loads = some p) : Keeps s (s.goto t pc') t :=
  .goes hpc rfl (.of_eq rfl rfl) howns hloads

theorem Quiet.probed {op : PoolOp} (h : Probed s op s') : Quiet s s' ∧ s'.threads = s.threads := by
  cases h with
  | same => exact ⟨.of_eq rfl rfl, rfl⟩
  | touch id => exact ⟨.setFrame rfl rfl fun h => h, rfl⟩
  | clean back => exact ⟨.setFrame rfl rfl nofun, rfl⟩
  | stick back _ => exact ⟨.setFrame rfl rfl fun h => h, rfl⟩
  | sync back => exact ⟨.of_eq rfl rfl, rfl⟩

theorem Keeps.search {op : PoolOp} (h : Search s t op s') (hloads : (s.threads t).loads = none)
    (hfail : s'.threads t = .idle → ∀ w n, s.threads t = .sweep w n →
      w.filled = []) : Keeps s s' t := by
  have hnone : ∀ pc : Pc, ∀ p, (s.threads t).loads = some p → pc.loads = some p := by
    rw [hloads]
    nofun
  cases h with
  | stay => exact .refl s t
  | pass probed next victim keeps =>
    obtain ⟨hq, hth⟩ := Quiet.probed probed
    refine .goes rfl (congrArg (update · t _) hth) ⟨hq.frame, hq.page⟩ ?_ (hnone _)
    rcases keeps with ⟨rfl, w, n, hpc⟩ | keeps
    · rw [hpc]
      show ∀ x ∈ w.filled, _
      rw [hfail (update_self ..) w n hpc]
      nofun
    · exact keeps
  | hit pins mapped owns =>
    refine .goes rfl rfl (.setFrame rfl rfl fun h => h) ?_ (hnone _)
    rw [owns]
    nofun
  | found picks next victim owns empty unpinned =>
    exact .goes rfl rfl (.of_eq rfl rfl) (fun x hx => owns ▸ hx) (hnone _)

section Moves

variable {pc' : Pc} {id : FrameId} {p : PageId} {f : Frame}

/-- A thread lets go of a frame that is not loading any more. -/
theorem Keeps.settles (hthreads : s'.threads = update s.threads t pc')
    (hframe : s'.frame = update s.frame id f) (hf : f.desc.state ≠ .loading)
    (hshard : ∀ q, s'.shard q = some .loading → s.shard q = some .loading)
    (howns : ∀ x ∈ (s.threads t).owns, x ∈ pc'.owns ∨ x = (id, p))
    (hsettled : (s.threads t).loads = none → s'.Settled id p)
    (hloads : ∀ q, (s.threads t).loads = some q → s'.shard q ≠ some .loading) : Keeps s s' t := by
  have hne : ∀ i, (s'.frame i).desc.state = .loading → i ≠ id := by
    rintro i hi rfl
    rw [hframe, update_self] at hi
    exact hf hi
  constructor
  case others =>
    intro u hu
    rw [hthreads, update_of_ne hu]
  case frame =>
    intro i hi
    have hold := hne i hi
    rw [hframe, update_of_ne hold] at hi
    exact .inl hi
  case page => exact fun q hq => .inl (hshard q hq)
  case owned =>
    intro i q ho
    rcases howns _ ho with hmem | heq
    · exact .inl (by rwa [Owned, hthreads, update_self])
    · cases heq
      exact .inr ⟨fun hi => hne id hi rfl, hsettled⟩
  case loads => exact fun q hq => .inr (hloads q hq)

/-- A thread reserves a frame. -/
theorem Keeps.takes (hthreads : s'.threads = update s.threads t pc')
    (hframe : s'.frame = update s.frame id f) (howns : pc'.owns = (id, p) :: (s.threads t).owns)
    (hshard : ∀ q, s'.shard q = some .loading → s.shard q = some .loading ∨ pc'.loads = some q)
    (hloads : (s.threads t).loads = none) : Keeps s s' t := by
  have hpc : s'.threads t = pc' := by rw [hthreads, update_self]
  constructor
  case others =>
    intro u hu
    rw [hthreads, update_of_ne hu]
  case frame =>
    intro i hi
    by_cases heq : i = id
    · subst heq
      exact .inr ⟨p, by rw [Owned, hpc, howns]; exact List.mem_cons_self⟩
    · rw [hframe, update_of_ne heq] at hi
      exact .inl hi
  case page =>
    rw [hpc]
    exact hshard
  case owned =>
    intro i q ho
    left
    rw [Owned, hpc, howns]
    exact List.mem_cons_of_mem _ ho
  case loads =>
    intro q hq
    cases hloads.symm.trans hq

theorem loading_of_update {m : Option Mapping} {q : PageId} (hm : m ≠ some .loading)
    (h : update s.shard p m q = some .loading) : s.shard q = some .loading := by
  by_cases hq : q = p
  · subst hq
    rw [update_self] at h
    exact absurd h hm
  · rwa [update_of_ne hq] at h

/-- A frame that a call has loaded, or failed to load, is mapped or free. -/
theorem loaded_keeps {ok : Bool} (hpc : s.threads t = .loaded p id ok) (io : Io) :
    Keeps s (s.advance t io) t := by
  have howns : ∀ x ∈ (s.threads t).owns, x = (id, p) := by
    rw [hpc]
    exact fun x hx => List.mem_singleton.mp hx
  have hloads : ∀ {m : Option Mapping}, m ≠ some .loading → ∀ q, (s.threads t).loads = some q →
      update s.shard p m q ≠ some .loading := by
    intro m hm q hq
    rw [hpc] at hq
    cases hq
    rwa [update_self]
  have hnone : (s.threads t).loads ≠ none := by
    rw [hpc]
    rintro ⟨⟩
  rw [advance, hpc]
  cases ok with
  | true =>
    simp only [publish]
    cases io.readahead <;>
      exact .settles rfl rfl (by rintro ⟨⟩) (fun q => loading_of_update (by rintro ⟨⟩))
        (fun x hx => .inr (howns x hx)) (fun h => absurd h hnone) (hloads (by rintro ⟨⟩))
  | false =>
    exact .settles rfl rfl (by rintro ⟨⟩) (fun q => loading_of_update (by rintro ⟨⟩))
      (fun x hx => .inr (howns x hx)) (fun h => absurd h hnone) (hloads (by rintro ⟨⟩))

theorem publish_keeps {x : FrameId × PageId} {todo : List (FrameId × PageId)}
    (hpc : s.threads t = .publish (x :: todo)) (io : Io) : Keeps s (s.advance t io) t := by
  have howns : ∀ y ∈ (s.threads t).owns, y ∈ todo ∨ y = x := by
    rw [hpc]
    exact fun y hy => (List.mem_cons.mp hy).symm
  have hloads : ∀ q, (s.threads t).loads ≠ some q := by
    rw [hpc]
    rintro q ⟨⟩
  simp only [advance, hpc, publishPrefetched]
  split
  · next hvalid =>
      refine .settles (show _ = update s.threads t (.publish todo) from rfl) rfl
        (by rintro ⟨⟩) (fun q => loading_of_update (by rintro ⟨⟩)) howns (fun _ => .inl ?_)
        fun q hq => absurd hq (hloads q)
      simp [goto, setDesc, setFrame, map, hvalid.2.1]
  · refine .settles (show _ = update s.threads t (.publish todo) from rfl) rfl
      (by rintro ⟨⟩) (fun _ h => h) howns (fun _ => .inr ?_) fun q hq => absurd hq (hloads q)
    simp [goto, setDesc, setFrame, FrameDescriptor.reset]

theorem chosen_keeps {w : Want} (hpc : s.threads t = .chosen w id) (io : Io) :
    Keeps s (s.advance t io) t := by
  cases w with
  | fix p n =>
    simp only [advance, hpc, reserve]
    split
    · exact .goes hpc rfl (.setFrame rfl rfl (by rintro ⟨⟩)) (by simp) (by simp)
    · next other _ =>
        have hq : Quiet s (s.setDesc id .new) := .setFrame rfl rfl (by rintro ⟨⟩)
        have hhit : Quiet (s.setDesc id .new) ((s.setDesc id .new).hit t other p) :=
          .setFrame rfl rfl fun h => h
        exact .goes hpc rfl ⟨fun i hi => hq.frame i (hhit.frame i hi),
          fun _ h => h⟩ (by simp) (by simp)
    · refine .takes (show _ = update s.threads t (.loading p id) from rfl) rfl (by rw [hpc]; rfl) (fun q hq => ?_)
        (by rw [hpc]; rfl)
      by_cases heq : q = p
      · exact .inr (heq ▸ rfl)
      · exact .inl ((update_of_ne heq ..).symm.trans hq)
  | prefetch next left filled =>
    simp only [advance, hpc]
    exact .takes (show _ = update s.threads t
      (.prefetch (next + 1) (left - 1) ((id, next) :: filled)) from rfl) rfl
      (by rw [hpc]; rfl) (fun q hq => .inl hq) (by rw [hpc]; rfl)

end Moves

theorem Keeps.rangeNext {next : PageId} {left : Nat} {filled : List (FrameId × PageId)}
    (hpc : s.threads t = .prefetch next left filled) (count : Nat) :
    Keeps s (s.rangeNext t count next left filled) t :=
  .search (search_range hpc count : Search s t (.fix t 0) _) (by rw [hpc]; rfl) fun _ w n h => by
    cases hpc.symm.trans h

theorem Keeps.advance (s : BufferPool) (t : Nat) (io : Io)
    (h : s.failsHolding (.pool (.advance t io)) = false) : Keeps s (s.advance t io) t := by
  have hsearch (hs : searches (s.threads t) = true) (hl : (s.threads t).loads = none)
      (hne : ∀ w n, s.threads t ≠ .sweep w n) : Keeps s (s.advance t io) t :=
    .search (advance_search io hs) hl fun _ w n hpc => absurd hpc (hne w n)
  cases hpc : s.threads t with
  | sweep w n =>
    refine .search (advance_search io (by rw [hpc]; rfl)) (by rw [hpc]; rfl)
      fun hidle w' n' hpc' => ?_
    cases hpc.symm.trans hpc'
    simpa [failsHolding, hpc, hidle] using h
  | unmap w id =>
    simp only [BufferPool.advance, hpc, BufferPool.unmap]
    split
    · refine .goes hpc rfl ⟨fun _ h => h, fun p hp => ?_⟩ (fun _ h => h) (by simp)
      replace hp : update s.shard _ none p = some .loading := hp
      rw [update_apply] at hp
      split at hp
      · cases hp
      · exact hp
    · exact .goto hpc (fun _ h => h) (by simp)
  | evict w id =>
    simp only [BufferPool.advance, hpc]
    exact .goes hpc rfl (.setFrame rfl rfl (by rintro ⟨⟩)) (fun _ h => h) (by simp)
  | chosen w id => exact chosen_keeps hpc io
  | loading p id =>
    simp only [BufferPool.advance, hpc]
    exact .goes hpc rfl (.setFrame rfl rfl fun h => h) (fun _ h => h) fun _ h => h
  | loaded p id ok => exact loaded_keeps hpc io
  | fill todo filled =>
    cases todo with
    | nil => exact hsearch (by rw [hpc]; rfl) (by rw [hpc]; rfl) (by simp [hpc])
    | cons x todo =>
      simp only [failsHolding, BufferPool.advance, hpc] at h
      simp only [BufferPool.advance, hpc]
      split
      · exact .goes hpc rfl (.setFrame rfl rfl fun h => h) (fun _ h => h) (by simp)
      · next hfail => simp [hfail, BufferPool.goto] at h
  | publish todo =>
    cases todo with
    | nil => exact hsearch (by rw [hpc]; rfl) (by rw [hpc]; rfl) (by simp [hpc])
    | cons x todo => exact publish_keeps hpc io
  | _ => exact hsearch (by rw [hpc]; rfl) (by rw [hpc]; rfl) (by simp [hpc])

theorem Keeps.rangeStep (s : BufferPool) (op : RangeOp)
    (h : s.failsHolding op = false) : ∃ t, Keeps s (s.rangeStep op) t := by
  have hsame : ∀ {s'}, Quiet s s' → s'.threads = s.threads → Keeps s s' 0 :=
    fun hq hth => .goes rfl (hth.trans (update_eq_self ..).symm) hq (fun _ h => h) fun _ h => h
  cases op with
  | pool op =>
    cases op with
    | fix t p =>
      refine ⟨t, ?_⟩
      simp only [BufferPool.rangeStep, step]
      split
      · next hidle => exact .goto hidle.1 (by simp) (by simp)
      · exact .refl s t
    | advance t io => exact ⟨t, .advance s t io h⟩
    | modify g lsn =>
      refine ⟨0, ?_⟩
      simp only [BufferPool.rangeStep, step]
      split
      · exact hsame (.setFrame rfl rfl (by rintro ⟨⟩)) rfl
      · exact .refl s 0
    | drop g =>
      refine ⟨0, ?_⟩
      simp only [BufferPool.rangeStep, step]
      split
      · exact hsame (.setFrame rfl rfl fun h => h) rfl
      · exact .refl s 0
  | call t start count =>
    refine ⟨t, ?_⟩
    simp only [BufferPool.rangeStep]
    split
    · next hidle => exact .goto hidle (by simp) (by simp)
    · exact .refl s t
  | page t count =>
    refine ⟨t, ?_⟩
    simp only [BufferPool.rangeStep]
    split
    · next hpc => exact .rangeNext hpc count
    · exact .refl s t

end BufferPool

/-! ## Publication in two steps -/

namespace SplitPool

open BufferPool

variable {s : SplitPool} {b b' : BufferPool} {op : RangeOp} {t : Nat} {id : FrameId} {p : PageId}

/-- No prefetch fails while it has frames reserved, and the threads do not
disturb each other. -/
def Calm (s : SplitPool) (op : RangeOp) : Prop :=
  s.Undisturbed op ∧ s.pool.failsHolding op = false

theorem Shows.failsHolding (h : Shows s b) (h' : Shows (s.step op) (b.rangeStep op)) :
    b.failsHolding op = s.pool.failsHolding op := by
  cases op with
  | pool op =>
    cases op with
    | advance t io =>
      -- where it matters the step is one of the pool
      have hthreads : (s.pool.threads t).publishing = none →
          (b.advance t io).threads = (s.pool.advance t io).threads := by
        intro hnone
        have hsame : (s.step (.pool (.advance t io))).pool = s.pool.advance t io := by
          rw [SplitPool.step, SplitPool.advance]
          split
          · next hpc => rw [hpc] at hnone; cases hnone
          · next hpc => rw [hpc] at hnone; cases hnone
          · rfl
        exact h'.threads.symm.trans (congrArg BufferPool.threads hsame)
      simp only [BufferPool.failsHolding, ← h.threads]
      cases hpc : s.pool.threads t with
      | fill todo filled => rw [hthreads (by rw [hpc]; rfl)]
      | sweep w n => rw [hthreads (by rw [hpc]; rfl)]
      | _ => simp
    | _ => rfl
  | _ => rfl

theorem Answer.keeps (h : Answer b op b') (hb : Shows s b) (hb' : Shows (s.step op) b')
    (hfail : s.pool.failsHolding op = false) : ∃ t, Keeps b b' t := by
  cases h with
  | none => exact ⟨0, .refl b 0⟩
  | step _ => exact Keeps.rangeStep b op ((hb.failsHolding hb').trans hfail)
  | @publish t io io' _ hpub =>
    refine ⟨t, .advance b t io' ?_⟩
    simp only [BufferPool.failsHolding]
    cases hpc : b.threads t <;> simp_all [Pc.publishing]

theorem Shows.attended (h : Shows s b) (hb : b.Attended) : s.pool.Attended where
  frame id hid := by
    have hshut : ¬ s.Open id := by
      intro ho
      rw [h.opened id ho] at hid
      cases hid
    rw [h.shut id hshut] at hid
    obtain ⟨t, p, ht⟩ := hb.frame id hid
    exact ⟨t, p, by rwa [Owned, h.threads]⟩
  page p hp := by
    rw [h.shard] at hp
    obtain ⟨t, ht⟩ := hb.page p hp
    exact ⟨t, by rwa [h.threads]⟩

theorem Shows.settled (h : Shows s b) (hs : b.Sound) (hset : b.Settled id p) :
    s.pool.Settled id p := by
  have hshut : ¬ s.Open id := by
    intro ho
    obtain ⟨t, q, -, howned⟩ := h.owned ho
    obtain ⟨-, -, hin, hun⟩ := hs.owned t id q howned
    rcases hset with ⟨hmap, -⟩ | hnew
    · exact hun p hmap
    · rw [hnew] at hin
      cases hin
  rwa [Settled, h.shard, h.shut id hshut]

/-- What is being loaded in the pool that is shown has a call that loads it. -/
def Served (s : SplitPool) : Prop := ∃ b, Shows s b ∧ b.Sound ∧ b.Pins ∧ b.Attended

theorem Served.step (h : s.Served) (hok : s.Calm op) : (s.step op).Served ∧
    ∀ t id p, (s.pool.threads t).loads = none → s.pool.Owned t id p →
      (s.step op).pool.Owned t id p ∨ (s.step op).pool.Settled id p := by
  obtain ⟨b, hb, hs, hp, hatt⟩ := h
  obtain ⟨b', hans, hb'⟩ := hb.step hs hp hok.1
  obtain ⟨hs', hp'⟩ := hans.sound hs hp
  obtain ⟨u, hkeeps⟩ := hans.keeps hb hb' hok.2
  refine ⟨⟨b', hb', hs', hp', hatt.keeps hkeeps⟩, fun t id p hl ho => ?_⟩
  rw [hb.threads] at hl
  rw [Owned, hb.threads] at ho
  by_cases htu : t = u
  · subst htu
    refine (hkeeps.owned id p ho).imp (fun ho' => ?_) fun hset => hb'.settled hs' (hset.2 hl)
    rwa [Owned, hb'.threads]
  · left
    rwa [Owned, hb'.threads, hkeeps.others t htu]

/-- In every run in which no prefetch fails while it has frames reserved, and
nobody is disturbed, whatever is being loaded is loaded by a call that has not
returned, and a frame that a prefetch lets go of is mapped with its page or
free. -/
theorem prefetch_settles_frames (n : Nat) (ops : List RangeOp)
    (h : Guarded step Calm (new n) ops) (k : Nat) : (run step (new n) (ops.take k)).pool.Attended ∧
      ∀ op s, ops[k]? = some op → s = run step (new n) (ops.take k) →
        ∀ t id p, (s.pool.threads t).loads = none → s.pool.Owned t id p →
          (s.step op).pool.Owned t id p ∨ (s.step op).pool.Settled id p := by
  have hnew : (new n).Served := ⟨.new n, shows_new n, sound_new n, pins_new n, nofun, nofun⟩
  have hserved := run_inv_take (fun _ _ hs hok => (hs.step hok).1) hnew h k
  refine ⟨?_, ?_⟩
  · obtain ⟨b, hb, -, -, hatt⟩ := hserved
    exact hb.attended hatt
  · rintro op _ hop rfl
    exact (hserved.step (h.at hop)).2

/-- Thread 0 prefetches page 3 into the first of two frames. -/
def prefetchRun (io : IoResult) : List RangeOp :=
  [.call 0 3 1, .page 0 1, .pool (go 0), .pool (go 0), .page 0 1, .pool (.advance 0 ⟨io, none⟩),
    .pool (go 0), .pool (go 0), .pool (go 0)]

theorem prefetch_settles_frames_one :
    (run step (new 2) (prefetchRun .ok)).pool.shard 3 = some (.frame 0) ∧
      (run step (new 2) (prefetchRun .ok)).pool.Attended := by
  refine ⟨by decide, (prefetch_settles_frames 2 (prefetchRun .ok) ⟨⟨⟨trivial, nofun⟩, rfl⟩,
    ⟨⟨trivial, nofun⟩, rfl⟩, ⟨?_, rfl⟩, ⟨undisturbed_go rfl rfl, rfl⟩, ⟨⟨trivial, nofun⟩, rfl⟩,
    ⟨undisturbed_go rfl rfl, rfl⟩, ⟨undisturbed_go rfl rfl, rfl⟩, ⟨undisturbed_go rfl rfl, rfl⟩,
    ⟨undisturbed_go rfl rfl, rfl⟩, trivial⟩ 9).1⟩
  refine ⟨⟨fun id _ u hu => ?_, nofun⟩, fun t io id _ _ => by rintro ⟨u, hu, -⟩; cases hu⟩
  show (update (update (fun _ => Pc.idle) 0 _) 0 _ u).victim ≠ some id
  rw [update_of_ne hu, update_of_ne hu]
  nofun

/-- When the read fails the call returns, and its frame is loading for good. -/
theorem failed_prefetch_loses_frame : ¬ ∀ (n : Nat) (ops : List RangeOp),
      (run step (new n) ops).pool.Attended := by
  intro h
  obtain ⟨t, p, ho⟩ := (h 2 ((prefetchRun .failed).take 6)).frame 0 (by decide)
  have hidle : (run step (new 2) ((prefetchRun .failed).take 6)).pool.threads t = .idle := by
    by_cases ht : t = 0
    · subst ht
      decide
    · -- the other threads have not moved
      have hskip : ∀ (f : Nat → Pc) pc, update f 0 pc t = f t :=
        fun f pc => update_of_ne ht ..
      exact (hskip _ _).trans <| (hskip _ _).trans <| (hskip _ _).trans <|
        (hskip _ _).trans <| (hskip _ _).trans <| hskip _ _
  rw [Owned, hidle] at ho
  cases ho

end SplitPool

end RGraph.Buffer
