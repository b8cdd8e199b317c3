import RGraph.Proofs.WriteBack

/-!
# What an acknowledged `flush_all` has written

`flush_all` writes the frames that are dirty, not pinned and not in flight, and
returns at the first error. A write-back that fails before its sync returns
with its frame in flight. Such a frame is no candidate of the next call, which
returns `Ok` without having written it. Neither is a frame that the flusher has
claimed and not yet written.

While no write-back fails in that way, a dirty frame is in flight only while
the flusher has it, and what is not dirty has been written. A sync that fails
does no harm: its frame stays dirty, and the poisoned pool acknowledges no call
that has a frame to write.
-/

namespace RGraph.Buffer

open RGraph.Lib WriteBack List

/-- No write-back of a sweep or of `flush_all` fails before its sync, the
flusher claims no frame that a sweep has found, and the threads that fix pages
do not disturb each other. -/
def FlushRun.Unstuck (s : FlushRun) : FlushOp → Prop
  | .pool op => s.pool.Undisturbed op ∧ ∀ t io id, op = .advance t io →
      s.pool.writesBack op = some id → io.result ≠ .failed
  | .claim id _ => ∀ t, (s.pool.threads t).victim ≠ some id
  | .writeBack _ _ => True
  | .flushAll io => ∀ id, io id ≠ .failed

namespace BufferPool

/-- Every change in the image was written to the place of its page. -/
def Recorded (writes : List PageWrite) (image : PageImage) : Prop :=
  ∀ l ∈ image.lsns, ∃ w ∈ writes, w.pageId = image.pageId ∧ l ∈ w.image.lsns

/-- What is not dirty has been written, and what is dirty and in flight is with
the flusher. -/
structure Saved (s : BufferPool) (claimed : List Pending) : Prop extends s.Orderly where
  file : ∀ p, Recorded s.writes (s.file p)
  frame : ∀ id, (s.frame id).desc.state ≠ .dirty → Recorded s.writes (s.frame id).buf
  dirty : ∀ id, (s.frame id).desc.state = .dirty → (s.frame id).desc.pageId ≠ 0 ∧
    ((s.frame id).desc.ioInflight = true → id ∈ claimed.map Pending.fid)
  held : ∀ p ∈ claimed, Claimed s p
  nodup : (claimed.map Pending.fid).Nodup

section Saved

variable {s s' : BufferPool} {op : PoolOp} {id : FrameId} {io : IoResult}
  {writes writes' : List PageWrite} {image : PageImage} {claimed : List Pending}

theorem Recorded.mono (h : Recorded writes image) (hsub : writes ⊆ writes') :
    Recorded writes' image := by
  intro l hl
  obtain ⟨w, hw, hlw⟩ := h l hl
  exact ⟨w, hsub hw, hlw⟩

theorem recorded_of_mem {d : Nat} (h : ⟨image.pageId, image, d⟩ ∈ writes) : Recorded writes image :=
  fun _ hl => ⟨_, h, rfl, hl⟩

theorem Saved.step (h : s.Saved claimed) (hun : s.Undisturbed op)
    (hfail : ∀ t io id, op = .advance t io → s.writesBack op = some id →
      io.result ≠ .failed) : (s.step op).Saved claimed := by
  have he := step_effect h.sound op
  -- a frame that is written back holds the page that it is written for
  have hback : ∀ {id}, s.writesBack op = some id →
      (s.frame id).desc.pageId = (s.frame id).buf.pageId := fun hid =>
    (h.sound.content _ (of_writesBack hid).1 (of_writesBack hid).2).symm
  have hsub : s.writes ⊆ (s.step op).writes := by
    rcases he.written with ⟨-, hw⟩ | ⟨id, -, -, hw⟩ <;> rw [hw]
    · exact fun _ h => h
    · exact subset_cons_self ..
  constructor
  case toOrderly => exact h.toOrderly.step hun
  case file =>
    intro p
    rcases he.written with ⟨hf, -⟩ | ⟨id, hid, hf, hw⟩ <;> rw [hf]
    · exact (h.file p).mono hsub
    · by_cases hp : p = (s.frame id).desc.pageId
      · subst hp
        rw [Function.update_self, hw, hback hid]
        exact recorded_of_mem mem_cons_self
      · rw [Function.update_of_ne hp]
        exact (h.file p).mono hsub
  case frame =>
    intro id
    have hc := he.frame id
    generalize (s.step op).frame id = f at hc
    intro hst
    cases hc with
    | touch _ _ state _ => exact (h.frame id (state ▸ hst)).mono hsub
    | clean back written => exact recorded_of_mem (hback back ▸ written)
    | stick _ _ => exact (h.frame id hst).mono hsub
    | take victim _ => exact (h.frame id (h.victim _ id victim)).mono hsub
    | give owned _ => exact (h.frame id (h.owned _ id _ owned)).mono hsub
    | load _ read =>
      rcases read with rfl | rfl
      · exact fun l hl => absurd hl not_mem_nil
      · exact (h.file _).mono hsub
    | modify _ _ _ _ => exact absurd rfl hst
  case dirty =>
    intro id
    have hc := he.frame id
    generalize (s.step op).frame id = f at hc
    intro hst
    cases hc with
    | touch pageId inflight state _ =>
      rw [inflight, pageId]
      exact h.dirty id (state ▸ hst)
    | clean _ _ => cases hst
    | @stick back failed =>
      obtain ⟨t, io, rfl⟩ := advance_of_writesBack back
      exact absurd (failed t io rfl) (hfail t io id rfl back)
    | take _ state => exact absurd hst state
    | give _ state => exact absurd hst state
    | load _ _ => exact h.dirty id hst
    | @modify g lsn _ mem on inflight =>
      refine ⟨?_, fun hin => absurd (inflight.symm.trans hin) nofun⟩
      obtain ⟨h0, hpage, -⟩ := h.sound.mapped _ _ (h.pins.held g mem)
      subst on
      exact hpage ▸ h0
  case held => exact fun p hp => ((h.held p hp).step h.sound op).1
  case nodup => exact h.nodup

/-- The bytes of a frame are written to the place of its page. -/
theorem Saved.write {p : PageId} (h : s.Saved claimed) (hpage : (s.frame id).buf.pageId = p) :
    (s.write p (s.frame id).buf).Saved claimed ∧
      Recorded (s.write p (s.frame id).buf).writes (s.frame id).buf := by
  subst hpage
  have hnew : Recorded (s.write (s.frame id).buf.pageId (s.frame id).buf).writes
      (s.frame id).buf := recorded_of_mem mem_cons_self
  have hfile : ∀ p, p = (s.frame id).buf.pageId ∧
      (s.write (s.frame id).buf.pageId (s.frame id).buf).file p = (s.frame id).buf ∨
      (s.write (s.frame id).buf.pageId (s.frame id).buf).file p = s.file p := by
    intro p
    by_cases hp : p = (s.frame id).buf.pageId
    · exact .inl ⟨hp, hp ▸ Function.update_self ..⟩
    · exact .inr (Function.update_of_ne hp ..)
  refine ⟨{ toOrderly := h.toOrderly.of_eq rfl rfl rfl rfl fun p => ?_, file := fun p => ?_,
            frame := fun i hi => (h.frame i hi).mono (subset_cons_self ..), dirty := h.dirty,
            held := fun p hp => (h.held p hp).of_eq rfl rfl, nodup := h.nodup }, hnew⟩
  · rcases hfile p with ⟨rfl, heq⟩ | heq <;> rw [heq]
    exact h.sound.file p
  · rcases hfile p with ⟨-, heq⟩ | heq <;> rw [heq]
    · exact hnew
    · exact (h.file p).mono (subset_cons_self ..)

theorem Saved.poison (h : s.Saved claimed) : { s with ioFailed := true }.Saved claimed :=
  { h with
    toOrderly := h.toOrderly.of_eq rfl rfl rfl rfl h.sound.file
    held := fun p hp => (h.held p hp).of_eq rfl rfl }

/-- A frame gets a new descriptor, and the flusher may claim or release it. -/
theorem Saved.setDesc {d : FrameDescriptor} {claimed' : List Pending} (h : s.Saved claimed)
    (hs : (s.setDesc id d).Sound) (hpin : d.pinCount = (s.frame id).desc.pinCount)
    (hd : d.state = (s.frame id).desc.state ∧ d.pageId = (s.frame id).desc.pageId ∧
        (d.ioInflight = true → id ∈ claimed'.map Pending.fid) ∨
      d.state = .clean ∧ Recorded s.writes (s.frame id).buf)
    (hmem : ∀ i, i ≠ id → i ∈ claimed.map Pending.fid → i ∈ claimed'.map Pending.fid)
    (hclaimed : ∀ p ∈ claimed', Claimed (s.setDesc id d) p)
    (hnodup : (claimed'.map Pending.fid).Nodup) : (s.setDesc id d).Saved claimed' := by
  constructor
  case toOrderly =>
    exact h.toOrderly.setDesc hs hpin (hd.imp And.left fun hst => by rw [hst.1]; nofun)
  case file => exact h.file
  case frame =>
    intro i hi
    by_cases hid : i = id
    · subst hid
      rw [setDesc_frame_self] at hi ⊢
      rcases hd with ⟨hst, -⟩ | ⟨-, hbuf⟩
      · exact h.frame i (hst ▸ hi)
      · exact hbuf
    · rw [setDesc_frame_of_ne _ _ hid] at hi ⊢
      exact h.frame i hi
  case dirty =>
    intro i hi
    by_cases hid : i = id
    · subst hid
      rw [setDesc_frame_self] at hi ⊢
      rcases hd with ⟨hst, hpage, hin⟩ | ⟨hst, -⟩
      · exact ⟨hpage ▸ (h.dirty i (hst ▸ hi)).1, hin⟩
      · cases hst.symm.trans hi
    · rw [setDesc_frame_of_ne _ _ hid] at hi ⊢
      exact ⟨(h.dirty i hi).1, fun hin => hmem i hid ((h.dirty i hi).2 hin)⟩
  case held => exact hclaimed
  case nodup => exact hnodup

/-- A frame in flight that the flusher has not claimed is not touched. -/
theorem Saved.claimed_setDesc (h : s.Saved claimed) {d : FrameDescriptor}
    (hin : (s.frame id).desc.ioInflight = false) : ∀ p ∈ claimed, Claimed (s.setDesc id d) p := by
  intro p hp
  refine (h.held p hp).of_eq (setDesc_frame_of_ne _ _ fun heq => ?_) rfl
  have hflight := (h.held p hp).inflight
  rw [heq, hin] at hflight
  cases hflight

/-! ### The flusher -/

theorem Saved.claim (h : s.Saved claimed) (hin : (s.frame id).desc.ioInflight = false)
    (h0 : (s.frame id).desc.pageId ≠ 0) (hv : ∀ t, (s.threads t).victim ≠ some id) :
    (s.setDesc id { (s.frame id).desc with ioInflight := true }).Saved
      (⟨id, (s.frame id).desc.pageId⟩ :: claimed) := by
  have hnot : id ∉ claimed.map Pending.fid := by
    intro hmem
    obtain ⟨p, hp, rfl⟩ := mem_map.mp hmem
    cases hin.symm.trans (h.held p hp).inflight
  refine h.setDesc (h.sound.kept ⟨rfl, fun _ => rfl, rfl, fun h => h⟩) rfl
    (.inl ⟨rfl, rfl, fun _ => mem_cons_self⟩) (fun i _ hi => mem_cons_of_mem _ hi)
    (fun p hp => ?_) (nodup_cons.mpr ⟨hnot, h.nodup⟩)
  rcases mem_cons.mp hp with rfl | hp
  · exact WriteBack.claimed_setDesc h.sound hin h0 hv
  · exact h.claimed_setDesc hin p hp

theorem Saved.release {d : FrameDescriptor} {p : Pending} (h : s.Saved claimed) (hp : p ∈ claimed)
    (hpin : d.pinCount = (s.frame p.fid).desc.pinCount)
    (hpage : d.pageId = (s.frame p.fid).desc.pageId) (hin : d.ioInflight = false)
    (hd : d.state = (s.frame p.fid).desc.state ∨
      d.state = .clean ∧ Recorded s.writes (s.frame p.fid).buf) :
    (s.setDesc p.fid d).Saved (claimed.erase p) := by
  have hne : ∀ q ∈ claimed.erase p, q.fid ≠ p.fid := by
    intro q hq heq
    have hnodup : (p.fid :: (claimed.erase p).map Pending.fid).Nodup :=
      ((perm_cons_erase hp).map Pending.fid).nodup_iff.mp h.nodup
    exact (nodup_cons.mp hnodup).1 (heq ▸ mem_map_of_mem hq)
  refine h.setDesc ((h.held p hp).sound_setDesc h.sound hpage (hd.imp_right And.left)) hpin
    (hd.imp_left fun hst => ⟨hst, hpage, fun ht => absurd (hin.symm.trans ht) nofun⟩)
    (fun i hi hmem => ?_) (fun q hq => ?_) (h.nodup.sublist (erase_sublist.map _))
  · obtain ⟨q, hq, rfl⟩ := mem_map.mp hmem
    exact mem_map_of_mem ((mem_erase_of_ne fun heq => hi (congrArg Pending.fid heq)).mpr hq)
  · exact (h.held q (mem_of_mem_erase hq)).of_eq (setDesc_frame_of_ne _ _ (hne q hq)) rfl

/-! ### `flush_all` -/

/-- A frame that `flush_all` has to write. -/
def Unwritten (s : BufferPool) (id : FrameId) : Prop :=
  (s.frame id).desc.state = .dirty ∧ (s.frame id).desc.isPinned = false ∧
    (s.frame id).desc.ioInflight = false

theorem Saved.markClean (h : s.Saved claimed) (hin : (s.frame id).desc.ioInflight = false)
    (hbuf : Recorded s.writes (s.frame id).buf) :
    (s.setDesc id (s.frame id).desc.markClean).Saved claimed ∧
      ∀ i, (s.setDesc id (s.frame id).desc.markClean).Unwritten i → s.Unwritten i ∧ i ≠ id := by
  have hsound : (s.setDesc id (s.frame id).desc.markClean).Sound :=
    h.sound.kept ⟨rfl, fun ht => absurd ht (by simp [hin]), rfl, nofun⟩
  refine ⟨h.setDesc hsound rfl (.inr ⟨rfl, hbuf⟩) (fun _ _ hi => hi) (h.claimed_setDesc hin)
    h.nodup, fun i hi => ?_⟩
  by_cases hid : i = id
  · subst hid
    rw [Unwritten, setDesc_frame_self] at hi
    cases hi.1
  · rw [Unwritten, setDesc_frame_of_ne _ _ hid] at hi
    exact ⟨hi, hid⟩

theorem Saved.flushed (h : s.Saved claimed) (hf : s.flushSingleFrame id io = some s') :
    s'.Saved claimed ∧ ∀ i, s'.Unwritten i → s.Unwritten i ∧ i ≠ id := by
  simp only [flushSingleFrame] at hf
  -- a dirty frame has a page, so it is passed over only when it is pinned or in flight
  split at hf
  · next h0 =>
      cases hf
      exact ⟨h, fun i hi => ⟨hi, fun heq => (h.dirty i hi.1).1 (heq ▸ h0)⟩⟩
  next h0 =>
  split at hf
  · cases hf
  split at hf
  · next hskip =>
      cases hf
      refine ⟨h, fun i hi => ⟨hi, fun heq => ?_⟩⟩
      subst heq
      simp [hi.2.1, hi.2.2] at hskip
  next hfree =>
  cases io with
  | failed => cases hf
  | syncFailed => cases hf
  | ok =>
    cases hf
    have hin : (s.frame id).desc.ioInflight = false := by simp_all
    obtain ⟨hw, hbuf⟩ := h.write (h.sound.content id hin h0)
    exact hw.markClean hin hbuf

theorem Saved.flushFailed (h : s.Saved claimed) (hio : io ≠ .failed)
    (hf : s.flushSingleFrame id io = none) : (s.flushFailed id io).Saved claimed := by
  simp only [flushSingleFrame] at hf
  split at hf
  · cases hf
  next h0 =>
  simp only [BufferPool.flushFailed]
  split at hf
  · next hpoison => rwa [if_pos hpoison]
  next hpoison =>
  rw [if_neg hpoison]
  split at hf
  · cases hf
  next hfree =>
  cases io with
  | ok => cases hf
  | failed => exact absurd rfl hio
  | syncFailed =>
    have hin : (s.frame id).desc.ioInflight = false := by simp_all
    exact (h.write (h.sound.content id hin h0)).1.poison

variable {ios : FrameId → IoResult} {ids : List FrameId}

theorem Saved.flushFrames (h : s.Saved claimed) (hio : ∀ id, ios id ≠ .failed) :
    (BufferPool.flushFrames ios s ids).1.Saved claimed := by
  induction ids generalizing s with
  | nil => exact h
  | cons id ids ih =>
    rw [BufferPool.flushFrames]
    cases hf : s.flushSingleFrame id (ios id) with
    | some s' => exact ih (h.flushed hf).1
    | none => exact h.flushFailed (hio id) hf

end Saved

end BufferPool

namespace FlushRun

open BufferPool

section Run

variable {s : FlushRun}

def Saved (s : FlushRun) : Prop := s.pool.Saved s.claimed

theorem Saved.claim (h : s.Saved) (id : FrameId) (durable : Nat)
    (hv : ∀ t, (s.pool.threads t).victim ≠ some id) : (s.claim id durable).Saved := by
  rw [FlushRun.claim]
  split
  · exact h
  · next hfree =>
      rw [not_or, not_or, Bool.not_eq_true] at hfree
      exact BufferPool.Saved.claim h hfree.2.2 hfree.1 hv

theorem Saved.writeBack (h : s.Saved) (p : Pending) (io : IoResult) : (s.writeBack p io).Saved := by
  unfold FlushRun.writeBack
  dsimp only
  split
  · exact h
  next hmem =>
  have hp : p ∈ s.claimed := not_not.mp hmem
  split
  · exact BufferPool.Saved.release h hp rfl rfl rfl (.inl rfl)
  obtain ⟨hw, hbuf⟩ := BufferPool.Saved.write h (BufferPool.Saved.held h p hp).buf
  cases io with
  | failed => exact BufferPool.Saved.release h hp rfl rfl rfl (.inl rfl)
  | ok => exact hw.release hp rfl rfl rfl (.inr ⟨rfl, hbuf⟩)
  | syncFailed => exact hw.poison.release hp rfl rfl rfl (.inl rfl)

theorem Saved.step (h : s.Saved) (op : FlushOp) (hok : s.Unstuck op) : (s.step op).Saved := by
  cases op with
  | pool op => exact BufferPool.Saved.step h hok.1 hok.2
  | claim id durable => exact h.claim id durable hok
  | writeBack p io => exact h.writeBack p io
  | flushAll io => exact BufferPool.Saved.flushFrames h hok

end Run

/-- What an acknowledged call is to have written, for the runs that meet a
condition. -/
def Writes (Ok : Nat → List FlushOp → Prop) : Prop :=
  ∀ (n : Nat) (ops : List FlushOp) (io : FrameId → IoResult), Ok n ops →
    ((run step (new n) ops).pool.flushAll io).2 = true →
      ∀ id < (run step (new n) ops).pool.frameCount,
        let s := ((run step (new n) ops).pool.flushAll io).1
        (s.frame id).desc.isPinned = false →
          Recorded s.writes (s.frame id).buf

end FlushRun

end RGraph.Buffer
