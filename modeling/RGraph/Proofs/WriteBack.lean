import RGraph.Buffer.WriteBack
import RGraph.Proofs.BufferEffects

/-!
# The write-ahead rule

A page image may go to the data file only when the log is durable up to the
last change in it. The flusher compares the durable LSN with `rec_lsn`, the
LSN of the first change since the frame was clean, and a sweep or an explicit
flush compares nothing. So what is proved is that the rule is kept when a frame
is claimed only once the log has its last change.

For that the claim has to mean something: nobody changes the bytes of a claimed
frame. A guard waits for it, but a thread whose sweep has found the frame
before the claim goes on to reset and reuse it. That such a frame is not
claimed is part of the condition too, as is what keeps frames and guards in
order (`Undisturbed`).
-/

namespace RGraph.Buffer

open RGraph.Lib BufferPool List
open Function (update update_self update_of_ne)

/-- The frames a thread has claimed. -/
@[simp]
def FlushPc.claims : FlushPc → List Pending
  | .idle => []
  | .single _ => []
  | .batch _ _ pending => pending
  | .claimed _ p _ pending => p :: pending
  | .write _ extent rest _ => extent ++ rest.flatten
  | .finish _ extent rest _ => extent ++ rest.flatten
  | .clear _ extent rest _ => extent ++ rest.flatten

namespace WriteBack

/-- The frame that a thread claims with its next step. -/
def claims (s : WriteBack) (t : Nat) : Option FrameId :=
  match s.flushers t with
  | .single (id :: _) =>
    let d := (s.pool.frame id).desc
    if d.pageId ≠ 0 ∧ ¬ s.pool.ioFailed ∧ ¬ d.ioInflight then some id
    else none
  | .batch durable (id :: _) _ =>
    let d := (s.pool.frame id).desc
    if d.pageId ≠ 0 ∧ ¬ (d.recLsn ≠ noLsn ∧ durable < d.recLsn) ∧
        ¬ d.ioInflight then some id
    else none
  | _ => none

/-- The log has the last change of the frame. -/
def Logged (s : WriteBack) (id : FrameId) : Prop := (s.pool.frame id).desc.lastLsn ≤ s.pool.durable

/-- A frame is claimed or written back by a sweep only when the log has its
last change, no frame is claimed that a sweep has found, and the LSNs recorded
for a frame do not decrease. -/
def LogFirst (s : WriteBack) : WriteBackOp → Prop
  | .pool op => s.pool.Undisturbed op ∧
      (∀ id, s.pool.writesBack op = some id → s.Logged id) ∧
      ∀ g lsn, op = .modify g lsn → (s.pool.frame g.frameId).desc.lastLsn ≤ lsn
  | .advance t _ => ∀ id, s.claims t = some id →
      s.Logged id ∧ ∀ u, (s.pool.threads u).victim ≠ some id
  | _ => True

/-- What holds of a claimed frame. -/
structure Claimed (s : BufferPool) (p : Pending) : Prop where
  page : p.pageId ≠ 0
  pageId : (s.frame p.fid).desc.pageId = p.pageId
  buf : (s.frame p.fid).buf.pageId = p.pageId
  inflight : (s.frame p.fid).desc.ioInflight = true
  owned : ∀ t q, ¬ s.Owned t p.fid q
  victim : ∀ t, (s.threads t).victim ≠ some p.fid

/-- And what holds of it besides when it was claimed late enough. -/
structure Held (s : BufferPool) (p : Pending) : Prop extends Claimed s p where
  lsns : ∀ l ∈ (s.frame p.fid).buf.lsns, l ≤ s.durable

/-- The changes in a frame are in the log, or not later than its last LSN. -/
def Dated (durable : Nat) (f : Frame) : Prop :=
  ∀ l ∈ f.buf.lsns, l ≤ durable ∨ f.desc.state = .dirty ∧ l ≤ f.desc.lastLsn

/-- What holds of the pool. -/
structure Ruled (s : BufferPool) : Prop extends s.Orderly where
  dated : ∀ id, Dated s.durable (s.frame id)
  file : ∀ p, ∀ l ∈ (s.file p).lsns, l ≤ s.durable
  writes : ∀ w ∈ s.writes, ∀ l ∈ w.image.lsns, l ≤ w.durable

structure Inv (s : WriteBack) : Prop where
  ruled : Ruled s.pool
  held : ∀ t, ∀ p ∈ (s.flushers t).claims, Held s.pool p
  nodup : ∀ t, ((s.flushers t).claims.map Pending.fid).Nodup
  apart : ∀ t u p q, p ∈ (s.flushers t).claims → q ∈ (s.flushers u).claims →
    p.fid = q.fid → t = u

theorem inv_new (n : Nat) : (new n).Inv where
  ruled :=
    { toOrderly := BufferPool.orderly_new n
      dated := fun _ _ hl => absurd hl not_mem_nil
      file := fun _ _ hl => absurd hl not_mem_nil
      writes := nofun }
  held := nofun
  nodup _ := nodup_nil
  apart := nofun

/-! ## Steps of the pool -/

section Pool

variable {s s' : BufferPool} {op : PoolOp} {id : FrameId}

variable {f : Frame}

theorem Dated.le {durable : Nat} (h : Dated durable f)
    (hlsn : f.desc.state = .dirty → f.desc.lastLsn ≤ durable) : ∀ l ∈ f.buf.lsns, l ≤ durable := by
  intro l hl
  rcases h l hl with hle | ⟨hst, hle⟩
  · exact hle
  · exact hle.trans (hlsn hst)

theorem Dated.of_le {durable : Nat} (h : ∀ l ∈ f.buf.lsns, l ≤ durable) : Dated durable f :=
  fun l hl => .inl (h l hl)

theorem Ruled.dated_change {writes : List PageWrite} (hr : Ruled s) (h : Change s op writes id f)
    (hback : s.writesBack op = some id → (s.frame id).desc.lastLsn ≤ s.durable)
    (hlsn : ∀ g lsn, op = .modify g lsn →
      (s.frame g.frameId).desc.lastLsn ≤ lsn) : Dated s.durable f := by
  have hold := hr.dated id
  cases h with
  | touch _ _ state lsn =>
    intro l hl
    rw [state, lsn]
    exact hold l hl
  | clean back _ => exact .of_le (hold.le fun _ => hback back)
  | stick _ _ => exact hold
  | take victim _ => exact .of_le (hold.le fun hst => absurd hst (hr.victim _ id victim))
  | give owned _ => exact .of_le (hold.le fun hst => absurd hst (hr.owned _ id _ owned))
  | load _ read =>
    rcases read with rfl | rfl
    · exact fun l hl => absurd hl not_mem_nil
    · exact .of_le (hr.file _)
  | @modify g lsn eq _ on _ =>
    intro l hl
    have hle := hlsn g lsn eq
    rw [on] at hle
    rcases mem_cons.mp hl with rfl | hl
    · exact .inr ⟨rfl, le_refl l⟩
    · rcases hold l hl with hd | ⟨_, hd⟩
      · exact .inl hd
      · exact .inr ⟨rfl, hd.trans hle⟩

theorem Ruled.step (hr : Ruled s) (hok : s.Undisturbed op)
    (hback : ∀ id, s.writesBack op = some id → (s.frame id).desc.lastLsn ≤ s.durable)
    (hlsn : ∀ g lsn, op = .modify g lsn →
      (s.frame g.frameId).desc.lastLsn ≤ lsn) : Ruled (s.step op) := by
  have he := step_effect hr.sound op
  have hwritten : ∀ id, s.writesBack op = some id →
      ∀ l ∈ (s.frame id).buf.lsns, l ≤ s.durable :=
    fun id hid => (hr.dated id).le fun _ => hback id hid
  constructor
  case toOrderly => exact hr.toOrderly.step hok
  case dated =>
    intro id
    rw [he.durable]
    exact hr.dated_change (he.frame id) (hback id) hlsn
  case file =>
    intro p
    rw [he.durable]
    rcases he.written with ⟨hfile, -⟩ | ⟨id, hid, hfile, -⟩
    · rw [hfile]
      exact hr.file p
    · rw [hfile]
      by_cases hp : p = (s.frame id).desc.pageId
      · subst hp
        rw [update_self]
        exact hwritten id hid
      · rw [update_of_ne hp]
        exact hr.file p
  case writes =>
    intro w hw
    rcases he.written with ⟨-, hwrites⟩ | ⟨id, hid, -, hwrites⟩
    · rw [hwrites] at hw
      exact hr.writes w hw
    · rw [hwrites] at hw
      rcases mem_cons.mp hw with rfl | hw
      · exact hwritten id hid
      · exact hr.writes w hw

/-- A claimed frame is left alone by the threads that fix pages. -/
theorem Claimed.step {p : Pending} (h : Claimed s p) (hs : s.Sound) (op : PoolOp) :
    Claimed (s.step op) p ∧ ((s.step op).frame p.fid).buf = (s.frame p.fid).buf := by
  have he := step_effect hs op
  have hback : s.writesBack op ≠ some p.fid := by
    intro hb
    have hno := (of_writesBack hb).1
    rw [h.inflight] at hno
    cases hno
  have hframe : ((s.step op).frame p.fid).desc.pageId = (s.frame p.fid).desc.pageId ∧
      ((s.step op).frame p.fid).desc.ioInflight = (s.frame p.fid).desc.ioInflight ∧
      ((s.step op).frame p.fid).buf = (s.frame p.fid).buf := by
    have hc := he.frame p.fid
    generalize (s.step op).frame p.fid = f at hc
    cases hc with
    | touch pageId inflight _ _ => exact ⟨pageId, inflight, rfl⟩
    | clean back _ => exact absurd back hback
    | stick back _ => exact absurd back hback
    | take victim _ => exact absurd victim (h.victim _)
    | give owned _ => exact absurd owned (h.owned _ _)
    | load owned _ => exact absurd owned (h.owned _ _)
    | modify _ _ _ hin => exact absurd (h.inflight.symm.trans hin) (by decide)
  obtain ⟨hpage, hin, hbuf⟩ := hframe
  refine ⟨?_, hbuf⟩
  constructor
  case page => exact h.page
  case pageId => exact hpage.trans h.pageId
  case buf => rw [hbuf, h.buf]
  case inflight => exact hin.trans h.inflight
  case owned =>
    intro t q ho
    rcases he.owned t _ q ho with ho | hv
    · exact h.owned t q ho
    · exact h.victim t hv
  case victim =>
    intro t hv
    rcases he.victim t _ hv with hv | ⟨io, -, hpick⟩
    · exact h.victim t hv
    · have hno := (not_dirty_of_picks hpick).2
      rw [h.inflight] at hno
      cases hno

theorem Held.step {p : Pending} (h : Held s p) (hr : Ruled s) (op : PoolOp) :
    Held (s.step op) p := by
  obtain ⟨hc, hbuf⟩ := h.toClaimed.step hr.sound op
  refine ⟨hc, ?_⟩
  rw [hbuf, (step_effect hr.sound op).durable]
  exact h.lsns

end Pool

/-! ## Steps of the flushing threads -/

section Flush

variable {s s' : BufferPool} {id : FrameId} {p : Pending}

/-- A frame that somebody else has claimed is not touched. -/
theorem Claimed.of_eq (h : Claimed s p) (hframe : s'.frame p.fid = s.frame p.fid)
    (hthreads : s'.threads = s.threads) : Claimed s' p where
  page := h.page
  pageId := by rw [hframe, h.pageId]
  buf := by rw [hframe, h.buf]
  inflight := by rw [hframe, h.inflight]
  owned t q ho := h.owned t q (by rwa [Owned, hthreads] at ho)
  victim t hv := h.victim t (by rwa [hthreads] at hv)

theorem Held.of_eq (h : Held s p) (hframe : s'.frame p.fid = s.frame p.fid)
    (hthreads : s'.threads = s.threads) (hdurable : s.durable ≤ s'.durable) : Held s' p := by
  refine ⟨h.toClaimed.of_eq hframe hthreads, fun l hl => ?_⟩
  rw [hframe] at hl
  exact (h.lsns l hl).trans hdurable

/-- A frame is claimed. -/
theorem claimed_setDesc (hs : s.Sound) (hin : (s.frame id).desc.ioInflight = false)
    (h0 : (s.frame id).desc.pageId ≠ 0) (hv : ∀ u, (s.threads u).victim ≠ some id) :
    Claimed (s.setDesc id { (s.frame id).desc with ioInflight := true })
      ⟨id, (s.frame id).desc.pageId⟩ where
  page := h0
  pageId := by rw [setDesc_frame_self]
  buf := by
    rw [setDesc_frame_self]
    exact hs.content id hin h0
  inflight := by rw [setDesc_frame_self]
  owned := hs.not_owned hin
  victim := hv

/-- A claimed frame is released. -/
theorem Claimed.sound_setDesc {d : FrameDescriptor} (h : Claimed s p) (hs : s.Sound)
    (hpage : d.pageId = (s.frame p.fid).desc.pageId)
    (hd : d.state = (s.frame p.fid).desc.state ∨ d.state = .clean) : (s.setDesc p.fid d).Sound := by
  refine hs.setFrame (fun q hq => ?_) (fun u q ho => absurd ho (h.owned u q))
    (fun u q hu => absurd (owned_of_loaded hu) (h.owned u q))
    fun _ _ => h.buf.trans (hpage.trans h.pageId).symm
  obtain ⟨-, hq, hbuf, hne⟩ := hs.mapped q p.fid hq
  refine ⟨hpage.trans hq, hbuf, fun he => ?_⟩
  rcases hd with hst | hst
  · exact hne (hst ▸ he)
  · cases hst.symm.trans he

/-- A frame gets a new descriptor while its bytes are left alone. -/
theorem Ruled.setDesc {d : FrameDescriptor} (hr : Ruled s) (hs : (s.setDesc id d).Sound)
    (hpin : d.pinCount = (s.frame id).desc.pinCount) (hd : d.state = (s.frame id).desc.state ∧
        d.lastLsn = (s.frame id).desc.lastLsn ∨
      d.state ≠ .dirty ∧ ∀ l ∈ (s.frame id).buf.lsns, l ≤ s.durable) :
    Ruled (s.setDesc id d) := by
  constructor
  case toOrderly => exact hr.toOrderly.setDesc hs hpin (hd.imp And.left And.left)
  case dated =>
    intro i
    by_cases hid : i = id
    · subst hid
      rw [setDesc_frame_self]
      rcases hd with ⟨hst, hl⟩ | ⟨-, hle⟩
      · intro l hl'
        rw [hst, hl]
        exact hr.dated i l hl'
      · exact .of_le hle
    · rw [setDesc_frame_of_ne s d hid]
      exact hr.dated i
  case file => exact hr.file
  case writes => exact hr.writes

theorem Ruled.claim (hr : Ruled s) (hin : (s.frame id).desc.ioInflight = false)
    (h0 : (s.frame id).desc.pageId ≠ 0) (hlog : (s.frame id).desc.lastLsn ≤ s.durable)
    (hv : ∀ u, (s.threads u).victim ≠ some id) :
    Ruled (s.setDesc id { (s.frame id).desc with ioInflight := true }) ∧
      Held (s.setDesc id { (s.frame id).desc with ioInflight := true })
        ⟨id, (s.frame id).desc.pageId⟩ := by
  refine ⟨hr.setDesc (hr.sound.kept ⟨rfl, fun _ => rfl, rfl, fun h => h⟩) rfl
    (.inl ⟨rfl, rfl⟩), claimed_setDesc hr.sound hin h0 hv, ?_⟩
  rw [setDesc_frame_self]
  exact (hr.dated id).le fun _ => hlog

theorem Ruled.release {d : FrameDescriptor} (hr : Ruled s) (h : Held s p)
    (hpage : d.pageId = (s.frame p.fid).desc.pageId)
    (hpin : d.pinCount = (s.frame p.fid).desc.pinCount) (hd : d.state = (s.frame p.fid).desc.state ∧
        d.lastLsn = (s.frame p.fid).desc.lastLsn ∨ d.state = .clean) :
    Ruled (s.setDesc p.fid d) := by
  refine hr.setDesc (h.sound_setDesc hr.sound hpage (hd.imp And.left id)) hpin
    (hd.imp id fun hst => ⟨?_, h.lsns⟩)
  rw [hst]
  decide

/-- The bytes of a claimed frame are written. -/
theorem Ruled.write (hr : Ruled s) (h : Held s p) :
    Ruled (s.write p.pageId (s.frame p.fid).buf) := by
  have hfile : ∀ q, ((s.write p.pageId (s.frame p.fid).buf).file q).pageId = q ∧
      ∀ l ∈ ((s.write p.pageId (s.frame p.fid).buf).file q).lsns, l ≤ s.durable := by
    intro q
    show (update s.file p.pageId (s.frame p.fid).buf q).pageId = q ∧
      ∀ l ∈ (update s.file p.pageId (s.frame p.fid).buf q).lsns, l ≤ s.durable
    by_cases hq : q = p.pageId
    · subst hq
      rw [update_self]
      exact ⟨h.buf, h.lsns⟩
    · rw [update_of_ne hq]
      exact ⟨hr.sound.file q, hr.file q⟩
  constructor
  case toOrderly => exact hr.toOrderly.of_eq rfl rfl rfl rfl fun q => (hfile q).1
  case dated => exact hr.dated
  case file => exact fun q => (hfile q).2
  case writes =>
    intro w hw
    rcases mem_cons.mp hw with rfl | hw
    · exact h.lsns
    · exact hr.writes w hw

theorem Ruled.writePages (hr : Ruled s) {extent : List Pending} (h : ∀ p ∈ extent, Held s p) :
    Ruled (writePages s extent) ∧ (writePages s extent).frame = s.frame ∧
      (writePages s extent).threads = s.threads ∧ (writePages s extent).durable = s.durable := by
  induction extent generalizing s with
  | nil => exact ⟨hr, rfl, rfl, rfl⟩
  | cons p extent ih =>
    have hw := hr.write (h p mem_cons_self)
    exact ih hw fun q hq => (h q (mem_cons_of_mem _ hq)).of_eq rfl rfl (le_refl _)

end Flush

section Steps

variable {s : WriteBack} {t : Nat} {pc : FlushPc} {pool : BufferPool}

/-- A thread goes on with no new claim; what it has and what others have
claimed is still held. -/
theorem Inv.move (h : s.Inv) (hr : Ruled pool) (hsub : pc.claims.Subperm (s.flushers t).claims)
    (hself : ∀ p ∈ pc.claims, Held pool p)
    (hother : ∀ u, u ≠ t → ∀ p ∈ (s.flushers u).claims, Held pool p) :
    Inv ⟨pool, update s.flushers t pc⟩ := by
  have hclaims : ∀ {u p}, p ∈ (update s.flushers t pc u).claims →
      p ∈ (s.flushers u).claims := by
    intro u p hp
    by_cases hu : u = t
    · subst hu
      rw [update_self] at hp
      exact hsub.subset hp
    · rwa [update_of_ne hu] at hp
  constructor
  case ruled => exact hr
  case held =>
    intro u p hp
    by_cases hu : u = t
    · subst hu
      exact hself p (by simpa using hp)
    · exact hother u hu p (hclaims hp)
  case nodup =>
    intro u
    by_cases hu : u = t
    · subst hu
      obtain ⟨l, hperm, hl⟩ := hsub
      show ((update s.flushers u pc u).claims.map _).Nodup
      rw [update_self]
      exact (hperm.map _).nodup_iff.mp ((h.nodup u).sublist (hl.map _))
    · show ((update s.flushers t pc u).claims.map _).Nodup
      rw [update_of_ne hu]
      exact h.nodup u
  case apart => exact fun u v p q hp hq => h.apart u v p q (hclaims hp) (hclaims hq)

/-- The pool stays as it is. -/
theorem Inv.goto (h : s.Inv) (hsub : pc.claims.Subperm (s.flushers t).claims) : (s.goto t pc).Inv :=
  h.move h.ruled hsub (fun p hp => h.held t p (hsub.subset hp)) fun u _ => h.held u

variable {p : Pending}

/-- A claimed frame gets a new descriptor and is not claimed any more. -/
theorem Inv.release (h : s.Inv) {d : FrameDescriptor}
    (hclaims : (p :: pc.claims).Subperm (s.flushers t).claims)
    (hpage : d.pageId = (s.pool.frame p.fid).desc.pageId)
    (hpin : d.pinCount = (s.pool.frame p.fid).desc.pinCount)
    (hd : d.state = (s.pool.frame p.fid).desc.state ∧
        d.lastLsn = (s.pool.frame p.fid).desc.lastLsn ∨ d.state = .clean) :
    ((s.setDesc p.fid d).goto t pc).Inv := by
  have hmem : p ∈ (s.flushers t).claims := hclaims.subset mem_cons_self
  have hsub : pc.claims.Subperm (s.flushers t).claims := List.Subperm.cons_self.trans hclaims
  have hne : ∀ q ∈ pc.claims, q.fid ≠ p.fid := by
    obtain ⟨l, hperm, hl⟩ := hclaims
    have hnd := (hperm.map Pending.fid).nodup_iff.mp ((h.nodup t).sublist (hl.map _))
    rw [map_cons, nodup_cons] at hnd
    exact fun q hq heq => hnd.1 (mem_map.mpr ⟨q, hq, heq⟩)
  have hkeep : ∀ {u q}, q ∈ (s.flushers u).claims → q.fid ≠ p.fid →
      Held (s.pool.setDesc p.fid d) q := by
    intro u q hq hfid
    exact (h.held u q hq).of_eq (setDesc_frame_of_ne s.pool d hfid) rfl (le_refl _)
  exact h.move (h.ruled.release (h.held t p hmem) hpage hpin hd) hsub
    (fun q hq => hkeep (hsub.subset hq) (hne q hq)) fun u hu q hq =>
      hkeep hq fun heq => hu (h.apart u t q p hq hmem heq)

/-- A thread claims a frame. -/
theorem Inv.add (h : s.Inv) (hr : Ruled pool) (hp : Held pool p)
    (hpc : pc.claims = p :: (s.flushers t).claims)
    (hfree : ∀ u, ∀ q ∈ (s.flushers u).claims, q.fid ≠ p.fid)
    (hkeep : ∀ u, ∀ q ∈ (s.flushers u).claims, Held pool q) :
    Inv ⟨pool, update s.flushers t pc⟩ := by
  have hclaims : ∀ {u q}, q ∈ (update s.flushers t pc u).claims →
      u = t ∧ q = p ∨ q ∈ (s.flushers u).claims := by
    intro u q hq
    by_cases hu : u = t
    · subst hu
      rw [update_self, hpc] at hq
      exact (mem_cons.mp hq).imp (fun heq => ⟨rfl, heq⟩) fun hq => hq
    · rw [update_of_ne hu] at hq
      exact .inr hq
  constructor
  case ruled => exact hr
  case held =>
    intro u q hq
    rcases hclaims hq with ⟨-, rfl⟩ | hq
    · exact hp
    · exact hkeep u q hq
  case nodup =>
    intro u
    show ((update s.flushers t pc u).claims.map _).Nodup
    by_cases hu : u = t
    · subst hu
      rw [update_self, hpc, map_cons, nodup_cons]
      refine ⟨fun hm => ?_, h.nodup u⟩
      obtain ⟨q, hq, heq⟩ := mem_map.mp hm
      exact hfree u q hq heq
    · rw [update_of_ne hu]
      exact h.nodup u
  case apart =>
    intro u v q r hq hr heq
    rcases hclaims hq with ⟨rfl, rfl⟩ | hq' <;> rcases hclaims hr with ⟨rfl, rfl⟩ | hr'
    · rfl
    · exact absurd heq.symm (hfree v r hr')
    · exact absurd heq (hfree u q hq')
    · exact h.apart u v q r hq' hr' heq

theorem claims_skip (round : Option Nat) (todo : List FrameId) (pending : List Pending) :
    (FlushPc.skip round todo pending).claims.Subperm pending := by
  cases round with
  | none => exact nil_subperm
  | some durable => exact .refl _

variable {id : FrameId} {pending : List Pending} {todo : List FrameId}

theorem Inv.claim (h : s.Inv) {round : Option Nat} (hclaims : (s.flushers t).claims = pending)
    (h0 : (s.pool.frame id).desc.pageId ≠ 0) (hok : (s.pool.frame id).desc.ioInflight = false →
      s.Logged id ∧ ∀ u, (s.pool.threads u).victim ≠ some id) :
    (s.claim t id round todo pending).Inv := by
  unfold WriteBack.claim
  dsimp only
  split
  · refine h.goto ?_
    rw [hclaims]
    exact claims_skip round todo pending
  · next hin =>
      have hin : (s.pool.frame id).desc.ioInflight = false := Bool.not_eq_true _ ▸ hin
      obtain ⟨hlog, hv⟩ := hok hin
      obtain ⟨hr, hheld⟩ := h.ruled.claim hin h0 hlog hv
      -- what is claimed is in flight, and this frame was not
      have hfree : ∀ u, ∀ q ∈ (s.flushers u).claims, q.fid ≠ id := by
        rintro u q hq rfl
        rw [(h.held u q hq).inflight] at hin
        cases hin
      refine h.add hr hheld ?_ hfree fun u q hq => ?_
      · rw [hclaims]
        rfl
      · exact (h.held u q hq).of_eq
          (setDesc_frame_of_ne s.pool _ (hfree u q hq)) rfl (le_refl _)

theorem Inv.single (h : s.Inv) (hpc : s.flushers t = .single (id :: todo))
    {io : IoResult} (hok : s.LogFirst (.advance t io)) : (s.single t id todo).Inv := by
  unfold WriteBack.single
  split
  · exact h.goto nil_subperm
  · next h0 =>
      split
      · exact h.goto nil_subperm
      · next hio =>
          refine h.claim (by rw [hpc]; rfl) h0 fun hin => hok id ?_
          rw [claims, hpc]
          exact if_pos ⟨h0, hio, Bool.not_eq_true _ ▸ hin⟩

theorem Inv.batch (h : s.Inv) {durable : Nat}
    (hpc : s.flushers t = .batch durable (id :: todo) pending) {io : IoResult}
    (hok : s.LogFirst (.advance t io)) : (s.batch t durable id todo pending).Inv := by
  have hclaims : (s.flushers t).claims = pending := by rw [hpc]; rfl
  unfold WriteBack.batch
  dsimp only
  split
  · exact h.goto (hclaims ▸ .refl _)
  · next h0 =>
      split
      · exact h.goto (hclaims ▸ .refl _)
      · next hrec =>
          refine h.claim hclaims h0 fun hin => hok id ?_
          rw [claims, hpc]
          exact if_pos ⟨h0, hrec, Bool.not_eq_true _ ▸ hin⟩

theorem Inv.checkPin (h : s.Inv) {round : Option Nat}
    (hpc : s.flushers t = .claimed round p todo pending) :
    (s.checkPin t round p todo pending).Inv := by
  have hclaims : (s.flushers t).claims = p :: pending := by rw [hpc]; rfl
  unfold WriteBack.checkPin
  dsimp only
  split
  · refine h.release ?_ rfl rfl (.inl ⟨rfl, rfl⟩)
    rw [hclaims]
    exact (subperm_cons p).mpr (claims_skip round todo pending)
  · cases round with
    | none =>
      refine h.goto ?_
      rw [hclaims]
      exact (singleton_sublist.mpr mem_cons_self).subperm
    | some durable =>
      refine h.goto ?_
      rw [hclaims]
      exact perm_append_singleton p pending |>.subperm

theorem claims_next (rest : List (List Pending)) (todo : List FrameId) :
    (FlushPc.next rest todo).claims = rest.flatten := by
  cases rest with
  | nil => rfl
  | cons extent rest => rfl

theorem Inv.stage (h : s.Inv) {durable : Nat}
    (hpc : s.flushers t = .batch durable [] pending) (io : IoResult) :
    (s.stage t pending io).Inv := by
  have hclaims : (s.flushers t).claims = pending := by rw [hpc]; rfl
  unfold WriteBack.stage
  split
  · refine h.goto ?_
    rw [hclaims, claims_next]
    rw [FlushPc.flatten_extents]
    exact (perm_insertionSort _ pending).subperm
  · refine h.goto ?_
    show (pending ++ []).Subperm _
    rw [hclaims, append_nil]

variable {extent : List Pending} {rest : List (List Pending)}

theorem Inv.write (h : s.Inv) {round : Bool}
    (hpc : s.flushers t = .write round extent rest todo) (io : IoResult) :
    (s.write t round extent rest todo io).Inv := by
  have hclaims : (s.flushers t).claims = extent ++ rest.flatten := by
    rw [hpc]
    rfl
  have hext : ∀ p ∈ extent, Held s.pool p := by
    intro p hp
    refine h.held t p ?_
    rw [hclaims]
    exact mem_append_left _ hp
  obtain ⟨hr, hframe, hthreads, hdurable⟩ := h.ruled.writePages hext
  have hkeep : ∀ {u p}, p ∈ (s.flushers u).claims →
      Held (writePages s.pool extent) p := by
    intro u p hp
    exact (h.held u p hp).of_eq (congrFun hframe _) hthreads (ge_of_eq hdurable)
  have hr' : Ruled { writePages s.pool extent with ioFailed := true } :=
    ⟨hr.toOrderly.of_eq rfl rfl rfl rfl hr.sound.file, hr.dated, hr.file, hr.writes⟩
  have hkeep' : ∀ {u p}, p ∈ (s.flushers u).claims →
      Held { writePages s.pool extent with ioFailed := true } p :=
    fun hp => (hkeep hp).of_eq rfl rfl (le_refl _)
  have hsame : (extent ++ rest.flatten).Subperm (s.flushers t).claims := hclaims ▸ .refl _
  have hpart : (extent ++ ([] : List (List Pending)).flatten).Subperm
      (s.flushers t).claims := by
    rw [hclaims]
    exact (List.Sublist.append_left (nil_sublist _) extent).subperm
  unfold WriteBack.write
  dsimp only
  split
  · exact h.goto hsame
  · cases io with
    | ok =>
      exact h.move hr hsame (fun p hp => hkeep (hsame.subset hp)) fun u _ p hp => hkeep hp
    | failed =>
      dsimp only
      split
      · exact h.goto hsame
      · exact h.goto nil_subperm
    | syncFailed =>
      dsimp only
      split
      · exact h.move hr' hsame (fun p hp => hkeep' (hsame.subset hp)) fun u _ p hp => hkeep' hp
      · exact h.move hr' hpart (fun p hp => hkeep' (hpart.subset hp)) fun u _ p hp => hkeep' hp

theorem Inv.finish (h : s.Inv) {ok : Bool}
    (hpc : s.flushers t = .finish ok (p :: extent) rest todo) :
    (s.finish t ok p extent rest todo).Inv := by
  have hclaims : (s.flushers t).claims = p :: (extent ++ rest.flatten) := by
    rw [hpc]
    rfl
  unfold WriteBack.finish
  dsimp only
  split
  · exact h.release (hclaims ▸ .refl _) rfl rfl (.inr rfl)
  · exact h.release (hclaims ▸ .refl _) rfl rfl (.inl ⟨rfl, rfl⟩)

theorem Inv.clear (h : s.Inv) (hpc : s.flushers t = .clear id extent rest todo) :
    ((s.setDesc id { (s.pool.frame id).desc with recLsn := noLsn }).goto t
      (.finish true extent rest todo)).Inv := by
  have hclaims : (s.flushers t).claims = extent ++ rest.flatten := by
    rw [hpc]
    rfl
  have hkeep : ∀ {u p}, p ∈ (s.flushers u).claims → Held
      (s.pool.setDesc id { (s.pool.frame id).desc with recLsn := noLsn }) p := by
    intro u p hp
    have hheld := h.held u p hp
    by_cases hid : p.fid = id
    · subst hid
      refine ⟨⟨hheld.page, ?_, ?_, ?_, hheld.owned, hheld.victim⟩, ?_⟩ <;>
        rw [setDesc_frame_self]
      exacts [hheld.pageId, hheld.buf, hheld.inflight, hheld.lsns]
    · exact hheld.of_eq (setDesc_frame_of_ne s.pool _ hid) rfl (le_refl _)
  have hsub : (extent ++ rest.flatten).Subperm (s.flushers t).claims := hclaims ▸ .refl _
  exact h.move (h.ruled.setDesc (h.ruled.sound.kept ⟨rfl, fun h => h, rfl, fun h => h⟩)
      rfl (.inl ⟨rfl, rfl⟩)) hsub
    (fun p hp => hkeep (hsub.subset hp)) fun u _ p hp => hkeep hp

theorem Inv.advance (h : s.Inv) (t : Nat) (io : IoResult)
    (hok : s.LogFirst (.advance t io)) : (s.advance t io).Inv := by
  unfold WriteBack.advance
  split
  · exact h
  · exact h.goto nil_subperm
  · next hpc => exact h.single hpc hok
  · exact h.goto nil_subperm
  · next hpc => exact h.stage hpc io
  · next hpc => exact h.batch hpc hok
  · next hpc => exact h.checkPin hpc
  · next hpc => exact h.write hpc io
  · next rest todo hpc =>
      refine h.goto ?_
      rw [hpc, claims_next]
      exact .refl _
  · next hpc => exact h.finish hpc
  · next hpc => exact h.clear hpc

theorem Inv.step (h : s.Inv) {op : WriteBackOp} (hok : s.LogFirst op) : (s.step op).Inv := by
  cases op with
  | pool op =>
    obtain ⟨hun, hback, hlsn⟩ := hok
    exact ⟨h.ruled.step hun hback hlsn,
      fun t p hp => (h.held t p hp).step h.ruled op, h.nodup, h.apart⟩
  | walFlush lsn =>
    have hle : s.pool.durable ≤ max s.pool.durable lsn := le_max_left ..
    have hr := h.ruled
    refine ⟨?_, fun t p hp => (h.held t p hp).of_eq rfl rfl hle, h.nodup, h.apart⟩
    exact
      { toOrderly := hr.toOrderly.of_eq rfl rfl rfl rfl hr.sound.file
        dated := fun id l hl => (hr.dated id l hl).imp (fun hd => hd.trans hle) fun hd => hd
        file := fun p l hl => (hr.file p l hl).trans hle
        writes := hr.writes }
  | flushAll t candidates =>
    rw [WriteBack.step]
    split
    · exact h.goto nil_subperm
    · exact h
  | flushRound t candidates =>
    rw [WriteBack.step]
    split
    · exact h.goto nil_subperm
    · exact h
  | advance t io => exact h.advance t io hok

end Steps

/-! ## Whole runs -/

/-- Nothing was written to the data file before the log had it. -/
def WalRule (s : WriteBack) : Prop := ∀ w ∈ s.pool.writes, ∀ l ∈ w.image.lsns, l ≤ w.durable

/-- Page `7` is fixed, changed at LSN `5` and let go. -/
def changed : List WriteBackOp :=
  [.pool (.fix 1 7), .pool (go 1), .pool (go 1), .pool (go 1), .pool (go 1),
    .pool (go 1), .pool (.modify ⟨0, 7⟩ 5), .pool (.drop ⟨0, 7⟩)]

theorem writes_after_log (n : Nat) (ops : List WriteBackOp)
    (h : Guarded step LogFirst (new n) ops) : (run step (new n) ops).WalRule :=
  (run_inv (fun _ _ hs hok => hs.step hok) (inv_new n) h).ruled.writes

theorem logFirst_pool {s : WriteBack} {t : Nat} {io : Io}
    (hpick : s.pool.picks t = none) (hpin : s.pool.pins t = none)
    (hback : s.pool.writesBack (.advance t io) = none) : s.LogFirst (.pool (.advance t io)) := by
  refine ⟨undisturbed_of_none hpick hpin, fun id hid => ?_, nofun⟩
  rw [hback] at hid
  cases hid

theorem logFirst_advance {s : WriteBack} {t : Nat} {io : IoResult}
    (h : s.claims t = none) : s.LogFirst (.advance t io) := by
  intro id hid
  rw [h] at hid
  cases hid

/-- A round of the flusher writes a page whose changes are in the log. -/
theorem writes_after_log_round :
    (run step (new 1) (changed ++ [.walFlush 5, .flushRound 0 [0],
        .advance 0 .ok, .advance 0 .ok, .advance 0 .ok,
        .advance 0 .ok])).pool.writes = [⟨7, ⟨7, [5]⟩, 5⟩] ∧
      (run step (new 1) (changed ++ [.walFlush 5, .flushRound 0 [0],
        .advance 0 .ok, .advance 0 .ok, .advance 0 .ok,
        .advance 0 .ok])).WalRule := by
  refine ⟨by decide, writes_after_log 1 _ ⟨⟨⟨trivial, trivial⟩, nofun, nofun⟩,
    ?_, ?_, ?_, ?_, ?_, ?_, ⟨⟨trivial, trivial⟩, nofun, nofun⟩, trivial,
    trivial, ?_, ?_, ?_, ?_, trivial⟩⟩
  · exact logFirst_pool rfl rfl rfl
  · refine ⟨⟨fun id _ u hu => ?_, nofun⟩, nofun, nofun⟩
    show (update (update (fun _ => Pc.idle) 1 _) 1 _
      u).victim ≠ some id
    rw [update_of_ne hu, update_of_ne hu]
    nofun
  · exact logFirst_pool rfl rfl rfl
  · exact logFirst_pool rfl rfl rfl
  · exact logFirst_pool rfl rfl rfl
  · refine ⟨⟨trivial, trivial⟩, nofun, fun g lsn hop => ?_⟩
    cases hop
    decide
  · intro id hid
    cases hid
    refine ⟨by unfold Logged; decide, fun u => ?_⟩
    by_cases hu : u = 1
    · subst hu
      decide
    · show (update (update (update
        (update (update (update
        (fun _ => Pc.idle) 1 _) 1 _) 1 _) 1 _) 1 _) 1 _ u).victim ≠ some 0
      simp only [update_of_ne hu]
      decide
  · exact logFirst_advance rfl
  · exact logFirst_advance rfl
  · exact logFirst_advance rfl

/-- An explicit flush does not look at the log. -/
theorem flush_before_log :
    ¬ ∀ (n : Nat) (ops : List WriteBackOp), (run step (new n) ops).WalRule := by
  intro h
  have hs := h 1 (changed ++ [.flushAll 0 [0], .advance 0 .ok, .advance 0 .ok,
    .advance 0 .ok])
  exact absurd (hs ⟨7, ⟨7, [5]⟩, 0⟩ (by decide) 5 (by decide)) (by decide)

end WriteBack

end RGraph.Buffer
