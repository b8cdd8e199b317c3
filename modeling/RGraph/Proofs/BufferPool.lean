import Mathlib.Data.List.Perm.Subperm
import RGraph.Buffer.Pool
import RGraph.Lib.Run

/-!
# Frames and their pages

A thread that looks for a frame does not own what it has found: an empty frame
is not marked when a sweep returns it, and a victim is unmapped and reset some
steps after its pin count was read. While no two threads have found the same
frame, the invariant here is kept by every move of a thread; each kind of move
is one lemma.

The invariant follows a frame through its life. A frame that is reserved is in
flight, which keeps every sweep away from it, and mapped for no page until its
owner publishes it.
-/

namespace RGraph.Buffer

open RGraph.Lib List Function

/-! ## What a thread has in hand -/

namespace Want

/-- The frames a prefetch has reserved. -/
@[simp]
def filled : Want → List (FrameId × PageId)
  | .fix _ _ => []
  | .prefetch _ _ filled => filled

@[simp]
def page : Want → PageId
  | .fix pageId _ => pageId
  | .prefetch next _ _ => next

end Want

namespace Pc

/-- The reserved frames, each with the page it is for. -/
@[simp]
def owns : Pc → List (FrameId × PageId)
  | .scan w _ _ => w.filled
  | .sweep w _ => w.filled
  | .unmap w _ => w.filled
  | .evict w _ => w.filled
  | .chosen w _ => w.filled
  | .loading pageId id => [(id, pageId)]
  | .loaded pageId id _ => [(id, pageId)]
  | .prefetch _ _ filled => filled
  | .fill _ filled => filled
  | .publish todo => todo
  | _ => []

/-- The frame that a sweep has found and that is not reserved yet. -/
@[simp]
def victim : Pc → Option FrameId
  | .unmap _ id => some id
  | .evict _ id => some id
  | .chosen _ id => some id
  | _ => none

/-- The same once no page is mapped to it. -/
@[simp]
def free : Pc → Option FrameId
  | .evict _ id => some id
  | .chosen _ id => some id
  | _ => none

/-- The page for which the thread has set the sentinel. -/
@[simp]
def loads : Pc → Option PageId
  | .loading pageId _ => some pageId
  | .loaded pageId _ _ => some pageId
  | _ => none

/-- The page that the thread is about to load. -/
@[simp]
def wants : Pc → Option PageId
  | .lookup pageId => some pageId
  | .waiting pageId => some pageId
  | .scan w _ _ => some w.page
  | .sweep w _ => some w.page
  | .unmap w _ => some w.page
  | .evict w _ => some w.page
  | .chosen w _ => some w.page
  | _ => none

/-- A thread that was at the one place may be at the other after a step in
which it reserves nothing. -/
structure Next (pc pc' : Pc) : Prop where
  owns : pc'.owns.Subperm pc.owns
  loads : pc'.loads = none
  wants : ∀ p, pc'.wants = some p → pc.wants = some p ∨ p ≠ 0
  fill : ∀ todo filled, pc' = .fill todo filled → todo ⊆ filled

theorem Next.nodup {pc pc' : Pc} (h : pc.Next pc')
    (hn : (pc.owns.map Prod.fst).Nodup) : (pc'.owns.map Prod.fst).Nodup := by
  obtain ⟨l, hp, hs⟩ := h.owns
  exact (hp.map _).nodup_iff.mp (hn.sublist (hs.map _))

theorem victim_of_free {pc : Pc} {id : FrameId} (h : pc.free = some id) : pc.victim = some id := by
  cases pc <;> first | exact h | cases h

end Pc

namespace Frame

/-- What the invariant says of a frame stays true. -/
structure Kept (f f' : Frame) : Prop where
  pageId : f'.desc.pageId = f.desc.pageId
  inflight : f.desc.ioInflight = true → f'.desc.ioInflight = true
  buf : f'.buf.pageId = f.buf.pageId
  state : f'.desc.state = .empty → f.desc.state = .empty

/-- What the bytes are is what the descriptor says. -/
def Consistent (f : Frame) : Prop :=
  f.desc.ioInflight = false → f.desc.pageId ≠ 0 → f.buf.pageId = f.desc.pageId

end Frame

namespace BufferPool

@[simp]
theorem setFrame_frame_self (s : BufferPool) (id : FrameId) (f : Frame) :
    (s.setFrame id f).frame id = f :=
  update_self ..

theorem setFrame_frame_of_ne (s : BufferPool) {id i : FrameId} (f : Frame)
    (h : i ≠ id) : (s.setFrame id f).frame i = s.frame i :=
  update_of_ne h ..

@[simp]
theorem setDesc_frame_self (s : BufferPool) (id : FrameId) (d : FrameDescriptor) :
    (s.setDesc id d).frame id = { s.frame id with desc := d } :=
  update_self ..

theorem setDesc_frame_of_ne (s : BufferPool) {id i : FrameId} (d : FrameDescriptor) (h : i ≠ id) :
    (s.setDesc id d).frame i = s.frame i :=
  update_of_ne h ..

@[simp]
theorem map_shard (s : BufferPool) (p : PageId) (m : Option Mapping) :
    (s.map p m).shard = update s.shard p m := rfl

@[simp]
theorem goto_threads (s : BufferPool) (t : Nat) (pc : Pc) :
    (s.goto t pc).threads = update s.threads t pc := rfl

/-- Some thread has reserved the frame. -/
def Owned (s : BufferPool) (t : Nat) (id : FrameId) (pageId : PageId) : Prop :=
  (id, pageId) ∈ (s.threads t).owns

/-- No page is mapped to the frame. -/
def Unmapped (s : BufferPool) (id : FrameId) : Prop := ∀ p, s.shard p ≠ some (.frame id)

structure Sound (s : BufferPool) : Prop where
  mapped : ∀ p id, s.shard p = some (.frame id) → p ≠ 0 ∧
    (s.frame id).desc.pageId = p ∧ (s.frame id).buf.pageId = p ∧
    (s.frame id).desc.state ≠ .empty
  owned : ∀ t id p, s.Owned t id p → p ≠ 0 ∧
    (s.frame id).desc.pageId = p ∧ (s.frame id).desc.ioInflight = true ∧
    s.Unmapped id
  nodup : ∀ t, ((s.threads t).owns.map Prod.fst).Nodup
  apart : ∀ t u id p q, s.Owned t id p → s.Owned u id q → t = u
  victim : ∀ t id, (s.threads t).victim = some id → ∀ u p, ¬ s.Owned u id p
  free : ∀ t id, (s.threads t).free = some id → s.Unmapped id
  loads : ∀ t p, (s.threads t).loads = some p → s.shard p = some .loading
  loader : ∀ t u p, (s.threads t).loads = some p → (s.threads u).loads = some p → t = u
  wants : ∀ t p, (s.threads t).wants = some p → p ≠ 0
  content : ∀ id, (s.frame id).Consistent
  file : ∀ p, (s.file p).pageId = p
  loaded : ∀ t p id, s.threads t = .loaded p id true → (s.frame id).buf.pageId = p
  fill : ∀ t todo filled, s.threads t = .fill todo filled → todo ⊆ filled
  alone : ∀ t u id, (s.threads t).victim = some id → (s.threads u).victim = some id → t = u

theorem sound_new (n : Nat) : (new n).Sound where
  mapped := nofun
  owned := nofun
  nodup _ := nodup_nil
  apart := nofun
  victim := nofun
  free := nofun
  loads := nofun
  loader := nofun
  wants := nofun
  content _ _ h := absurd rfl h
  file _ := rfl
  loaded := nofun
  fill := nofun
  alone := nofun

/-! ## One component at a time

A step changes frames, mappings and the place of its thread. Each of the three
may be changed alone, so a step is checked as a sequence of such changes. -/

section Changes

variable {s s' : BufferPool} {t : Nat} {pc : Pc} {id : FrameId} {p : PageId}

theorem Sound.of_eq (hs : s.Sound) (hthreads : s'.threads = s.threads)
    (hshard : s'.shard = s.shard) (hframe : s'.frame = s.frame)
    (hfile : ∀ p, (s'.file p).pageId = p) : s'.Sound := by
  obtain ⟨n, frame, shard, hand, failed, file, durable, writes, threads, guards⟩ := s'
  cases hthreads
  cases hshard
  cases hframe
  exact { hs with file := hfile }

/-- A frame may be changed to what its page, its owner and its bytes say. -/
theorem Sound.setFrame (hs : s.Sound) {f : Frame} (hmapped : ∀ p, s.shard p = some (.frame id) →
      f.desc.pageId = p ∧ f.buf.pageId = p ∧ f.desc.state ≠ .empty)
    (howned : ∀ u p, s.Owned u id p → f.desc.pageId = p ∧ f.desc.ioInflight = true)
    (hloaded : ∀ u p, s.threads u = .loaded p id true → f.buf.pageId = p)
    (hf : f.Consistent) : (s.setFrame id f).Sound := by
  have hframe : ∀ i, i = id ∧ (s.setFrame id f).frame i = f ∨
      i ≠ id ∧ (s.setFrame id f).frame i = s.frame i := by
    intro i
    by_cases hi : i = id
    · exact .inl ⟨hi, hi ▸ setFrame_frame_self ..⟩
    · exact .inr ⟨hi, setFrame_frame_of_ne s f hi⟩
  refine { hs with mapped := ?_, owned := ?_, content := ?_, loaded := ?_ }
  · intro p i hp
    rcases hframe i with ⟨rfl, hi⟩ | ⟨-, hi⟩ <;> rw [hi]
    · exact ⟨(hs.mapped p i hp).1, hmapped p hp⟩
    · exact hs.mapped p i hp
  · intro u i p ho
    rcases hframe i with ⟨rfl, hi⟩ | ⟨-, hi⟩ <;> rw [hi]
    · obtain ⟨h0, -, -, hun⟩ := hs.owned u i p ho
      exact ⟨h0, (howned u p ho).1, (howned u p ho).2, hun⟩
    · exact hs.owned u i p ho
  · intro i
    rcases hframe i with ⟨rfl, hi⟩ | ⟨-, hi⟩ <;> rw [hi]
    · exact hf
    · exact hs.content i
  · intro u p i hu
    rcases hframe i with ⟨rfl, hi⟩ | ⟨-, hi⟩ <;> rw [hi]
    · exact hloaded u p hu
    · exact hs.loaded u p i hu

theorem Sound.kept (hs : s.Sound) {f : Frame} (h : (s.frame id).Kept f) :
    (s.setFrame id f).Sound := by
  refine hs.setFrame (fun p hp => ?_) (fun u p ho => ?_) (fun u p hu => ?_) fun hin h0 => ?_
  · obtain ⟨-, hpage, hbuf, hst⟩ := hs.mapped p id hp
    exact ⟨h.pageId.trans hpage, h.buf.trans hbuf, fun he => hst (h.state he)⟩
  · obtain ⟨-, hpage, hin, -⟩ := hs.owned u id p ho
    exact ⟨h.pageId.trans hpage, h.inflight hin⟩
  · exact h.buf.trans (hs.loaded u p id hu)
  · rw [h.pageId] at h0 ⊢
    refine h.buf.trans (hs.content id (Bool.eq_false_iff.mpr fun ht => ?_) h0)
    rw [h.inflight ht] at hin
    cases hin

theorem owned_of_loaded {u : Nat} {ok : Bool}
    (h : s.threads u = .loaded p id ok) : s.Owned u id p := by
  rw [Owned, h]
  exact mem_singleton_self _

/-- A frame that is neither mapped nor reserved gets any descriptor that does
not lie about its bytes. -/
theorem Sound.setDesc (hs : s.Sound) {d : FrameDescriptor}
    (hun : s.Unmapped id) (howned : ∀ u p, ¬ s.Owned u id p)
    (hd : Frame.Consistent ⟨d, (s.frame id).buf⟩) : (s.setDesc id d).Sound :=
  hs.setFrame (fun p hp => absurd hp (hun p)) (fun u p ho => absurd ho (howned u p))
    (fun u p hu => absurd (owned_of_loaded hu) (howned u p)) hd

/-- A page that nobody loads gets another mapping. -/
theorem Sound.map (hs : s.Sound) {m : Option Mapping} (hm : ∀ id, m = some (.frame id) → (p ≠ 0 ∧
      (s.frame id).desc.pageId = p ∧ (s.frame id).buf.pageId = p ∧
      (s.frame id).desc.state ≠ .empty) ∧
      (∀ u q, ¬ s.Owned u id q) ∧ ∀ u, (s.threads u).free ≠ some id)
    (hl : ∀ u, (s.threads u).loads ≠ some p) : (s.map p m).Sound := by
  have hshard : ∀ q, q = p ∧ (s.map p m).shard q = m ∨
      q ≠ p ∧ (s.map p m).shard q = s.shard q := by
    intro q
    by_cases hq : q = p
    · exact .inl ⟨hq, hq ▸ update_self ..⟩
    · exact .inr ⟨hq, update_of_ne hq ..⟩
  have hun : ∀ i, s.Unmapped i → m ≠ some (.frame i) → (s.map p m).Unmapped i := by
    intro i hi hne q hq
    rcases hshard q with ⟨-, heq⟩ | ⟨-, heq⟩ <;> rw [heq] at hq
    · exact hne hq
    · exact hi q hq
  refine { hs with mapped := ?_, owned := ?_, free := ?_, loads := ?_ }
  · intro q i hq
    rcases hshard q with ⟨rfl, heq⟩ | ⟨-, heq⟩ <;> rw [heq] at hq
    · exact (hm i hq).1
    · exact hs.mapped q i hq
  · intro u i q ho
    obtain ⟨h0, hpage, hin, hi⟩ := hs.owned u i q ho
    exact ⟨h0, hpage, hin, hun i hi fun heq => (hm i heq).2.1 u q ho⟩
  · exact fun u i hi => hun i (hs.free u i hi) fun heq => (hm i heq).2.2 u hi
  · intro u q hq
    rcases hshard q with ⟨rfl, -⟩ | ⟨-, heq⟩
    · exact absurd hq (hl u)
    · rw [heq]
      exact hs.loads u q hq

/-- What a thread may have at a place where the others are as they are. -/
structure Fits (s : BufferPool) (t : Nat) (pc : Pc) : Prop where
  owned : ∀ id p, (id, p) ∈ pc.owns → p ≠ 0 ∧
    (s.frame id).desc.pageId = p ∧ (s.frame id).desc.ioInflight = true ∧
    s.Unmapped id
  nodup : (pc.owns.map Prod.fst).Nodup
  apart : ∀ u id p q, u ≠ t → s.Owned u id q → (id, p) ∉ pc.owns
  prey : ∀ u id p, u ≠ t → (s.threads u).victim = some id → (id, p) ∉ pc.owns
  victim : ∀ id, pc.victim = some id → (∀ p, (id, p) ∉ pc.owns) ∧
    ∀ u, u ≠ t → (s.threads u).victim ≠ some id ∧ ∀ p, ¬ s.Owned u id p
  free : ∀ id, pc.free = some id → s.Unmapped id
  loads : ∀ p, pc.loads = some p → s.shard p = some .loading ∧
    ∀ u, u ≠ t → (s.threads u).loads ≠ some p
  wants : ∀ p, pc.wants = some p → p ≠ 0
  loaded : ∀ p id, pc = .loaded p id true → (s.frame id).buf.pageId = p
  fill : ∀ todo filled, pc = .fill todo filled → todo ⊆ filled

theorem Sound.moves (hs : s.Sound) (h : Fits s t pc) : (s.goto t pc).Sound := by
  have hthread : ∀ u, u = t ∧ (s.goto t pc).threads u = pc ∨
      u ≠ t ∧ (s.goto t pc).threads u = s.threads u := by
    intro u
    by_cases hu : u = t
    · exact .inl ⟨hu, hu ▸ update_self ..⟩
    · exact .inr ⟨hu, update_of_ne hu ..⟩
  refine { hs with
    owned := ?_, nodup := ?_, apart := ?_, victim := ?_, free := ?_,
    loads := ?_, loader := ?_, wants := ?_, loaded := ?_, fill := ?_,
    alone := ?_ }
  · intro u id p ho
    rcases hthread u with ⟨-, hu⟩ | ⟨-, hu⟩ <;> rw [Owned, hu] at ho
    · exact h.owned id p ho
    · exact hs.owned u id p ho
  · intro u
    rcases hthread u with ⟨-, hu⟩ | ⟨-, hu⟩ <;> rw [hu]
    · exact h.nodup
    · exact hs.nodup u
  · intro u v id p q hp hq
    rcases hthread u with ⟨rfl, hu⟩ | ⟨hut, hu⟩ <;>
      rcases hthread v with ⟨rfl, hv⟩ | ⟨hvt, hv⟩ <;>
      rw [Owned, hu] at hp <;> rw [Owned, hv] at hq
    · exact absurd hp (h.apart v id p q hvt hq)
    · exact absurd hq (h.apart u id q p hut hp)
    · exact hs.apart u v id p q hp hq
  · intro u id hv w p ho
    rcases hthread u with ⟨rfl, hu⟩ | ⟨hut, hu⟩ <;>
      rcases hthread w with ⟨rfl, hw⟩ | ⟨hwt, hw⟩ <;>
      rw [hu] at hv <;> rw [Owned, hw] at ho
    · exact (h.victim id hv).1 p ho
    · exact ((h.victim id hv).2 w hwt).2 p ho
    · exact h.prey u id p hut hv ho
    · exact hs.victim u id hv w p ho
  · intro u id hf
    rcases hthread u with ⟨-, hu⟩ | ⟨-, hu⟩ <;> rw [hu] at hf
    · exact h.free id hf
    · exact hs.free u id hf
  · intro u p hp
    rcases hthread u with ⟨-, hu⟩ | ⟨-, hu⟩ <;> rw [hu] at hp
    · exact (h.loads p hp).1
    · exact hs.loads u p hp
  · intro u v p hp hq
    rcases hthread u with ⟨rfl, hu⟩ | ⟨hut, hu⟩ <;>
      rcases hthread v with ⟨rfl, hv⟩ | ⟨hvt, hv⟩ <;>
      rw [hu] at hp <;> rw [hv] at hq
    · exact absurd hq ((h.loads p hp).2 v hvt)
    · exact absurd hp ((h.loads p hq).2 u hut)
    · exact hs.loader u v p hp hq
  · intro u p hp
    rcases hthread u with ⟨-, hu⟩ | ⟨-, hu⟩ <;> rw [hu] at hp
    · exact h.wants p hp
    · exact hs.wants u p hp
  · intro u p id hl
    rcases hthread u with ⟨-, hu⟩ | ⟨-, hu⟩ <;> rw [hu] at hl
    · exact h.loaded p id hl
    · exact hs.loaded u p id hl
  · intro u todo filled hf
    rcases hthread u with ⟨-, hu⟩ | ⟨-, hu⟩ <;> rw [hu] at hf
    · exact h.fill todo filled hf
    · exact hs.fill u todo filled hf
  · intro u v id hp hq
    rcases hthread u with ⟨rfl, hu⟩ | ⟨hut, hu⟩ <;>
      rcases hthread v with ⟨rfl, hv⟩ | ⟨hvt, hv⟩ <;>
      rw [hu] at hp <;> rw [hv] at hq
    · exact absurd hq ((h.victim id hp).2 v hvt).1
    · exact absurd hp ((h.victim id hq).2 u hut).1
    · exact hs.alone u v id hp hq

/-! ## Moves of a thread -/

/-- A thread goes on with no more than it has, or with a frame that it has
found. -/
theorem Sound.goto_found (hs : s.Sound) (hn : (s.threads t).Next pc)
    (hv : ∀ id, pc.victim = some id → (∀ u p, ¬ s.Owned u id p) ∧
      (pc.free = some id → s.Unmapped id) ∧
      ∀ u, u ≠ t → (s.threads u).victim ≠ some id) : (s.goto t pc).Sound :=
  have hsub := hn.owns.subset
  hs.moves
    { owned := fun id p hx => hs.owned t id p (hsub hx)
      nodup := hn.nodup (hs.nodup t)
      apart := fun u id p q hu ho hx => hu (hs.apart u t id q p ho (hsub hx))
      prey := fun u id p _ hvu hx => hs.victim u id hvu t p (hsub hx)
      victim := fun id hid => ⟨fun p hx => (hv id hid).1 t p (hsub hx),
        fun u hu => ⟨(hv id hid).2.2 u hu, (hv id hid).1 u⟩⟩
      free := fun id hid => (hv id (Pc.victim_of_free hid)).2.1 hid
      loads := fun p hp => by rw [hn.loads] at hp; cases hp
      wants := fun p hp => (hn.wants p hp).elim (hs.wants t p) fun h0 => h0
      loaded := fun p id hl => by subst hl; cases hn.loads
      fill := hn.fill }

theorem Sound.goto (hs : s.Sound) (hn : (s.threads t).Next pc)
    (hv : pc.victim = none) : (s.goto t pc).Sound :=
  hs.goto_found hn fun id hid => by rw [hv] at hid; cases hid

/-- A thread takes the frame that it has found and that it has marked. -/
theorem Sound.takes (hs : s.Sound) (hfree : (s.threads t).free = some id)
    (howns : pc.owns = (id, p) :: (s.threads t).owns) (hv : pc.victim = none) (hw : pc.wants = none)
    (hl : ∀ q i, pc ≠ .loaded q i true) (hf : ∀ todo filled, pc ≠ .fill todo filled) (h0 : p ≠ 0)
    (hpage : (s.frame id).desc.pageId = p) (hin : (s.frame id).desc.ioInflight = true)
    (hloads : ∀ q, pc.loads = some q → s.shard q = some .loading ∧
      ∀ u, u ≠ t → (s.threads u).loads ≠ some q) : (s.goto t pc).Sound := by
  have hvictim := Pc.victim_of_free hfree
  have hnew := hs.victim t id hvictim
  refine hs.moves
    { owned := fun i q hx => ?_, nodup := ?_,
      apart := fun u i q r hu ho hx => ?_,
      prey := fun u i q hu hvu hx => ?_, victim := fun i hi => ?_,
      free := fun i hi => ?_, loads := hloads, wants := fun q hq => ?_,
      loaded := fun q i heq => absurd heq (hl q i),
      fill := fun todo filled heq => absurd heq (hf todo filled) }
  · rw [howns] at hx
    rcases mem_cons.mp hx with heq | hx
    · cases heq
      exact ⟨h0, hpage, hin, hs.free t id hfree⟩
    · exact hs.owned t i q hx
  · rw [howns, map_cons, nodup_cons]
    refine ⟨fun hm => ?_, hs.nodup t⟩
    obtain ⟨⟨i, q⟩, hx, rfl⟩ := mem_map.mp hm
    exact hnew t q hx
  · rw [howns] at hx
    rcases mem_cons.mp hx with heq | hx
    · cases heq
      exact hnew u r ho
    · exact hu (hs.apart u t i r q ho hx)
  · rw [howns] at hx
    rcases mem_cons.mp hx with heq | hx
    · cases heq
      exact hu (hs.alone u t id hvu hvictim)
    · exact hs.victim u i hvu t q hx
  · rw [hv] at hi
    cases hi
  · cases hv.symm.trans (Pc.victim_of_free hi)
  · rw [hw] at hq
    cases hq

/-- A frame that a thread gives up is reserved by nobody any more. -/
theorem Sound.not_owned_of_next (hs : s.Sound)
    (hpc : (s.threads t).owns = (id, p) :: pc.owns) (u : Nat) (q : PageId) :
    ¬ (s.goto t pc).Owned u id q := by
  intro ho
  have hmine : s.Owned t id p := by
    rw [Owned, hpc]
    exact mem_cons_self
  by_cases hu : u = t
  · subst hu
    have hnd := hs.nodup u
    rw [hpc, map_cons, nodup_cons] at hnd
    rw [Owned, goto_threads, update_self] at ho
    exact hnd.1 (mem_map.mpr ⟨_, ho, rfl⟩)
  · rw [Owned, goto_threads, update_of_ne hu] at ho
    exact hu (hs.apart u t id q p ho hmine)

/-- A thread lets go of the first of its frames and maps it for its page. -/
theorem Sound.publishes (hs : s.Sound) {d : FrameDescriptor} (hn : (s.threads t).Next pc)
    (howns : (s.threads t).owns = (id, p) :: pc.owns) (hv : pc.victim = none)
    (hpage : d.pageId = p) (hst : d.state = .clean) (hbuf : (s.frame id).buf.pageId = p)
    (hbefore : s.shard p = none ∨ (s.threads t).loads = some p) :
    (((s.goto t pc).setDesc id d).map p (some (.frame id))).Sound := by
  have hmine : s.Owned t id p := by
    rw [Owned, howns]
    exact mem_cons_self
  obtain ⟨h0, -, -, hun⟩ := hs.owned t id p hmine
  have hnot := hs.not_owned_of_next howns
  have hother : ∀ {α : Type} {f : Pc → Option α} {x : α} {u}, f pc = none →
      f ((s.goto t pc).threads u) = some x →
      u ≠ t ∧ f (s.threads u) = some x := by
    intro α f x u hnone hx
    by_cases hu : u = t
    · subst hu
      rw [goto_threads, update_self, hnone] at hx
      cases hx
    · rw [goto_threads, update_of_ne hu] at hx
      exact ⟨hu, hx⟩
  have hs' := (hs.goto hn hv).setDesc (d := d) hun hnot fun _ _ => hbuf.trans hpage.symm
  refine hs'.map (fun i hi => ?_) fun u hu => ?_
  · cases hi
    refine ⟨⟨h0, ?_⟩, hnot, fun u hu => ?_⟩
    · rw [setDesc_frame_self]
      exact ⟨hpage, hbuf, by rw [hst]; decide⟩
    · obtain ⟨-, hu⟩ := hother hv (Pc.victim_of_free hu)
      exact hs.victim u id hu t p hmine
  · obtain ⟨hut, hu⟩ := hother hn.loads hu
    rcases hbefore with hnone | hlt
    · rw [hs.loads u p hu] at hnone
      cases hnone
    · exact hut (hs.loader u t p hu hlt)

end Changes

end BufferPool

end RGraph.Buffer
