import RGraph.Lib.Run
import RGraph.Proofs.WalWriter
import RGraph.Wal.GroupCommit

/-!
# What a group commit answers

The records of a round go into the buffer in order, and the log grows by whole
buffers, so a round that succeeds has put the records of each of its slots into
the log side by side. A round that fails leaves records in the buffer, and the
next flush that succeeds takes them along, whatever their submitters were told.
So an error is final only in runs in which nothing is written while the buffer
still has something in it.
-/

namespace RGraph.Wal

open RGraph.Lib List

/-! ## The log and its history -/

def bytesOf (entries : List (Nat × Bytes)) : Bytes := (entries.map Prod.snd).flatten

theorem bytesOf_append (as bs : List (Nat × Bytes)) :
    bytesOf (as ++ bs) = bytesOf as ++ bytesOf bs := by
  simp [bytesOf]

theorem bytesOf_eq_nil {entries : List (Nat × Bytes)}
    (hne : ∀ x ∈ entries, x.2 ≠ []) : bytesOf entries = [] ↔ entries = [] := by
  cases entries with
  | nil => simp [bytesOf]
  | cons x xs => simp [bytesOf, hne x mem_cons_self]

theorem encode_ne_nil (r : WalRecord) : r.encode ≠ [] := by
  intro hnil
  have hlen := congrArg List.length hnil
  rw [WalRecord.length_encode, WalRecord.onDiskSize] at hlen
  simp [walRecordMinSize] at hlen

namespace WalWriter

variable {w : WalWriter} (d : WalDir)

theorem flush_nil (hnil : w.buffer = []) (o : FlushEnd) : w.flush d o = (true, w, d) := by
  rw [flush.eq_def, if_pos hnil]

theorem flush_ok (hne : w.buffer ≠ []) :
    w.flush d .ok = (true, { w with
        buffer := []
        unsynced := 0
        durableLsn := max w.durableLsn w.currentLsn },
      d.append w.segmentId w.buffer) := by
  rw [flush.eq_def, if_neg hne]

theorem flush_failed (hne : w.buffer ≠ []) (n : Nat) : w.flush d (.failed n) =
      (false, w, d.append w.segmentId (w.buffer.take n)) := by
  rw [flush.eq_def, if_neg hne]

end WalWriter

namespace GroupLog

/-- The history is that of the buffer and of the file; `base` is what the file
had at the beginning. -/
structure Held (base : Bytes) (g : GroupLog) : Prop where
  buffer : g.writer.buffer = bytesOf g.pending
  nonempty : ∀ x ∈ g.pending, x.2 ≠ []
  durable : g.durable = base ++ bytesOf g.log
  clean : g.writer.buffer = [] → g.dir.live g.writer.segmentId = some g.durable

/-- The same, and no flush has failed since the file was synced. -/
structure Whole (base : Bytes) (g : GroupLog) : Prop extends Held base g where
  file : g.dir.live g.writer.segmentId = some g.durable

variable {g : GroupLog}

theorem Held.whole {base : Bytes} (hg : Held base g) (hnil : g.writer.buffer = []) : Whole base g :=
  ⟨hg, hg.clean hnil⟩

theorem Held.pending_nil {base : Bytes} (hg : Held base g)
    (hnil : g.writer.buffer = []) : g.pending = [] :=
  (bytesOf_eq_nil hg.nonempty).mp (hg.buffer ▸ hnil)

/-- `added` was appended behind what there was, and the log lost nothing. -/
structure Extends (added : List (Nat × Bytes)) (g g' : GroupLog) : Prop where
  order : g'.log ++ g'.pending = g.log ++ g.pending ++ added
  grows : g.log <+: g'.log

theorem Extends.refl (g : GroupLog) : Extends [] g g := ⟨(append_nil _).symm, prefix_rfl⟩

theorem Extends.trans {as bs : List (Nat × Bytes)} {g₁ g₂ : GroupLog}
    (h₁ : Extends as g g₁) (h₂ : Extends bs g₁ g₂) : Extends (as ++ bs) g g₂ :=
  ⟨by rw [h₂.order, h₁.order, append_assoc _ as bs], h₁.grows.trans h₂.grows⟩

section Steps

variable {base : Bytes} {g g' : GroupLog} {o : FlushEnd} {h : WalHash}
  {id : Nat} {r : WalRecord}

theorem flush_true (hg : Whole base g) (hf : g.flush o = (true, g')) :
    Whole base g' ∧ Extends [] g g' ∧ g'.pending = [] := by
  rw [flush] at hf
  by_cases hnil : g.writer.buffer = []
  · rw [WalWriter.flush_nil g.dir hnil] at hf
    cases hf
    have hp := hg.pending_nil hnil
    refine ⟨⟨⟨?_, nofun, ?_, ?_⟩, ?_⟩, ⟨?_, ?_⟩, rfl⟩
    · exact hnil
    · simp [hnil, hp, hg.durable]
    · intro _
      simp [hnil, hg.file]
    · simp [hnil, hg.file]
    · simp
    · simp
  · cases o with
    | failed n =>
      rw [WalWriter.flush_failed g.dir hnil] at hf
      cases hf
    | ok =>
      rw [WalWriter.flush_ok g.dir hnil] at hf
      cases hf
      have hfile : (g.dir.append g.writer.segmentId g.writer.buffer).live
          g.writer.segmentId = some (g.durable ++ g.writer.buffer) := by
        rw [WalDir.live_append_self, hg.file]
        rfl
      refine ⟨⟨⟨rfl, nofun, ?_, ?_⟩, ?_⟩, ⟨?_, ?_⟩, rfl⟩
      · simp only [if_neg hnil, hfile, Option.getD_some]
        rw [hg.durable, bytesOf_append, ← hg.buffer, append_assoc]
      · intro _
        simp only [if_neg hnil, hfile, Option.getD_some]
      · simp only [if_neg hnil, hfile, Option.getD_some]
      · simp
      · simp

theorem flush_false (hg : Held base g) (hf : g.flush o = (false, g')) :
    Held base g' ∧ Extends [] g g' := by
  rw [flush] at hf
  by_cases hnil : g.writer.buffer = []
  · rw [WalWriter.flush_nil g.dir hnil] at hf
    cases hf
  · cases o with
    | ok =>
      rw [WalWriter.flush_ok g.dir hnil] at hf
      cases hf
    | failed n =>
      rw [WalWriter.flush_failed g.dir hnil] at hf
      cases hf
      exact ⟨⟨hg.buffer, hg.nonempty, hg.durable, fun h => absurd h hnil⟩,
        ⟨(append_nil _).symm, prefix_rfl⟩⟩

/-- A record is put into the buffer. -/
def push (g : GroupLog) (id : Nat) (bytes : Bytes) : GroupLog :=
  { g with
    writer := g.writer.buffered bytes
    pending := g.pending ++ [(id, bytes)] }

theorem Whole.push (hg : Whole base g) (id : Nat) {bytes : Bytes} (hne : bytes ≠ []) :
    Whole base (g.push id bytes) ∧ Extends [(id, bytes)] g (g.push id bytes) := by
  refine ⟨⟨⟨?_, ?_, hg.durable, fun _ => hg.file⟩, hg.file⟩,
    ⟨(append_assoc _ _ _).symm, prefix_rfl⟩⟩
  · show g.writer.buffer ++ bytes = bytesOf (g.pending ++ [(id, bytes)])
    rw [bytesOf_append, hg.buffer]
    simp [bytesOf]
  · intro x hx
    rcases mem_append.mp hx with hx | hx
    · exact hg.nonempty x hx
    · rw [mem_singleton.mp hx]
      exact hne

theorem append_small (hfit : ¬ g.writer.buffer.length + (g.stamped h r).length >
      WalWriter.bufferSize) :
    g.append h id r o = (.ok (r.setLsn h g.writer.currentLsn).lsn, g.push id (g.stamped h r)) := by
  have hw : g.writer.append h g.dir r o = (.ok (r.setLsn h g.writer.currentLsn).lsn,
        g.writer.buffered (g.stamped h r), g.dir) := by
    rw [stamped] at hfit ⊢
    rw [WalWriter.append, if_neg hfit]
  rw [append, hw, if_neg hfit, push]

theorem append_big (hbig : g.writer.buffer.length + (g.stamped h r).length > WalWriter.bufferSize) :
    g.append h id r o = match g.flush o with
      | (false, g₁) => (.error "flush failed", g₁)
      | (true, g₁) =>
        if (g.stamped h r).length > WalWriter.bufferSize then
          (.error "WAL record larger than buffer pool", g₁)
        else (.ok (r.setLsn h g.writer.currentLsn).lsn, g₁.push id (g.stamped h r)) := by
  rw [append, if_pos hbig, flush, WalWriter.append, ← stamped, if_pos hbig]
  rcases g.writer.flush g.dir o with ⟨ok, w, d⟩
  cases ok with
  | false => rfl
  | true =>
    dsimp only
    rw [if_pos rfl]
    by_cases hlen : (g.stamped h r).length > WalWriter.bufferSize
    · rw [if_pos hlen]
      dsimp only
      rw [if_pos hlen]
    · rw [if_neg hlen]
      dsimp only
      rw [if_neg hlen, push]

/-- An append adds the record to the history, or nothing if it fails. -/
theorem append_spec (hg : Whole base g) {res : Except String Nat}
    (ha : g.append h id r o = (res, g')) :
    ∃ added, Extends added g g' ∧ Held base g' ∧ (∀ x ∈ added, x.1 = id) ∧ ∀ lsn, res = .ok lsn →
        Whole base g' ∧ added = [(id, g.stamped h r)] := by
  have hne : g.stamped h r ≠ [] := encode_ne_nil _
  have hmem : ∀ x ∈ [(id, g.stamped h r)], x.1 = id := by simp
  by_cases hbig : g.writer.buffer.length + (g.stamped h r).length > WalWriter.bufferSize
  · rw [append_big hbig] at ha
    rcases hfl : g.flush o with ⟨ok, g₁⟩
    rw [hfl] at ha
    cases ok with
    | false =>
      cases ha
      obtain ⟨hheld, hx⟩ := flush_false hg.toHeld hfl
      exact ⟨[], hx, hheld, nofun, nofun⟩
    | true =>
      obtain ⟨hw₁, hx₁, -⟩ := flush_true hg hfl
      dsimp only at ha
      split at ha
      · cases ha
        exact ⟨[], hx₁, hw₁.toHeld, nofun, nofun⟩
      · cases ha
        obtain ⟨hw, hx⟩ := hw₁.push id hne
        exact ⟨_, hx₁.trans hx, hw.toHeld, hmem, fun _ _ => ⟨hw, rfl⟩⟩
  · rw [append_small hbig] at ha
    cases ha
    obtain ⟨hw, hx⟩ := hg.push id hne
    exact ⟨_, hx, hw.toHeld, hmem, fun _ _ => ⟨hw, rfl⟩⟩

end Steps

end GroupLog

/-! ## A round -/

open GroupLog

/-- Records with an LSN put in, encoded. -/
def Stamped (h : WalHash) : List WalRecord → List Bytes → Prop :=
  List.Forall₂ fun r bs => ∃ lsn, bs = (r.setLsn h lsn).encode

/-- What the slots of a round add, one after the other. -/
def Blocks (h : WalHash) : List CommitSlot → List (Nat × Bytes) → Prop
  | [], added => added = []
  | slot :: slots, added => ∃ recs rest,
      added = recs.map (fun bs => (slot.id, bs)) ++ rest ∧
        Stamped h slot.records recs ∧ Blocks h slots rest

variable {h : WalHash}

theorem Blocks.infix {slots : List CommitSlot} {added : List (Nat × Bytes)}
    (hb : Blocks h slots added) {slot : CommitSlot} (hslot : slot ∈ slots) :
    ∃ recs, Stamped h slot.records recs ∧ recs.map (fun bs => (slot.id, bs)) <:+: added := by
  induction slots generalizing added with
  | nil => exact absurd hslot not_mem_nil
  | cons first slots ih =>
    obtain ⟨recs, rest, rfl, hst, hrest⟩ := hb
    rcases mem_cons.mp hslot with rfl | hslot
    · exact ⟨recs, hst, (prefix_append _ _).isInfix⟩
    · obtain ⟨recs', hst', hin⟩ := ih hrest hslot
      exact ⟨recs', hst', hin.trans (suffix_append _ _).isInfix⟩

section Round

variable {h : WalHash} {ends : Nat → FlushEnd} {base : Bytes}

variable {g g' : GroupLog}

theorem appendSlot_spec {id : Nat} {records : List WalRecord}
    {lastLsn n m : Nat} {res : Except String Nat} (hg : Whole base g)
    (ha : appendSlot h ends id records lastLsn n g = (res, m, g')) :
    ∃ added, Extends added g g' ∧ Held base g' ∧ (∀ x ∈ added, x.1 = id) ∧
      ∀ lsn, res = .ok lsn → Whole base g' ∧ ∃ recs, added = recs.map (fun bs => (id, bs)) ∧
          Stamped h records recs := by
  induction records generalizing lastLsn n g with
  | nil =>
    rw [appendSlot] at ha
    cases ha
    exact ⟨[], .refl _, hg.toHeld, nofun, fun _ _ => ⟨hg, [], rfl, .nil⟩⟩
  | cons r records ih =>
    rw [appendSlot] at ha
    rcases happ : g.append h id r (ends n) with ⟨res₁, g₁⟩
    rw [happ] at ha
    obtain ⟨added₁, hx₁, hheld, hid₁, hok₁⟩ := append_spec hg happ
    cases res₁ with
    | error e =>
      cases ha
      exact ⟨added₁, hx₁, hheld, hid₁, nofun⟩
    | ok lsn =>
      obtain ⟨hw, rfl⟩ := hok₁ lsn rfl
      obtain ⟨added, hx, hheld, hid, hok⟩ := ih hw ha
      refine ⟨_, hx₁.trans hx, hheld, ?_, fun lsn' hres => ?_⟩
      · intro x hx
        rcases mem_append.mp hx with hx | hx
        · exact hid₁ x hx
        · exact hid x hx
      · obtain ⟨hw', recs, rfl, hst⟩ := hok lsn' hres
        exact ⟨hw', _ :: recs, rfl, .cons ⟨_, rfl⟩ hst⟩

theorem appendSlots_spec {slots : List CommitSlot} {n m : Nat}
    {res : Except String (List Nat)} (hg : Whole base g)
    (ha : appendSlots h ends slots n g = (res, m, g')) :
    ∃ added, Extends added g g' ∧ Held base g' ∧ (∀ x ∈ added, x.1 ∈ slots.map CommitSlot.id) ∧
      ∀ lsns, res = .ok lsns → Whole base g' ∧ Blocks h slots added := by
  induction slots generalizing n m g g' res with
  | nil =>
    rw [appendSlots] at ha
    cases ha
    exact ⟨[], .refl _, hg.toHeld, nofun, fun _ _ => ⟨hg, rfl⟩⟩
  | cons slot slots ih =>
    rw [appendSlots] at ha
    rcases hslot : appendSlot h ends slot.id slot.records 0 n g with
      ⟨res₁, n₁, g₁⟩
    rw [hslot] at ha
    obtain ⟨added₁, hx₁, hheld₁, hid₁, hok₁⟩ := appendSlot_spec hg hslot
    have hmem₁ : ∀ x ∈ added₁, x.1 ∈ (slot :: slots).map CommitSlot.id := by
      intro x hx
      rw [hid₁ x hx]
      exact mem_cons_self
    cases res₁ with
    | error e =>
      cases ha
      exact ⟨added₁, hx₁, hheld₁, hmem₁, nofun⟩
    | ok lsn =>
      obtain ⟨hw₁, recs, rfl, hst⟩ := hok₁ lsn rfl
      rcases hrest : appendSlots h ends slots n₁ g₁ with ⟨res₂, n₂, g₂⟩
      dsimp only at ha
      rw [hrest] at ha
      obtain ⟨added, hx, hheld, hid, hok⟩ := ih hw₁ hrest
      have hmem : ∀ x ∈ recs.map (fun bs => (slot.id, bs)) ++ added,
          x.1 ∈ (slot :: slots).map CommitSlot.id := by
        intro x hx
        rcases mem_append.mp hx with hx | hx
        · exact hmem₁ x hx
        · exact mem_cons_of_mem _ (hid x hx)
      cases res₂ with
      | error e =>
        cases ha
        exact ⟨_, hx₁.trans hx, hheld, hmem, nofun⟩
      | ok lsns =>
        cases ha
        obtain ⟨hw, hb⟩ := hok lsns rfl
        exact ⟨_, hx₁.trans hx, hheld, hmem, fun _ _ => ⟨hw, recs, added, rfl, hst, hb⟩⟩

/-- A round adds records of its slots only; if it succeeds, it adds all of
them and leaves nothing in the buffer. -/
theorem commitBatch_spec {slots : List CommitSlot}
    {res : Except String (List Nat)} (hg : Whole base g)
    (ha : commitBatch h ends slots g = (res, g')) : ∃ added, Extends added g g' ∧ Held base g' ∧
      (∀ x ∈ added, x.1 ∈ slots.map CommitSlot.id) ∧
      ∀ lsns, res = .ok lsns → g'.pending = [] ∧ Blocks h slots added := by
  rw [commitBatch] at ha
  rcases hslots : appendSlots h ends slots 0 g with ⟨res₁, n, g₁⟩
  rw [hslots] at ha
  obtain ⟨added, hx₁, hheld₁, hid, hok⟩ := appendSlots_spec hg hslots
  cases res₁ with
  | error e =>
    cases ha
    exact ⟨added, hx₁, hheld₁, hid, nofun⟩
  | ok lsns =>
    obtain ⟨hw₁, hb⟩ := hok lsns rfl
    rcases hfl : g₁.flush (ends n) with ⟨ok, g₂⟩
    dsimp only at ha
    rw [hfl] at ha
    cases ok with
    | false =>
      cases ha
      obtain ⟨hheld, hx⟩ := flush_false hw₁.toHeld hfl
      rw [← append_nil added] at hid
      exact ⟨_, hx₁.trans hx, hheld, hid, nofun⟩
    | true =>
      cases ha
      obtain ⟨hw, hx, hnil⟩ := flush_true hw₁ hfl
      have hx := hx₁.trans hx
      rw [append_nil] at hx
      exact ⟨added, hx, hw.toHeld, hid, fun _ _ => ⟨hnil, hb⟩⟩

end Round

theorem map_fst_slotResults (slots : List CommitSlot) (res : Except String (List Nat)) :
    (slotResults slots res).map Prod.fst = slots := by
  rw [slotResults, map_map]
  exact zipIdx_map_fst 0 slots

theorem mem_slotResults {slots : List CommitSlot}
    {res : Except String (List Nat)} {slot : CommitSlot} {lsn : Nat}
    (hmem : (slot, .ok lsn) ∈ slotResults slots res) : slot ∈ slots ∧ ∃ lsns, res = .ok lsns := by
  obtain ⟨⟨slot', i⟩, hin, heq⟩ := mem_map.mp hmem
  cases res with
  | error e => cases heq
  | ok lsns =>
    cases heq
    exact ⟨fst_mem_of_mem_zipIdx hin, lsns, rfl⟩

/-! ## The queue -/

namespace GroupCommitQueue

/-- The slots that a leader has. -/
def slotsOf : Option LeaderPhase → List CommitSlot
  | some (.collecting slots) => slots
  | some (.notifying results) => results.map Prod.fst
  | none => []

/-- Those it has not written to the log. -/
def collectedOf : Option LeaderPhase → List CommitSlot
  | some (.collecting slots) => slots
  | _ => []

def unwritten (s : GroupCommitQueue) : List CommitSlot := s.channel ++ collectedOf s.leader

/-- The numbers of all submissions: waiting, in the hands of the leader, or
answered. -/
def tickets (s : GroupCommitQueue) : List Nat :=
  (s.channel ++ slotsOf s.leader).map CommitSlot.id ++ s.answers.map Prod.fst

end GroupCommitQueue

open GroupCommitQueue

/-- All records of a submission stand in the log, side by side. -/
def InLog (h : WalHash) (s : GroupCommitQueue) (id : Nat) : Prop :=
  ∃ records recs, s.submitted[id]? = some records ∧ Stamped h records recs ∧
    recs.map (fun bs => (id, bs)) <:+: s.wal.log

theorem InLog.mono {s s' : GroupCommitQueue} {id : Nat} (hin : InLog h s id)
    (hsub : s.submitted <+: s'.submitted) (hlog : s.wal.log <+: s'.wal.log) : InLog h s' id := by
  obtain ⟨records, recs, hget, hst, hinf⟩ := hin
  refine ⟨records, recs, ?_, hst, hinf.trans hlog.isInfix⟩
  obtain ⟨rest, hrest⟩ := hsub
  have hlt := (List.getElem?_eq_some_iff.mp hget).1
  rw [← hrest, List.getElem?_append_left hlt, hget]

structure QueueOk (h : WalHash) (base : Bytes) (s : GroupCommitQueue) :
    Prop where
  wal : Held base s.wal
  nodup : s.tickets.Nodup
  issued : ∀ id ∈ s.tickets, id < s.submitted.length
  records : ∀ slot ∈ s.channel ++ slotsOf s.leader, s.submitted[slot.id]? = some slot.records
  logged : ∀ id ∈ (s.wal.log ++ s.wal.pending).map Prod.fst, id < s.submitted.length
  fresh : ∀ slot ∈ s.unwritten, slot.id ∉ (s.wal.log ++ s.wal.pending).map Prod.fst
  told : ∀ results, s.leader = some (.notifying results) →
    ∀ slot lsn, (slot, .ok lsn) ∈ results → InLog h s slot.id
  answered : ∀ id lsn, (id, .ok lsn) ∈ s.answers → InLog h s id

/-- Nothing is written while the buffer has records of an earlier round. -/
def BufferEmpty (s : GroupCommitQueue) : GroupEvent → Prop
  | .write _ => s.wal.writer.buffer = []
  | .flush _ => s.wal.writer.buffer = []
  | _ => True

instance BufferEmpty.decidable (s : GroupCommitQueue) (event : GroupEvent) :
    Decidable (BufferEmpty s event) := by
  cases event <;> dsimp only [BufferEmpty] <;> infer_instance

section Steps

variable {h : WalHash} {base : Bytes} {s : GroupCommitQueue}

theorem QueueOk.submit (hs : QueueOk h base s) (records : List WalRecord) :
    QueueOk h base (groupStep h s (.submit records)) := by
  rw [groupStep]
  split
  case isFalse => exact hs
  case isTrue =>
    have hperm : (tickets { s with
        channel := s.channel ++ [⟨s.submitted.length, records⟩]
        submitted := s.submitted ++ [records] }).Perm (s.submitted.length :: s.tickets) := by
      simp only [tickets, map_append, append_assoc]
      exact perm_middle
    have hlen : (s.submitted ++ [records]).length = s.submitted.length + 1 := length_append
    have hsub : s.submitted <+: s.submitted ++ [records] := prefix_append _ _
    have hold : ∀ slot ∈ s.channel ++ slotsOf s.leader,
        (s.submitted ++ [records])[slot.id]? = some slot.records := by
      intro slot hslot
      have hget := hs.records slot hslot
      rw [List.getElem?_append_left (List.getElem?_eq_some_iff.mp hget).1, hget]
    refine ⟨hs.wal, ?_, ?_, ?_, ?_, ?_, ?_, ?_⟩
    · exact hperm.nodup_iff.mpr (nodup_cons.mpr
        ⟨fun hmem => Nat.lt_irrefl _ (hs.issued _ hmem), hs.nodup⟩)
    · intro id hid
      rw [hlen]
      rcases mem_cons.mp (hperm.mem_iff.mp hid) with rfl | hid
      · exact Nat.lt_succ_self _
      · exact Nat.lt_succ_of_lt (hs.issued id hid)
    · intro slot hslot
      simp only [append_assoc, mem_append] at hslot
      rcases hslot with hslot | hslot | hslot
      · exact hold slot (mem_append_left _ hslot)
      · rw [mem_singleton.mp hslot]
        simp
      · exact hold slot (mem_append_right _ hslot)
    · intro id hid
      rw [hlen]
      exact Nat.lt_succ_of_lt (hs.logged id hid)
    · intro slot hslot
      rw [unwritten, append_assoc, mem_append, mem_append] at hslot
      rcases hslot with hslot | hslot | hslot
      · exact hs.fresh slot (mem_append_left _ hslot)
      · rw [mem_singleton.mp hslot]
        exact fun hmem => Nat.lt_irrefl _ (hs.logged _ hmem)
      · exact hs.fresh slot (mem_append_right _ hslot)
    · intro results hl slot lsn hmem
      exact (hs.told results hl slot lsn hmem).mono hsub prefix_rfl
    · intro id lsn hmem
      exact (hs.answered id lsn hmem).mono hsub prefix_rfl

/-- A step that only moves slots on. -/
theorem QueueOk.rearrange {s' : GroupCommitQueue} (hs : QueueOk h base s)
    (hwal : s'.wal = s.wal) (hsub : s'.submitted = s.submitted) (hperm : s'.tickets.Perm s.tickets)
    (hslots : s'.channel ++ slotsOf s'.leader ⊆ s.channel ++ slotsOf s.leader)
    (hun : s'.unwritten ⊆ s.unwritten) (htold : ∀ results, s'.leader = some (.notifying results) →
      ∀ slot lsn, (slot, .ok lsn) ∈ results → InLog h s slot.id)
    (hans : ∀ id lsn, (id, .ok lsn) ∈ s'.answers → InLog h s id) : QueueOk h base s' := by
  have hin : ∀ id, InLog h s id → InLog h s' id := by
    intro id hid
    have hkeep {α : Type} {l l' : List α} (h : l' = l) : l <+: l' := h ▸ prefix_rfl
    exact hid.mono (hkeep hsub) (hkeep (congrArg _ hwal))
  refine ⟨by rw [hwal]; exact hs.wal, hperm.nodup_iff.mpr hs.nodup,
    fun id hid => ?_, fun slot hslot => ?_, fun id hid => ?_,
    fun slot hslot => ?_, fun results hl slot lsn hmem => ?_,
    fun id lsn hmem => ?_⟩
  · rw [hsub]
    exact hs.issued id (hperm.mem_iff.mp hid)
  · rw [hsub]
    exact hs.records slot (hslots hslot)
  · rw [hsub]
    rw [hwal] at hid
    exact hs.logged id hid
  · rw [hwal]
    exact hs.fresh slot (hun hslot)
  · exact hin _ (htold results hl slot lsn hmem)
  · exact hin _ (hans id lsn hmem)

theorem QueueOk.lead (hs : QueueOk h base s) : QueueOk h base (groupStep h s .lead) := by
  rw [groupStep]
  split
  · next hl =>
      refine hs.rearrange rfl rfl ?_ ?_ ?_ nofun hs.answered
      · simp [tickets, hl, slotsOf]
      · simp [hl, slotsOf]
      · simp [unwritten, hl, collectedOf]
  · exact hs

theorem QueueOk.collect (hs : QueueOk h base s) : QueueOk h base (groupStep h s .collect) := by
  rw [groupStep]
  split
  · next slots slot channel hl hch =>
      split
      · refine hs.rearrange rfl rfl ?_ ?_ ?_ nofun hs.answered
        · simp only [tickets, hl, hch, slotsOf, map_append, map_cons,
            map_nil, append_assoc, cons_append, nil_append]
          rw [← append_assoc, ← append_assoc (channel.map _)]
          exact perm_middle
        · intro x hx
          simp only [hl, hch, slotsOf, mem_append, mem_cons, not_mem_nil, or_false] at hx ⊢
          tauto
        · intro x hx
          simp only [unwritten, hl, hch, collectedOf, mem_append,
            mem_cons, not_mem_nil, or_false] at hx ⊢
          tauto
      · exact hs
  · exact hs

theorem QueueOk.notify (hs : QueueOk h base s) : QueueOk h base (groupStep h s .notify) := by
  rw [groupStep]
  split
  · next hl =>
      refine hs.rearrange rfl rfl ?_ ?_ ?_ nofun hs.answered
      · simp [tickets, hl, slotsOf]
      · simp [hl, slotsOf]
      · simp [unwritten, hl, collectedOf]
  · next slot res results hl =>
      refine hs.rearrange rfl rfl ?_ ?_ ?_ ?_ ?_
      · simp only [tickets, hl, slotsOf, map_append, map_cons, append_assoc, cons_append]
        exact (perm_middle.append_left _)
      · intro x hx
        simp only [hl, slotsOf, map_cons, mem_append, mem_cons] at hx ⊢
        tauto
      · simp [unwritten, hl, collectedOf]
      · intro results' heq slot' lsn hmem
        cases heq
        exact hs.told _ hl slot' lsn (mem_cons_of_mem _ hmem)
      · intro id lsn hmem
        rcases mem_cons.mp hmem with heq | hmem
        · cases heq
          exact hs.told _ hl slot lsn mem_cons_self
        · exact hs.answered id lsn hmem
  · exact hs

/-- What a round adds, when nothing was in the buffer before. -/
theorem write_spec (hs : QueueOk h base s)
    (hnil : s.wal.writer.buffer = []) {slots : List CommitSlot}
    {ends : Nat → FlushEnd} {res : Except String (List Nat)} {g : GroupLog}
    (hb : commitBatch h ends slots s.wal = (res, g)) :
    ∃ added, g.log ++ g.pending = s.wal.log ++ added ∧ s.wal.log <+: g.log ∧ Held base g ∧
      (∀ id ∈ added.map Prod.fst, id ∈ slots.map CommitSlot.id) ∧
      ∀ lsns, res = .ok lsns → g.log = s.wal.log ++ added ∧ Blocks h slots added := by
  obtain ⟨added, hx, hheld, hid, hok⟩ := commitBatch_spec (hs.wal.whole hnil) hb
  have horder := hx.order
  rw [hs.wal.pending_nil hnil, append_nil] at horder
  refine ⟨added, horder, hx.grows, hheld, ?_, fun lsns hres => ?_⟩
  · intro id hmem
    obtain ⟨x, hx, rfl⟩ := mem_map.mp hmem
    exact hid x hx
  · obtain ⟨hpend, hblocks⟩ := hok lsns hres
    rw [hpend, append_nil] at horder
    exact ⟨horder, hblocks⟩

theorem QueueOk.write (hs : QueueOk h base s)
    (hnil : s.wal.writer.buffer = []) (ends : Nat → FlushEnd) :
    QueueOk h base (groupStep h s (.write ends)) := by
  rw [groupStep]
  split
  · next hl =>
      refine hs.rearrange rfl rfl ?_ ?_ ?_ nofun hs.answered
      · simp [tickets, hl, slotsOf]
      · simp [hl, slotsOf]
      · simp [unwritten, hl, collectedOf]
  · next slots _ hl =>
      rcases hb : commitBatch h ends slots s.wal with ⟨res, g⟩
      obtain ⟨added, horder, hgrow, hheld, hid, hok⟩ := write_spec hs hnil hb
      have hslots : slotsOf (some (.notifying (slotResults slots res))) = slotsOf s.leader := by
        rw [hl]
        exact map_fst_slotResults slots res
      have hnodup := hs.nodup
      refine ⟨hheld, ?_, ?_, ?_, ?_, ?_, ?_, ?_⟩
      · simp only [tickets, hslots]
        exact hnodup
      · simp only [tickets, hslots]
        exact hs.issued
      · simp only [hslots]
        exact hs.records
      · intro id hmem
        dsimp only at hmem ⊢
        rw [horder, map_append, mem_append] at hmem
        rcases hmem with hmem | hmem
        · exact hs.logged id (by
            rw [map_append]
            exact mem_append_left _ hmem)
        · refine hs.issued id ?_
          simp only [tickets, hl, slotsOf, map_append, mem_append]
          exact .inl (Or.inr (hid id hmem))
      · intro slot hslot
        have hslot : slot ∈ s.channel := by
          simpa [unwritten, collectedOf] using hslot
        dsimp only
        rw [horder, map_append, mem_append]
        intro hmem
        rcases hmem with hmem | hmem
        · refine hs.fresh slot (mem_append_left _ hslot) ?_
          rw [map_append]
          exact mem_append_left _ hmem
        · -- a slot of the channel is not one of the round
          rw [tickets, hl, map_append, append_assoc] at hnodup
          exact (nodup_append.mp hnodup).2.2 _ (mem_map_of_mem hslot)
            _ (mem_append_left _ (hid _ hmem)) rfl
      · intro results heq slot lsn hmem
        cases heq
        obtain ⟨hslot, lsns, hres⟩ := mem_slotResults hmem
        obtain ⟨hlog, hblocks⟩ := hok lsns hres
        obtain ⟨recs, hst, hinf⟩ := hblocks.infix hslot
        refine ⟨slot.records, recs, hs.records slot ?_, hst, ?_⟩
        · rw [hl]
          exact mem_append_right _ hslot
        · dsimp only
          rw [hlog]
          exact hinf.trans (suffix_append _ _).isInfix
      · intro id lsn hmem
        exact (hs.answered id lsn hmem).mono prefix_rfl hgrow
  · exact hs

theorem flush_eq_of_nil {g : GroupLog} (hg : Held base g)
    (hnil : g.writer.buffer = []) (o : FlushEnd) : (g.flush o).2 = g := by
  have hp := hg.pending_nil hnil
  rw [GroupLog.flush, WalWriter.flush_nil g.dir hnil]
  simp only [if_true, if_pos hnil, hp, append_nil]
  rw [← hp]

theorem QueueOk.step {event : GroupEvent} (hs : QueueOk h base s)
    (hok : BufferEmpty s event) : QueueOk h base (groupStep h s event) := by
  cases event with
  | submit records => exact hs.submit records
  | lead => exact hs.lead
  | collect => exact hs.collect
  | write ends => exact hs.write hok ends
  | notify => exact hs.notify
  | flush o =>
    rw [groupStep, flush_eq_of_nil hs.wal hok]
    exact hs

/-- The records of a submission that the log has. -/
def entriesOf (id : Nat) (log : List (Nat × Bytes)) : List (Nat × Bytes) :=
  log.filter fun x => x.1 = id

/-- What is answered stays as it is in the log. -/
theorem entriesOf_step {event : GroupEvent} (hs : QueueOk h base s)
    (hok : BufferEmpty s event) {id : Nat} (hid : id ∈ s.answers.map Prod.fst) :
    entriesOf id (groupStep h s event).wal.log = entriesOf id s.wal.log := by
  cases event with
  | submit records => rw [groupStep]; split <;> rfl
  | lead => rw [groupStep]; split <;> rfl
  | collect =>
    rw [groupStep]
    split
    · split <;> rfl
    · rfl
  | notify => rw [groupStep]; split <;> rfl
  | flush o => rw [groupStep, flush_eq_of_nil hs.wal hok]
  | write ends =>
    rw [groupStep]
    split
    · rfl
    · next slots _ hl =>
        rcases hb : commitBatch h ends slots s.wal with ⟨res, g⟩
        obtain ⟨added, horder, ⟨rest, hrest⟩, -, hslots, -⟩ := write_spec hs hok hb
        dsimp only
        rw [← hrest, append_assoc, append_cancel_left_eq] at horder
        suffices hnone : rest.filter (fun x => x.1 = id) = [] by
          rw [← hrest, entriesOf, entriesOf, filter_append, hnone, append_nil]
        rw [filter_eq_nil_iff]
        intro x hx heq
        -- a slot of the round is not answered
        have hx : id ∈ slots.map CommitSlot.id := by
          refine hslots id ?_
          rw [← horder, ← of_decide_eq_true heq]
          exact mem_map_of_mem (mem_append_left _ hx)
        have hnodup := hs.nodup
        rw [tickets, hl] at hnodup
        refine (nodup_append.mp hnodup).2.2 id ?_ id hid rfl
        rw [map_append]
        exact mem_append_right _ hx
    · rfl

theorem answers_step (event : GroupEvent) : s.answers ⊆ (groupStep h s event).answers := by
  cases event with
  | submit records =>
    rw [groupStep]
    split <;> exact List.Subset.refl _
  | lead =>
    rw [groupStep]
    split <;> exact List.Subset.refl _
  | collect =>
    rw [groupStep]
    split
    · split <;> exact List.Subset.refl _
    · exact List.Subset.refl _
  | write ends =>
    rw [groupStep]
    split <;> exact List.Subset.refl _
  | notify =>
    rw [groupStep]
    split
    · exact List.Subset.refl _
    · exact subset_cons_self _ _
    · exact List.Subset.refl _
  | flush o => exact List.Subset.refl _

theorem entriesOf_run {events : List GroupEvent} (hs : QueueOk h base s)
    (hg : Guarded (groupStep h) BufferEmpty s events) {id : Nat}
    (hid : id ∈ s.answers.map Prod.fst) : entriesOf id (run (groupStep h) s events).wal.log =
      entriesOf id s.wal.log := by
  induction events generalizing s with
  | nil => rfl
  | cons event events ih =>
    rw [run_cons, ih (hs.step hg.1) hg.2
      (map_subset _ (answers_step event) hid), entriesOf_step hs hg.1 hid]

end Steps

theorem openDir_live {d d' : WalDir} {w : WalWriter} (hopen : WalWriter.openDir h d = (w, d')) :
    w.buffer = [] ∧ ∃ content, d'.live w.segmentId = some content := by
  rw [WalWriter.openDir] at hopen
  cases hlive : d.live (findHighestSegmentId d) with
  | none =>
    simp only [hlive] at hopen
    cases hopen
    exact ⟨rfl, _, WalDir.live_create_self ..⟩
  | some content =>
    simp only [hlive] at hopen
    cases hopen
    refine ⟨rfl, ?_⟩
    dsimp only
    split
    · exact ⟨_, Function.update_self ..⟩
    · exact ⟨content, hlive⟩

/-- The history of a log that was just opened. -/
theorem held_openDir (h : WalHash) (d : WalDir) : ∃ base, Held base (GroupLog.openDir h d) := by
  rcases hopen : WalWriter.openDir h d with ⟨w, d'⟩
  obtain ⟨hnil, content, hlive⟩ := openDir_live hopen
  have heq : GroupLog.openDir h d = ⟨w, d', [], [], content⟩ := by
    rw [GroupLog.openDir, hopen]
    dsimp only
    rw [hlive, Option.getD_some]
  rw [heq]
  exact ⟨content, hnil, nofun, (append_nil _).symm, fun _ => hlive⟩

theorem queueOk_new {d : WalDir} {base : Bytes} (hb : Held base (GroupLog.openDir h d)) :
    QueueOk h base (GroupCommitQueue.new h d) :=
  ⟨hb, nodup_nil, nofun, nofun, nofun, nofun, nofun, nofun⟩

/-- The records of a submission, in order and side by side, are among those
that a flush has covered, and their bytes are in the file that was synced. -/
def Acknowledged (h : WalHash) (s : GroupCommitQueue) (id : Nat) : Prop :=
  ∃ records recs, s.submitted[id]? = some records ∧ Stamped h records recs ∧
    recs.map (fun bs => (id, bs)) <:+: s.wal.log ∧
    recs.flatten <:+: s.wal.durable

theorem InLog.acknowledged {base : Bytes} {s : GroupCommitQueue} {id : Nat}
    (hin : InLog h s id) (hb : Held base s.wal) : Acknowledged h s id := by
  obtain ⟨records, recs, hget, hst, hinf⟩ := hin
  refine ⟨records, recs, hget, hst, hinf, ?_⟩
  obtain ⟨pre, post, heq⟩ := hinf
  rw [hb.durable, ← heq, bytesOf_append, bytesOf_append]
  refine ⟨base ++ bytesOf pre, bytesOf post, ?_⟩
  have hrecs : bytesOf (recs.map fun bs => (id, bs)) = recs.flatten := by
    simp [bytesOf, Function.comp_def]
  rw [hrecs]
  simp only [append_assoc]

/-! ## Answers -/

theorem group_commit_answers (h : WalHash) (d : WalDir)
    {events : List GroupEvent}
    (hg : Guarded (groupStep h) BufferEmpty (.new h d) events) (n : Nat) :
    let s := run (groupStep h) (.new h d) (events.take n)
    let s' := run (groupStep h) (.new h d) events
    (∀ id e, (id, .error e) ∈ s.answers →
      entriesOf id s'.wal.log = entriesOf id s.wal.log) ∧
    ∀ id lsn, (id, .ok lsn) ∈ s.answers → Acknowledged h s id := by
  intro s s'
  obtain ⟨base, hb⟩ := held_openDir h d
  have hs : QueueOk h base s :=
    run_inv_take (fun _ _ hs hok => hs.step hok) (queueOk_new hb) hg n
  have hsplit : s' = run (groupStep h) s (events.drop n) := by
    show run _ _ events = run _ (run _ _ _) _
    rw [← run_append, take_append_drop]
  have hrest : Guarded (groupStep h) BufferEmpty s (events.drop n) := by
    rw [← take_append_drop n events, guarded_append] at hg
    exact hg.2
  constructor
  · intro id e hmem
    rw [hsplit]
    exact entriesOf_run hs hrest (mem_map_of_mem hmem)
  · intro id lsn hmem
    exact (hs.answered id lsn hmem).acknowledged hs.wal

def commitRecord (txid : Nat) : WalRecord := .new .standard 0 .commit txid 0 0 []

/-- Two submissions in one round; the first flush of the run succeeds. -/
theorem group_commit_answers_two :
    let events : List GroupEvent :=
      [.submit [commitRecord 1, commitRecord 2], .submit [commitRecord 3],
        .lead, .collect, .collect, .write (fun _ => .ok), .notify, .notify]
    let s := run (groupStep .standard) (.new .standard .empty) events
    s.answers.map Prod.fst = [1, 0] ∧
      ∀ id lsn, (id, .ok lsn) ∈ s.answers → Acknowledged .standard s id := by
  intro events s
  refine ⟨by decide +kernel, ?_⟩
  exact (group_commit_answers .standard .empty
    (show Guarded (groupStep .standard) BufferEmpty _ events by decide +kernel)
    8).2

/-- The flush of the first round fails, and its submitter is told so. The flush
of the second round writes the record of the first as well. -/
theorem failed_commit_becomes_durable :
    ¬ ∀ (h : WalHash) (d : WalDir) (events : List GroupEvent) (n : Nat),
      let s := run (groupStep h) (.new h d) (events.take n)
      let s' := run (groupStep h) (.new h d) events
      (∀ id e, (id, .error e) ∈ s.answers →
        entriesOf id s'.wal.log = entriesOf id s.wal.log) ∧
      ∀ id lsn, (id, .ok lsn) ∈ s.answers → Acknowledged h s id := by
  intro hclaim
  let events : List GroupEvent :=
    [.submit [commitRecord 1], .lead, .collect, .write (fun _ => .failed 0),
      .notify, .notify, .submit [commitRecord 2], .lead, .collect,
      .write (fun _ => .ok)]
  have hsame := (hclaim .standard .empty events 6).1 0 "flush failed"
    (by decide +kernel)
  have hdiff : (entriesOf 0 (run (groupStep .standard) (.new .standard .empty)
      events).wal.log).length ≠ (entriesOf 0 (run (groupStep .standard)
        (.new .standard .empty) (events.take 6)).wal.log).length := by
    decide +kernel
  exact hdiff (congrArg List.length hsame)

end RGraph.Wal
