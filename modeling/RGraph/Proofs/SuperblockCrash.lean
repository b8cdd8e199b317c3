import RGraph.Lib.Run
import RGraph.Storage.Meta

/-!
# The superblock survives crashes

A run of syncs, crashes and loads over the two copies. Each copy remembers
which sync call wrote it, so that a state can be older than another, and the
run remembers the newest call that a completed sync or a load has established.

The copy that a load would return is the one that must not be put at risk. A
sync writes the mirror first, so that copy is safe while it is the primary,
and also while the mirror write completes, for the new mirror is then newer
than anything on disk. What is left is a crash that tears the mirror while it
is the mirror that a load would return; a crash between the two writes, or one
that tears the primary, sets that up for the next sync.
-/

namespace RGraph.Storage

open RGraph.Lib

/-! ## Validation and choice -/

section Validate

variable (crc : Crc32c)

def Valid (b : Superblock) : Prop := validateSuperblock crc b = .ok b

instance Valid.decidable (b : Superblock) : Decidable (Valid crc b) :=
  inferInstanceAs (Decidable (_ = _))

variable {crc}

variable {b : Superblock}

theorem validate_ok {x : Superblock} (h : validateSuperblock crc b = .ok x) : x = b := by
  rw [validateSuperblock] at h
  split at h
  · split at h <;> cases h
  · split at h
    · cases h
    · split at h
      · cases h
      · split at h
        · cases h
        · cases h; rfl

theorem validate_cases (crc : Crc32c) (b : Superblock) : Valid crc b ∨
    ¬ Valid crc b ∧ ∃ e, validateSuperblock crc b = .error e := by
  cases h : validateSuperblock crc b with
  | ok x =>
    rw [validate_ok h] at h
    exact .inl h
  | error e => exact .inr ⟨by rw [Valid, h]; exact nofun, e, rfl⟩

/-- What the fixed fields of an open manager's superblock hold. -/
structure HeaderOk (sb : Superblock) : Prop where
  magic : sb.magic = metaMagic
  version : sb.version = formatVersion
  pageSize : sb.pageSize = pageSize

theorem Valid.headerOk (h : Valid crc b) : HeaderOk b := by
  rw [Valid, validateSuperblock] at h
  split at h
  · split at h <;> cases h
  · next hm =>
      split at h
      · cases h
      · split at h
        · cases h
        · next hv =>
            split at h
            · cases h
            · next hp => exact ⟨not_not.mp hm, not_not.mp hv, not_not.mp hp⟩

theorem HeaderOk.valid (h : HeaderOk b) (hsum : b.verifyChecksum crc = true) : Valid crc b := by
  rw [Valid, validateSuperblock, if_neg (not_not.mpr h.magic), hsum,
    if_neg (by simp), if_neg (not_not.mpr h.version),
    if_neg (not_not.mpr h.pageSize)]

theorem HeaderOk.valid_updateChecksum {sb : Superblock} (h : HeaderOk sb) :
    Valid crc (sb.updateChecksum crc) := by
  have hok : HeaderOk (sb.updateChecksum crc) := ⟨h.magic, h.version, h.pageSize⟩
  refine hok.valid ?_
  simp [Superblock.verifyChecksum, Superblock.updateChecksum, Superblock.computeChecksum]

theorem not_valid_of_checksum (h : b.verifyChecksum crc = false) : ¬ Valid crc b := by
  intro hv
  rw [Valid, validateSuperblock, h] at hv
  split at hv
  · split at hv <;> cases hv
  · cases hv

variable {m p : Superblock} {n : Nat}

theorem load_primary (hn : 2 * pageSize ≤ n) (hp : Valid crc p)
    (hm : Valid crc m → m.generation ≤ p.generation) : loadSuperblock crc n p m = .ok p := by
  have hp' : validateSuperblock crc p = .ok p := hp
  rw [loadSuperblock, if_neg (by omega), hp']
  rcases validate_cases crc m with hv | ⟨-, e, he⟩
  · have hv' : validateSuperblock crc m = .ok m := hv
    have := hm hv
    rw [hv']
    dsimp only
    rw [if_neg (by omega)]
  · rw [he]

theorem load_mirror (hn : 2 * pageSize ≤ n) (hm : Valid crc m)
    (hp : Valid crc p → p.generation < m.generation) : loadSuperblock crc n p m = .ok m := by
  have hm' : validateSuperblock crc m = .ok m := hm
  rw [loadSuperblock, if_neg (by omega), hm']
  rcases validate_cases crc p with hv | ⟨-, e, he⟩
  · have hv' : validateSuperblock crc p = .ok p := hv
    have := hp hv
    rw [hv']
    dsimp only
    rw [if_pos (by omega)]
  · rw [he]

theorem load_ok {sb : Superblock} (h : loadSuperblock crc n p m = .ok sb) :
    (sb = p ∧ Valid crc p ∧ (Valid crc m → m.generation ≤ p.generation)) ∨
    (sb = m ∧ Valid crc m ∧ (Valid crc p → p.generation < m.generation)) := by
  rw [loadSuperblock] at h
  split at h
  · cases h
  · rcases validate_cases crc p with hp | ⟨hnp, ep, hep⟩ <;>
      rcases validate_cases crc m with hm | ⟨hnm, em, hem⟩
    · have hp' : validateSuperblock crc p = .ok p := hp
      have hm' : validateSuperblock crc m = .ok m := hm
      rw [hp', hm'] at h
      dsimp only at h
      split at h
      · next hlt => cases h; exact .inr ⟨rfl, hm, fun _ => hlt⟩
      · next hle => cases h; exact .inl ⟨rfl, hp, fun _ => by omega⟩
    · have hp' : validateSuperblock crc p = .ok p := hp
      rw [hp', hem] at h
      cases h
      exact .inl ⟨rfl, hp, fun hm => absurd hm hnm⟩
    · have hm' : validateSuperblock crc m = .ok m := hm
      rw [hep, hm'] at h
      cases h
      exact .inr ⟨rfl, hm, fun hp => absurd hp hnp⟩
    · rw [hep, hem] at h
      cases h

end Validate

/-! ## Runs -/

/-- A copy on disk and the number of the sync call that wrote it. -/
structure Copy where
  block : Superblock
  call : Nat
  deriving DecidableEq

/-- The two copies, the superblock of the open manager if there is one, how
often `sync_superblock` was called, and the newest of these calls whose state
a completed sync or a load has established. -/
structure SbRun where
  fileLen : Nat
  primary : Copy
  mirror : Copy
  mem : Option Superblock
  calls : Nat
  newest : Option Nat
  deriving DecidableEq

/-- A block whose write was torn fails its checksum. -/
def Torn (crc : Crc32c) : Type :=
  { b : Superblock // b.verifyChecksum crc = false }

/-- How a `sync_superblock` call ends. All but `complete` are crashes. -/
inductive SyncEnd (crc : Crc32c) where
  | complete
  | mirrorLost
  | mirrorTorn (b : Torn crc)
  | primaryLost
  | primaryTorn (b : Torn crc)
  | notReturned

inductive SbOp (crc : Crc32c) where
  /-- The open manager changes its counters. -/
  | edit (sb : Superblock)
  | sync (e : SyncEnd crc)
  | crash
  | load

section Runs

variable (crc : Crc32c)

/-- A new database: a zeroed file and a fresh superblock in memory. -/
def SbRun.init : SbRun where
  fileLen := 3 * pageSize
  primary := ⟨Superblock.zero, 0⟩
  mirror := ⟨Superblock.zero, 0⟩
  mem := some ({ Superblock.new pageSize with
    totalPageCount := 3, freePageCount := 0,
    nextFreePageId := 3 }.updateChecksum crc)
  calls := 0
  newest := none

def SbRun.load (s : SbRun) : Except LoadError Superblock :=
  loadSuperblock crc s.fileLen s.primary.block s.mirror.block

/-- The sync call that wrote a superblock that is on disk. -/
def SbRun.callOf (s : SbRun) (sb : Superblock) : Nat :=
  if sb = s.primary.block then s.primary.call else s.mirror.call

def syncStep (s : SbRun) (sb : Superblock) : SyncEnd crc → SbRun
  | .complete =>
    { s with
      mirror := ⟨sb.mirrorImage crc, s.calls + 1⟩
      primary := ⟨sb.primaryImage crc, s.calls + 1⟩
      mem := some sb.afterSync
      calls := s.calls + 1
      newest := some (s.calls + 1) }
  | .mirrorLost => { s with mem := none, calls := s.calls + 1 }
  | .mirrorTorn b =>
    { s with
      mirror := ⟨b.val, s.calls + 1⟩
      mem := none
      calls := s.calls + 1 }
  | .primaryLost =>
    { s with
      mirror := ⟨sb.mirrorImage crc, s.calls + 1⟩
      mem := none
      calls := s.calls + 1 }
  | .primaryTorn b =>
    { s with
      mirror := ⟨sb.mirrorImage crc, s.calls + 1⟩
      primary := ⟨b.val, s.calls + 1⟩
      mem := none
      calls := s.calls + 1 }
  | .notReturned =>
    { s with
      mirror := ⟨sb.mirrorImage crc, s.calls + 1⟩
      primary := ⟨sb.primaryImage crc, s.calls + 1⟩
      mem := none
      calls := s.calls + 1 }

/-- One step. Editing and syncing need an open manager. -/
def sbStep (s : SbRun) : SbOp crc → SbRun
  | .edit sb =>
    { s with mem := s.mem.map fun old =>
      { sb with
        magic := old.magic
        version := old.version
        pageSize := old.pageSize
        generation := old.generation } }
  | .sync e =>
    match s.mem with
    | some sb => syncStep crc s sb e
    | none => s
  | .crash => { s with mem := none }
  | .load =>
    match s.load crc with
    | .ok sb =>
      { s with
        mem := some sb
        newest := some (max (s.newest.getD 0) (s.callOf sb)) }
    | .error _ => { s with mem := none }

/-- A sync whose mirror write is torn starts while the primary is valid and
no valid mirror is newer, if anything has been established at all. -/
def MirrorSpare (s : SbRun) : SbOp crc → Prop
  | .sync (.mirrorTorn _) =>
    s.newest = none ∨ Valid crc s.primary.block ∧
      (Valid crc s.mirror.block → s.mirror.block.generation ≤ s.primary.block.generation)
  | _ => True

instance MirrorSpare.decidable (s : SbRun) (o : SbOp crc) :
    Decidable (MirrorSpare crc s o) := by
  unfold MirrorSpare
  split <;> infer_instance

/-- A load would return a state at least as new as call `e`. -/
def SbRun.Reaches (s : SbRun) (e : Nat) : Prop := ∃ sb, s.load crc = .ok sb ∧ e ≤ s.callOf sb

structure SbRunOk (s : SbRun) : Prop where
  len : 2 * pageSize ≤ s.fileLen
  header : ∀ sb, s.mem = some sb → HeaderOk sb
  ahead : ∀ sb, s.mem = some sb →
    (Valid crc s.primary.block → s.primary.block.generation ≤ sb.generation) ∧
    (Valid crc s.mirror.block → s.mirror.block.generation ≤ sb.generation)
  calls : s.primary.call ≤ s.calls ∧ s.mirror.call ≤ s.calls
  reach : ∀ e, s.newest = some e → e ≤ s.calls ∧ s.Reaches crc e

variable {crc}

theorem zero_not_valid : ¬ Valid crc Superblock.zero := by
  intro h
  exact absurd h.headerOk.magic (by decide)

theorem sbRunOk_init : SbRunOk crc (SbRun.init crc) where
  len := by simp only [SbRun.init]; omega
  header := by
    intro sb h
    cases h
    exact ⟨rfl, rfl, rfl⟩
  ahead := by
    intro sb _
    exact ⟨fun h => absurd h zero_not_valid, fun h => absurd h zero_not_valid⟩
  calls := ⟨Nat.le_refl _, Nat.le_refl _⟩
  reach := nofun

/-! ## What a load finds -/

variable {e : Nat} {s : SbRun}

theorem SbRun.reaches_primary (hlen : 2 * pageSize ≤ s.fileLen)
    (hp : Valid crc s.primary.block) (hm : Valid crc s.mirror.block →
      s.mirror.block.generation ≤ s.primary.block.generation)
    (he : e ≤ s.primary.call) : s.Reaches crc e := by
  refine ⟨s.primary.block, load_primary hlen hp hm, ?_⟩
  rw [callOf, if_pos rfl]
  exact he

theorem SbRun.reaches_mirror (hlen : 2 * pageSize ≤ s.fileLen)
    (hm : Valid crc s.mirror.block) (hp : Valid crc s.primary.block →
      s.primary.block.generation < s.mirror.block.generation)
    (he : e ≤ s.mirror.call) : s.Reaches crc e := by
  refine ⟨s.mirror.block, load_mirror hlen hm hp, ?_⟩
  have hne : s.mirror.block ≠ s.primary.block := by
    intro heq
    have := hp (heq ▸ hm)
    rw [heq] at this
    exact Nat.lt_irrefl _ this
  rw [callOf, if_neg hne]
  exact he

/-- While the primary is the newest valid copy, the mirror does not matter. -/
theorem SbRun.Reaches.of_primary {t : SbRun} (h : s.Reaches crc e)
    (hlen : 2 * pageSize ≤ s.fileLen) (hp : Valid crc s.primary.block)
    (hm : Valid crc s.mirror.block → s.mirror.block.generation ≤ s.primary.block.generation)
    (hlen' : t.fileLen = s.fileLen) (heq : t.primary = s.primary)
    (hm' : ¬ Valid crc t.mirror.block) : t.Reaches crc e := by
  obtain ⟨sb, hload, hcall⟩ := h
  rw [load, load_primary hlen hp hm] at hload
  cases hload
  rw [SbRun.callOf, if_pos rfl] at hcall
  rw [← heq] at hp hcall
  exact reaches_primary (hlen' ▸ hlen) hp (fun h => absurd h hm') hcall

/-! ## Steps and runs -/

variable {sb : Superblock}

theorem HeaderOk.mirrorImage (h : HeaderOk sb) : Valid crc (sb.mirrorImage crc) :=
  HeaderOk.valid_updateChecksum ⟨h.magic, h.version, h.pageSize⟩

theorem HeaderOk.primaryImage (h : HeaderOk sb) : Valid crc (sb.primaryImage crc) :=
  HeaderOk.valid_updateChecksum ⟨h.magic, h.version, h.pageSize⟩

theorem mirror_lt_primaryImage (sb : Superblock) :
    (sb.mirrorImage crc).generation ≤ (sb.primaryImage crc).generation :=
  Nat.le_succ _

theorem SbRunOk.sync (hs : SbRunOk crc s) (hmem : s.mem = some sb)
    (e : SyncEnd crc) (hok : MirrorSpare crc s (.sync e)) : SbRunOk crc (syncStep crc s sb e) := by
  have hh := hs.header sb hmem
  obtain ⟨hp, hm⟩ := hs.ahead sb hmem
  obtain ⟨hcp, hcm⟩ := hs.calls
  have hup : ∀ e', s.newest = some e' → e' ≤ s.calls + 1 :=
    fun e' he' => Nat.le_succ_of_le (hs.reach e' he').1
  cases e with
  | complete =>
    refine ⟨hs.len, ?_, ?_, ⟨Nat.le_refl _, Nat.le_refl _⟩, ?_⟩
    · intro x hx
      cases hx
      exact ⟨hh.magic, hh.version, hh.pageSize⟩
    · intro x hx
      cases hx
      exact ⟨fun _ => Nat.le_refl _, fun _ => Nat.le_succ _⟩
    · intro x hx
      cases hx
      exact ⟨Nat.le_refl _, SbRun.reaches_primary hs.len hh.primaryImage
        (fun _ => mirror_lt_primaryImage sb) (Nat.le_refl _)⟩
  | mirrorLost =>
    refine ⟨hs.len, nofun, nofun, ?_, ?_⟩
    · exact ⟨Nat.le_succ_of_le hcp, Nat.le_succ_of_le hcm⟩
    · intro x hx
      exact ⟨hup x hx, (hs.reach x hx).2⟩
  | mirrorTorn b =>
    refine ⟨hs.len, nofun, nofun, ?_, ?_⟩
    · exact ⟨Nat.le_succ_of_le hcp, Nat.le_refl _⟩
    · intro x hx
      rcases hok with hnone | ⟨hvp, hvm⟩
      · rw [show s.newest = some x from hx] at hnone
        cases hnone
      · exact ⟨hup x hx, (hs.reach x hx).2.of_primary hs.len hvp hvm rfl rfl
          (not_valid_of_checksum b.property)⟩
  | primaryLost =>
    refine ⟨hs.len, nofun, nofun, ?_, ?_⟩
    · exact ⟨Nat.le_succ_of_le hcp, Nat.le_refl _⟩
    · intro x hx
      refine ⟨hup x hx, SbRun.reaches_mirror hs.len hh.mirrorImage ?_ (hup x hx)⟩
      exact fun hv => Nat.lt_succ_of_le (hp hv)
  | primaryTorn b =>
    refine ⟨hs.len, nofun, nofun, ⟨Nat.le_refl _, Nat.le_refl _⟩, ?_⟩
    intro x hx
    refine ⟨hup x hx, SbRun.reaches_mirror hs.len hh.mirrorImage ?_ (hup x hx)⟩
    exact fun hv => absurd hv (not_valid_of_checksum b.property)
  | notReturned =>
    refine ⟨hs.len, nofun, nofun, ⟨Nat.le_refl _, Nat.le_refl _⟩, ?_⟩
    intro x hx
    exact ⟨hup x hx, SbRun.reaches_primary hs.len hh.primaryImage
      (fun _ => mirror_lt_primaryImage sb) (hup x hx)⟩

theorem SbRun.callOf_le (hs : SbRunOk crc s) (sb : Superblock) : s.callOf sb ≤ s.calls := by
  rw [callOf]
  split
  · exact hs.calls.1
  · exact hs.calls.2

theorem SbRunOk.load (hs : SbRunOk crc s) (hload : s.load crc = .ok sb) :
    SbRunOk crc { s with
      mem := some sb
      newest := some (max (s.newest.getD 0) (s.callOf sb)) } := by
  refine ⟨hs.len, ?_, ?_, hs.calls, ?_⟩
  · intro x hx
    cases hx
    rcases load_ok hload with ⟨rfl, hv, -⟩ | ⟨rfl, hv, -⟩
    · exact hv.headerOk
    · exact hv.headerOk
  · intro x hx
    cases hx
    rcases load_ok hload with ⟨rfl, -, hle⟩ | ⟨rfl, -, hlt⟩
    · exact ⟨fun _ => Nat.le_refl _, hle⟩
    · exact ⟨fun hp => Nat.le_of_lt (hlt hp), fun _ => Nat.le_refl _⟩
  · intro x hx
    cases hx
    have hcall := SbRun.callOf_le hs sb
    have hold : s.newest.getD 0 ≤ s.callOf sb := by
      cases hn : s.newest with
      | none => exact Nat.zero_le _
      | some e =>
        obtain ⟨-, sb', hload', hle⟩ := hs.reach e hn
        rw [hload] at hload'
        cases hload'
        exact hle
    rw [Nat.max_eq_right hold]
    exact ⟨hcall, sb, hload, Nat.le_refl _⟩

theorem sbStep_ok (s : SbRun) (o : SbOp crc) (hs : SbRunOk crc s)
    (ho : MirrorSpare crc s o) : SbRunOk crc (sbStep crc s o) := by
  cases o with
  | edit sb =>
    refine ⟨hs.len, ?_, ?_, hs.calls, hs.reach⟩
    · intro x hx
      obtain ⟨old, hold, rfl⟩ := Option.map_eq_some_iff.mp hx
      have := hs.header old hold
      exact ⟨this.magic, this.version, this.pageSize⟩
    · intro x hx
      obtain ⟨old, hold, rfl⟩ := Option.map_eq_some_iff.mp hx
      exact hs.ahead old hold
  | sync e =>
    rw [sbStep]
    cases hmem : s.mem with
    | none => exact hs
    | some sb => exact hs.sync hmem e ho
  | crash => exact ⟨hs.len, nofun, nofun, hs.calls, hs.reach⟩
  | load =>
    rw [sbStep]
    cases hload : s.load crc with
    | ok sb => exact hs.load hload
    | error e => exact ⟨hs.len, nofun, nofun, hs.calls, hs.reach⟩

/-- In a run whose torn mirror writes all start while the primary is the
newest valid copy, once a completed sync or a load has established the state
of call `e`, a load succeeds and returns a state at least as new. -/
theorem load_never_older (crc : Crc32c) (ops : List (SbOp crc))
    (h : Guarded (sbStep crc) (MirrorSpare crc) (SbRun.init crc) ops) (n e : Nat)
    (he : (run (sbStep crc) (SbRun.init crc) (ops.take n)).newest = some e) :
    ∃ sb, (run (sbStep crc) (SbRun.init crc) (ops.take n)).load crc = .ok sb ∧
      e ≤ (run (sbStep crc) (SbRun.init crc) (ops.take n)).callOf sb :=
  ((run_inv_take sbStep_ok sbRunOk_init h n).reach e he).2

end Runs

/-! ## The two sides of the condition

Torn blocks are zeroed ones here; the checksum is the real one. -/

def tornZero : Torn Crc32c.castagnoli := ⟨Superblock.zero, by decide +kernel⟩

/-- The second sync tears the mirror while the primary is the newest copy. -/
theorem load_never_older_torn_mirror :
    ∃ sb, (run (sbStep Crc32c.castagnoli) (SbRun.init Crc32c.castagnoli)
        [.sync .complete, .sync (.mirrorTorn tornZero), .load]).load
          Crc32c.castagnoli = .ok sb ∧
      1 ≤ (run (sbStep Crc32c.castagnoli) (SbRun.init Crc32c.castagnoli)
        [.sync .complete, .sync (.mirrorTorn tornZero), .load]).callOf sb :=
  load_never_older Crc32c.castagnoli
    [.sync .complete, .sync (.mirrorTorn tornZero), .load]
    (by decide +kernel) 3 1 (by decide +kernel)

/-- The second sync tears the primary, so the mirror is the one good copy;
the third sync starts with the mirror and tears it. -/
theorem torn_mirror_loses_both : ¬ ∀ (ops : List (SbOp Crc32c.castagnoli)) (n e : Nat),
        (run (sbStep Crc32c.castagnoli) (SbRun.init Crc32c.castagnoli)
          (ops.take n)).newest = some e →
        ∃ sb, (run (sbStep Crc32c.castagnoli) (SbRun.init Crc32c.castagnoli)
            (ops.take n)).load Crc32c.castagnoli = .ok sb ∧
          e ≤ (run (sbStep Crc32c.castagnoli) (SbRun.init Crc32c.castagnoli)
            (ops.take n)).callOf sb := by
  intro h
  obtain ⟨sb, hload, -⟩ := h [.sync .complete, .sync (.primaryTorn tornZero),
    .load, .sync (.mirrorTorn tornZero)] 4 2 (by decide +kernel)
  have herr : (run (sbStep Crc32c.castagnoli) (SbRun.init Crc32c.castagnoli)
      [.sync .complete, .sync (.primaryTorn tornZero), .load,
        .sync (.mirrorTorn tornZero)]).load Crc32c.castagnoli =
      .error ⟨.invalidData, SuperblockError.badMagic.display⟩ := by
    decide +kernel
  exact absurd (hload.symm.trans herr) nofun

end RGraph.Storage
