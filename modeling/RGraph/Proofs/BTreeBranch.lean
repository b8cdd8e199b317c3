import Mathlib.Algebra.Order.BigOperators.Group.List
import Mathlib.Algebra.Order.Group.Nat
import RGraph.Proofs.BTreeNode

/-!
# Building branch pages

A branch page has 8096 bytes for its entries and their slots. `tryBuildBranch`
leaves it to the slotted page to say that an entry does not fit. The slotted
page first packs its records from offset 0, over the header of the tree, and
counts the 32 bytes of that header as free: an entry that is too long by no
more than that is stored, at an offset from before the packing, and the page is
of no use. One that is too long by more is refused.
-/

namespace RGraph.Index

open RGraph.Lib RGraph.Storage List

/-- The bytes of the entries of a branch, with their slots. -/
def branchBytes (seps : List Bytes) : Nat := (seps.map fun s => s.length + 12).sum

section Branches

variable {i : PageId} {l : BTreePage} {ks ls : List Bytes} {cs : List PageId}

@[simp] theorem branchBytes_nil : branchBytes [] = 0 := rfl

@[simp] theorem branchBytes_cons (s : Bytes) (seps : List Bytes) :
    branchBytes (s :: seps) = s.length + 12 + branchBytes seps := rfl

/-- The entries fit on a branch page. -/
def BranchFits (seps : List Bytes) : Prop := (∀ s ∈ seps, s.length ≤ 2040) ∧ branchBytes seps ≤ 8096

theorem totalLen_branchRecords {seps : List Bytes} {children : List PageId}
    (h : seps.length ≤ children.length) : totalLen (branchRecords seps children) + 4 * seps.length =
      branchBytes seps := by
  induction seps generalizing children with
  | nil => rfl
  | cons s seps ih =>
    cases children with
    | nil => simp at h
    | cons c children =>
      have ih := @ih children (by simpa using h)
      rw [branchRecords, zipWith_cons_cons, totalLen_cons,
        length_encodeBranchEntry, branchBytes_cons, length_cons, ← ih,
        branchRecords]
      omega

theorem tryBuildBranch_eq {level : Nat} (hlevel : level < 2 ^ 8)
    (hlen : cs.length = ks.length + 1) (hids : ∀ c ∈ cs, c < 2 ^ 64) (hfit : BranchFits ks) :
    ∃ b, tryBuildBranch i level ks cs = .ok (some b) ∧ BranchPage b i ks cs := by
  refine tryBuildBranch_spec hlevel hlen hids hfit.1 ?_
  rw [totalLen_branchRecords (by omega)]
  exact hfit.2

/-- The first entry that does not fit is too long by more than 32 bytes. -/
def Clear (used : Nat) (seps : List Bytes) : Prop :=
  ∀ k, used + branchBytes (seps.take k) ≤ 8096 ∨ 8128 < used + branchBytes (seps.take k)

theorem insertEntries_none {branch : BTreePage} {rs : List Bytes}
    (h : Holds branch i .btreeInterior rs) (hlen : ks.length ≤ cs.length)
    (hshort : ∀ s ∈ ks, s.length ≤ 2040) (hclear : Clear (totalLen rs + 4 * rs.length) ks)
    (hfull : 8096 < totalLen rs + 4 * rs.length + branchBytes ks) :
    insertEntries ks cs branch = .ok none := by
  induction ks generalizing cs branch rs with
  | nil =>
    have hfits := h.fits
    rw [branchBytes_nil] at hfull
    omega
  | cons s ks ih =>
    cases cs with
    | nil => simp at hlen
    | cons c cs =>
      rw [forall_mem_cons] at hshort
      rcases hclear 1 with hfit | hover
      · rw [take_succ_cons, take_zero, branchBytes_cons, branchBytes_nil] at hfit
        obtain ⟨b, hins, hb, hused⟩ := insertEntries_step h hshort.1 (by omega) c ks cs
        rw [hins]
        refine ih hb (by simpa using hlen) hshort.2 ?_ ?_
        · intro k
          have hk := hclear (k + 1)
          rw [take_succ_cons, branchBytes_cons] at hk
          rw [hused]
          omega
        · rw [branchBytes_cons] at hfull
          rw [hused]
          omega
      · rw [take_succ_cons, take_zero, branchBytes_cons, branchBytes_nil] at hover
        obtain ⟨b, hins⟩ := h.insertRaw_none (r := encodeBranchEntry s c)
          (by rw [length_encodeBranchEntry]; omega)
        rw [insertEntries, hins]
        rfl

theorem insertEntries_ne_none {branch : BTreePage} {rs : List Bytes}
    (h : Holds branch i .btreeInterior rs) (hlen : ks.length ≤ cs.length)
    (hshort : ∀ s ∈ ks, s.length ≤ 2040)
    (hinit : totalLen rs + 4 * rs.length + branchBytes ks.dropLast ≤ 8096)
    (hall : totalLen rs + 4 * rs.length + branchBytes ks ≤ 8128) :
    insertEntries ks cs branch ≠ .ok none := by
  induction ks generalizing cs branch rs with
  | nil => rintro ⟨⟩
  | cons s ks ih =>
    cases cs with
    | nil => simp at hlen
    | cons c cs =>
      rw [forall_mem_cons] at hshort
      rw [branchBytes_cons] at hall
      cases ks with
      | nil =>
        have hne := h.insertRaw_ne_none (r := encodeBranchEntry s c)
          (by rw [length_encodeBranchEntry]; omega)
          (by rw [length_encodeBranchEntry]; omega)
        rw [insertEntries]
        cases hins : branch.insertRaw (encodeBranchEntry s c) with
        | error f => rintro ⟨⟩
        | ok res =>
          obtain ⟨idx, b⟩ := res
          cases idx with
          | none => exact absurd hins (hne b)
          | some idx => rintro ⟨⟩
      | cons s' ks =>
        rw [dropLast_cons_cons, branchBytes_cons] at hinit
        obtain ⟨b, hins, hb, hused⟩ := insertEntries_step h hshort.1 (by omega) c (s' :: ks) cs
        rw [hins]
        refine ih hb (by simpa using hlen) hshort.2 ?_ ?_
        · rw [hused]
          omega
        · rw [hused]
          omega

theorem tryBuildBranch_none {level : Nat} (hlevel : level < 2 ^ 8)
    (hlen : cs.length = ks.length + 1) (hshort : ∀ s ∈ ks, s.length ≤ 2040)
    (hclear : Clear 0 ks) (hfull : 8096 < branchBytes ks) :
    tryBuildBranch i level ks cs = .ok none := by
  have hblank := holds_blank i .btreeInterior (valid_new hlevel) rfl
  have hcs : ks.length ≤ cs.length := by omega
  have hins := insertEntries_none hblank hcs hshort
    (by simpa using hclear) (by simpa using hfull)
  rw [tryBuildBranch, BTreePage.newBranch, hins]
  rfl

theorem tryBuildBranch_ne_none {level : Nat} (hlevel : level < 2 ^ 8)
    (hlen : cs.length = ks.length + 1) (hshort : ∀ s ∈ ks, s.length ≤ 2040)
    (hinit : branchBytes ks.dropLast ≤ 8096) (hall : branchBytes ks ≤ 8128) :
    tryBuildBranch i level ks cs ≠ .ok none := by
  have hblank := holds_blank i .btreeInterior (valid_new hlevel) rfl
  have hcs : ks.length ≤ cs.length := by omega
  have hins := insertEntries_ne_none hblank hcs hshort
    (by simpa using hinit) (by simpa using hall)
  rw [tryBuildBranch, BTreePage.newBranch]
  cases hb : insertEntries ks cs (BTreePage.blank i .btreeInterior (BTreeHeader.new level)) with
  | error f => rintro ⟨⟩
  | ok res =>
    cases res with
    | none => exact absurd hb hins
    | some b =>
      rw [Res.ok_bind]
      dsimp only
      cases cs.getLast? with
      | none => rintro ⟨⟩
      | some last => rintro ⟨⟩

end Branches

/-! ## The round trip -/

/-- What is built is read back, and entries that do not fit are refused. -/
def BuildsBranch (id level : Nat) (seps : List Bytes) (children : List PageId) : Prop :=
  ∃ built, tryBuildBranch id level seps children = .ok built ∧
    (∀ page, built = some page → decodeBranch page = .ok (seps, children)) ∧
    (8096 < branchBytes seps → built = none)

theorem tryBuildBranch_round_trip {id level : Nat} {seps : List Bytes}
    {children : List PageId} (hlevel : level < 2 ^ 8) (hlen : children.length = seps.length + 1)
    (hids : ∀ c ∈ children, c < 2 ^ 64) (hshort : ∀ s ∈ seps, s.length ≤ 2000) :
    (Clear 0 seps → BuildsBranch id level seps children) ∧
      (branchBytes seps.dropLast ≤ 8096 → 8096 < branchBytes seps →
        branchBytes seps ≤ 8128 → ¬BuildsBranch id level seps children) := by
  have hshort : ∀ s ∈ seps, s.length ≤ 2040 :=
    fun s hs => (hshort s hs).trans (by omega)
  constructor
  · intro hclear
    rcases Nat.lt_or_ge 8096 (branchBytes seps) with hfull | hfit
    · exact ⟨none, tryBuildBranch_none hlevel hlen hshort hclear hfull, nofun,
        fun _ => rfl⟩
    · obtain ⟨page, hbuild, hpage⟩ :=
        tryBuildBranch_eq (i := id) hlevel hlen hids ⟨hshort, hfit⟩
      refine ⟨some page, hbuild, ?_, fun hfull => absurd hfull (by omega)⟩
      intro page' heq
      cases heq
      exact hpage.decodeBranch
  · rintro hinit hfull hall ⟨built, hbuild, -, hnone⟩
    rw [hnone hfull] at hbuild
    exact tryBuildBranch_ne_none hlevel hlen hshort hinit hall hbuild

/-- Separators of 16 bytes, one more than fit on a page. -/
def fullSeps : List Bytes := List.replicate 290 (List.replicate 16 0)

theorem branchBytes_replicate (n : Nat) (s : Bytes) :
    branchBytes (List.replicate n s) = n * (s.length + 12) := by
  rw [branchBytes, map_replicate, sum_replicate_nat]

/-- As many separators of 100 bytes as fit on a page, and one more. -/
theorem tryBuildBranch_round_trip_one :
    let seps := fun n => List.replicate n (List.replicate 100 (7 : UInt8))
    BuildsBranch 3 1 (seps 72) (List.replicate 73 1) ∧
      BuildsBranch 3 1 (seps 73) (List.replicate 74 1) := by
  intro seps
  have hbuilds : ∀ n, n ≤ 73 → BuildsBranch 3 1 (seps n) (List.replicate (n + 1) 1) := by
    intro n hn
    refine (tryBuildBranch_round_trip (by decide) ?_ ?_ ?_).1 fun k => ?_
    · rw [length_replicate, length_replicate]
    · intro c hc
      rw [eq_of_mem_replicate hc]
      decide
    · intro s hs
      rw [eq_of_mem_replicate hs, length_replicate]
      decide
    · rw [take_replicate, branchBytes_replicate, length_replicate]
      omega
  exact ⟨hbuilds 72 (by decide), hbuilds 73 (by decide)⟩

theorem tryBuildBranch_overwrites_header :
    ¬∀ (id level : Nat) (seps : List Bytes) (children : List PageId),
      level < 2 ^ 8 → children.length = seps.length + 1 →
      (∀ c ∈ children, c < 2 ^ 64) → (∀ s ∈ seps, s.length ≤ 2000) →
      BuildsBranch id level seps children := by
  intro h
  have hlen : (List.replicate 291 1).length = fullSeps.length + 1 := by
    rw [fullSeps, length_replicate, length_replicate]
  have hshort : ∀ s ∈ fullSeps, s.length = 16 := by
    intro s hs
    rw [eq_of_mem_replicate hs, length_replicate]
  obtain ⟨built, hbuild, -, hnone⟩ := h 1 1 fullSeps (List.replicate 291 1)
    (by decide) hlen
    (fun c hc => by rw [eq_of_mem_replicate hc]; decide)
    (fun s hs => by rw [hshort s hs]; decide)
  have hinit : branchBytes fullSeps.dropLast ≤ 8096 := by
    rw [fullSeps, dropLast_replicate, branchBytes_replicate, length_replicate]
    decide
  have hall : branchBytes fullSeps = 8120 := by
    rw [fullSeps, branchBytes_replicate, length_replicate]
  rw [hnone (by omega)] at hbuild
  exact tryBuildBranch_ne_none (by decide) hlen
    (fun s hs => by rw [hshort s hs]; decide) hinit (by omega) hbuild

end RGraph.Index
