import RGraph.Index.BTree
import RGraph.Proofs.BTreePage

/-!
# Leaves and branches as pages

`LeafPage p id es` reads a leaf page as its entries, `BranchPage p id seps
children` a branch page as its separators and children. The searches within a
page find the place in these lists, and the pages that the tree builds hold
what they are built from, as long as it fits.
-/

namespace RGraph.Index

open RGraph.Lib RGraph.Storage List

abbrev Entry := Bytes × Bytes

/-! ## Records -/

@[simp] theorem length_encodeKv (k v : Bytes) :
    (encodeKv k v).length = 2 + k.length + v.length := by
  simp [encodeKv]; omega

@[simp] theorem length_encodeBranchEntry (k : Bytes) (c : PageId) :
    (encodeBranchEntry k c).length = k.length + 8 := by
  simp [encodeBranchEntry]

theorem decodeKv_encodeKv {k v : Bytes} (hk : k.length < 2 ^ 16) :
    decodeKv (encodeKv k v) = some (k, v) := by
  have htake : (encodeKv k v).take 2 = natToBE 2 k.length := take_left' (length_natToBE _ _)
  have hdrop : (encodeKv k v).drop 2 = k ++ v := drop_left' (length_natToBE _ _)
  have hlen : beToNat (natToBE 2 k.length) = k.length := beToNat_natToBE 2 _ hk
  rw [decodeKv, if_neg (by rw [length_encodeKv]; omega), htake, hlen]
  dsimp only
  rw [if_neg (by rw [length_encodeKv]; omega), ← drop_drop, hdrop]
  simp

/-! ## Leaves -/

def leafRecords (es : List Entry) : List Bytes := es.map fun e => encodeKv e.1 e.2

@[simp] theorem length_leafRecords (es : List Entry) : (leafRecords es).length = es.length := by
  simp [leafRecords]

structure LeafPage (p : BTreePage) (id : PageId) (es : List Entry) :
    Prop where
  holds : Holds p id .btreeLeaf (leafRecords es)
  level : p.btreeHeader.level = 0
  keys : ∀ e ∈ es, e.1.length < 2 ^ 16

namespace LeafPage

variable {p : BTreePage} {id : PageId} {es : List Entry}

theorem decode_getElem? (h : LeafPage p id es) (i : Nat) :
    (leafRecords es)[i]?.bind decodeKv = es[i]? := by
  rw [leafRecords, List.getElem?_map]
  cases he : es[i]? with
  | none => rfl
  | some e => exact decodeKv_encodeKv (h.keys e (mem_of_getElem? he))

theorem leafKey (h : LeafPage p id es) (i : Nat) : leafKey p i = .ok (es[i]?.map Prod.fst) := by
  rw [Index.leafKey, h.holds.key, Res.ok_bind, ← h.decode_getElem?, Option.map_bind]
  rfl

theorem leafValue (h : LeafPage p id es) (i : Nat) : leafValue p i = .ok (es[i]?.map Prod.snd) := by
  rw [Index.leafValue, h.holds.key, Res.ok_bind, ← h.decode_getElem?, Option.map_bind]
  rfl

theorem keyCount (h : LeafPage p id es) : p.keyCount = es.length := by
  rw [h.holds.count, length_leafRecords]

theorem length_le (h : LeafPage p id es) : es.length ≤ 2024 := by
  have := h.holds.fits
  rw [length_leafRecords] at this
  omega

/-- The bisection over the slots of a leaf ends where the keys reach `key`. -/
theorem leafLowerBound (h : LeafPage p id es) {as bs : List Entry} {key : Bytes}
    (hes : es = as ++ bs) (has : ∀ a ∈ as, a.1 < key)
    (hbs : ∀ b ∈ bs, key ≤ b.1) : leafLowerBound p key = .ok as.length := by
  have hlen := h.length_le
  subst hes
  rw [length_append] at hlen
  have hb : bisect (fun mid => do
      let midKey ← Index.leafKey p mid
      .ok (midKey.elim false fun midKey => decide (midKey < key)))
      p.keyCount 0 p.keyCount = .ok as.length := by
    rw [h.keyCount, length_append]
    refine bisect_eq (Nat.zero_le _) (Nat.le_add_right _ _) (by omega) fun i hi => ?_
    rw [h.leafKey, Res.ok_bind]
    rcases Nat.lt_or_ge i as.length with hlt | hge
    · rw [List.getElem?_append_left hlt, List.getElem?_eq_getElem hlt]
      simp [hlt, has _ (getElem_mem hlt)]
    · rw [List.getElem?_append_right hge,
        List.getElem?_eq_getElem (by omega : i - as.length < bs.length)]
      simp [Nat.not_lt.mpr hge, hbs _ (getElem_mem _)]
  rw [Index.leafLowerBound, hb, Res.ok_bind, Nat.min_eq_left (by omega)]

end LeafPage

theorem leafPage_new (id : PageId) : LeafPage (BTreePage.newLeaf id) id [] :=
  have hv : (BTreeHeader.new 0).Valid := valid_new (by decide)
  ⟨holds_blank id .btreeLeaf hv rfl, by rw [BTreePage.newLeaf, btreeHeader_blank hv]; rfl, by simp⟩

/-! ## Branches -/

def branchRecords (seps : List Bytes) (children : List PageId) : List Bytes :=
  List.zipWith encodeBranchEntry seps children

structure BranchPage (p : BTreePage) (id : PageId) (seps : List Bytes)
    (children : List PageId) : Prop where
  holds : Holds p id .btreeInterior (branchRecords seps children)
  length : children.length = seps.length + 1
  last : children.getLast? = some p.btreeHeader.rightmostChild
  ids : ∀ c ∈ children, c < 2 ^ 64

namespace BranchPage

variable {p : BTreePage} {id : PageId} {seps : List Bytes}
  {children : List PageId}

theorem length_records (h : BranchPage p id seps children) :
    (branchRecords seps children).length = seps.length := by
  rw [branchRecords, length_zipWith, h.length]
  omega

theorem keyCount (h : BranchPage p id seps children) : p.keyCount = seps.length := by
  rw [h.holds.count, h.length_records]

/-- The records are the separators with the children to their left. -/
theorem read (h : BranchPage p id seps children) {i : Nat} (hi : i < seps.length) :
    ∃ sep child, seps[i]? = some sep ∧ children[i]? = some child ∧ child < 2 ^ 64 ∧
      p.inner.read i = .ok (some (encodeBranchEntry sep child)) := by
  have hi' : i < children.length := by rw [h.length]; omega
  refine ⟨seps[i], children[i], List.getElem?_eq_getElem hi,
    List.getElem?_eq_getElem hi', h.ids _ (getElem_mem _), ?_⟩
  have hkey := h.holds.key i
  rw [BTreePage.key] at hkey
  rw [hkey, branchRecords, List.getElem?_zipWith, List.getElem?_eq_getElem hi,
    List.getElem?_eq_getElem hi']

theorem separatorKey (h : BranchPage p id seps children) {i : Nat}
    (hi : i < seps.length) : p.separatorKey i = .ok seps[i]? := by
  obtain ⟨sep, child, hsep, -, -, hread⟩ := h.read hi
  rw [BTreePage.separatorKey, hread, hsep]
  simp [encodeBranchEntry]

theorem childPointer (h : BranchPage p id seps children) {i : Nat}
    (hi : i < seps.length) : p.childPointer i = .ok children[i]? := by
  obtain ⟨sep, child, -, hchild, hlt, hread⟩ := h.read hi
  have hnat : beToNat (natToBE 8 child) = child := beToNat_natToBE 8 _ hlt
  rw [BTreePage.childPointer, hread, hchild, Res.ok_bind]
  dsimp only
  rw [if_neg (by rw [length_encodeBranchEntry]; omega),
    length_encodeBranchEntry, Nat.add_sub_cancel, encodeBranchEntry,
    drop_left, hnat]

/-- The bisection over the slots of a branch ends behind the separators that
pass the test. -/
theorem bisect_separators (h : BranchPage p id seps children)
    {test : Bytes → Bool} {s₁ s₂ : List Bytes} (hs : seps = s₁ ++ s₂)
    (h₁ : ∀ s ∈ s₁, test s = true) (h₂ : ∀ s ∈ s₂, test s = false) :
    bisect (fun mid => do
      let sep ← p.separatorKey mid
      .ok (sep.elim false test)) p.keyCount 0 p.keyCount = .ok s₁.length := by
  rw [h.keyCount, hs, length_append]
  refine bisect_eq (Nat.zero_le _) (Nat.le_add_right _ _) (by omega) fun i hi => ?_
  rw [h.separatorKey (by rw [hs, length_append]; exact hi), Res.ok_bind, hs]
  rcases Nat.lt_or_ge i s₁.length with hlt | hge
  · rw [List.getElem?_append_left hlt, List.getElem?_eq_getElem hlt]
    simp [hlt, h₁ _ (getElem_mem hlt)]
  · rw [List.getElem?_append_right hge,
      List.getElem?_eq_getElem (by omega : i - s₁.length < s₂.length)]
    simp [Nat.not_lt.mpr hge, h₂ _ (getElem_mem _)]

/-- The child behind the first separators: in a slot, or the rightmost. -/
theorem child_behind (h : BranchPage p id seps children) {s₁ s₂ : List Bytes}
    {c₁ c₂ : List PageId} {c : PageId} (hs : seps = s₁ ++ s₂)
    (hc : children = c₁ ++ c :: c₂) (hlen : s₁.length = c₁.length) :
    (s₁.length < p.keyCount → p.childPointer s₁.length = .ok (some c)) ∧ (¬ s₁.length < p.keyCount →
        p.btreeHeader.rightmostChild = c ∧ s₁.length = p.keyCount) := by
  have hn := h.length
  rw [hc, hs, length_append, length_append, length_cons] at hn
  rw [h.keyCount]
  refine ⟨fun hlt => ?_, fun hge => ?_⟩
  · rw [h.childPointer hlt, hc, hlen]
    simp
  · -- no separator is behind it, so the child is the last one
    rw [hs, length_append] at hge ⊢
    have hc₂ : c₂ = [] := length_eq_zero_iff.mp (by omega)
    have hlast := h.last
    rw [hc, hc₂, List.getLast?_concat, Option.some.injEq] at hlast
    exact ⟨hlast.symm, by omega⟩

/-- The child to follow is right of the separators at or below the key. -/
theorem branchSlot (h : BranchPage p id seps children) {s₁ s₂ : List Bytes}
    {c₁ c₂ : List PageId} {c : PageId} {key : Bytes} (hs : seps = s₁ ++ s₂)
    (hc : children = c₁ ++ c :: c₂) (hlen : s₁.length = c₁.length)
    (h₁ : ∀ s ∈ s₁, s ≤ key) (h₂ : ∀ s ∈ s₂, key < s) : branchSlot p key = .ok (c, c₁.length) := by
  have hb := h.bisect_separators hs (fun s hs => decide_eq_true (h₁ s hs))
    fun s hs => decide_eq_false (h₂ s hs).not_ge
  obtain ⟨hslot, hright⟩ := h.child_behind hs hc hlen
  rw [Index.branchSlot, hb, Res.ok_bind]
  split
  · next hlt =>
      rw [hslot hlt, hlen]
      rfl
  · next hge =>
      obtain ⟨hc', hn⟩ := hright hge
      rw [hc', ← hn, hlen]

/-- Reading a branch back. -/
theorem decodeSlots_from (h : BranchPage p id seps children) :
    ∀ (n : Nat) {i : Nat}, i + n = seps.length → decodeSlots p i n =
        .ok (seps.drop i, (children.take seps.length).drop i) := by
  intro n
  induction n with
  | zero =>
    intro i hi
    rw [decodeSlots, drop_eq_nil_of_le (by omega),
      drop_eq_nil_of_le (by rw [length_take]; omega)]
  | succ n ih =>
    intro i hi
    have hlt : i < seps.length := by omega
    have hlt' : i < children.length := by rw [h.length]; omega
    rw [decodeSlots, h.separatorKey hlt, h.childPointer hlt, ih (by omega)]
    simp only [Res.ok_bind]
    rw [List.getElem?_eq_getElem hlt, List.getElem?_eq_getElem hlt', drop_eq_getElem_cons hlt,
      drop_eq_getElem_cons (i := i) (l := children.take seps.length)
        (by rw [length_take]; omega), getElem_take]
    rfl

theorem decodeBranch (h : BranchPage p id seps children) :
    decodeBranch p = .ok (seps, children) := by
  have hlast : children.take seps.length ++ [p.btreeHeader.rightmostChild] = children := by
    obtain ⟨init, hinit⟩ := List.getLast?_eq_some_iff.mp h.last
    have hlen := h.length
    rw [hinit, length_append, length_singleton] at hlen
    rw [hinit, take_left' (by omega)]
  rw [Index.decodeBranch, h.keyCount, h.decodeSlots_from seps.length (by omega), Res.ok_bind]
  simp only [drop_zero, hlast]

end BranchPage

/-! ## Building pages -/

/-- An entry with its room is inserted, and takes 12 bytes more than its key. -/
theorem insertEntries_step {id : PageId} {branch : BTreePage} {rs : List Bytes}
    (h : Holds branch id .btreeInterior rs) {s : Bytes} (hs : s.length ≤ 2040)
    (hfit : totalLen rs + 4 * rs.length + (s.length + 12) ≤ 8096)
    (c : PageId) (seps : List Bytes) (children : List PageId) :
    ∃ b, insertEntries (s :: seps) (c :: children) branch = insertEntries seps children b ∧
      Holds b id .btreeInterior (rs ++ [encodeBranchEntry s c]) ∧
      totalLen (rs ++ [encodeBranchEntry s c]) + 4 * (rs ++ [encodeBranchEntry s c]).length =
        totalLen rs + 4 * rs.length + (s.length + 12) := by
  obtain ⟨b, hins, hb, -⟩ := h.insertRaw (r := encodeBranchEntry s c)
    (by rw [length_encodeBranchEntry]; omega)
    (by rw [Room, length_encodeBranchEntry]; omega)
  refine ⟨b, ?_, hb, ?_⟩
  · rw [insertEntries, hins, Res.ok_bind]
    rfl
  · rw [totalLen_append, totalLen_cons, totalLen_nil, length_encodeBranchEntry,
      length_append, length_singleton]
    omega

/-- Inserting one entry after another. -/
theorem insertEntries_spec {id : PageId} : ∀ (seps : List Bytes)
    (children : List PageId) {branch : BTreePage} {rs : List Bytes},
    Holds branch id .btreeInterior rs → seps.length ≤ children.length →
    (∀ s ∈ seps, s.length ≤ 2040) → totalLen rs + totalLen (branchRecords seps children) +
      4 * (rs.length + seps.length) ≤ 8096 →
    ∃ b, insertEntries seps children branch = .ok (some b) ∧
      Holds b id .btreeInterior (rs ++ branchRecords seps children) := by
  intro seps
  induction seps with
  | nil =>
    intro children branch rs h _ _ _
    exact ⟨branch, rfl, by simpa [branchRecords] using h⟩
  | cons sep seps ih =>
    intro children branch rs h hlen hshort hfit
    cases children with
    | nil => simp at hlen
    | cons child children =>
      have hrec : branchRecords (sep :: seps) (child :: children) =
          encodeBranchEntry sep child :: branchRecords seps children := rfl
      rw [hrec, totalLen_cons, length_encodeBranchEntry, length_cons] at hfit
      obtain ⟨b, hins, hb, hused⟩ := insertEntries_step h
        (hshort sep mem_cons_self) (by omega) child seps children
      obtain ⟨b', hrest, hb'⟩ := ih children hb (by simpa using hlen)
        (fun s hs => hshort s (mem_cons_of_mem _ hs)) (by omega)
      refine ⟨b', hins.trans hrest, ?_⟩
      rw [hrec]
      simpa using hb'

/-- What fits into a branch is built. -/
theorem tryBuildBranch_spec {id level : Nat} {seps : List Bytes}
    {children : List PageId} (hlevel : level < 2 ^ 8) (hlen : children.length = seps.length + 1)
    (hids : ∀ c ∈ children, c < 2 ^ 64) (hshort : ∀ s ∈ seps, s.length ≤ 2040)
    (hfit : totalLen (branchRecords seps children) + 4 * seps.length ≤ 8096) :
    ∃ b, tryBuildBranch id level seps children = .ok (some b) ∧ BranchPage b id seps children := by
  have hv : (BTreeHeader.new level).Valid := valid_new hlevel
  obtain ⟨b, hins, hb⟩ := insertEntries_spec seps children
    (holds_blank id .btreeInterior hv rfl)
    (by omega) hshort (by simpa using hfit)
  obtain ⟨last, hlast⟩ : ∃ last, children.getLast? = some last := by
    cases hl : children.getLast? with
    | none => rw [List.getLast?_eq_none_iff.mp hl] at hlen; simp at hlen
    | some last => exact ⟨last, rfl⟩
  have hlt := hids last (mem_of_getLast? hlast)
  obtain ⟨hset, hbh⟩ := hb.setRightmostChild hlt
  refine ⟨b.setRightmostChild last, ?_, hset, hlen, ?_, hids⟩
  · rw [tryBuildBranch, BTreePage.newBranch, hins, Res.ok_bind, hlast]
    rfl
  · rw [hlast, hbh]

/-- An entry that may go on a leaf page. -/
def Entry.Short (e : Entry) : Prop := 2 + e.1.length + e.2.length ≤ 2048

theorem Entry.Short.key_lt {e : Entry} (h : e.Short) : e.1.length < 2 ^ 16 := by
  unfold Entry.Short at h
  omega

theorem Entry.Short.room {e : Entry} (h : e.Short) :
    Room (leafRecords []) (encodeKv e.1 e.2).length := by
  unfold Entry.Short at h
  rw [Room, leafRecords, map_nil, totalLen_nil, length_nil, length_encodeKv]
  omega

namespace LeafPage

variable {p : BTreePage} {id : PageId} {es : List Entry}

theorem of_holds {p' : BTreePage} {es' : List Entry} {n : Nat}
    (h : LeafPage p id es) (hh : Holds p' id .btreeLeaf (leafRecords es'))
    (hbh : p'.btreeHeader = { p.btreeHeader with keyCount := n })
    (hk : ∀ e ∈ es', e.1.length < 2 ^ 16) : LeafPage p' id es' :=
  ⟨hh, by rw [hbh]; exact h.level, hk⟩

theorem insertRaw (h : LeafPage p id es) {e : Entry} (he : e.Short)
    (hroom : Room (leafRecords es) (encodeKv e.1 e.2).length) :
    ∃ p', p.insertRaw (encodeKv e.1 e.2) = .ok (some es.length, p') ∧
      LeafPage p' id (es ++ [e]) ∧ p'.links = p.links := by
  obtain ⟨p', hins, hh, hbh⟩ := h.holds.insertRaw (by rw [length_encodeKv]; exact he) hroom
  rw [length_leafRecords] at hins
  refine ⟨p', hins, h.of_holds (by simpa [leafRecords] using hh) hbh ?_,
    BTreePage.links_of_header hbh⟩
  intro x hx
  rcases mem_append.mp hx with hx | hx
  · exact h.keys x hx
  · rw [mem_singleton.mp hx]; exact he.key_lt

theorem insertRawAt {as bs : List Entry} (h : LeafPage p id (as ++ bs)) {e : Entry} (he : e.Short)
    (hroom : Room (leafRecords (as ++ bs)) (encodeKv e.1 e.2).length) :
    ∃ p', p.insertRawAt as.length (encodeKv e.1 e.2) = .ok (some as.length, p') ∧
      LeafPage p' id (as ++ e :: bs) ∧ p'.links = p.links := by
  have hidx : as.length ≤ (leafRecords (as ++ bs)).length := by
    rw [length_leafRecords, length_append]
    omega
  obtain ⟨p', hins, hh, hbh⟩ := h.holds.insertRawAt hidx (by rw [length_encodeKv]; exact he) hroom
  have hrecs : (leafRecords (as ++ bs)).insertIdx as.length (encodeKv e.1 e.2) =
      leafRecords (as ++ e :: bs) := by
    clear h hroom hidx hins hh hbh
    induction as with
    | nil => rfl
    | cons a as ih => exact congrArg (_ :: ·) ih
  rw [hrecs] at hh
  refine ⟨p', hins, h.of_holds hh hbh fun x hx => ?_, BTreePage.links_of_header hbh⟩
  rcases mem_append.mp hx with hx | hx
  · exact h.keys x (mem_append_left _ hx)
  · rcases mem_cons.mp hx with rfl | hx
    · exact he.key_lt
    · exact h.keys x (mem_append_right _ hx)

theorem setSiblings (h : LeafPage p id es) {prev next : PageId}
    (hp : prev < 2 ^ 64) (hn : next < 2 ^ 64) : LeafPage (p.setSiblings prev next) id es := by
  have hv : BTreeHeader.Valid
      { p.btreeHeader with siblingPrev := prev, siblingNext := next } :=
    { p.valid_btreeHeader with siblingPrev := hp, siblingNext := hn }
  refine ⟨h.holds.setSiblings hp hn, ?_, h.keys⟩
  rw [BTreePage.setSiblings, BTreePage.btreeHeader_writeBtreeHeader hv]
  exact h.level

theorem setPageLsn (h : LeafPage p id es) (lsn : Nat) : LeafPage (p.setPageLsn lsn) id es :=
  ⟨h.holds.setPageLsn lsn, h.level, h.keys⟩

end LeafPage

end RGraph.Index
