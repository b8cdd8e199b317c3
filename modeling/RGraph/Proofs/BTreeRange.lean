import Mathlib.Data.List.Nodup
import RGraph.Index.Range
import RGraph.Proofs.BTree
import RGraph.Proofs.BTreeBranch

/-!
# What range scans return

On a well-formed tree `range_search` sees every entry from the leaf of the
lower bound on, up to the first key that is not below the upper bound, so it
returns the entries of the range (`WellFormed.rangeSearch`).

The cursor takes the end of a leaf's keys for the end of the scan if there is
no key at its place: at once if the leaf of the lower bound has only smaller
keys, and later at a leaf without entries. `reach` is what it sees.
-/

namespace RGraph.Index

open RGraph.Lib RGraph.Storage List

/-- The key is in `[start, stop)`. -/
def InRange (start stop : Bytes) (e : Entry) : Bool := decide (start ≤ e.1 ∧ e.1 < stop)

/-! ## The search -/

section Search

variable {t : BPlusTree} {start stop : Bytes}

/-- Up to the first key at or above `stop`. -/
def rangeOf (start stop : Bytes) : List Entry → List Entry × Bool
  | [] => ([], false)
  | e :: es =>
    if e.1 < start then rangeOf start stop es
    else if stop ≤ e.1 then ([], true)
    else (e :: (rangeOf start stop es).1, (rangeOf start stop es).2)

theorem LeafPage.rangeSlots {p : BTreePage} {id : PageId} {es : List Entry}
    (h : LeafPage p id es) : ∀ (n : Nat) {i : Nat}, i + n = es.length →
      rangeSlots start stop p i n = .ok (rangeOf start stop (es.drop i)) := by
  intro n
  induction n with
  | zero =>
    intro i hi
    rw [Index.rangeSlots, drop_of_length_le (by omega)]
    rfl
  | succ n ih =>
    intro i hi
    have hlt : i < es.length := by omega
    rw [Index.rangeSlots, h.leafKey, h.leafValue, ih (by omega),
      List.getElem?_eq_getElem hlt, Res.ok_bind,
      drop_eq_getElem_cons hlt, rangeOf]
    dsimp only [Option.map_some]
    split
    · rfl
    · split
      · rfl
      · rfl

theorem rangeOf_fst : ∀ {es : List Entry}, es.Pairwise (·.1 < ·.1) →
    (rangeOf start stop es).1 = es.filter (InRange start stop)
  | [], _ => rfl
  | e :: es, hs => by
    obtain ⟨he, hs⟩ := pairwise_cons.mp hs
    rw [rangeOf]
    split
    · next hlt =>
        rw [rangeOf_fst hs, filter_cons_of_neg]
        simp [InRange, hlt]
    · next hge =>
        split
        · next hstop =>
            have hout : ∀ x ∈ e :: es, ¬InRange start stop x = true := by
              intro x hx
              have hle : stop ≤ x.1 := by
                rcases mem_cons.mp hx with rfl | hx
                · exact hstop
                · exact hstop.trans (he x hx).le
              simp [InRange, hle]
            exact (filter_eq_nil_iff.mpr hout).symm
        · next hin =>
            rw [filter_cons_of_pos]
            · rw [rangeOf_fst hs]
            · simp [InRange, not_lt.mp hge, not_le.mp hin]

theorem rangeOf_snd : ∀ {es : List Entry},
    (rangeOf start stop es).2 = true → ∃ e ∈ es, stop ≤ e.1
  | [], h => by cases h
  | e :: es, h => by
    rw [rangeOf] at h
    split at h
    · obtain ⟨x, hx, hle⟩ := rangeOf_snd h
      exact ⟨x, mem_cons_of_mem _ hx, hle⟩
    · split at h
      · next hstop => exact ⟨e, mem_cons_self, hstop⟩
      · obtain ⟨x, hx, hle⟩ := rangeOf_snd h
        exact ⟨x, mem_cons_of_mem _ hx, hle⟩

theorem LeafPage.rangeLeaves {leaf : BTreePage} {row : Row}
    (h : LeafPage leaf row.1 row.2) (hpage : t.pages row.1 = some leaf)
    (rounds : Nat) : t.rangeLeaves start stop (rounds + 1) row.1 =
      if (rangeOf start stop row.2).2 ∨ leaf.btreeHeader.siblingNext = 0 then
        .ok (rangeOf start stop row.2).1
      else t.rangeLeaves start stop rounds leaf.btreeHeader.siblingNext >>=
          fun rest => .ok ((rangeOf start stop row.2).1 ++ rest) := by
  rw [BPlusTree.rangeLeaves, hpage]
  dsimp only
  rw [h.keyCount, h.rangeSlots _ (Nat.zero_add _), Res.ok_bind, drop_zero]

variable {rows : List Row}

/-- From a leaf of the row on, the entries of the range. -/
theorem rangeLeaves_row {row : Row} {rounds : Nat}
    (hch : Chained t.pages (row :: rows)) (hleaves : ∀ r ∈ row :: rows, ∃ page,
      t.pages r.1 = some page ∧ LeafPage page r.1 r.2)
    (hsorted : (contents (row :: rows)).Pairwise (·.1 < ·.1)) (hrounds : rows.length < rounds) :
    t.rangeLeaves start stop rounds row.1 =
      .ok ((contents (row :: rows)).filter (InRange start stop)) := by
  induction rows generalizing row rounds with
  | nil =>
    obtain ⟨rounds, rfl⟩ : ∃ n, rounds = n + 1 := ⟨rounds - 1, by omega⟩
    obtain ⟨page, hpage, hleaf⟩ := hleaves row mem_cons_self
    obtain ⟨⟨_, hpage', hnext⟩, -, -⟩ := hch
    cases hpage'.symm.trans hpage
    have hnext : _ = 0 := hnext
    rw [contents_cons, contents_nil, append_nil] at hsorted ⊢
    rw [hleaf.rangeLeaves hpage rounds, if_pos (Or.inr hnext), rangeOf_fst hsorted]
  | cons next rows ih =>
    obtain ⟨rounds, rfl⟩ : ∃ n, rounds = n + 1 := ⟨rounds - 1, by omega⟩
    obtain ⟨page, hpage, hleaf⟩ := hleaves row mem_cons_self
    obtain ⟨⟨_, hpage', hnext⟩, -, hch⟩ := hch
    cases hpage'.symm.trans hpage
    have hnext : _ = next.1 := hnext
    rw [contents_cons, filter_append]
    rw [contents_cons] at hsorted
    obtain ⟨hrow, hrest, hbelow⟩ := pairwise_append.mp hsorted
    rw [hleaf.rangeLeaves hpage rounds, rangeOf_fst hrow, hnext,
      ih hch (fun r hr => hleaves r (mem_cons_of_mem _ hr)) hrest
        (Nat.lt_of_succ_lt_succ hrounds)]
    split
    · next hstop =>
        -- A key at or above the upper bound is here: none of the keys behind
        -- is below it.
        have hstop := hstop.resolve_right hch.2.1
        obtain ⟨x, hx, hle⟩ := rangeOf_snd hstop
        have hnone : (contents (next :: rows)).filter (InRange start stop) = [] := by
          rw [filter_eq_nil_iff]
          intro e he
          have hlt := hle.trans_lt (hbelow x hx e he)
          simp [InRange, hlt.le]
        rw [hnone, append_nil]
    · rfl

/-- The walk down to the leaf of a key, as `range_search` and the cursor make
it. -/
theorem WellFormed.findLeaf (h : WellFormed t rows) (key : Bytes) : ∃ root r₁ c es r₂,
      t.pages t.rootPageId = some root ∧
      t.findLeaf key t.nextPageId root.pageId root = .ok (some c) ∧
      rows = r₁ ++ (c, es) :: r₂ ∧ (∀ e ∈ contents r₁, e.1 < key) ∧
      ∀ e ∈ contents r₂, key < e.1 := by
  obtain ⟨d, hd, hsub⟩ := h.subtree
  obtain ⟨root, hroot⟩ := hsub.exists_page
  obtain ⟨r₁, c, es, r₂, -, -, hfind, hrows, -, hl, hr⟩ := hsub.findLeaf key hd.le hroot
  rw [← hsub.pageId_eq hroot] at hfind
  exact ⟨root, r₁, c, es, r₂, hroot, hfind, hrows, hl, hr⟩

theorem WellFormed.leaves (h : WellFormed t rows) : ∀ row ∈ rows, ∃ page,
      t.pages row.1 = some page ∧ LeafPage page row.1 row.2 := by
  obtain ⟨d, -, hsub⟩ := h.subtree
  exact hsub.leaves

theorem WellFormed.sorted (h : WellFormed t rows) : (contents rows).Pairwise (·.1 < ·.1) := by
  obtain ⟨d, -, hsub⟩ := h.subtree
  exact hsub.within.1.sorted

/-- A leaf has less than `2 ^ 16` entries. -/
theorem length_contents_le (h : ∀ row ∈ rows, ∃ page,
      t.pages row.1 = some page ∧ LeafPage page row.1 row.2) :
    (contents rows).length ≤ rows.length * 2024 := by
  induction rows with
  | nil => exact Nat.zero_le _
  | cons row rows ih =>
    obtain ⟨page, -, hleaf⟩ := h row mem_cons_self
    have hrow := hleaf.length_le
    have hrest := ih fun r hr => h r (mem_cons_of_mem _ hr)
    rw [contents_cons, length_append, length_cons]
    omega

theorem WellFormed.rangeSearch (h : WellFormed t rows) (start stop : Bytes) :
    t.rangeSearch start stop = .ok ((contents rows).filter (InRange start stop)) := by
  have hlen := h.length_le
  have hch := h.chained
  have hleaves := h.leaves
  have hsorted := h.sorted
  obtain ⟨root, r₁, c, es, r₂, hroot, hfind, rfl, hl, -⟩ := h.findLeaf start
  have hnone : (contents r₁).filter (InRange start stop) = [] := by
    rw [filter_eq_nil_iff]
    intro e he
    simp [InRange, hl e he]
  rw [contents_append] at hsorted ⊢
  rw [BPlusTree.rangeSearch, hroot]
  dsimp only
  rw [hfind, Res.ok_bind]
  dsimp only
  rw [rangeLeaves_row hch.of_append (fun r hr => hleaves r (mem_append_right _ hr))
    (pairwise_append.mp hsorted).2.1
    (by rw [length_append, length_cons] at hlen; omega),
    filter_append, hnone, nil_append]

end Search

theorem rangeSearch_spec {t : BPlusTree} {rows : List Row} (h : WellFormed t rows) :
    (∀ start stop, ∃ out, t.rangeSearch start stop = .ok out ∧
      (∀ e, e ∈ out ↔ e ∈ contents rows ∧ start ≤ e.1 ∧ e.1 < stop) ∧
      out.Pairwise fun a b => a.1 < b.1) ∧
    ∀ key, ∃ place, t.search key = .ok place ∧
      (place.isSome ↔ ∃ row ∈ rows, ∃ v, (key, v) ∈ row.2) := by
  constructor
  · intro start stop
    refine ⟨_, h.rangeSearch start stop, fun e => ?_, h.sorted.filter _⟩
    rw [mem_filter, InRange, decide_eq_true_iff]
  · intro key
    have hstored : ∀ v, (key, v) ∈ contents rows ↔
        ∃ row ∈ rows, (key, v) ∈ row.2 := by
      intro v
      rw [contents, mem_flatten]
      constructor
      · rintro ⟨es, hes, hv⟩
        obtain ⟨row, hrow, rfl⟩ := mem_map.mp hes
        exact ⟨row, hrow, hv⟩
      · rintro ⟨row, hrow, hv⟩
        exact ⟨row.2, mem_map_of_mem hrow, hv⟩
    obtain ⟨d, hd, hsub⟩ := h.subtree
    rcases hsub.search hd.le key with
      ⟨c, i, page, es, v, hs, -, -, -, hv⟩ | ⟨hs, hno⟩
    · obtain ⟨row, hrow, hv⟩ := (hstored v).mp hv
      exact ⟨_, hs, iff_of_true rfl ⟨row, hrow, v, hv⟩⟩
    · refine ⟨_, hs, iff_of_false Bool.false_ne_true ?_⟩
      rintro ⟨row, hrow, v, hv⟩
      exact hno v ((hstored v).mpr ⟨row, hrow, hv⟩)

theorem exists_leafPage (id : PageId) {e : Entry} (he : e.Short)
    {next : PageId} (hnext : next < 2 ^ 64) :
    ∃ page, LeafPage page id [e] ∧ page.btreeHeader.siblingNext = next := by
  obtain ⟨page, -, hpage, -⟩ := (leafPage_new id).insertRaw he he.room
  have hprev : 0 < 2 ^ 64 := by decide
  exact ⟨_, hpage.setSiblings hprev hnext, congrArg Prod.snd (page.links_setSiblings hprev hnext)⟩

/-- Two leaves, with room between the last key of the first and the separator. -/
theorem exists_twoLeaves : ∃ t root, WellFormed t [(1, [([1], [])]), (2, [([7], [])])] ∧
    t.pages t.rootPageId = some root ∧ ∀ key, key < [5] →
      t.findLeaf key t.nextPageId root.pageId root = .ok (some 1) := by
  obtain ⟨p₁, hp₁, hnext₁⟩ := exists_leafPage 1 (e := ([1], []))
    (show _ ≤ _ by decide) (by decide : 2 < 2 ^ 64)
  obtain ⟨p₂, hp₂, hnext₂⟩ := exists_leafPage 2 (e := ([7], []))
    (show _ ≤ _ by decide) (by decide : 0 < 2 ^ 64)
  have hfits : BranchFits [[5]] := ⟨by decide, by decide⟩
  have hids : ∀ c ∈ [1, 2], c < 2 ^ 64 := by decide
  obtain ⟨root, -, hroot⟩ := tryBuildBranch_eq (i := 3) (by decide : 0 < 2 ^ 8) rfl hids hfits
  have hone : fence ([1] : Bytes) < fence [5] := fence_lt_fence.mpr (by decide)
  have hseven : fence ([5] : Bytes) ≤ fence [7] := fence_le_fence.mpr (by decide)
  let pages : PageId → Option BTreePage := fun
    | 1 => some p₁
    | 2 => some p₂
    | 3 => some root
    | _ => none
  refine ⟨⟨.default, 3, pages, 4, 1, []⟩, root, ⟨⟨1, Nat.one_lt_succ_succ 2, ?_⟩,
    ?_, by decide, ?_⟩, rfl, fun key hkey => ?_⟩
  · exact .branch rfl hroot (.cons (.leaf rfl hp₁ (.singleton bot_le hone) (bot_lt_fence _))
      (.last (.leaf rfl hp₂ (.singleton hseven (fence_lt_top _)) (fence_lt_top _))))
  · exact ⟨⟨p₁, rfl, hnext₁⟩, by decide, ⟨p₂, rfl, hnext₂⟩, by decide, trivial⟩
  · exact show ∀ c ∈ [1, 2], c < 4 by decide
  · have hslot := hroot.branchSlot (nil_append _).symm (nil_append _).symm rfl
      nofun (by simpa using hkey)
    rw [BPlusTree.findLeaf, if_pos (by rw [hroot.holds.isBranch]; rfl), hslot, Res.ok_bind]
    change BPlusTree.findLeaf _ key 3 1 p₁ = _
    rw [BPlusTree.findLeaf, if_neg (by rw [hp₁.holds.isBranch]; decide)]

theorem rangeSearch_spec_twoLeaves :
    ∃ t rows, WellFormed t rows ∧ ∃ out, t.rangeSearch [1] [9] = .ok out ∧
      (∀ e, e ∈ out ↔ e ∈ contents rows ∧ [1] ≤ e.1 ∧ e.1 < [9]) ∧
      out.Pairwise fun a b => a.1 < b.1 := by
  obtain ⟨t, -, hw, -⟩ := exists_twoLeaves
  exact ⟨t, _, hw, (rangeSearch_spec hw).1 [1] [9]⟩

/-! ## The cursor -/

section Cursor

variable {t : BPlusTree} {start stop : Bytes}

/-- What the cursor meets from the entries `es` of a leaf on: it goes to the
next leaf from an entry only. -/
def reach : List Entry → List Row → List Entry
  | es, [] => es
  | es, row :: rows => if es = [] then [] else es ++ reach row.2 rows

def below (stop : Bytes) (e : Entry) : Bool := decide (e.1 < stop)

theorem reach_cons_cons {e e' : Entry} {es : List Entry} {rows : List Row} :
    reach (e :: e' :: es) rows = e :: reach (e' :: es) rows := by
  cases rows with
  | nil => rfl
  | cons row rows => simp [reach]

theorem takeWhile_reach_nil {es : List Entry} (rows : List Row)
    (h : es.head?.any (below stop) = false) : (reach es rows).takeWhile (below stop) = [] := by
  cases es with
  | nil =>
    cases rows with
    | nil => rfl
    | cons row rows => rfl
  | cons e es =>
    have he : ¬below stop e = true := by
      rw [List.head?_cons, Option.any_some] at h
      rw [h]
      exact Bool.false_ne_true
    cases rows with
    | nil => exact takeWhile_cons_of_neg he
    | cons row rows => exact takeWhile_cons_of_neg he

/-- The place behind the entries `as` of a leaf, with the entries `bs` and the
leaves of the row ahead. -/
structure CursorAt (t : BPlusTree) (c : BTreeRangeCursor) (as bs : List Entry)
    (rows : List Row) (stop : Bytes) : Prop where
  leaf : ∃ id, LeafPage c.currentLeaf id (as ++ bs)
  slot : c.currentSlot = as.length
  endKey : c.endKey = some stop
  sibling : c.currentLeaf.btreeHeader.siblingNext = rows.head?.elim 0 Prod.fst
  chained : Chained t.pages rows
  leaves : ∀ r ∈ rows, ∃ page, t.pages r.1 = some page ∧ LeafPage page r.1 r.2

namespace CursorAt

variable {c : BTreeRangeCursor} {as bs : List Entry} {rows : List Row}

theorem getElem? (h : CursorAt t c as bs rows stop) : (as ++ bs)[c.currentSlot]? = bs.head? := by
  rw [h.slot, List.getElem?_append_right (Nat.le_refl _), Nat.sub_self, List.head?_eq_getElem?]

theorem currentWithinBound (h : CursorAt t c as bs rows stop) :
    c.currentWithinBound = .ok (bs.head?.any (below stop)) := by
  obtain ⟨id, hleaf⟩ := h.leaf
  rw [BTreeRangeCursor.currentWithinBound, hleaf.keyCount, h.endKey,
    hleaf.leafKey, h.getElem?, h.slot]
  cases bs with
  | nil => simp
  | cons e bs => simp [below]

theorem current (h : CursorAt t c as bs rows stop) :
    c.current = .ok (bs.head?.filter (below stop)) := by
  obtain ⟨id, hleaf⟩ := h.leaf
  rw [BTreeRangeCursor.current, h.currentWithinBound, Res.ok_bind,
    hleaf.holds.key, Res.ok_bind, hleaf.decode_getElem?, h.getElem?]
  cases bs with
  | nil => rfl
  | cons e bs =>
    rw [List.head?_cons, Option.any_some, Option.filter_some]
    split
    · rfl
    · rfl

/-- Where the cursor goes from an entry. -/
theorem next {e : Entry} (h : CursorAt t c as (e :: bs) rows stop) :
    ∃ c' as' bs' rows', c.next t = .ok (bs'.head?.any (below stop), c') ∧
      reach (e :: bs) rows = e :: reach bs' rows' ∧ (bs' ≠ [] → CursorAt t c' as' bs' rows' stop) ∧
      bs'.length + (contents rows').length = bs.length + (contents rows).length := by
  obtain ⟨id, hleaf⟩ := h.leaf
  rw [BTreeRangeCursor.next, hleaf.keyCount, h.slot, length_append, length_cons, h.sibling]
  cases bs with
  | cons e' bs =>
    -- The next slot.
    have h' : CursorAt t { c with currentSlot := as.length + 1 } (as ++ [e])
        (e' :: bs) rows stop := by
      refine ⟨⟨id, ?_⟩, ?_, h.endKey, h.sibling, h.chained, h.leaves⟩
      · rw [append_assoc]
        exact hleaf
      · rw [length_append]
        rfl
    refine ⟨_, as ++ [e], e' :: bs, rows, ?_, reach_cons_cons, fun _ => h', rfl⟩
    rw [if_pos (by rw [length_cons]; omega)]
    dsimp only
    rw [h'.currentWithinBound]
    rfl
  | nil =>
    rw [if_neg (by rw [length_nil]; omega)]
    cases rows with
    | nil => exact ⟨_, [], [], [], rfl, rfl, nofun, rfl⟩
    | cons row rows =>
      -- The first slot of the sibling.
      obtain ⟨⟨page, hpage, hsibling⟩, hne, hch⟩ := h.chained
      obtain ⟨_, hpage', hrow⟩ := h.leaves row mem_cons_self
      cases hpage'.symm.trans hpage
      have h' : CursorAt t ⟨row.1, page, 0, c.endKey⟩ [] row.2 rows stop :=
        ⟨⟨row.1, hrow⟩, rfl, h.endKey, hsibling, hch,
          fun r hr => h.leaves r (mem_cons_of_mem _ hr)⟩
      refine ⟨_, [], row.2, rows, ?_, rfl, fun _ => h', ?_⟩
      · dsimp only [List.head?_cons, Option.elim_some]
        rw [if_neg hne, hpage]
        dsimp only
        rw [h'.currentWithinBound]
        rfl
      · rw [contents_cons, length_append, length_nil, Nat.zero_add]

theorem collectRange {rounds : Nat} (h : CursorAt t c as bs rows stop)
    (hrounds : bs.length + (contents rows).length < rounds) :
    c.collectRange t rounds = .ok ((reach bs rows).takeWhile (below stop)) := by
  induction rounds generalizing c as bs rows with
  | zero => exact absurd hrounds (Nat.not_lt_zero _)
  | succ rounds ih =>
    rw [BTreeRangeCursor.collectRange, h.current, Res.ok_bind]
    cases bs with
    | nil => exact congrArg _ (takeWhile_reach_nil rows rfl).symm
    | cons e bs =>
      rw [List.head?_cons, Option.filter_some]
      by_cases he : below stop e = true
      · obtain ⟨c', as', bs', rows', hnext, hreach, h', hlen⟩ := h.next
        rw [if_pos he, hreach, takeWhile_cons_of_pos he]
        dsimp only
        rw [hnext, Res.ok_bind]
        rw [length_cons] at hrounds
        cases hin : bs'.head?.any (below stop) with
        | true =>
          have hne : bs' ≠ [] := by
            rintro rfl
            cases hin
          dsimp only
          rw [if_pos rfl, ih (h' hne) (by omega)]
          rfl
        | false =>
          dsimp only
          rw [if_neg Bool.false_ne_true, takeWhile_reach_nil rows' hin]
      · rw [if_neg he]
        refine congrArg _ (takeWhile_reach_nil rows ?_).symm
        rw [List.head?_cons, Option.any_some]
        exact Bool.not_eq_true _ ▸ he

end CursorAt

theorem WellFormed.intoRange {rows r₁ r₂ : List Row} (h : WellFormed t rows)
    {root : BTreePage} {c : PageId} {as bs : List Entry} (hroot : t.pages t.rootPageId = some root)
    (hfind : t.findLeaf start t.nextPageId root.pageId root = .ok (some c))
    (hrows : rows = r₁ ++ (c, as ++ bs) :: r₂) (has : ∀ a ∈ as, a.1 < start)
    (hbs : ∀ b ∈ bs, start ≤ b.1) : t.intoRange start stop =
      .ok ((reach bs r₂).takeWhile (below stop)) := by
  subst hrows
  obtain ⟨⟨page, hpage, hsibling⟩, -, hch⟩ := h.chained.of_append
  obtain ⟨_, hpage', hleaf⟩ := h.leaves (c, as ++ bs) (by simp)
  cases hpage'.symm.trans hpage
  have hpage : t.pages c = some page := hpage
  have hat : CursorAt t ⟨c, page, as.length, some stop⟩ as bs r₂ stop :=
    ⟨⟨c, hleaf⟩, rfl, rfl, hsibling, hch, fun r hr => h.leaves r (by simp [hr])⟩
  rw [BPlusTree.intoRange, BPlusTree.cursorFrom, hroot]
  dsimp only
  rw [hfind, Res.ok_bind]
  dsimp only
  rw [hpage]
  dsimp only
  rw [BTreeRangeCursor.new, hleaf.leafLowerBound rfl has hbs, Res.ok_bind, Res.ok_bind, Res.ok_bind]
  refine hat.collectRange ?_
  have hlen := h.length_le
  have hcont := length_contents_le h.leaves
  simp only [contents_append, contents_cons, length_append, length_cons] at hlen hcont
  omega

end Cursor

/-! ## The cursor and the search -/

/-- From each leaf of the row behind which a key below `stop` is stored, the
scan goes on: there is a key at or above `start`. -/
def Unbroken (start stop : Bytes) : List Row → Prop
  | [] => True
  | row :: rows =>
    ((∃ e ∈ contents rows, e.1 < stop) → ∃ e ∈ row.2, start ≤ e.1) ∧ Unbroken start stop rows

section Compare

variable {t : BPlusTree} {start stop : Bytes}

variable {rows : List Row}

theorem unbroken_of_none (h : ∀ e ∈ contents rows, ¬e.1 < stop) : Unbroken start stop rows := by
  induction rows with
  | nil => trivial
  | cons row rows ih =>
    rw [contents_cons] at h
    have hrest := fun e he => h e (mem_append_right _ he)
    refine ⟨?_, ih hrest⟩
    rintro ⟨e, he, hlt⟩
    exact absurd hlt (hrest e he)

theorem reach_sublist (es : List Entry) (rows : List Row) :
    (reach es rows).Sublist (es ++ contents rows) := by
  induction rows generalizing es with
  | nil => rw [reach, contents_nil, append_nil]
  | cons row rows ih =>
    rw [reach, contents_cons]
    split
    · exact nil_sublist _
    · exact (ih row.2).append_left es

variable {es : List Entry}

theorem takeWhile_below (h : es.Pairwise (·.1 < ·.1)) :
    es.takeWhile (below stop) = es.filter (below stop) := by
  induction es with
  | nil => rfl
  | cons e es ih =>
    obtain ⟨he, hes⟩ := pairwise_cons.mp h
    by_cases hb : below stop e = true
    · rw [takeWhile_cons_of_pos hb, filter_cons_of_pos hb, ih hes]
    · rw [takeWhile_cons_of_neg hb, eq_comm, filter_eq_nil_iff]
      intro x hx
      have hle : stop ≤ e.1 := by simpa [below] using hb
      rcases mem_cons.mp hx with rfl | hx
      · exact hb
      · simp [below, hle.trans (he x hx).le]

/-- The leaves that the cursor does not come to have nothing for it. -/
theorem filter_reach_iff (h : ∀ e ∈ contents rows, start ≤ e.1) :
    (reach es rows).filter (below stop) = (es ++ contents rows).filter (below stop) ↔
      ((∃ e ∈ contents rows, e.1 < stop) → es ≠ []) ∧ Unbroken start stop rows := by
  induction rows generalizing es with
  | nil =>
    rw [reach, contents_nil, append_nil]
    refine iff_of_true rfl ⟨?_, trivial⟩
    rintro ⟨e, he, -⟩
    exact absurd he not_mem_nil
  | cons row rows ih =>
    rw [reach]
    split
    · next hes =>
        subst hes
        have hnone : (contents (row :: rows)).filter (below stop) = [] ↔
            ∀ e ∈ contents (row :: rows), ¬e.1 < stop := by
          simp only [filter_eq_nil_iff, below, decide_eq_true_iff]
        rw [nil_append, filter_nil, eq_comm, hnone]
        constructor
        · intro hno
          refine ⟨?_, unbroken_of_none hno⟩
          rintro ⟨e, he, hlt⟩
          exact absurd hlt (hno e he)
        · rintro ⟨hno, -⟩ e he hlt
          exact hno ⟨e, he, hlt⟩ rfl
    · next hes =>
        rw [contents_cons] at h
        have hrow : row.2 ≠ [] ↔ ∃ e ∈ row.2, start ≤ e.1 := by
          constructor
          · intro hne
            obtain ⟨e, he⟩ := exists_mem_of_ne_nil _ hne
            exact ⟨e, he, h e (mem_append_left _ he)⟩
          · rintro ⟨e, he, -⟩
            exact ne_nil_of_mem he
        rw [contents_cons, filter_append, filter_append es, append_cancel_left_eq,
          ih fun e he => h e (mem_append_right _ he), hrow]
        exact ⟨fun hun => ⟨fun _ => hes, hun⟩, fun hun => hun.2⟩

/-- The leaf of `start` and the leaves behind it are unbroken. -/
def UnbrokenFrom (t : BPlusTree) (rows : List Row) (start stop : Bytes) : Prop :=
  ∃ root r₁ row r₂, t.pages t.rootPageId = some root ∧
    t.findLeaf start t.nextPageId root.pageId root = .ok (some row.1) ∧
    rows = r₁ ++ row :: r₂ ∧ Unbroken start stop (row :: r₂)

/-- The leaf of the page is at one place of the row. -/
theorem WellFormed.row_unique {r₁ r₂ s₁ s₂ : List Row} {c : PageId}
    {fs : List Entry} (h : WellFormed t rows) (hr : rows = r₁ ++ (c, es) :: r₂)
    (hs : rows = s₁ ++ (c, fs) :: s₂) : es = fs ∧ r₂ = s₂ := by
  have hmem : (c, es) ∈ rows := by simp [hr]
  have hmem' : (c, fs) ∈ rows := by simp [hs]
  cases inj_on_of_nodup_map h.nodup hmem hmem' rfl
  have hnodup : (r₁ ++ (c, es) :: r₂).Nodup := hr ▸ h.nodup.of_map
  obtain ⟨-, hcons, hdisj⟩ := nodup_append'.mp hnodup
  have hout : (c, es) ∉ r₁ := fun hin => hdisj hin mem_cons_self
  have heq := (append_cons_inj_of_notMem hout (nodup_cons.mp hcons).1).mp (hr.symm.trans hs)
  exact ⟨rfl, heq.2.2⟩

theorem WellFormed.compare {r₁ r₂ : List Row} (h : WellFormed t rows)
    {root : BTreePage} {c : PageId} (hroot : t.pages t.rootPageId = some root)
    (hfind : t.findLeaf start t.nextPageId root.pageId root = .ok (some c))
    (hrows : rows = r₁ ++ (c, es) :: r₂) (hl : ∀ e ∈ contents r₁, e.1 < start)
    (hr : ∀ e ∈ contents r₂, start < e.1) : t.intoRange start stop = t.rangeSearch start stop ↔
      Unbroken start stop ((c, es) :: r₂) := by
  have hsorted := h.sorted
  rw [hrows, contents_append, contents_cons] at hsorted
  obtain ⟨-, hsorted, -⟩ := pairwise_append.mp hsorted
  obtain ⟨hes, -, -⟩ := pairwise_append.mp hsorted
  have hmono := hes.imp (S := fun a b => b.1 < start → a.1 < start)
    fun hlt hlt' => hlt.trans hlt'
  obtain ⟨as, bs, rfl, has, hbs⟩ := exists_split (fun e : Entry => e.1 < start) hmono
  have hbs : ∀ b ∈ bs, start ≤ b.1 := fun b hb => not_lt.mp (hbs b hb)
  have hin : (contents rows).filter (InRange start stop) =
      (bs ++ contents r₂).filter (below stop) := by
    have hnone : ∀ {l : List Entry}, (∀ e ∈ l, e.1 < start) →
        l.filter (InRange start stop) = [] := by
      intro l hlt
      rw [filter_eq_nil_iff]
      intro e he
      simp [InRange, hlt e he]
    have hsome : ∀ {l : List Entry}, (∀ e ∈ l, start ≤ e.1) →
        l.filter (InRange start stop) = l.filter (below stop) := by
      intro l hle
      refine filter_congr fun e he => ?_
      simp [InRange, below, hle e he]
    rw [hrows, contents_append, contents_cons, append_assoc]
    simp only [filter_append]
    rw [hnone hl, hnone has, hsome hbs, hsome fun e he => (hr e he).le]
    rfl
  have hbs' : bs ≠ [] ↔ ∃ e ∈ as ++ bs, start ≤ e.1 := by
    constructor
    · intro hne
      obtain ⟨e, he⟩ := exists_mem_of_ne_nil _ hne
      exact ⟨e, mem_append_right _ he, hbs e he⟩
    · rintro ⟨e, he, hle⟩
      rcases mem_append.mp he with he | he
      · exact absurd hle (not_le.mpr (has e he))
      · exact ne_nil_of_mem he
  have hfilter : (reach bs r₂).filter (below stop) = _ ↔ _ ∧ _ :=
    filter_reach_iff fun e he => (hr e he).le
  rw [h.intoRange hroot hfind hrows has hbs, h.rangeSearch, hin,
    takeWhile_below, Except.ok.injEq, hfilter, hbs']
  · rfl
  · rw [append_assoc] at hsorted
    obtain ⟨-, hsorted, -⟩ := pairwise_append.mp hsorted
    exact hsorted.sublist (reach_sublist bs r₂)

theorem intoRange_eq_rangeSearch_iff {rows : List Row} (h : WellFormed t rows)
    (start stop : Bytes) : t.intoRange start stop = t.rangeSearch start stop ↔
      UnbrokenFrom t rows start stop := by
  obtain ⟨root, r₁, c, es, r₂, hroot, hfind, hrows, hl, hr⟩ := h.findLeaf start
  rw [h.compare hroot hfind hrows hl hr]
  constructor
  · exact fun hun => ⟨root, r₁, (c, es), r₂, hroot, hfind, hrows, hun⟩
  · rintro ⟨root', s₁, ⟨c', fs⟩, s₂, hroot', hfind', hrows', hun⟩
    cases hroot'.symm.trans hroot
    cases hfind'.symm.trans hfind
    obtain ⟨rfl, rfl⟩ := h.row_unique hrows hrows'
    exact hun

end Compare

/-- The cursor stops at once: the leaf of `[2]` has no key at or above it. -/
theorem intoRange_misses_next_leaf : ¬∀ (t : BPlusTree) (rows : List Row), WellFormed t rows →
      ∀ start stop, t.intoRange start stop = t.rangeSearch start stop := by
  intro h
  obtain ⟨t, root, hw, hroot, hfind⟩ := exists_twoLeaves
  have hiff : t.intoRange [2] [9] = t.rangeSearch [2] [9] ↔ _ :=
    hw.compare hroot (hfind [2] (by decide)) (nil_append _).symm nofun
      (by decide)
  have hun := hiff.mp (h t _ hw [2] [9])
  obtain ⟨e, he, hle⟩ := hun.1 (by decide)
  cases mem_singleton.mp he
  exact absurd hle (by decide)

theorem intoRange_eq_rangeSearch_iff_twoLeaves :
    ∃ t rows, WellFormed t rows ∧ UnbrokenFrom t rows [1] [9] ∧
      (t.intoRange [1] [9] = t.rangeSearch [1] [9] ↔
        UnbrokenFrom t rows [1] [9]) := by
  obtain ⟨t, root, hw, hroot, hfind⟩ := exists_twoLeaves
  refine ⟨t, _, hw, ⟨root, [], _, _, hroot, hfind [1] (by decide), rfl, ?_⟩,
    intoRange_eq_rangeSearch_iff hw [1] [9]⟩
  refine ⟨fun _ => ⟨_, mem_singleton_self _, le_refl _⟩, ?_, trivial⟩
  rintro ⟨e, he, -⟩
  exact absurd he not_mem_nil

end RGraph.Index
