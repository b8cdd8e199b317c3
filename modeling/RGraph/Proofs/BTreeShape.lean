import RGraph.Lib.Fences
import RGraph.Proofs.BTreeNode

/-!
# Well-formed trees

The pages below a page make a tree of some depth: `Subtree` reads them as the
row of leaves at the bottom, with the fences between which their entries are.
All leaves are at the same depth, and the separators of a branch are the fences
of its children. `WellFormed` adds that each leaf names the next one in the row
as its sibling, and the last one names none.

A walk down follows, in each branch, the child behind the separators that a
test accepts. What the separators say about the entries on either side of that
child holds at the leaf as well, and that is all that a search or a scan has
to know about the way down.
-/

namespace RGraph.Index

open RGraph.Lib RGraph.Storage List

/-- A leaf: its page and its entries. -/
abbrev Row := PageId × List Entry

/-- What a tree holds, in key order. -/
def contents (rows : List Row) : List Entry := (rows.map Prod.snd).flatten

@[simp] theorem contents_nil : contents [] = [] := rfl

@[simp] theorem contents_cons (row : Row) (rows : List Row) :
    contents (row :: rows) = row.2 ++ contents rows := rfl

@[simp] theorem contents_append (r₁ r₂ : List Row) :
    contents (r₁ ++ r₂) = contents r₁ ++ contents r₂ := by
  simp [contents]

mutual

/-- The tree of the given depth below a page, its keys in `[lo, hi)`. -/
inductive Subtree (pages : PageId → Option BTreePage) :
    Nat → Bound Bytes → Bound Bytes → PageId → List Row → Prop
  | leaf {lo hi : Bound Bytes} {id : PageId} {es : List Entry}
      {page : BTreePage} (hpage : pages id = some page)
      (hleaf : LeafPage page id es) (hw : Within lo es hi) (hlt : lo < hi) :
      Subtree pages 0 lo hi id [(id, es)]
  | branch {d : Nat} {lo hi : Bound Bytes} {id : PageId} {seps : List Bytes}
      {children : List PageId} {rows : List Row} {page : BTreePage}
      (hpage : pages id = some page)
      (hbranch : BranchPage page id seps children)
      (hchildren : Children pages d lo hi seps children rows) :
      Subtree pages (d + 1) lo hi id rows

/-- The trees below the children of a branch. -/
inductive Children (pages : PageId → Option BTreePage) :
    Nat → Bound Bytes → Bound Bytes → List Bytes → List PageId → List Row → Prop
  | last {d : Nat} {lo hi : Bound Bytes} {c : PageId} {rows : List Row}
      (hsub : Subtree pages d lo hi c rows) :
      Children pages d lo hi [] [c] rows
  | cons {d : Nat} {lo hi : Bound Bytes} {s : Bytes} {seps : List Bytes}
      {c : PageId} {cs : List PageId} {rows rows' : List Row}
      (hsub : Subtree pages d lo (fence s) c rows)
      (hrest : Children pages d (fence s) hi seps cs rows') :
      Children pages d lo hi (s :: seps) (c :: cs) (rows ++ rows')

end

section Ranges

variable {pages : PageId → Option BTreePage} {d : Nat} {lo hi : Bound Bytes}
  {id : PageId} {seps : List Bytes} {children : List PageId}
  {rows : List Row}

theorem Children.within_of (ih : ∀ {lo hi : Bound Bytes} {id : PageId} {rows : List Row},
      Subtree pages d lo hi id rows → Within lo (contents rows) hi ∧ lo < hi)
    (h : Children pages d lo hi seps children rows) : Within lo (contents rows) hi ∧ lo < hi := by
  induction seps generalizing lo children rows with
  | nil =>
    cases h with
    | last hsub => exact ih hsub
  | cons s seps ihs =>
    cases h with
    | cons hsub hrest =>
      obtain ⟨hw, hlt⟩ := ih hsub
      obtain ⟨hw', hlt'⟩ := ihs hrest
      rw [contents_append]
      exact ⟨hw.append hw' hlt.le hlt'.le, hlt.trans hlt'⟩

/-- The entries of a subtree are in order and between its fences. -/
theorem Subtree.within (h : Subtree pages d lo hi id rows) :
    Within lo (contents rows) hi ∧ lo < hi := by
  induction d generalizing lo hi id rows with
  | zero =>
    cases h with
    | leaf hpage hleaf hw hlt =>
      rw [contents_cons, contents_nil, append_nil]
      exact ⟨hw, hlt⟩
  | succ d ih =>
    cases h with
    | branch hpage hbranch hchildren => exact hchildren.within_of ih

theorem Children.within (h : Children pages d lo hi seps children rows) :
    Within lo (contents rows) hi ∧ lo < hi :=
  h.within_of Subtree.within

theorem Children.lt_sep (h : Children pages d lo hi seps children rows) :
    ∀ s ∈ seps, lo < fence s := by
  induction seps generalizing lo children rows with
  | nil => exact fun s hs => absurd hs not_mem_nil
  | cons s seps ih =>
    cases h with
    | cons hsub hrest =>
      intro s' hs'
      rcases mem_cons.mp hs' with rfl | hs'
      · exact hsub.within.2
      · exact hsub.within.2.trans (ih hrest s' hs')

theorem Children.sorted (h : Children pages d lo hi seps children rows) :
    seps.Pairwise (· < ·) := by
  induction seps generalizing lo children rows with
  | nil => exact List.Pairwise.nil
  | cons s seps ih =>
    cases h with
    | cons hsub hrest =>
      exact pairwise_cons.mpr ⟨fun s' hs' => fence_lt_fence.mp (hrest.lt_sep s' hs'), ih hrest⟩

theorem Subtree.exists_page (h : Subtree pages d lo hi id rows) : ∃ page, pages id = some page := by
  cases h with
  | leaf hpage hleaf hw hlt => exact ⟨_, hpage⟩
  | branch hpage hbranch hchildren => exact ⟨_, hpage⟩

theorem Subtree.pageId_eq (h : Subtree pages d lo hi id rows)
    {page : BTreePage} (hp : pages id = some page) : page.pageId = id := by
  cases h with
  | leaf hpage hleaf hw hlt =>
    cases hpage.symm.trans hp
    exact hleaf.holds.id
  | branch hpage hbranch hchildren =>
    cases hpage.symm.trans hp
    exact hbranch.holds.id

theorem Children.leaves_of (ih : ∀ {lo hi : Bound Bytes} {id : PageId} {rows : List Row},
      Subtree pages d lo hi id rows → ∀ row ∈ rows, ∃ page,
        pages row.1 = some page ∧ LeafPage page row.1 row.2)
    (h : Children pages d lo hi seps children rows) : ∀ row ∈ rows, ∃ page,
      pages row.1 = some page ∧ LeafPage page row.1 row.2 := by
  induction seps generalizing lo children rows with
  | nil =>
    cases h with
    | last hsub => exact ih hsub
  | cons s seps ihs =>
    cases h with
    | cons hsub hrest =>
      intro row hrow
      rcases mem_append.mp hrow with hrow | hrow
      · exact ih hsub row hrow
      · exact ihs hrest row hrow

/-- The row is made of leaf pages. -/
theorem Subtree.leaves (h : Subtree pages d lo hi id rows) : ∀ row ∈ rows, ∃ page,
      pages row.1 = some page ∧ LeafPage page row.1 row.2 := by
  induction d generalizing lo hi id rows with
  | zero =>
    cases h with
    | leaf hpage hleaf hw hlt =>
      intro row hrow
      cases mem_singleton.mp hrow
      exact ⟨_, hpage, hleaf⟩
  | succ d ih =>
    cases h with
    | branch hpage hbranch hchildren => exact hchildren.leaves_of ih

/-- The child behind the separators `s₁`. What is left of it is below one of
them, and what is right of it is not below one of the others. -/
theorem Children.at {s₁ s₂ : List Bytes} (h : Children pages d lo hi (s₁ ++ s₂) children rows) :
    ∃ c₁ c c₂ r₁ r r₂ l u, children = c₁ ++ c :: c₂ ∧
      s₁.length = c₁.length ∧ rows = r₁ ++ (r ++ r₂) ∧ Subtree pages d l u c r ∧
      (∀ e ∈ contents r₁, ∃ s ∈ s₁, e.1 < s) ∧ ∀ e ∈ contents r₂, ∃ s ∈ s₂, s ≤ e.1 := by
  induction s₁ generalizing lo children rows with
  | nil =>
    rw [nil_append] at h
    cases h with
    | last hsub =>
      exact ⟨[], _, [], [], _, [], _, _, rfl, rfl, (append_nil _).symm, hsub, nofun, nofun⟩
    | cons hsub hrest =>
      refine ⟨[], _, _, [], _, _, _, _, rfl, rfl, rfl, hsub, nofun,
        fun e he => ⟨_, mem_cons_self, ?_⟩⟩
      exact fence_le_fence.mp (hrest.within.1.lower e he)
  | cons s s₁ ih =>
    rw [cons_append] at h
    cases h with
    | cons hsub hrest =>
      obtain ⟨c₁, c, c₂, r₁, r, r₂, l, u, rfl, hlen, rfl, hc, hl, hr⟩ := ih hrest
      refine ⟨_ :: c₁, c, c₂, _ ++ r₁, r, r₂, l, u, rfl, ?_,
        (append_assoc ..).symm, hc, fun e he => ?_, hr⟩
      · rw [length_cons, length_cons, hlen]
      · rw [contents_append] at he
        rcases mem_append.mp he with he | he
        · exact ⟨s, mem_cons_self, fence_lt_fence.mp (hsub.within.1.upper e he)⟩
        · obtain ⟨s', hs', hlt⟩ := hl e he
          exact ⟨s', mem_cons_of_mem _ hs', hlt⟩

end Ranges

/-! ## Searching -/

section Search

variable {t : BPlusTree} {d : Nat} {lo hi : Bound Bytes} {id : PageId}
  {rows : List Row}

/-- The walk down to a key. Left of the leaf the keys are smaller, and right
of it they are larger. -/
theorem Subtree.findLeaf (h : Subtree t.pages d lo hi id rows) (key : Bytes)
    {rounds : Nat} (hd : d ≤ rounds) {page : BTreePage} (hp : t.pages id = some page) :
    ∃ r₁ c es r₂ l u, t.findLeaf key rounds id page = .ok (some c) ∧
      rows = r₁ ++ (c, es) :: r₂ ∧ Subtree t.pages 0 l u c [(c, es)] ∧
      (∀ e ∈ contents r₁, e.1 < key) ∧ ∀ e ∈ contents r₂, key < e.1 := by
  induction d generalizing lo hi id rows rounds page with
  | zero =>
    cases h with
    | leaf hpage hleaf hw hlt =>
      cases hpage.symm.trans hp
      have hno : ¬ page.isBranch = true := by
        rw [hleaf.holds.isBranch]
        exact Bool.false_ne_true
      refine ⟨[], id, _, [], lo, hi, ?_, rfl, .leaf hpage hleaf hw hlt, nofun, nofun⟩
      cases rounds with
      | zero => rw [BPlusTree.findLeaf, if_neg hno]
      | succ rounds => rw [BPlusTree.findLeaf, if_neg hno]
  | succ d ih =>
    cases h with
    | branch hpage hbranch hchildren =>
      cases hpage.symm.trans hp
      have hmono := hchildren.sorted.imp (S := fun a b => b ≤ key → a ≤ key)
        fun hlt hle => hlt.le.trans hle
      obtain ⟨s₁, s₂, hs, h₁, h₂⟩ := exists_split (· ≤ key) hmono
      subst hs
      obtain ⟨c₁, c, c₂, r₁, r, r₂, l, u, hc, hlen, rfl, hsub, hl, hr⟩ := hchildren.at
      have h₂ : ∀ s ∈ s₂, key < s := fun s hs => not_le.mp (h₂ s hs)
      obtain ⟨page', hpage'⟩ := hsub.exists_page
      obtain ⟨rounds, rfl⟩ : ∃ n, rounds = n + 1 := ⟨rounds - 1, by omega⟩
      obtain ⟨r₁', c', es, r₂', l', u', hfind, rfl, hleaf, hl', hr'⟩ :=
        ih hsub (Nat.le_of_succ_le_succ hd) hpage'
      refine ⟨r₁ ++ r₁', c', es, r₂' ++ r₂, l', u', ?_, ?_, hleaf,
        fun e he => ?_, fun e he => ?_⟩
      · rw [BPlusTree.findLeaf, if_pos (by rw [hbranch.holds.isBranch]; rfl),
          hbranch.branchSlot rfl hc hlen h₁ h₂, Res.ok_bind]
        dsimp only
        rw [hpage']
        exact hfind
      · simp only [append_assoc, cons_append]
      · rw [contents_append] at he
        rcases mem_append.mp he with he | he
        · obtain ⟨s, hs, hlt⟩ := hl e he
          exact hlt.trans_le (h₁ s hs)
        · exact hl' e he
      · rw [contents_append] at he
        rcases mem_append.mp he with he | he
        · exact hr' e he
        · obtain ⟨s, hs, hle⟩ := hr e he
          exact (h₂ s hs).trans_le hle

/-- What a search finds: the place of the key, or that it is nowhere. -/
theorem Subtree.search (h : Subtree t.pages d lo hi t.rootPageId rows)
    (hd : d ≤ t.nextPageId) (key : Bytes) : (∃ c i page es v, t.search key = .ok (some (c, i)) ∧
      t.pages c = some page ∧ LeafPage page c es ∧ es[i]? = some (key, v) ∧
      (key, v) ∈ contents rows) ∨
    (t.search key = .ok none ∧ ∀ v, (key, v) ∉ contents rows) := by
  obtain ⟨root, hroot⟩ := h.exists_page
  obtain ⟨r₁, c, es, r₂, l, u, hfind, rfl, hsub, hl, hr⟩ := h.findLeaf key hd hroot
  cases hsub with
  | leaf hpage hleaf hw hlt =>
    obtain ⟨as, bs, rfl, has, hbs⟩ := hw.cut key
    have hget : (as ++ bs)[as.length]? = bs.head? := by
      rw [List.getElem?_append_right (Nat.le_refl _), Nat.sub_self, List.head?_eq_getElem?]
    have hsearch : t.search key = .ok
        (if bs.head?.map Prod.fst = some key then some (c, as.length)
          else none) := by
      simp only [BPlusTree.search, hroot, h.pageId_eq hroot, hfind,
        Res.ok_bind, hpage, hleaf.leafLowerBound rfl has hbs, hleaf.leafKey,
        hget]
      split <;> rfl
    have hmem : ∀ v, (key, v) ∈ contents (r₁ ++ (c, as ++ bs) :: r₂) ↔
        bs.head? = some (key, v) := by
      intro v
      rw [← hw.mem_key_iff has hbs v, contents_append, contents_cons]
      constructor
      · intro he
        rcases mem_append.mp he with he | he
        · exact absurd (hl _ he) (lt_irrefl key)
        · rcases mem_append.mp he with he | he
          · exact he
          · exact absurd (hr _ he) (lt_irrefl key)
      · exact fun he => mem_append_right _ (mem_append_left _ he)
    by_cases hkey : bs.head?.map Prod.fst = some key
    · left
      obtain ⟨⟨k, v⟩, hhead, rfl⟩ := Option.map_eq_some_iff.mp hkey
      rw [if_pos hkey] at hsearch
      exact ⟨c, as.length, _, _, v, hsearch, hpage, hleaf, hget.trans hhead, (hmem v).mpr hhead⟩
    · right
      rw [if_neg hkey] at hsearch
      refine ⟨hsearch, fun v hv => hkey ?_⟩
      rw [(hmem v).mp hv]
      rfl

end Search

/-! ## The row of leaves -/

/-- Each leaf names the next one, and the last one names none. -/
def Chained (pages : PageId → Option BTreePage) : List Row → Prop
  | [] => True
  | row :: rows =>
    (∃ page, pages row.1 = some page ∧ page.btreeHeader.siblingNext = rows.head?.elim 0 Prod.fst) ∧
    row.1 ≠ 0 ∧ Chained pages rows

structure WellFormed (t : BPlusTree) (rows : List Row) : Prop where
  subtree : ∃ d, d < t.nextPageId ∧ Subtree t.pages d ⊥ ⊤ t.rootPageId rows
  chained : Chained t.pages rows
  nodup : (rows.map Prod.fst).Nodup
  ids : ∀ c ∈ rows.map Prod.fst, c < t.nextPageId

theorem Chained.of_append {pages : PageId → Option BTreePage} :
    ∀ {r₁ r₂ : List Row}, Chained pages (r₁ ++ r₂) → Chained pages r₂
  | [], _, h => h
  | _ :: _, _, h => Chained.of_append h.2.2

theorem WellFormed.length_le {t : BPlusTree} {rows : List Row}
    (h : WellFormed t rows) : rows.length ≤ t.nextPageId := by
  have hsub : (rows.map Prod.fst).Subperm (List.range t.nextPageId) :=
    subperm_of_subset h.nodup fun c hc => mem_range.mpr (h.ids c hc)
  have hle := hsub.length_le
  rwa [length_map, length_range] at hle

/-- The tree is the ordered map with these entries. -/
def Represents (t : BPlusTree) (es : List Entry) : Prop :=
  ∃ rows, WellFormed t rows ∧ contents rows = es

/-- The tree is this map. -/
def Denotes (t : BPlusTree) (m : Bytes → Option Bytes) : Prop :=
  ∃ es, Represents t es ∧ ∀ k v, (k, v) ∈ es ↔ m k = some v

/-- The call inserts into the map. -/
def InsertsOk (t : BPlusTree) (key value : Bytes) : Prop :=
  ∀ m, Denotes t m → ∃ t', insertLocked key value t = .ok (.ok (), t') ∧
    Denotes t' (Function.update m key (some value))

/-- The call takes the key out of the map, and says whether it was there. -/
def DeletesOk (t : BPlusTree) (key : Bytes) : Prop :=
  ∀ m, Denotes t m → ∃ t', delete key t = .ok (.ok (m key).isSome, t') ∧
    Denotes t' (Function.update m key none)

/-- The tree is one leaf with these entries. -/
structure LeafTree (t : BPlusTree) (es : List Entry) : Prop where
  page : ∃ page, t.pages t.rootPageId = some page ∧ LeafPage page t.rootPageId es ∧
    page.btreeHeader.siblingNext = 0
  sorted : es.Pairwise fun a b => a.1 < b.1
  id : t.rootPageId ≠ 0
  lt : t.rootPageId < t.nextPageId

theorem leafTree_new (config : BPlusTreeConfig) : LeafTree (.new config) [] :=
  ⟨⟨_, rfl, leafPage_new 1, by
    rw [BTreePage.newLeaf, btreeHeader_blank (valid_new (by decide))]; rfl⟩,
    .nil, Nat.one_ne_zero, Nat.one_lt_two⟩

theorem LeafTree.represents {t : BPlusTree} {es : List Entry} (h : LeafTree t es) :
    Represents t es := by
  obtain ⟨page, hpage, hleaf, hnext⟩ := h.page
  have hw : Within ⊥ es ⊤ := ⟨h.sorted, fun _ _ => bot_le, fun e _ => fence_lt_top e.1⟩
  have hroot : Subtree t.pages 0 ⊥ ⊤ t.rootPageId [(t.rootPageId, es)] :=
    .leaf hpage hleaf hw bot_lt_top
  refine ⟨_, ⟨⟨0, Nat.zero_lt_of_lt h.lt, hroot⟩,
    ⟨⟨page, hpage, hnext⟩, h.id, trivial⟩, by simp, ?_⟩, ?_⟩
  · intro c hc
    cases mem_singleton.mp hc
    exact h.lt
  · rw [contents_cons, contents_nil, append_nil]

/-- A leaf tree is no other map. -/
theorem LeafTree.eq_of_represents {t : BPlusTree} {es es' : List Entry} (h : LeafTree t es)
    (h' : Represents t es') : es' = es := by
  obtain ⟨page, hpage, hleaf, -⟩ := h.page
  obtain ⟨rows, hwf, rfl⟩ := h'
  obtain ⟨d, -, hsub⟩ := hwf.subtree
  cases hsub with
  | leaf hpage' hleaf' hw hlt =>
    cases hpage.symm.trans hpage'
    rw [contents_cons, contents_nil, append_nil]
    refine ext_getElem? fun i => ?_
    have hkey := (hleaf'.holds.key i).symm.trans (hleaf.holds.key i)
    rw [← hleaf'.decode_getElem?, ← hleaf.decode_getElem?, Except.ok.inj hkey]
  | branch hpage' hbranch hchildren =>
    cases hpage.symm.trans hpage'
    cases hbranch.holds.type.symm.trans hleaf.holds.type

theorem Represents.sorted {t : BPlusTree} {es : List Entry}
    (h : Represents t es) : es.Pairwise fun a b => a.1 < b.1 := by
  obtain ⟨rows, hwf, rfl⟩ := h
  obtain ⟨d, -, hsub⟩ := hwf.subtree
  exact hsub.within.1.sorted

end RGraph.Index
