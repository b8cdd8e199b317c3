import RGraph.Index.RdfStore
import RGraph.Lib.Run
import RGraph.Proofs.BTree

/-!
# Scans of the RDF triple index

A pattern binds some of the fields of a triple. For each of the eight choices
there is an order in which the bound fields come first, so the triples that
match are those whose key in that order starts with the bytes of the bound
fields.

On a well-formed tree a scan finds exactly the entries that start with given
bytes: left of the leaf where it starts all keys are smaller, and from there on
it looks at every entry. So as long as the three trees do what maps do, they
hold the same triples, and the scans return them in their roles.
-/

namespace RGraph.Index

open RGraph.Lib RGraph.Storage RGraph.Graph Call List Function

/-! ## Keys and values -/

/-- A number at the front of a key. -/
theorem natToBE_append_startsWith {w a b : Nat} (ha : a < 256 ^ w)
    (hb : b < 256 ^ w) {xs ys : Bytes} :
    natToBE w a ++ xs <+: natToBE w b ++ ys ↔ a = b ∧ xs <+: ys := by
  constructor
  · rintro ⟨zs, hzs⟩
    rw [append_assoc] at hzs
    obtain ⟨hab, hxs⟩ := append_inj hzs (by simp)
    refine ⟨?_, zs, hxs⟩
    rw [← beToNat_natToBE w a ha, hab, beToNat_natToBE w b hb]
  · rintro ⟨rfl, hxs⟩
    exact (prefix_append_right_inj _).mpr hxs

theorem RdfTriple.bounds (t : RdfTriple) : t.subject.toNat < 256 ^ 16 ∧
    t.predicate.toNat < 256 ^ 8 ∧ t.object.toNat < 256 ^ 16 :=
  ⟨t.subject.isLt, t.predicate.toNat_lt, t.object.isLt⟩

namespace Permutation

@[simp] theorem length_key (perm : Permutation) (t : RdfTriple) : (perm.key t).length = 40 := by
  cases perm <;> simp [key, rdfSpoKey, rdfPosKey, rdfOspKey]

/-- A key of three fields, read field by field. -/
theorem field_three {w₁ w₂ w₃ a b c : Nat} (ha : a < 256 ^ w₁)
    (hb : b < 256 ^ w₂) (hc : c < 256 ^ w₃) :
    let key := natToBE w₁ a ++ (natToBE w₂ b ++ natToBE w₃ c)
    field key 0 w₁ = a ∧ field key w₁ w₂ = b ∧ field key (w₁ + w₂) w₃ = c := by
  intro key
  have hfirst : key.take w₁ = natToBE w₁ a := take_left' (length_natToBE _ _)
  have hrest : key.drop w₁ = natToBE w₂ b ++ natToBE w₃ c := drop_left' (length_natToBE _ _)
  refine ⟨?_, ?_, ?_⟩
  · rw [field, drop_zero, hfirst, beToNat_natToBE w₁ a ha]
  · rw [field, hrest, take_left' (length_natToBE _ _), beToNat_natToBE w₂ b hb]
  · rw [field, ← drop_drop, hrest, drop_left' (length_natToBE _ _),
      take_of_length_le (by rw [length_natToBE]),
      beToNat_natToBE w₃ c hc]

/-- Every field is read back in its role. -/
theorem decodeTriple_key (perm : Permutation) (t : RdfTriple) :
    perm.decodeTriple (perm.key t) = some t := by
  obtain ⟨hs, hp, ho⟩ := t.bounds
  rw [decodeTriple.eq_def, if_neg (by rw [length_key]; decide)]
  cases perm with
  | spo =>
    obtain ⟨h₁, h₂, h₃⟩ := field_three hs hp ho
    simp only [key, rdfSpoKey, h₁, h₂, h₃, BitVec.ofNat_toNat,
      BitVec.setWidth_eq, UInt64.ofNat_toNat]
  | pos =>
    obtain ⟨h₁, h₂, h₃⟩ := field_three hp ho hs
    simp only [key, rdfPosKey, h₁, h₂, h₃, BitVec.ofNat_toNat,
      BitVec.setWidth_eq, UInt64.ofNat_toNat]
  | osp =>
    obtain ⟨h₁, h₂, h₃⟩ := field_three ho hs hp
    simp only [key, rdfOspKey, h₁, h₂, h₃, BitVec.ofNat_toNat,
      BitVec.setWidth_eq, UInt64.ofNat_toNat]

theorem key_inj {perm : Permutation} {t t' : RdfTriple}
    (h : perm.key t = perm.key t') : t = t' := by
  have hdec := perm.decodeTriple_key t
  rw [h, decodeTriple_key, Option.some.injEq] at hdec
  exact hdec.symm

end Permutation

theorem decodeRdfBytes_encode (v : RdfValue) : decodeRdfBytes (encodeRdfValue v) = some v := by
  obtain ⟨⟨raw⟩, graph⟩ := v
  have hraw : beToNat ((natToBE 4 raw.toNat).take 4) = raw.toNat := by
    rw [take_of_length_le (by rw [length_natToBE]), beToNat_natToBE 4 _ raw.toNat_lt]
  cases graph with
  | none => simp [decodeRdfBytes, encodeRdfValue, hraw]
  | some g =>
    have hg : beToNat ((natToBE 8 g.toNat).take 8) = g.toNat := by
      rw [take_of_length_le (by rw [length_natToBE]), beToNat_natToBE 8 _ g.toNat_lt]
    have htake : (natToBE 4 raw.toNat ++ natToBE 8 g.toNat).take 4 = _ :=
      take_left' (length_natToBE 4 raw.toNat)
    simp only [decodeRdfBytes, encodeRdfValue, Option.elim_some,
      length_append, length_natToBE, htake]
    simp [hg, beToNat_natToBE 4 _ raw.toNat_lt]

theorem decodeKeyAndValue_encode (perm : Permutation) (t : RdfTriple) (v : RdfValue) :
    decodeKeyAndValue perm (perm.key t) (encodeRdfValue v) = some (t, v) := by
  rw [decodeKeyAndValue, perm.decodeTriple_key, decodeRdfBytes_encode]
  rfl

/-! ## Patterns -/

/-- Some fields are bound. -/
structure Pattern where
  subject : Option (BitVec 128)
  predicate : Option UInt64
  object : Option (BitVec 128)

namespace Pattern

def Matches (q : Pattern) (t : RdfTriple) : Prop :=
  (∀ s ∈ q.subject, t.subject = s) ∧ (∀ p ∈ q.predicate, t.predicate = p) ∧
    ∀ o ∈ q.object, t.object = o

/-- The order in which the bound fields come first. -/
def order (q : Pattern) : Permutation :=
  match q.subject, q.predicate, q.object with
  | some _, none, some _ => .osp
  | some _, _, _ => .spo
  | none, some _, _ => .pos
  | none, none, some _ => .osp
  | none, none, none => .spo

/-- The bytes of the bound fields, in that order. -/
def start (q : Pattern) : Bytes :=
  let s := q.subject.elim [] fun s => natToBE 16 s.toNat
  let p := q.predicate.elim [] fun p => natToBE 8 p.toNat
  let o := q.object.elim [] fun o => natToBE 16 o.toNat
  match q.order with
  | .spo => s ++ (p ++ o)
  | .pos => p ++ (o ++ s)
  | .osp => o ++ (s ++ p)

theorem entity_append_startsWith {a b : BitVec 128} {xs ys : Bytes} :
    natToBE 16 a.toNat ++ xs <+: natToBE 16 b.toNat ++ ys ↔ b = a ∧ xs <+: ys := by
  rw [natToBE_append_startsWith a.isLt b.isLt, BitVec.toNat_inj, eq_comm]

theorem predicate_append_startsWith {a b : UInt64} {xs ys : Bytes} :
    natToBE 8 a.toNat ++ xs <+: natToBE 8 b.toNat ++ ys ↔ b = a ∧ xs <+: ys := by
  rw [natToBE_append_startsWith a.toNat_lt b.toNat_lt, UInt64.toNat_inj, eq_comm]

theorem startsWith_iff (q : Pattern) (t : RdfTriple) : q.start <+: q.order.key t ↔ q.Matches t := by
  obtain ⟨s, p, o⟩ := q
  -- The last field of a key has no bytes behind it.
  have hlast (a b : BitVec 128) : natToBE 16 a.toNat <+: natToBE 16 b.toNat ↔ b = a := by
    rw [← append_nil (natToBE 16 a.toNat),
      ← append_nil (natToBE 16 b.toNat), entity_append_startsWith,
      and_iff_left nil_prefix]
  cases s <;> cases p <;> cases o <;>
    simp only [start, order, Matches, Permutation.key, rdfSpoKey, rdfPosKey,
      rdfOspKey, Option.elim_none, Option.elim_some, nil_append,
      entity_append_startsWith, predicate_append_startsWith, hlast,
      nil_prefix, Option.mem_def, reduceCtorEq, Option.some.injEq,
      forall_eq', false_imp_iff, forall_const, and_true, true_and, and_comm]

/-! The bytes that the scans of the store ask for. -/

theorem take_rdfSpoKey_pair (a : BitVec 128) (p : UInt64) : (rdfSpoKey a.toNat p.toNat 0).take 24 =
      (⟨some a, some p, none⟩ : Pattern).start := by
  rw [rdfSpoKey, ← append_assoc, take_left' (by simp only [length_append, length_natToBE])]
  simp only [start, order, Option.elim_some, Option.elim_none, append_nil]

theorem take_rdfSpoKey (a : BitVec 128) : (rdfSpoKey a.toNat 0 0).take 16 =
      (⟨some a, none, none⟩ : Pattern).start := by
  rw [rdfSpoKey, take_left' (length_natToBE _ _)]
  simp only [start, order, Option.elim_some, Option.elim_none, append_nil]

theorem take_rdfPosKey_pair (p : UInt64) (o : BitVec 128) : (rdfPosKey p.toNat o.toNat 0).take 24 =
      (⟨none, some p, some o⟩ : Pattern).start := by
  rw [rdfPosKey, ← append_assoc, take_left' (by simp only [length_append, length_natToBE])]
  simp only [start, order, Option.elim_some, Option.elim_none, append_nil]

theorem take_rdfOspKey (o : BitVec 128) : (rdfOspKey o.toNat 0 0).take 16 =
      (⟨none, none, some o⟩ : Pattern).start := by
  rw [rdfOspKey, take_left' (length_natToBE _ _)]
  simp only [start, order, Option.elim_some, Option.elim_none, append_nil]

end Pattern

/-! ## The way down to the first match -/

theorem BranchPage.branchChild {p : BTreePage} {id : PageId} {seps : List Bytes}
    {children : List PageId} (h : BranchPage p id seps children)
    {s₁ s₂ : List Bytes} {c₁ c₂ : List PageId} {c : PageId} {start : Bytes}
    (hs : seps = s₁ ++ s₂) (hc : children = c₁ ++ c :: c₂)
    (hlen : s₁.length = c₁.length) (h₁ : ∀ s ∈ s₁, s < start)
    (h₂ : ∀ s ∈ s₂, start ≤ s) : branchChild p start = .ok c := by
  have hb := h.bisect_separators hs (fun s hs => decide_eq_true (h₁ s hs))
    (fun s hs => decide_eq_false (not_lt.mpr (h₂ s hs)))
  obtain ⟨hinner, hlast⟩ := h.child_behind hs hc hlen
  rw [Index.branchChild, hb, Res.ok_bind]
  split
  · next hlt =>
      rw [hinner hlt]
      rfl
  · next hlt => rw [(hlast hlt).1]

/-- The walk ends at a leaf with only smaller keys to its left. -/
theorem Subtree.findLeafFor {t : BPlusTree} {d : Nat} {lo hi : Bound Bytes}
    {id : PageId} {rows : List Row} (h : Subtree t.pages d lo hi id rows)
    (start : Bytes) {rounds : Nat} (hd : d < rounds) :
    ∃ r₁ row r₂, findLeafFor t start rounds id = .ok row.1 ∧
      rows = r₁ ++ row :: r₂ ∧ ∀ e ∈ contents r₁, e.1 < start := by
  induction d generalizing lo hi id rows rounds with
  | zero =>
    obtain ⟨rounds, rfl⟩ : ∃ n, rounds = n + 1 := ⟨rounds - 1, by omega⟩
    cases h with
    | leaf hpage hleaf hw hlt =>
      refine ⟨[], _, [], ?_, rfl, nofun⟩
      rw [Index.findLeafFor, hpage]
      exact if_pos (by rw [hleaf.holds.isLeaf]; rfl)
  | succ d ih =>
    obtain ⟨rounds, rfl⟩ : ∃ n, rounds = n + 1 := ⟨rounds - 1, by omega⟩
    cases h with
    | branch hpage hbranch hchildren =>
      have hmono := hchildren.sorted.imp (S := fun a b => b < start → a < start)
        fun hlt hlt' => hlt.trans hlt'
      obtain ⟨s₁, s₂, rfl, h₁, h₂⟩ := exists_split (· < start) hmono
      obtain ⟨c₁, c, c₂, r₁, r, r₂, l, u, hc, hlen, rfl, hsub, hl, -⟩ := hchildren.at
      obtain ⟨r₁', row, r₂', hfind, rfl, hl'⟩ := ih hsub (Nat.lt_of_succ_lt_succ hd)
      refine ⟨r₁ ++ r₁', row, r₂' ++ r₂, ?_, ?_, fun e he => ?_⟩
      · rw [Index.findLeafFor, hpage]
        dsimp only
        rw [if_neg (by rw [hbranch.holds.isLeaf]; exact Bool.false_ne_true),
          hbranch.branchChild rfl hc hlen h₁ fun s hs => not_lt.mp (h₂ s hs), Res.ok_bind]
        exact hfind
      · simp only [append_assoc, cons_append]
      · rw [contents_append] at he
        rcases mem_append.mp he with he | he
        · obtain ⟨s, hs, hlt⟩ := hl e he
          exact hlt.trans (h₁ s hs)
        · exact hl' e he

/-! ## Along the leaves -/

/-- What a scan makes of an entry. -/
def scanEntry (perm : Permutation) (start : Bytes) (e : Entry) : Option (RdfTriple × RdfValue) :=
  if start.isPrefixOf e.1 then decodeKeyAndValue perm e.1 e.2 else none

section Scan

variable {t : BPlusTree} {perm : Permutation} {start : Bytes}

theorem LeafPage.scanSlots {p : BTreePage} {id : PageId} {es : List Entry}
    (h : LeafPage p id es) : ∀ (n : Nat) {i : Nat}, i + n = es.length → scanSlots perm start p i n =
        .ok ((es.drop i).filterMap (scanEntry perm start)) := by
  intro n
  induction n with
  | zero =>
    intro i hi
    rw [Index.scanSlots, drop_of_length_le (by omega)]
    rfl
  | succ n ih =>
    intro i hi
    have hlt : i < es.length := by omega
    have hrecord : (leafRecords es)[i]? = some (encodeKv es[i].1 es[i].2) := by
      rw [leafRecords, List.getElem?_map, List.getElem?_eq_getElem hlt]
      rfl
    have hsplit : splitRecord (encodeKv es[i].1 es[i].2) = .ok es[i] := by
      rw [splitRecord, decodeKv_encodeKv (h.keys _ (getElem_mem hlt))]
      rfl
    rw [Index.scanSlots, h.holds.key, hrecord, Res.ok_bind]
    dsimp only
    rw [hsplit, Res.ok_bind, ih (by omega), Res.ok_bind,
      drop_eq_getElem_cons hlt, filterMap_cons]
    cases hfound : scanEntry perm start es[i] <;>
      rw [scanEntry] at hfound <;> rw [hfound] <;> rfl

theorem LeafPage.scanLeaves {p : BTreePage} {id : PageId} {es : List Entry}
    (h : LeafPage p id es) (rounds : Nat) {next : PageId}
    (hnext : p.btreeHeader.siblingNext = next) :
    scanLeaves t perm start (rounds + 1) p =
      if next = 0 then .ok (es.filterMap (scanEntry perm start))
      else
        match t.pages next with
        | none => .ok (es.filterMap (scanEntry perm start))
        | some leaf =>
          Index.scanLeaves t perm start rounds leaf >>= fun rest =>
            .ok (es.filterMap (scanEntry perm start) ++ rest) := by
  rw [Index.scanLeaves, h.scanSlots _ (by rw [h.keyCount, Nat.zero_add]),
    Res.ok_bind, drop_zero]
  subst hnext
  rfl

/-- From a leaf of the row on, the scan sees every entry. -/
theorem scanLeaves_row {rows : List Row} {row : Row} {page : BTreePage}
    {rounds : Nat} (hch : Chained t.pages (row :: rows)) (hleaves : ∀ r ∈ row :: rows, ∃ page,
      t.pages r.1 = some page ∧ LeafPage page r.1 r.2)
    (hpage : t.pages row.1 = some page) (hrounds : rows.length < rounds) :
    scanLeaves t perm start rounds page =
      .ok ((contents (row :: rows)).filterMap (scanEntry perm start)) := by
  induction rows generalizing row page rounds with
  | nil =>
    obtain ⟨rounds, rfl⟩ : ∃ n, rounds = n + 1 := ⟨rounds - 1, by omega⟩
    obtain ⟨_, hpage', hleaf⟩ := hleaves row mem_cons_self
    cases hpage'.symm.trans hpage
    obtain ⟨⟨_, hpage', hnext⟩, -, -⟩ := hch
    cases hpage'.symm.trans hpage
    rw [hleaf.scanLeaves rounds hnext, contents_cons, contents_nil, append_nil]
    exact if_pos rfl
  | cons next rows ih =>
    obtain ⟨rounds, rfl⟩ : ∃ n, rounds = n + 1 := ⟨rounds - 1, by omega⟩
    obtain ⟨_, hpage', hleaf⟩ := hleaves row mem_cons_self
    cases hpage'.symm.trans hpage
    obtain ⟨⟨_, hpage', hnext⟩, -, hch⟩ := hch
    cases hpage'.symm.trans hpage
    have hrest := fun r hr => hleaves r (mem_cons_of_mem _ hr)
    obtain ⟨sibling, hsibling, -⟩ := hrest next mem_cons_self
    have hlen : rows.length < rounds := Nat.lt_of_succ_lt_succ hrounds
    have hnext : _ = next.1 := hnext
    rw [hleaf.scanLeaves rounds hnext, if_neg hch.2.1, hsibling]
    dsimp only
    rw [ih hch hrest hsibling hlen, Res.ok_bind, contents_cons row, filterMap_append]

theorem WellFormed.scanPrefix {rows : List Row} (h : WellFormed t rows) : scanPrefix t perm start =
      .ok ((contents rows).filterMap (scanEntry perm start)) := by
  obtain ⟨d, hd, hsub⟩ := h.subtree
  have hlen := h.length_le
  have hch := h.chained
  obtain ⟨root, hroot⟩ := hsub.exists_page
  obtain ⟨r₁, row, r₂, hfind, rfl, hl⟩ := hsub.findLeafFor start hd
  obtain ⟨page, hpage, -⟩ := hsub.leaves row (by simp)
  have hscan : scanLeaves t perm start t.nextPageId page = _ :=
    scanLeaves_row hch.of_append (fun r hr => hsub.leaves r (mem_append_right _ hr)) hpage
      (by rw [length_append, length_cons] at hlen; omega)
  have hnone : (contents r₁).filterMap (scanEntry perm start) = [] := by
    rw [filterMap_eq_nil_iff]
    intro e he
    refine if_neg fun hpre => ?_
    exact absurd (le_of_startsWith ( isPrefixOf_iff_prefix.mp hpre)) (not_le.mpr (hl e he))
  rw [Index.scanPrefix, hroot]
  dsimp only [Option.isNone_some]
  rw [if_neg Bool.false_ne_true, hfind, Res.ok_bind, hpage]
  dsimp only
  rw [hscan, contents_append, filterMap_append, hnone, nil_append]

end Scan

/-! ## One set of triples in three trees -/

/-- What is stored under each triple. -/
abbrev Triples := RdfTriple → Option RdfValue

/-- The map under the keys of an order that holds these triples. -/
def Encodes (perm : Permutation) (stored : Triples) (m : Bytes → Option Bytes) : Prop :=
  ∀ k v, m k = some v ↔ ∃ t w, stored t = some w ∧ perm.key t = k ∧ encodeRdfValue w = v

theorem Encodes.update {perm : Permutation} {stored : Triples}
    {m : Bytes → Option Bytes} (h : Encodes perm stored m) (t : RdfTriple) (x : Option RdfValue) :
    Encodes perm (update stored t x) (update m (perm.key t) (x.map encodeRdfValue)) := by
  intro k v
  by_cases hk : k = perm.key t
  · subst hk
    rw [update_self, Option.map_eq_some_iff]
    constructor
    · rintro ⟨w, hw, rfl⟩
      exact ⟨t, w, by rw [update_self, hw], rfl, rfl⟩
    · rintro ⟨t', w, hw, hkey, rfl⟩
      cases perm.key_inj hkey
      rw [update_self] at hw
      exact ⟨w, hw, rfl⟩
  · rw [update_of_ne hk, h k v]
    have hne {t' : RdfTriple} (hkey : perm.key t' = k) : t' ≠ t := fun heq => hk (hkey ▸ heq ▸ rfl)
    constructor
    · rintro ⟨t', w, hw, hkey, rfl⟩
      exact ⟨t', w, by rw [update_of_ne (hne hkey), hw], hkey, rfl⟩
    · rintro ⟨t', w, hw, hkey, rfl⟩
      rw [update_of_ne (hne hkey)] at hw
      exact ⟨t', w, hw, hkey, rfl⟩

/-- A result is the stored triples that match, each once. -/
def Finds (stored : Triples) (q : Pattern) (result : Res (List (RdfTriple × RdfValue))) : Prop :=
  ∃ found, result = .ok found ∧ (found.map Prod.fst).Nodup ∧
    ∀ t v, (t, v) ∈ found ↔ stored t = some v ∧ q.Matches t

section Tree

variable {t : BPlusTree} {perm : Permutation} {stored : Triples}
  {m : Bytes → Option Bytes} {es : List Entry}

/-- The entries of a tree that encodes these triples. -/
theorem Encodes.mem_iff (h : Encodes perm stored m)
    (hes : ∀ k v, (k, v) ∈ es ↔ m k = some v) (e : Entry) :
    e ∈ es ↔ ∃ t v, stored t = some v ∧ e = (perm.key t, encodeRdfValue v) := by
  obtain ⟨k, v⟩ := e
  rw [hes, h k v]
  constructor
  · rintro ⟨t, w, hw, rfl, rfl⟩
    exact ⟨t, w, hw, rfl⟩
  · rintro ⟨t, w, hw, heq⟩
    cases heq
    exact ⟨t, w, hw, rfl, rfl⟩

theorem scanEntry_encode (start : Bytes) (t : RdfTriple) (v : RdfValue) :
    scanEntry perm start (perm.key t, encodeRdfValue v) =
      if start.isPrefixOf (perm.key t) then some (t, v) else none := by
  rw [scanEntry, decodeKeyAndValue_encode]

theorem Represents.scanPrefix (h : Represents t es) (start : Bytes) :
    scanPrefix t perm start = .ok (es.filterMap (scanEntry perm start)) := by
  obtain ⟨rows, hwf, rfl⟩ := h
  exact hwf.scanPrefix

theorem Represents.finds (h : Represents t es) {q : Pattern} (hes : ∀ e, e ∈ es ↔
      ∃ t v, stored t = some v ∧ e = (q.order.key t, encodeRdfValue v)) :
    Finds stored q (Index.scanPrefix t q.order q.start) := by
  have hmem (t : RdfTriple) (v : RdfValue) :
      (t, v) ∈ es.filterMap (scanEntry q.order q.start) ↔ stored t = some v ∧ q.Matches t := by
    rw [mem_filterMap, ← q.startsWith_iff, ← isPrefixOf_iff_prefix]
    constructor
    · rintro ⟨e, he, hscan⟩
      obtain ⟨t', v', hst, rfl⟩ := (hes e).mp he
      rw [scanEntry_encode, Option.ite_none_right_eq_some] at hscan
      obtain ⟨hpre, heq⟩ := hscan
      cases heq
      exact ⟨hst, hpre⟩
    · rintro ⟨hst, hpre⟩
      refine ⟨_, (hes _).mpr ⟨t, v, hst, rfl⟩, ?_⟩
      rw [scanEntry_encode, if_pos hpre]
  refine ⟨_, h.scanPrefix q.start, ?_, hmem⟩
  -- Two entries have different keys, so they are two triples.
  rw [List.Nodup, pairwise_map, pairwise_filterMap]
  refine h.sorted.imp_of_mem fun {a b} ha hb hlt x hx y hy heq => ?_
  obtain ⟨ta, va, -, rfl⟩ := (hes a).mp ha
  obtain ⟨tb, vb, -, rfl⟩ := (hes b).mp hb
  rw [scanEntry_encode, Option.ite_none_right_eq_some] at hx hy
  obtain ⟨-, hx⟩ := hx
  obtain ⟨-, hy⟩ := hy
  cases hx
  cases hy
  rw [show ta = tb from heq] at hlt
  exact lt_irrefl _ hlt

theorem LeafPage.decodeRdfValue {p : BTreePage} {id : PageId}
    (h : LeafPage p id es) {i : Nat} {k v : Bytes} (hi : es[i]? = some (k, v)) :
    decodeRdfValue p i = .ok (decodeRdfBytes v) := by
  have hrecord : (leafRecords es)[i]? = some (encodeKv k v) := by
    rw [leafRecords, List.getElem?_map, hi]
    rfl
  have hsplit : splitRecord (encodeKv k v) = .ok (k, v) := by
    rw [splitRecord, decodeKv_encodeKv (h.keys _ (mem_of_getElem? hi))]
    rfl
  rw [Index.decodeRdfValue, h.holds.key, hrecord, Res.ok_bind]
  dsimp only
  rw [hsplit, Res.ok_bind]

end Tree

/-! ## Runs -/

inductive RdfOp where
  | insert (triple : RdfTriple) (slot : SlotRef) (graph : Option UInt64)
  | delete (triple : RdfTriple)

namespace RdfOp

/-- The store after a call. -/
def step (s : RdfStore) : RdfOp → RdfStore
  | .insert triple slot graph => after (RdfStore.insert triple slot graph) s
  | .delete triple => after (RdfStore.delete triple) s

/-- What is stored after it. -/
def store (stored : Triples) : RdfOp → Triples
  | .insert triple slot graph => update stored triple (some (slot, graph))
  | .delete triple => update stored triple none

/-- The three trees do as maps what the call asks of them. -/
def TreesOk (s : RdfStore) : RdfOp → Prop
  | .insert triple slot graph => ∀ perm : Permutation,
      InsertsOk (s.tree perm) (perm.key triple) (encodeRdfValue (slot, graph))
  | .delete triple => ∀ perm : Permutation,
      DeletesOk (s.tree perm) (perm.key triple)

end RdfOp

namespace RdfStore

variable {s : RdfStore} {stored : Triples}

/-- Each tree holds these triples. -/
def Stores (s : RdfStore) (stored : Triples) : Prop :=
  ∀ perm, ∃ m, Denotes (s.tree perm) m ∧ Encodes perm stored m

theorem onTree_ok {α : Type} {perm : Permutation} {x : TreeM α} {a : α}
    {t : BPlusTree} (s : RdfStore) (h : x (s.tree perm) = .ok (.ok a, t)) :
    onTree perm x s = .ok (.ok a, ⟨update s.tree perm t⟩) := by
  rw [onTree, h]

/-- One tree after another, these are all the trees. -/
theorem onTrees_ok {α : Type} {x : Permutation → TreeM α}
    {a : Permutation → α} {t : Permutation → BPlusTree}
    (h : ∀ perm, x perm (s.tree perm) = .ok (.ok (a perm), t perm)) :
    ∃ s₁ s₂, onTree .spo (x .spo) s = .ok (.ok (a .spo), s₁) ∧
      onTree .pos (x .pos) s₁ = .ok (.ok (a .pos), s₂) ∧
      onTree .osp (x .osp) s₂ = .ok (.ok (a .osp), ⟨t⟩) := by
  refine ⟨_, _, onTree_ok s (h .spo), onTree_ok _ (t := t .pos) ?_,
    (onTree_ok _ (a := a .osp) (t := t .osp) ?_).trans ?_⟩
  · exact h .pos
  · exact h .osp
  · congr 3
    funext perm
    cases perm <;> rfl

theorem insert_ok {triple : RdfTriple} {slot : SlotRef}
    {graph : Option UInt64} {t : Permutation → BPlusTree}
    (h : ∀ perm : Permutation, insertLocked (perm.key triple)
      (encodeRdfValue (slot, graph)) (s.tree perm) = .ok (.ok (), t perm)) :
    insert triple slot graph s = .ok (.ok (), ⟨t⟩) := by
  obtain ⟨s₁, s₂, hspo, hpos, hosp⟩ := onTrees_ok h
  rw [insert, bind_of_ok hspo, bind_of_ok hpos, hosp]

theorem delete_ok {triple : RdfTriple} {t : Permutation → BPlusTree} {found : Permutation → Bool}
    (h : ∀ perm : Permutation, Index.delete (perm.key triple) (s.tree perm) =
      .ok (.ok (found perm), t perm)) :
    delete triple s = .ok (.ok (found .spo), ⟨t⟩) := by
  obtain ⟨s₁, s₂, hspo, hpos, hosp⟩ := onTrees_ok h
  rw [delete, bind_of_ok hspo, bind_of_ok hpos, bind_of_ok hosp]
  rfl

theorem Stores.step (h : s.Stores stored) {op : RdfOp} (hok : op.TreesOk s) :
    (op.step s).Stores (op.store stored) := by
  choose m hm henc using h
  cases op with
  | insert triple slot graph =>
    choose t ht hden using fun perm => hok perm (m perm) (hm perm)
    rw [RdfOp.step, after_eq (insert_ok ht)]
    exact fun perm => ⟨_, hden perm, (henc perm).update triple (some (slot, graph))⟩
  | delete triple =>
    choose t ht hden using fun perm => hok perm (m perm) (hm perm)
    rw [RdfOp.step, after_eq (delete_ok ht)]
    exact fun perm => ⟨_, hden perm, (henc perm).update triple none⟩

theorem stores_new : new.Stores fun _ => none := by
  intro perm
  refine ⟨fun _ => none, ⟨[], (leafTree_new _).represents, by simp⟩, fun k v => ?_⟩
  constructor
  · exact nofun
  · rintro ⟨t, w, hw, -⟩
    cases hw

theorem stores_run {ops : List RdfOp} (h : s.Stores stored)
    (hok : Guarded RdfOp.step (fun s op => op.TreesOk s) s ops) :
    (run RdfOp.step s ops).Stores (run RdfOp.store stored ops) := by
  induction ops generalizing s stored with
  | nil => exact h
  | cons op ops ih => exact ih (h.step hok.1) hok.2

/-- The store answers as the set of triples. -/
structure Answers (s : RdfStore) (stored : Triples) : Prop where
  trees : ∀ perm : Permutation, ∃ es, Represents (s.tree perm) es ∧ ∀ e, e ∈ es ↔
      ∃ t v, stored t = some v ∧ e = (perm.key t, encodeRdfValue v)
  scan : ∀ q : Pattern, Finds stored q (scanPrefix (s.tree q.order) q.order q.start)
  subjectPredicate : ∀ subject predicate, Finds stored ⟨some subject, some predicate, none⟩
      (s.scanBySubjectPredicate subject predicate)
  subject : ∀ subject, Finds stored ⟨some subject, none, none⟩ (s.scanBySubject subject)
  predicateObject : ∀ predicate object, Finds stored ⟨none, some predicate, some object⟩
      (s.scanByPredicateObject predicate object)
  object : ∀ object, Finds stored ⟨none, none, some object⟩ (s.scanByObject object)
  lookup : ∀ t, s.lookup t = .ok (stored t)

theorem Stores.trees (h : s.Stores stored) (perm : Permutation) :
    ∃ es, Represents (s.tree perm) es ∧ ∀ e, e ∈ es ↔
      ∃ t v, stored t = some v ∧ e = (perm.key t, encodeRdfValue v) := by
  obtain ⟨m, ⟨es, hes, hmem⟩, henc⟩ := h perm
  exact ⟨es, hes, henc.mem_iff hmem⟩

theorem Stores.finds (h : s.Stores stored) (q : Pattern) :
    Finds stored q (scanPrefix (s.tree q.order) q.order q.start) := by
  obtain ⟨es, hes, hmem⟩ := h.trees q.order
  exact hes.finds hmem

theorem Stores.lookup (h : s.Stores stored) (t : RdfTriple) : s.lookup t = .ok (stored t) := by
  obtain ⟨es, ⟨rows, hwf, rfl⟩, hmem⟩ := h.trees .spo
  obtain ⟨d, hd, hsub⟩ := hwf.subtree
  rcases hsub.search hd.le (Permutation.spo.key t) with
    ⟨c, i, page, es, v, hsearch, hpage, hleaf, hi, hin⟩ | ⟨hsearch, hno⟩
  · obtain ⟨t', v', hst, heq⟩ := (hmem _).mp hin
    obtain ⟨hkey, rfl⟩ := Prod.mk.inj heq
    cases Permutation.key_inj hkey
    rw [RdfStore.lookup, hsearch, Res.ok_bind]
    dsimp only
    rw [hpage]
    dsimp only
    rw [hleaf.decodeRdfValue hi, decodeRdfBytes_encode, hst]
  · rw [RdfStore.lookup, hsearch, Res.ok_bind]
    cases hst : stored t with
    | none => rfl
    | some v => exact absurd ((hmem _).mpr ⟨t, v, hst, rfl⟩) (hno _)

theorem Stores.answers (h : s.Stores stored) : s.Answers stored where
  trees := h.trees
  scan := h.finds
  subjectPredicate a p := by
    have hfinds := h.finds ⟨some a, some p, none⟩
    rw [← Pattern.take_rdfSpoKey_pair] at hfinds
    exact hfinds
  subject a := by
    have hfinds := h.finds ⟨some a, none, none⟩
    rw [← Pattern.take_rdfSpoKey] at hfinds
    exact hfinds
  predicateObject p o := by
    have hfinds := h.finds ⟨none, some p, some o⟩
    rw [← Pattern.take_rdfPosKey_pair] at hfinds
    exact hfinds
  object o := by
    have hfinds := h.finds ⟨none, none, some o⟩
    rw [← Pattern.take_rdfOspKey] at hfinds
    exact hfinds
  lookup := h.lookup

/-- Three trees, one set of triples, and each scan returns its part of it. -/
theorem rdf_index_answers (ops : List RdfOp)
    (hok : Guarded RdfOp.step (fun s op => op.TreesOk s) new ops) : (run RdfOp.step new ops).Answers
      (run RdfOp.store (fun _ => none) ops) :=
  (stores_run stores_new hok).answers

theorem length_encodeRdfValue_le (v : RdfValue) : (encodeRdfValue v).length ≤ 12 := by
  rw [encodeRdfValue]
  cases v.2 <;> simp

/-- Two triples fit into one leaf of each tree. -/
theorem treesOk_two {a b : RdfTriple} {slot slot' : SlotRef} {graph graph' : Option UInt64}
    (hkey : ∀ perm : Permutation, perm.key a < perm.key b) :
    Guarded RdfOp.step (fun s op => op.TreesOk s) new
      [.insert a slot graph, .insert b slot' graph'] := by
  have hshort : ∀ (perm : Permutation) t v, Entry.Short (perm.key t, encodeRdfValue v) := by
    intro perm t v
    have := length_encodeRdfValue_le v
    rw [Entry.Short, Permutation.length_key]
    dsimp only
    omega
  choose t ht hleaf using fun perm => leafTree_first .default (hshort perm a (slot, graph))
  have hstep : RdfOp.step new (.insert a slot graph) = ⟨t⟩ := by
    rw [RdfOp.step, after_eq (insert_ok (s := new) ht)]
  have hfirst : RdfOp.TreesOk new (.insert a slot graph) :=
    fun perm => insertsOk_new .default (e := (_, _)) (hshort perm a (slot, graph))
  have hsecond : RdfOp.TreesOk ⟨t⟩ (.insert b slot' graph') := by
    intro perm
    have h₁ := length_encodeRdfValue_le (slot, graph)
    have h₂ := length_encodeRdfValue_le (slot', graph')
    refine LeafTree.insertsOk (e := (perm.key b, encodeRdfValue (slot', graph')))
      (show LeafTree (t perm) ([_] ++ []) from hleaf perm) (fun x hx => ?_) nofun
      (hshort perm _ _) ?_
    · rw [mem_singleton.mp hx]
      exact hkey perm
    · simp only [Room, leafRecords, append_nil, map_cons, map_nil, totalLen_cons,
        totalLen_nil, length_encodeKv, Permutation.length_key, length_cons, length_nil]
      omega
  refine ⟨hfirst, ?_, trivial⟩
  rw [hstep]
  exact hsecond

theorem rdf_index_answers_insert :
    let ops : List RdfOp := [.insert ⟨1, 2, 3⟩ ⟨4⟩ none, .insert ⟨4, 5, 6⟩ ⟨7⟩ (some 8)]
    (run RdfOp.step new ops).Answers (run RdfOp.store (fun _ => none) ops) :=
  rdf_index_answers _ (treesOk_two fun perm => by cases perm <;> decide)

end RdfStore

end RGraph.Index
