import RGraph.Proofs.Catalog

/-!
# Reading a catalog back

A section that was filled by `get_or_create` has the ids `1..n`, whatever the
names are, so the largest id that decoding sees is the number of entries. What
decoding makes of the bytes is bounded by their fields: a section has fewer
than `2^32` entries and every name fewer than `2^16` bytes. A catalog beyond
these bounds therefore cannot come back, and one within them does.
-/

namespace RGraph.Graph

open RGraph.Lib List

/-! ## Filling a section -/

/-- The state of a section that has not run out of ids. -/
structure Dense (s : CatalogSection) : Prop where
  values : s.ids.map Prod.snd = (List.range' 1 s.ids.length).reverse
  names : s.names = s.ids.map Prod.swap
  next : s.nextId = (s.ids.length + 1) % 2 ^ 32

variable {s : CatalogSection}

theorem Dense.mem (hs : Dense s) {e : String × Nat} (he : e ∈ s.ids) :
    0 < e.2 ∧ e.2 ≤ s.ids.length := by
  have h := mem_map_of_mem (f := Prod.snd) he
  rw [hs.values, mem_reverse, mem_range'_1] at h
  omega

theorem Dense.next_fresh (hs : Dense s) (hlt : s.ids.length < 2 ^ 32) :
    ∀ e ∈ s.ids, e.2 ≠ s.nextId := by
  intro e he
  have := hs.mem he
  rw [hs.next]
  by_cases h : s.ids.length + 1 < 2 ^ 32
  · rw [Nat.mod_eq_of_lt h]
    omega
  · rw [show s.ids.length + 1 = 2 ^ 32 by omega, Nat.mod_self]
    omega

structure SectionFilled (s : CatalogSection) : Prop where
  keys : (s.ids.map Prod.fst).Nodup
  dense : s.ids.length < 2 ^ 32 → Dense s

theorem SectionFilled.getOrCreate (hs : SectionFilled s) (name : String) :
    SectionFilled (s.getOrCreate name).2 := by
  rw [CatalogSection.getOrCreate]
  split
  · exact hs
  · next hnone =>
      have hnew : ∀ e ∈ s.ids, e.1 ≠ name := fun e he heq => lookup_eq_none.mp hnone e.2 (heq ▸ he)
      refine ⟨nodup_mapInsert hs.keys, fun hlt => ?_⟩
      dsimp only at hlt ⊢
      rw [mapInsert_of_fresh hnew, length_cons] at hlt
      have hd := hs.dense (by omega)
      have hfresh : ∀ e ∈ s.names, e.1 ≠ s.nextId := by
        intro e he
        rw [hd.names] at he
        obtain ⟨x, hx, rfl⟩ := mem_map.mp he
        exact hd.next_fresh (by omega) x hx
      have hnext : s.nextId = s.ids.length + 1 := by
        rw [hd.next, Nat.mod_eq_of_lt hlt]
      rw [mapInsert_of_fresh hnew, mapInsert_of_fresh hfresh]
      constructor
      · rw [map_cons, hd.values, length_cons, List.range'_concat]
        simp [hnext, Nat.add_comm]
      · rw [map_cons, hd.names]
        rfl
      · rw [length_cons, hnext]

/-- The catalog that a sequence of `get_or_create` calls makes. -/
def registered (calls : List (NameKind × String)) : Catalog :=
  calls.foldl (fun c call => (c.getOrCreate call.1 call.2).2) .new

theorem filled_registered (calls : List (NameKind × String))
    (kind : NameKind) : SectionFilled ((registered calls).part kind) := by
  suffices h : ∀ c : Catalog, (∀ kind, SectionFilled (c.part kind)) →
      SectionFilled ((calls.foldl (fun c call =>
        (c.getOrCreate call.1 call.2).2) c).part kind) by
    refine h .new fun kind => ?_
    cases kind <;> exact ⟨.nil, fun _ => ⟨rfl, rfl, rfl⟩⟩
  induction calls with
  | nil => exact fun c hc => hc kind
  | cons call calls ih =>
    refine fun c hc => ih _ fun k => ?_
    rw [part_getOrCreate]
    split
    · exact (hc _).getOrCreate _
    · exact hc k

/-! ## Decoding -/

/-- What decoding returns fits the fields it was read from. -/
theorem decodeEntries_bounds : ∀ {n : Nat} {bs rest : Bytes} {ids :
    List (String × Nat)} {names : List (Nat × String)} {maxId : Nat}
    {s : CatalogSection},
    decodeEntries n bs ids names maxId = some (s, rest) →
    (∀ e ∈ ids, (nameBytes e.1).length < 2 ^ 16) →
    s.ids.length ≤ n + ids.length ∧ ∀ e ∈ s.ids, (nameBytes e.1).length < 2 ^ 16
  | 0, _, _, _, _, _, _, h, hids => by
    cases h
    exact ⟨by simp, hids⟩
  | n + 1, bs, rest, ids, names, maxId, s, h, hids => by
    simp only [decodeEntries, Option.bind_eq_bind, Option.bind_eq_some_iff, Prod.exists] at h
    obtain ⟨id, bs₁, -, nameLen, bs₂, hlen, h⟩ := h
    by_cases hend : bs₂.length < nameLen
    · rw [if_pos hend] at h
      cases h
    · rw [if_neg hend, Option.bind_eq_some_iff] at h
      obtain ⟨name, hname, h⟩ := h
      have hshort : nameLen < 2 ^ 16 := by
        rw [readU16Le] at hlen
        split at hlen
        · cases hlen
        · cases hlen
          have := leToNat_lt (readAt bs₁ 0 2)
          simpa using this
      have hbytes : nameBytes name = bs₂.take nameLen := by
        rw [nameFromUtf8, String.fromUTF8?] at hname
        split at hname
        · cases hname
          rfl
        · cases hname
      obtain ⟨hcount, hnames⟩ := decodeEntries_bounds h fun e he => by
        rcases mem_mapInsert.mp he with rfl | ⟨he, -⟩
        · rw [hbytes, length_take]
          omega
        · exact hids e he
      refine ⟨Nat.le_trans hcount ?_, hnames⟩
      have : (mapInsert ids name id).length ≤ ids.length + 1 :=
        Nat.succ_le_succ (length_filter_le ..)
      omega

/-- The section can be written without loss. -/
structure SectionFits (s : CatalogSection) : Prop where
  count : s.ids.length < 2 ^ 32
  names : ∀ e ∈ s.ids, (nameBytes e.1).length < 2 ^ 16

theorem decodeSection_fits {bs rest : Bytes}
    (h : decodeSection bs = some (s, rest)) : SectionFits s := by
  simp only [decodeSection, Option.bind_eq_bind, Option.bind_eq_some_iff, Prod.exists] at h
  obtain ⟨count, bs₁, hcount, h⟩ := h
  obtain ⟨hlen, hnames⟩ := decodeEntries_bounds h (by simp)
  refine ⟨Nat.lt_of_le_of_lt hlen ?_, hnames⟩
  rw [readU32Le] at hcount
  split at hcount
  · cases hcount
  · cases hcount
    have := leToNat_lt (readAt bs 0 4)
    simpa using this

/-- The maps of the two sections are the same, and the next name gets an id
that no name has. -/
structure Restores (s s' : CatalogSection) : Prop where
  ids : ∀ name, s'.ids.lookup name = s.ids.lookup name
  names : ∀ id, s'.names.lookup id = s.names.lookup id
  fresh : ∀ name, s'.ids.lookup name = none → ∀ e ∈ s.ids, e.2 ≠ (s'.getOrCreate name).1

theorem lookup_congr {α β : Type} [BEq α] [LawfulBEq α] {m m' : List (α × β)}
    (hm : (m.map Prod.fst).Nodup) (hm' : (m'.map Prod.fst).Nodup)
    (h : ∀ x, x ∈ m' ↔ x ∈ m) (k : α) : m'.lookup k = m.lookup k := by
  ext v
  rw [lookup_eq_some_iff hm, lookup_eq_some_iff hm', h]

theorem foldl_max_range' (n : Nat) : (List.range' 1 n).foldl max 0 = n := by
  induction n with
  | zero => rfl
  | succ n ih =>
    rw [List.range'_concat, foldl_append, ih, foldl_cons, foldl_nil]
    omega

theorem decodeSection_restores (hs : SectionFilled s) (hfits : SectionFits s)
    {entries : List (String × Nat)} (hperm : entries.Perm s.ids) (rest : Bytes) :
    ∃ s', decodeSection (encodeSection entries ++ rest) = some (s', rest) ∧ Restores s s' := by
  have hd := hs.dense hfits.count
  have hcount := hfits.count
  have hkeys : (entries.map Prod.fst).Nodup := (hperm.map _).nodup_iff.mpr hs.keys
  have hvalues : (entries.map Prod.snd).Perm (List.range' 1 s.ids.length) :=
    (hperm.map _).trans (hd.values ▸ reverse_perm _)
  have hids := hvalues.nodup_iff.mpr nodup_range'
  have hdec := decodeSection_eq hkeys hids (hperm.length_eq ▸ hcount) (fun e he => by
      have he := hperm.mem_iff.mp he
      have := hd.mem he
      exact ⟨hfits.names e he, by omega⟩) rest
  rw [hvalues.foldl_eq, foldl_max_range', ← hd.next] at hdec
  refine ⟨_, hdec, fun name => ?_, fun id => ?_, fun name hnone e he => ?_⟩
  · refine lookup_congr hs.keys ?_ (fun x => ?_) name
    · rw [map_reverse]
      exact nodup_reverse.mpr hkeys
    · rw [mem_reverse, hperm.mem_iff]
  · have hswap : ((entries.map Prod.swap).map Prod.fst).Nodup := by
      rw [map_map]
      exact hids
    have hnames : s.names.Perm (entries.map Prod.swap) := hd.names ▸ (hperm.map _).symm
    refine lookup_congr ((hnames.map _).nodup_iff.mpr hswap) ?_ (fun x => ?_) id
    · rw [map_reverse]
      exact nodup_reverse.mpr hswap
    · rw [mem_reverse, hnames.mem_iff]
  · rw [CatalogSection.getOrCreate, hnone]
    exact hd.next_fresh hcount e he

/-! ## Catalogs -/

/-- The catalog comes back from its bytes. -/
def RoundTrips (c : Catalog) (order : NameKind → List (String × Nat)) : Prop :=
  ∃ c', Catalog.decode (Catalog.encode order) = some c' ∧
    ∀ kind, Restores (c.part kind) (c'.part kind)

theorem decode_fits {bs : Bytes} {c : Catalog} (h : Catalog.decode bs = some c) (kind : NameKind) :
    SectionFits (c.part kind) := by
  simp only [Catalog.decode, Option.bind_eq_bind, Option.bind_eq_some_iff, Prod.exists] at h
  obtain ⟨labels, _, h1, relTypes, _, h2, keys, _, h3, h⟩ := h
  cases h
  cases kind with
  | label => exact decodeSection_fits h1
  | relType => exact decodeSection_fits h2
  | propertyKey => exact decodeSection_fits h3

/-- Only what fits is restored. -/
theorem Restores.fits {s' : CatalogSection} (h : Restores s s')
    (hs : SectionFilled s) (hfits : SectionFits s') : SectionFits s := by
  have hmem : ∀ e ∈ s.ids, ∃ id, (e.1, id) ∈ s'.ids := by
    intro e he
    have hl := (lookup_eq_some_iff hs.keys).mpr (show (e.1, e.2) ∈ s.ids from he)
    by_contra hno
    rw [← h.ids, lookup_eq_none.mpr fun id hid => hno ⟨id, hid⟩] at hl
    cases hl
  constructor
  · have hsub : s.ids.map Prod.fst ⊆ s'.ids.map Prod.fst := by
      intro k hk
      obtain ⟨e, he, rfl⟩ := mem_map.mp hk
      obtain ⟨id, hid⟩ := hmem e he
      exact mem_map.mpr ⟨(e.1, id), hid, rfl⟩
    have := (hs.keys.subperm hsub).length_le
    rw [length_map, length_map] at this
    exact Nat.lt_of_le_of_lt this hfits.count
  · intro e he
    obtain ⟨id, hid⟩ := hmem e he
    exact hfits.names (e.1, id) hid

theorem catalog_round_trip_iff (calls : List (NameKind × String))
    {order : NameKind → List (String × Nat)}
    (horder : CatalogRun.Iterates (registered calls) order) : RoundTrips (registered calls) order ↔
      ∀ kind, SectionFits ((registered calls).part kind) := by
  have hfilled := filled_registered calls
  constructor
  · rintro ⟨c', hdec, hsame⟩ kind
    exact (hsame kind).fits (hfilled kind) (decode_fits hdec kind)
  · intro hfits
    have hperm : ∀ kind, (order kind).Perm ((registered calls).part kind).ids
      | .label => horder.1
      | .relType => horder.2.1
      | .propertyKey => horder.2.2
    exact decode_sections fun kind rest =>
      decodeSection_restores (hfilled kind) (hfits kind) (hperm kind) rest

/-- Two labels and a property key, the labels iterated in the order in which
they were registered. -/
theorem catalog_round_trip_three : RoundTrips
    (registered [(.label, "A"), (.label, "B"), (.propertyKey, "A")])
    fun kind => match kind with
      | .label => [("A", 1), ("B", 2)]
      | .relType => []
      | .propertyKey => [("A", 1)] := by
  refine (catalog_round_trip_iff _ (by decide +kernel)).mpr fun kind => ?_
  cases kind <;> exact ⟨by decide +kernel, by decide +kernel⟩

theorem length_replicate_a (n : Nat) :
    (nameBytes (String.ofList (List.replicate n 'a'))).length = n := by
  rw [nameBytes, String.toByteArray_ofList]
  induction n with
  | zero => rfl
  | succ n ih =>
    rw [replicate_succ, utf8Encode_cons, ByteArray.data_append,
      Array.toList_append, length_append, ih, Nat.add_comm]
    rfl

/-- The length of a name of 65536 bytes is written as 0. -/
theorem long_name_lost : ¬ ∀ (calls : List (NameKind × String))
    (order : NameKind → List (String × Nat)), CatalogRun.Iterates (registered calls) order →
      RoundTrips (registered calls) order := by
  intro hall
  let name := String.ofList (List.replicate 65536 'a')
  obtain ⟨c', hdec, hsame⟩ := hall [(.label, name)] (fun kind =>
    if kind = .label then [(name, 1)] else []) ⟨.refl _, .refl _, .refl _⟩
  have hfits := (hsame .label).fits (filled_registered _ _)
    (decode_fits hdec .label)
  have hlen := hfits.names (name, 1) mem_cons_self
  rw [length_replicate_a] at hlen
  omega

end RGraph.Graph
