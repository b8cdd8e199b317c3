import Mathlib.Data.List.Nodup
import RGraph.Graph.Catalog
import RGraph.Proofs.GraphRecord

/-!
# The names of stored ids

An entity stores the ids of its names, and the catalog has the names. As long
as the catalog stays in memory an id keeps its name: a section only ever gets
names it does not have, under ids it has not given out. A sidecar of a catalog
whose names and size fit its fields is read back to the same pairs.

What remains is the order of the two files. The ids go to disk with the log,
the names with the next `sync`, and after an open the ids above those of the
sidecar are given out again.
-/

namespace RGraph.Graph

open RGraph.Lib List

/-! ## Maps -/

section Map

variable {α β : Type} [BEq α] [LawfulBEq α] {m : List (α × β)} {k : α} {v : β}

theorem mem_mapInsert {x : α × β} : x ∈ mapInsert m k v ↔ x = (k, v) ∨ (x ∈ m ∧ x.1 ≠ k) := by
  simp [mapInsert]

theorem nodup_mapInsert (h : (m.map Prod.fst).Nodup) : ((mapInsert m k v).map Prod.fst).Nodup := by
  rw [mapInsert, map_cons, nodup_cons]
  refine ⟨?_, h.sublist (filter_sublist.map _)⟩
  intro hmem
  obtain ⟨x, hx, hk⟩ := mem_map.mp hmem
  have := (mem_filter.mp hx).2
  simp [hk] at this

theorem lookup_eq_some_iff : ∀ {m : List (α × β)}, (m.map Prod.fst).Nodup →
    (m.lookup k = some v ↔ (k, v) ∈ m)
  | [], _ => by simp
  | (k', v') :: m, h => by
    rw [map_cons, nodup_cons] at h
    rw [lookup_cons]
    by_cases hk : k = k'
    · subst hk
      have hnot : (k, v) ∉ m := fun hm => h.1 (mem_map.mpr ⟨_, hm, rfl⟩)
      simp [hnot, eq_comm]
    · rw [beq_eq_false_iff_ne.mpr hk]
      simp [hk, lookup_eq_some_iff h.2]

theorem lookup_eq_none : m.lookup k = none ↔ ∀ v, (k, v) ∉ m := by
  rw [lookup_eq_none_iff]
  constructor
  · intro h v hm
    simpa using h _ hm
  · intro h p hp
    rw [bne_iff_ne]
    intro hk
    exact h p.2 (hk ▸ hp)

theorem mapInsert_of_fresh (h : ∀ e ∈ m, e.1 ≠ k) (v : β) : mapInsert m k v = (k, v) :: m := by
  rw [mapInsert, filter_eq_self.mpr fun e he => by simpa using h e he]

/-- Pairs with different keys, put into a map that has none of them. -/
theorem foldl_mapInsert : ∀ {es m : List (α × β)}, (es.map Prod.fst).Nodup →
    (∀ e ∈ es, ∀ x ∈ m, x.1 ≠ e.1) →
    es.foldl (fun m e => mapInsert m e.1 e.2) m = es.reverse ++ m
  | [], _, _, _ => rfl
  | e :: es, m, hn, hm => by
    rw [map_cons, nodup_cons] at hn
    rw [foldl_cons, mapInsert_of_fresh (hm e mem_cons_self), foldl_mapInsert hn.2]
    · simp
    · intro x hx y hy
      rcases mem_cons.mp hy with rfl | hy
      · exact fun heq => hn.1 (heq ▸ mem_map_of_mem hx)
      · exact hm x (mem_cons_of_mem _ hx) y hy

end Map

/-! ## Sections -/

/-- Every name has one id and every id one name. -/
structure SectionOk (s : CatalogSection) : Prop where
  ids : (s.ids.map Prod.fst).Nodup
  names : (s.names.map Prod.fst).Nodup
  rev : ∀ name id, (id, name) ∈ s.names ↔ (name, id) ∈ s.ids
  below : ∀ e ∈ s.ids, e.2 < s.nextId
  bound : s.nextId < 2 ^ 32

variable {s : CatalogSection}

theorem SectionOk.lookup (hs : SectionOk s) {id : Nat} {name : String} :
    s.names.lookup id = some name ↔ (name, id) ∈ s.ids := by
  rw [lookup_eq_some_iff hs.names, hs.rev]

theorem sectionOk_new : SectionOk .new := ⟨.nil, .nil, fun _ _ => ⟨nofun, nofun⟩, nofun, by decide⟩

/-- A new name gets a new id. -/
theorem SectionOk.insert (hs : SectionOk s) {name : String} {id nextId : Nat}
    (hname : ∀ i, (name, i) ∉ s.ids) (hid : ∀ e ∈ s.ids, e.2 ≠ id)
    (hnext : s.nextId ≤ nextId) (hlt : id < nextId) (hbound : nextId < 2 ^ 32) :
    SectionOk ⟨mapInsert s.ids name id, mapInsert s.names id name, nextId⟩ := by
  refine ⟨nodup_mapInsert hs.ids, nodup_mapInsert hs.names, ?_, ?_, hbound⟩
  · intro n i
    rw [mem_mapInsert, mem_mapInsert, hs.rev]
    constructor
    · intro h
      rcases h with h | ⟨h, -⟩
      · cases h
        exact .inl rfl
      · exact .inr ⟨h, fun heq => hname i (heq ▸ h)⟩
    · intro h
      rcases h with h | ⟨h, -⟩
      · cases h
        exact .inl rfl
      · exact .inr ⟨h, hid _ h⟩
  · intro e he
    rcases mem_mapInsert.mp he with rfl | ⟨he, -⟩
    · exact hlt
    · exact Nat.lt_of_lt_of_le (hs.below e he) hnext

/-- The id of a name is the one it has from now on; no other changes. -/
theorem SectionOk.getOrCreate (hs : SectionOk s) (name : String) (hlt : s.nextId + 1 < 2 ^ 32) :
    SectionOk (s.getOrCreate name).2 ∧ (name, (s.getOrCreate name).1) ∈ (s.getOrCreate name).2.ids ∧
      (∀ e ∈ s.ids, e ∈ (s.getOrCreate name).2.ids) ∧
      (s.getOrCreate name).2.nextId ≤ s.nextId + 1 := by
  rw [CatalogSection.getOrCreate]
  split
  · next id hid =>
      exact ⟨hs, (lookup_eq_some_iff hs.ids).mp hid, fun e he => he, Nat.le_succ _⟩
  · next hnone =>
      have hname := lookup_eq_none.mp hnone
      rw [Nat.mod_eq_of_lt hlt]
      refine ⟨hs.insert hname (fun e he => Nat.ne_of_lt (hs.below e he))
        (Nat.le_succ _) (Nat.lt_succ_self _) hlt,
        mem_mapInsert.mpr (Or.inl rfl), fun e he => ?_, Nat.le_refl _⟩
      exact mem_mapInsert.mpr (Or.inr ⟨he, fun heq => hname e.2 (heq ▸ he)⟩)

/-! ## The sidecar -/

theorem readU32Le_natToLE (n : Nat) (rest : Bytes) : readU32Le (natToLE 4 n ++ rest) =
      some (leToNat (natToLE 4 n), rest) := by
  rw [readU32Le, if_neg (by rw [length_append, length_natToLE]; omega),
    readAt_append_left _ _ (length_natToLE _ _),
    drop_left' (length_natToLE _ _)]

theorem readU16Le_natToLE (n : Nat) (rest : Bytes) : readU16Le (natToLE 2 n ++ rest) =
      some (leToNat (natToLE 2 n), rest) := by
  rw [readU16Le, if_neg (by rw [length_append, length_natToLE]; omega),
    readAt_append_left _ _ (length_natToLE _ _),
    drop_left' (length_natToLE _ _)]

theorem decodeEntries_cons {n : Nat} {e : String × Nat} {rest : Bytes}
    {ids : List (String × Nat)} {names : List (Nat × String)} {maxId : Nat}
    (hlen : (nameBytes e.1).length < 2 ^ 16) (hid : e.2 < 2 ^ 32) :
    decodeEntries (n + 1) (encodeEntry e ++ rest) ids names maxId =
      decodeEntries n rest (mapInsert ids e.1 e.2) (mapInsert names e.2 e.1) (max maxId e.2) := by
  rw [encodeEntry, append_assoc, append_assoc, decodeEntries,
    readU32Le_natToLE, leToNat_natToLE 4 _ hid]
  simp only [Option.bind_eq_bind, Option.bind_some]
  rw [readU16Le_natToLE, leToNat_natToLE 2 _ hlen]
  simp only [Option.bind_some, take_left, drop_left]
  rw [if_neg (by simp), nameFromUtf8_nameBytes, Option.bind_some]

theorem decodeEntries_eq (rest : Bytes) : ∀ {entries ids :
    List (String × Nat)} {names : List (Nat × String)} {maxId : Nat},
    (∀ e ∈ entries, (nameBytes e.1).length < 2 ^ 16 ∧ e.2 < 2 ^ 32) →
    decodeEntries entries.length (entries.flatMap encodeEntry ++ rest) ids names maxId =
      some (⟨entries.foldl (fun m e => mapInsert m e.1 e.2) ids,
        (entries.map Prod.swap).foldl (fun m e => mapInsert m e.1 e.2) names,
        ((entries.map Prod.snd).foldl max maxId + 1) % 2 ^ 32⟩, rest)
  | [], _, _, _, _ => rfl
  | e :: entries, ids, names, maxId, h => by
    obtain ⟨hlen, hid⟩ := h e mem_cons_self
    rw [length_cons, flatMap_cons, append_assoc, decodeEntries_cons hlen hid, decodeEntries_eq rest
        fun x hx => h x (mem_cons_of_mem _ hx)]
    rfl

/-- A section of different names and ids is read back as it was written. -/
theorem decodeSection_eq {entries : List (String × Nat)}
    (hn : (entries.map Prod.fst).Nodup) (hi : (entries.map Prod.snd).Nodup)
    (hcount : entries.length < 2 ^ 32)
    (hfits : ∀ e ∈ entries, (nameBytes e.1).length < 2 ^ 16 ∧ e.2 < 2 ^ 32) (rest : Bytes) :
    decodeSection (encodeSection entries ++ rest) =
      some (⟨entries.reverse, (entries.map Prod.swap).reverse,
        ((entries.map Prod.snd).foldl max 0 + 1) % 2 ^ 32⟩, rest) := by
  have hswap : ((entries.map Prod.swap).map Prod.fst).Nodup := by
    rw [map_map]
    exact hi
  rw [encodeSection, append_assoc, decodeSection, readU32Le_natToLE, leToNat_natToLE 4 _ hcount]
  refine (decodeEntries_eq rest hfits).trans ?_
  rw [foldl_mapInsert hn (by simp), foldl_mapInsert hswap (by simp), append_nil, append_nil]

theorem SectionOk.nodup_snd (hs : SectionOk s) : (s.ids.map Prod.snd).Nodup := by
  refine List.Nodup.map_on ?_ hs.ids.of_map
  intro x hx y hy hid
  have hx' := hs.lookup.mpr (show (x.1, x.2) ∈ s.ids from hx)
  have hy' := hs.lookup.mpr (show (y.1, y.2) ∈ s.ids from hy)
  rw [hid, hy'] at hx'
  exact Prod.ext (Option.some.inj hx').symm hid

theorem length_le_encodeSection (entries : List (String × Nat)) :
    entries.length ≤ (encodeSection entries).length := by
  induction entries with
  | nil => exact Nat.zero_le _
  | cons e entries ih =>
    simp only [encodeSection, length_append, length_natToLE,
      flatMap_cons, length_cons, encodeEntry] at ih ⊢
    omega

theorem foldl_max {n : Nat} : ∀ {l : List Nat} {m : Nat}, m < n →
    (∀ x ∈ l, x < n) →
    l.foldl max m < n ∧ m ≤ l.foldl max m ∧ ∀ x ∈ l, x ≤ l.foldl max m
  | [], _, hm, _ => ⟨hm, Nat.le_refl _, nofun⟩
  | x :: l, m, hm, hl => by
    have hx := hl x mem_cons_self
    obtain ⟨hlt, hge, hmem⟩ := foldl_max (l := l) (m := max m x) (by omega)
      fun y hy => hl y (mem_cons_of_mem _ hy)
    refine ⟨hlt, by rw [foldl_cons]; omega, fun y hy => ?_⟩
    rcases mem_cons.mp hy with rfl | hy
    · rw [foldl_cons]; omega
    · exact hmem y hy

theorem decodeSection_encodeSection (hs : SectionOk s)
    {entries : List (String × Nat)} (hperm : entries.Perm s.ids)
    (hnames : ∀ e ∈ s.ids, (nameBytes e.1).length < 2 ^ 16)
    (hsize : (encodeSection entries).length < 2 ^ 32) (rest : Bytes) :
    ∃ s', decodeSection (encodeSection entries ++ rest) = some (s', rest) ∧
      SectionOk s' ∧ ∀ x, x ∈ s'.ids ↔ x ∈ s.ids := by
  have hn := (hperm.map Prod.fst).nodup_iff.mpr hs.ids
  have hi := (hperm.map Prod.snd).nodup_iff.mpr hs.nodup_snd
  have hbound := hs.bound
  have hbelow : ∀ e ∈ entries, e.2 < 2 ^ 32 - 1 := fun e he => by
    have := hs.below e (hperm.mem_iff.mp he)
    omega
  obtain ⟨hlt, -, hle⟩ := foldl_max (l := entries.map Prod.snd) (m := 0)
    (n := 2 ^ 32 - 1) (by decide) (by simpa using fun i x => hbelow (x, i))
  refine ⟨_, decodeSection_eq hn hi (Nat.lt_of_le_of_lt (length_le_encodeSection entries) hsize)
    (fun e he => ⟨hnames e (hperm.mem_iff.mp he), by
      have := hbelow e he; omega⟩) rest, ?_, fun x => ?_⟩
  · rw [Nat.mod_eq_of_lt (by omega)]
    refine ⟨?_, ?_, fun name id => by simp, fun e he => ?_, by dsimp only; omega⟩
    · rw [map_reverse]
      exact nodup_reverse.mpr hn
    · rw [map_reverse, map_map]
      exact nodup_reverse.mpr hi
    · exact Nat.lt_succ_of_le (hle _ (mem_map_of_mem (mem_reverse.mp he)))
  · rw [mem_reverse, hperm.mem_iff]

def CatalogOk (c : Catalog) : Prop := ∀ kind, SectionOk (c.part kind)

theorem catalogOk_new : CatalogOk .new := by
  intro kind
  cases kind <;> exact sectionOk_new

/-- The two catalogs have the same pairs. -/
def SamePairs (c c' : Catalog) : Prop := ∀ kind x, x ∈ (c'.part kind).ids ↔ x ∈ (c.part kind).ids

/-- The catalog can be written to a sidecar without loss. -/
structure CatalogFits (c : Catalog) (order : NameKind → List (String × Nat)) :
    Prop where
  names : ∀ kind, ∀ e ∈ (c.part kind).ids, (nameBytes e.1).length < 2 ^ 16
  size : (Catalog.encode order).length < 2 ^ 32

variable {order : NameKind → List (String × Nat)}

/-- Sections that are read back one by one are read back in a row. -/
theorem decode_sections {P : NameKind → CatalogSection → Prop}
    (h : ∀ kind rest, ∃ s, decodeSection (encodeSection (order kind) ++ rest) =
      some (s, rest) ∧ P kind s) :
    ∃ c, Catalog.decode (Catalog.encode order) = some c ∧ ∀ kind, P kind (c.part kind) := by
  obtain ⟨labels, h1, hp1⟩ := h .label
    (encodeSection (order .relType) ++ encodeSection (order .propertyKey))
  obtain ⟨relTypes, h2, hp2⟩ := h .relType (encodeSection (order .propertyKey))
  obtain ⟨keys, h3, hp3⟩ := h .propertyKey []
  rw [append_nil] at h3
  refine ⟨⟨labels, relTypes, keys⟩, ?_, fun kind => ?_⟩
  · simp only [Catalog.decode, Catalog.encode, h1, h2, h3, Option.bind_eq_bind, Option.bind_some]
  · cases kind with
    | label => exact hp1
    | relType => exact hp2
    | propertyKey => exact hp3

theorem decode_encode {c : Catalog} (hc : CatalogOk c)
    (horder : CatalogRun.Iterates c order) (hfits : CatalogFits c order) :
    ∃ c', Catalog.decode (Catalog.encode order) = some c' ∧ CatalogOk c' ∧ SamePairs c c' := by
  have hsize := hfits.size
  rw [Catalog.encode, length_append, length_append] at hsize
  have hperm : ∀ kind, (order kind).Perm (c.part kind).ids ∧
      (encodeSection (order kind)).length < 2 ^ 32 := by
    intro kind
    cases kind with
    | label => exact ⟨horder.1, by omega⟩
    | relType => exact ⟨horder.2.1, by omega⟩
    | propertyKey => exact ⟨horder.2.2, by omega⟩
  obtain ⟨c', hdec, hparts⟩ := decode_sections fun kind rest =>
    decodeSection_encodeSection (hc kind) (hperm kind).1 (hfits.names kind) (hperm kind).2 rest
  exact ⟨c', hdec, fun kind => (hparts kind).1, fun kind => (hparts kind).2⟩

theorem unframe_frame (crc : Crc32c) (hsize : (Catalog.encode order).length < 2 ^ 32) :
    Catalog.unframe crc (Catalog.frame crc order) = Catalog.decode (Catalog.encode order) := by
  have hmagic : leToNat (readAt (Catalog.frame crc order) 0 8) = catalogMagic := by
    rw [Catalog.frame, readAt_append_left _ _ (length_natToLE _ _)]
    exact leToNat_natToLE 8 _ (by decide)
  have hcrc : readAt (Catalog.frame crc order) 8 4 =
      natToLE 4 (crc.crc32c (Catalog.encode order)).toNat :=
    readAt_of_append (natToLE 8 catalogMagic) _ _ rfl (length_natToLE _ _) (length_natToLE _ _)
  have hlen : readAt (Catalog.frame crc order) 12 4 = natToLE 4 (Catalog.encode order).length :=
    readAt_of_append (natToLE 8 catalogMagic ++
        natToLE 4 (crc.crc32c (Catalog.encode order)).toNat) _
      (Catalog.encode order) (append_assoc ..).symm (by simp)
      (length_natToLE _ _)
  have hbody : readAt (Catalog.frame crc order) catalogHeaderLen
      (Catalog.encode order).length = Catalog.encode order :=
    readAt_of_append (natToLE 8 catalogMagic ++
        (natToLE 4 (crc.crc32c (Catalog.encode order)).toNat ++
          natToLE 4 (Catalog.encode order).length))
      (Catalog.encode order) [] (by simp [Catalog.frame]) (by simp; rfl) rfl
  have htotal : (Catalog.frame crc order).length =
      catalogHeaderLen + (Catalog.encode order).length := by
    simp only [Catalog.frame, length_append, length_natToLE,
      show catalogHeaderLen = 16 from rfl]
    omega
  rw [Catalog.unframe, if_neg (by omega), if_neg (not_not.mpr hmagic)]
  dsimp only
  rw [hlen, leToNat_natToLE 4 _ hsize, if_neg (by omega), hbody, hcrc,
    leToNat_natToLE 4 _ (UInt32.toNat_lt _), if_neg (not_not.mpr rfl)]

/-! ## Runs -/

/-- A stored id has its name. -/
def Named (c : Catalog) (r : NameRef) : Prop := (r.name, r.id) ∈ (c.part r.kind).ids

instance (c : Catalog) (r : NameRef) : Decidable (Named c r) := inferInstanceAs (Decidable (_ ∈ _))

theorem part_getOrCreate (c : Catalog) (kind kind' : NameKind) (name : String) :
    (c.getOrCreate kind name).2.part kind' = if kind' = kind then ((c.part kind).getOrCreate name).2
      else c.part kind' := by
  cases kind <;> cases kind' <;> rfl

theorem fst_getOrCreate (c : Catalog) (kind : NameKind) (name : String) :
    (c.getOrCreate kind name).1 = ((c.part kind).getOrCreate name).1 := by
  cases kind <;> rfl

theorem nameOf_eq (c : Catalog) (kind : NameKind) (id : Nat) :
    c.nameOf kind id = (c.part kind).names.lookup id := by
  cases kind <;> rfl

/-- There are `n` more ids of every kind. -/
def HasIds (c : Catalog) (n : Nat) : Prop := ∀ kind, (c.part kind).nextId + n < 2 ^ 32

theorem CatalogOk.getOrCreate {c : Catalog} (hc : CatalogOk c)
    (kind : NameKind) (name : String) {n : Nat} (hids : HasIds c (n + 1)) :
    CatalogOk (c.getOrCreate kind name).2 ∧ Named (c.getOrCreate kind name).2
        ⟨kind, (c.getOrCreate kind name).1, name⟩ ∧
      (∀ r, Named c r → Named (c.getOrCreate kind name).2 r) ∧
      HasIds (c.getOrCreate kind name).2 n := by
  have hlt := hids kind
  obtain ⟨hok, hmem, hkeep, hnext⟩ := (hc kind).getOrCreate name (by omega)
  refine ⟨fun k => ?_, ?_, fun r hr => ?_, fun k => ?_⟩
  · rw [part_getOrCreate]
    split
    · exact hok
    · exact hc k
  · rw [Named, part_getOrCreate, if_pos rfl, fst_getOrCreate]
    exact hmem
  · rw [Named, part_getOrCreate]
    split
    · next hk => exact hkeep _ (hk ▸ hr)
    · exact hr
  · have hk := hids k
    rw [part_getOrCreate]
    split <;> omega

theorem CatalogOk.refsFor : ∀ {names : List (NameKind × String)} {c : Catalog},
    CatalogOk c → HasIds c names.length →
    CatalogOk (CatalogRun.refsFor c names).2 ∧
      (∀ r ∈ (CatalogRun.refsFor c names).1, Named (CatalogRun.refsFor c names).2 r) ∧
      ∀ r, Named c r → Named (CatalogRun.refsFor c names).2 r
  | [], _, hc, _ => ⟨hc, nofun, fun _ hr => hr⟩
  | (kind, name) :: names, c, hc, hids => by
    obtain ⟨hok, hmem, hkeep, hids⟩ := hc.getOrCreate kind name hids
    obtain ⟨hok', hrefs, hkeep'⟩ := CatalogOk.refsFor hok hids
    refine ⟨hok', ?_, fun r hr => hkeep' r (hkeep r hr)⟩
    intro r hr
    rcases mem_cons.mp hr with rfl | hr
    · exact hkeep' _ hmem
    · exact hrefs r hr

/-- The catalog gives every stored id the name it was stored for, and no id is
stored for two names. -/
def NamesKept (s : CatalogRun) : Prop :=
  ∀ e ∈ s.entities, ∀ r ∈ e.refs, s.catalog.nameOf r.kind r.id = some r.name ∧
    ∀ e' ∈ s.entities, ∀ r' ∈ e'.refs, r'.kind = r.kind → r'.id = r.id → r'.name = r.name

/-- Ids do not run out, what is written fits the sidecar's fields, and an open
finds a sidecar that was written after the names of the surviving entities
were registered. -/
def NamesSynced (s : CatalogRun) : CatalogOp → Prop
  | .register _ _ => HasIds s.catalog 1
  | .create names _ => HasIds s.catalog names.length
  | .flush => True
  | .sync order _ => CatalogFits s.catalog order
  | .reopen lost powerLoss readable =>
    ∀ e ∈ s.survivors lost, ∀ r ∈ e.refs, readable = true ∧
      ∃ f, s.sidecarAfter powerLoss = some f ∧ Named f.snapshot r

/-- Reading the file gives what was written. -/
def Faithful (crc : Crc32c) (f : Sidecar) : Prop :=
  ∃ c, Catalog.unframe crc f.bytes = some c ∧ CatalogOk c ∧ SamePairs f.snapshot c

structure CatalogRunOk (crc : Crc32c) (s : CatalogRun) : Prop where
  catalog : CatalogOk s.catalog
  named : ∀ e ∈ s.entities, ∀ r ∈ e.refs, Named s.catalog r
  visible : ∀ f ∈ s.visible, Faithful crc f
  synced : ∀ f ∈ s.synced, Faithful crc f

theorem CatalogRunOk.namesKept {crc : Crc32c} {s : CatalogRun}
    (hs : CatalogRunOk crc s) : NamesKept s := by
  intro e he r hr
  have hname : ∀ e ∈ s.entities, ∀ r ∈ e.refs, s.catalog.nameOf r.kind r.id = some r.name := by
    intro e he r hr
    rw [nameOf_eq]
    exact (hs.catalog r.kind).lookup.mpr (hs.named e he r hr)
  refine ⟨hname e he r hr, fun e' he' r' hr' hkind hid => ?_⟩
  have h' := hname e' he' r' hr'
  rw [hkind, hid, hname e he r hr] at h'
  exact (Option.some.inj h').symm

theorem CatalogRunOk.step {crc : Crc32c} (s : CatalogRun) (op : CatalogOp)
    (hs : CatalogRunOk crc s) (hop : NamesSynced s op) :
    CatalogRunOk crc (catalogStep crc s op) := by
  cases op with
  | register kind name =>
    obtain ⟨hok, -, hkeep, -⟩ := hs.catalog.getOrCreate kind name hop
    exact ⟨hok, fun e he r hr => hkeep r (hs.named e he r hr), hs.visible, hs.synced⟩
  | create names durable =>
    obtain ⟨hok, hrefs, hkeep⟩ := hs.catalog.refsFor hop
    refine ⟨hok, fun e he => ?_, hs.visible, hs.synced⟩
    rcases mem_append.mp he with he | he
    · exact fun r hr => hkeep r (hs.named e he r hr)
    · rw [mem_singleton.mp he]
      exact hrefs
  | flush =>
    refine ⟨hs.catalog, fun e he => ?_, hs.visible, hs.synced⟩
    obtain ⟨e, hmem, rfl⟩ := mem_map.mp he
    exact hs.named e hmem
  | sync order dirSynced =>
    rw [catalogStep]
    split
    · next horder =>
        have hnew : Faithful crc ⟨Catalog.frame crc order, s.catalog⟩ := by
          rw [Faithful, unframe_frame crc hop.size]
          exact decode_encode hs.catalog horder hop
        refine ⟨hs.catalog, hs.named, fun f hf => ?_, fun f hf => ?_⟩
        · cases hf
          exact hnew
        · dsimp only at hf
          split at hf
          · cases hf
            exact hnew
          · exact hs.synced f hf
    · exact hs
  | reopen lost powerLoss readable =>
    have hside : ∀ f ∈ s.sidecarAfter powerLoss, Faithful crc f := by
      intro f hf
      rw [CatalogRun.sidecarAfter] at hf
      split at hf
      · exact hs.synced f hf
      · exact hs.visible f hf
    refine ⟨?_, fun e he r hr => ?_, hside, hside⟩
    · rw [catalogStep]
      dsimp only
      split
      · cases hf : s.sidecarAfter powerLoss with
        | none => exact catalogOk_new
        | some f =>
          obtain ⟨c, hc, hok, -⟩ := hside f hf
          rw [Option.bind_some, hc]
          exact hok
      · exact catalogOk_new
    · obtain ⟨hread, f, hf, hnamed⟩ := hop e he r hr
      obtain ⟨c, hc, -, hsame⟩ := hside f hf
      rw [catalogStep]
      dsimp only
      rw [if_pos hread, hf, Option.bind_some, hc]
      exact (hsame r.kind _).mpr hnamed

theorem catalogRunOk_start (crc : Crc32c) : CatalogRunOk crc .start :=
  ⟨catalogOk_new, nofun, nofun, nofun⟩

theorem reopened_catalog_keeps_names (crc : Crc32c) {ops : List CatalogOp}
    (hg : Guarded (catalogStep crc) NamesSynced .start ops) (n : Nat) :
    NamesKept (run (catalogStep crc) .start (ops.take n)) :=
  (run_inv_take CatalogRunOk.step (catalogRunOk_start crc) hg n).namesKept

/-- A name is registered and written, an entity is created under it, and after
an open another name is registered. -/
theorem reopened_catalog_keeps_names_synced :
    let ops : List CatalogOp :=
      [.register .label "A", .sync (fun kind => match kind with
          | .label => [("A", 1)]
          | _ => []) true,
        .create [(.label, "A")] true, .reopen [] true true,
        .register .label "B"]
    NamesKept (run (catalogStep Crc32c.castagnoli) .start ops) := by
  intro ops
  have hg : Guarded (catalogStep Crc32c.castagnoli) NamesSynced .start ops := by
    refine ⟨fun kind => ?_, ⟨fun kind => ?_, ?_⟩, fun kind => ?_, ?_,
      fun kind => ?_, trivial⟩
    · cases kind <;> decide
    · cases kind <;> decide +kernel
    · decide +kernel
    · cases kind <;> decide +kernel
    · intro e he r hr
      refine ⟨rfl, _, rfl, ?_⟩
      revert e he r hr
      decide +kernel
    · cases kind <;> decide +kernel
  exact reopened_catalog_keeps_names Crc32c.castagnoli hg 5

/-- An entity is created under a new label and committed, and the process
stops before a `sync`. The next label that is registered gets its id. -/
theorem reopened_catalog_reuses_id : ¬ ∀ (crc : Crc32c) (ops : List CatalogOp) (n : Nat),
      NamesKept (run (catalogStep crc) .start (ops.take n)) := by
  intro hall
  have h := (hall Crc32c.castagnoli [.create [(.label, "A")] true,
    .reopen [] true true, .register .label "B"] 3 ⟨[⟨.label, 1, "A"⟩], true⟩
    (by decide +kernel) ⟨.label, 1, "A"⟩ (by decide)).1
  exact absurd h (by decide +kernel)

end RGraph.Graph
