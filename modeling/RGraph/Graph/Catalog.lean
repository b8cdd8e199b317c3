import RGraph.Lib.Checksum
import RGraph.Graph.Record

/-!
# The schema catalog

`catalog/mod.rs`: names of labels, relationship types and property keys with
their numeric ids, and the sidecar file that keeps them. A hash map is a list
of pairs; its order shows only where the catalog is written, and there it is a
parameter, since a hash map is iterated in any order.

Around it the part of `graph/engine.rs` that decides what is on disk. Entities
store ids and become durable through the log, each at its own commit. The
catalog is written by `sync`: a temporary file that is renamed and becomes
durable with its directory. An open reads the sidecar, or starts with an empty
catalog if there is none that can be read.
-/

namespace RGraph.Graph

open RGraph.Lib

/-- `HashMap::insert`. -/
def mapInsert {α β : Type} [BEq α] (m : List (α × β)) (k : α) (v : β) : List (α × β) :=
  (k, v) :: m.filter (·.1 != k)

/-- The names of one kind, in both directions. -/
structure CatalogSection where
  ids : List (String × Nat)
  names : List (Nat × String)
  nextId : Nat
  deriving DecidableEq

namespace CatalogSection

def new : CatalogSection := ⟨[], [], 1⟩

/-- The id of a name; a new one if the name has none. Ids are `u32`. -/
def getOrCreate (s : CatalogSection) (name : String) : Nat × CatalogSection :=
  match s.ids.lookup name with
  | some id => (id, s)
  | none =>
    (s.nextId,
      { ids := mapInsert s.ids name s.nextId
        names := mapInsert s.names s.nextId name
        nextId := (s.nextId + 1) % 2 ^ 32 })

end CatalogSection

inductive NameKind where
  | label
  | relType
  | propertyKey
  deriving DecidableEq, Repr

structure Catalog where
  labels : CatalogSection
  relTypes : CatalogSection
  propertyKeys : CatalogSection
  deriving DecidableEq

/-! ## The sidecar -/

def encodeEntry (e : String × Nat) : Bytes :=
  natToLE 4 e.2 ++ (natToLE 2 (nameBytes e.1).length ++ nameBytes e.1)

/-- A section, iterated in this order. -/
def encodeSection (entries : List (String × Nat)) : Bytes :=
  natToLE 4 entries.length ++ entries.flatMap encodeEntry

def readU32Le (bs : Bytes) : Option (Nat × Bytes) :=
  if bs.length < 4 then none else some (leToNat (readAt bs 0 4), bs.drop 4)

def readU16Le (bs : Bytes) : Option (Nat × Bytes) :=
  if bs.length < 2 then none else some (leToNat (readAt bs 0 2), bs.drop 2)

/-- The loop of `decode_section`: the number of entries left, the bytes left,
the two maps and the largest id so far. -/
def decodeEntries : Nat → Bytes → List (String × Nat) → List (Nat × String) →
    Nat → Option (CatalogSection × Bytes)
  | 0, bs, ids, names, maxId => some (⟨ids, names, (maxId + 1) % 2 ^ 32⟩, bs)
  | n + 1, bs, ids, names, maxId => do
    let (id, bs) ← readU32Le bs
    let (nameLen, bs) ← readU16Le bs
    if bs.length < nameLen then none
    else
      let name ← nameFromUtf8 (bs.take nameLen)
      decodeEntries n (bs.drop nameLen) (mapInsert ids name id)
        (mapInsert names id name) (max maxId id)

def decodeSection (bs : Bytes) : Option (CatalogSection × Bytes) := do
  let (count, bs) ← readU32Le bs
  decodeEntries count bs [] [] 0

/-- `"RGCATLG\0"`. -/
def catalogMagic : Nat := 0x52474341544C4700

def catalogHeaderLen : Nat := 16

namespace Catalog

def new : Catalog := ⟨.new, .new, .new⟩

def part (c : Catalog) : NameKind → CatalogSection
  | .label => c.labels
  | .relType => c.relTypes
  | .propertyKey => c.propertyKeys

def getOrCreateLabel (c : Catalog) (label : String) : Nat × Catalog :=
  let (id, s) := c.labels.getOrCreate label
  (id, { c with labels := s })

def getOrCreateRelType (c : Catalog) (relType : String) : Nat × Catalog :=
  let (id, s) := c.relTypes.getOrCreate relType
  (id, { c with relTypes := s })

def getOrCreatePropertyKey (c : Catalog) (key : String) : Nat × Catalog :=
  let (id, s) := c.propertyKeys.getOrCreate key
  (id, { c with propertyKeys := s })

def labelName (c : Catalog) (id : Nat) : Option String := c.labels.names.lookup id

def relTypeName (c : Catalog) (id : Nat) : Option String := c.relTypes.names.lookup id

def propertyKeyName (c : Catalog) (id : Nat) : Option String := c.propertyKeys.names.lookup id

def getOrCreate (c : Catalog) : NameKind → String → Nat × Catalog
  | .label => c.getOrCreateLabel
  | .relType => c.getOrCreateRelType
  | .propertyKey => c.getOrCreatePropertyKey

def nameOf (c : Catalog) : NameKind → Nat → Option String
  | .label => c.labelName
  | .relType => c.relTypeName
  | .propertyKey => c.propertyKeyName

/-- The three sections, each iterated in the order given. -/
def encode (order : NameKind → List (String × Nat)) : Bytes :=
  encodeSection (order .label) ++ (encodeSection (order .relType) ++
    encodeSection (order .propertyKey))

def decode (bs : Bytes) : Option Catalog := do
  let (labels, bs) ← decodeSection bs
  let (relTypes, bs) ← decodeSection bs
  let (propertyKeys, _) ← decodeSection bs
  some ⟨labels, relTypes, propertyKeys⟩

def frame (crc : Crc32c) (order : NameKind → List (String × Nat)) : Bytes :=
  let body := encode order
  natToLE 8 catalogMagic ++ (natToLE 4 (crc.crc32c body).toNat ++ (natToLE 4 body.length ++ body))

def unframe (crc : Crc32c) (bs : Bytes) : Option Catalog :=
  if bs.length < catalogHeaderLen then none
  else if leToNat (readAt bs 0 8) ≠ catalogMagic then none
  else
    let bodyLen := leToNat (readAt bs 12 4)
    if bs.length < catalogHeaderLen + bodyLen then none
    else
      let body := readAt bs catalogHeaderLen bodyLen
      if (crc.crc32c body).toNat ≠ leToNat (readAt bs 8 4) then none
      else decode body

end Catalog

/-! ## What is on disk -/

/-- An id that an entity stores, with the name it was created under. -/
structure NameRef where
  kind : NameKind
  id : Nat
  name : String
  deriving DecidableEq

structure NamedEntity where
  refs : List NameRef
  durable : Bool
  deriving DecidableEq

/-- The bytes of the file, with the catalog that was written. -/
structure Sidecar where
  bytes : Bytes
  snapshot : Catalog
  deriving DecidableEq

structure CatalogRun where
  catalog : Catalog
  entities : List NamedEntity
  /-- What an open would find. -/
  visible : Option Sidecar
  /-- What is there even after a loss of power. -/
  synced : Option Sidecar

inductive CatalogOp where
  | register (kind : NameKind) (name : String)
  | create (names : List (NameKind × String)) (durable : Bool)
  | flush
  | sync (order : NameKind → List (String × Nat)) (dirSynced : Bool)
  | reopen (lost : List Nat) (powerLoss readable : Bool)

namespace CatalogRun

def start : CatalogRun := ⟨.new, [], none, none⟩

/-- The ids for the names of an entity. -/
def refsFor : Catalog → List (NameKind × String) → List NameRef × Catalog
  | c, [] => ([], c)
  | c, (kind, name) :: names =>
    let (id, c) := c.getOrCreate kind name
    let (refs, c) := refsFor c names
    (⟨kind, id, name⟩ :: refs, c)

/-- The entities that recovery finds: the durable ones, and of the others
those that are not lost. -/
def survivors (s : CatalogRun) (lost : List Nat) : List NamedEntity :=
  (s.entities.zipIdx.filter fun e => e.1.durable || !lost.contains e.2).map
    fun e => { e.1 with durable := true }

def sidecarAfter (s : CatalogRun) (powerLoss : Bool) : Option Sidecar :=
  if powerLoss then s.synced else s.visible

/-- Whether the maps of a catalog can be iterated in this order. -/
def Iterates (c : Catalog) (order : NameKind → List (String × Nat)) : Prop :=
  (order .label).Perm c.labels.ids ∧ (order .relType).Perm c.relTypes.ids ∧
    (order .propertyKey).Perm c.propertyKeys.ids

instance (c : Catalog) (order : NameKind → List (String × Nat)) :
    Decidable (Iterates c order) :=
  inferInstanceAs (Decidable (_ ∧ _ ∧ _))

end CatalogRun

open CatalogRun in
def catalogStep (crc : Crc32c) (s : CatalogRun) : CatalogOp → CatalogRun
  | .register kind name =>
    { s with catalog := (s.catalog.getOrCreate kind name).2 }
  | .create names durable =>
    let (refs, c) := refsFor s.catalog names
    { s with catalog := c, entities := s.entities ++ [⟨refs, durable⟩] }
  | .flush =>
    { s with entities := s.entities.map fun e => { e with durable := true } }
  | .sync order dirSynced =>
    if Iterates s.catalog order then
      let sidecar : Sidecar := ⟨Catalog.frame crc order, s.catalog⟩
      { s with
        visible := some sidecar
        synced := if dirSynced then some sidecar else s.synced }
    else s
  | .reopen lost powerLoss readable =>
    let sidecar := s.sidecarAfter powerLoss
    let restored := sidecar.bind fun f => Catalog.unframe crc f.bytes
    { catalog := if readable then restored.getD .new else .new
      entities := s.survivors lost
      visible := sidecar
      synced := sidecar }

end RGraph.Graph
