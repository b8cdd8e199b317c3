import Mathlib

/-!
# The lock table (`txn/lock_table.rs`)

One entry per resource: the transactions that hold it, each with the mode
recorded for it, and a FIFO queue of requests that could not be granted. A
waiter is told about its grant over a one-shot channel; a channel is modelled
by the number it was created under, and an operation that sends returns the
channels it sent to.

The table is split into `N_SHARDS` shards by a hash of the resource id. Every
operation works under the mutex of one shard, so one operation is one atomic
step, and the model runs them one at a time.
-/

namespace RGraph.Txn

/-- A transaction identifier (`txid.rs`); `0` is never issued. -/
abbrev TxId := Nat

/-- A lockable resource, a `u64` key in the source. -/
abbrev ResourceId := Nat

/-- The receiving end of a waiter's notification channel. -/
abbrev Chan := Nat

inductive LockMode where
  | intentionShared
  | intentionExclusive
  | shared
  | exclusive
  deriving DecidableEq, Repr

/-- The two modes can be held at once by different transactions. -/
def LockMode.compatibleWith : LockMode → LockMode → Bool
  | .intentionShared, .intentionShared => true
  | .intentionShared, .intentionExclusive => true
  | .intentionShared, .shared => true
  | .intentionExclusive, .intentionShared => true
  | .intentionExclusive, .intentionExclusive => true
  | .shared, .intentionShared => true
  | .shared, .shared => true
  | _, _ => false

/-- `held` is at least as strong as `required`. -/
def modeAtLeastAsStrong (held required : LockMode) : Bool :=
  match required with
  | .intentionShared => true
  | .intentionExclusive => held == .intentionExclusive || held == .exclusive
  | .shared => held == .shared || held == .exclusive
  | .exclusive => held == .exclusive

inductive LockResult where
  | granted
  | denied
  deriving DecidableEq, Repr

structure Holder where
  txid : TxId
  mode : LockMode
  deriving DecidableEq, Repr

/-- A queued request with the channel its requester listens on. -/
structure Waiter where
  txid : TxId
  mode : LockMode
  sender : Chan
  deriving DecidableEq, Repr

structure LockEntry where
  holders : List Holder
  waiters : List Waiter
  deriving DecidableEq, Repr

namespace LockEntry

def new : LockEntry := ⟨[], []⟩

/-- `txid` holds the entry in `mode` or a stronger one. -/
def alreadyHolds (e : LockEntry) (txid : TxId) (mode : LockMode) : Bool :=
  e.holders.any fun h => h.txid == txid && modeAtLeastAsStrong h.mode mode

/-- `mode` conflicts with no holder other than the requester itself. -/
def compatibleWithHolders (e : LockEntry) (txid : TxId) (mode : LockMode) : Bool :=
  e.holders.all fun h => h.txid == txid || mode.compatibleWith h.mode

/-- Record a holder. A transaction that has a record already keeps it as it
is, whatever mode is asked for now. -/
def addHolder (e : LockEntry) (txid : TxId) (mode : LockMode) : LockEntry :=
  if e.holders.any (fun h => h.txid == txid) then e
  else { e with holders := e.holders ++ [⟨txid, mode⟩] }

/-- `Vec::swap_remove`: the last element takes the place of the removed
one. -/
def swapRemove {α : Type} (xs : List α) (i : Nat) : List α :=
  match xs.getLast? with
  | none => []
  | some l => (xs.set i l).dropLast

/-- Drop the first record of `txid`. -/
def removeHolder (e : LockEntry) (txid : TxId) : LockEntry :=
  match e.holders.findIdx? (fun h => h.txid == txid) with
  | none => e
  | some pos => { e with holders := swapRemove e.holders pos }

def isEmpty (e : LockEntry) : Bool := e.holders.isEmpty

/-- The waiter queue as a work list: grant from the front until the first
waiter that conflicts with the holders so far. -/
def grantLoop : LockEntry → List Waiter → LockEntry × List Waiter
  | e, [] => ({ e with waiters := [] }, [])
  | e, w :: ws =>
    if e.compatibleWithHolders w.txid w.mode then
      let (e', sent) := grantLoop (e.addHolder w.txid w.mode) ws
      (e', w :: sent)
    else ({ e with waiters := w :: ws }, [])

/-- Grant the waiters that have become compatible, in FIFO order. Returns the
requests that were granted, each of which is sent `granted`. -/
def grantCompatibleWaiters (e : LockEntry) : LockEntry × List Waiter := e.grantLoop e.waiters

end LockEntry

/-- The top ten bits of a multiplicative hash. -/
def shardIndex (r : ResourceId) : Nat := r * 0x9E3779B97F4A7C15 % 2 ^ 64 / 2 ^ (64 - 10)

/-- The shards, each a map from resource to entry, and the number of channels
made so far. -/
structure LockTable where
  shards : Nat → ResourceId → Option LockEntry
  channels : Chan

namespace LockTable

def new : LockTable := ⟨fun _ _ => none, 0⟩

/-- The entry of a resource, if it has one. -/
def get (t : LockTable) (r : ResourceId) : Option LockEntry := t.shards (shardIndex r) r

/-- Store or drop the entry of a resource. -/
def put (t : LockTable) (r : ResourceId) (e : Option LockEntry) : LockTable :=
  { t with
    shards := Function.update t.shards (shardIndex r)
      (Function.update (t.shards (shardIndex r)) r e) }

@[simp] theorem get_new (r : ResourceId) : new.get r = none := by simp only [get, new]

@[simp] theorem get_put_self (t : LockTable) (r : ResourceId)
    (e : Option LockEntry) : (t.put r e).get r = e := by
  simp [get, put]

theorem get_put_ne (t : LockTable) {r r' : ResourceId}
    (e : Option LockEntry) (h : r' ≠ r) : (t.put r e).get r' = t.get r' := by
  unfold get put
  by_cases hs : shardIndex r' = shardIndex r
  · simp [hs, h]
  · simp [hs]

theorem get_setChannels (t : LockTable) (n : Chan) : get { t with channels := n } = t.get := rfl

/-- Ask for `mode` on `r`. A request that conflicts is queued, unless the
transaction is in the queue already. -/
def tryAcquire (t : LockTable) (r : ResourceId) (txid : TxId)
    (mode : LockMode) : LockTable × LockResult × Option Chan :=
  let entry := (t.get r).getD LockEntry.new
  if entry.alreadyHolds txid mode then
    (t.put r (some entry), .granted, none)
  else if entry.compatibleWithHolders txid mode then
    (t.put r (some (entry.addHolder txid mode)), .granted, none)
  else if entry.waiters.any (fun w => w.txid == txid) then
    (t.put r (some entry), .denied, none)
  else
    let rx := t.channels
    let entry := { entry with waiters := entry.waiters ++ [⟨txid, mode, rx⟩] }
    ({ t.put r (some entry) with channels := rx + 1 }, .denied, some rx)

/-- Give up the lock of `txid` on `r` and wake the waiters that can go. -/
def release (t : LockTable) (r : ResourceId) (txid : TxId) : LockTable × List Waiter :=
  match t.get r with
  | none => (t, [])
  | some entry =>
    let (entry, sent) := (entry.removeHolder txid).grantCompatibleWaiters
    if entry.isEmpty && entry.waiters.isEmpty then (t.put r none, sent)
    else (t.put r (some entry), sent)

/-- The recorded holders of a resource. -/
def holders (t : LockTable) (r : ResourceId) : List (TxId × LockMode) :=
  match t.get r with
  | none => []
  | some entry => entry.holders.map fun h => (h.txid, h.mode)

end LockTable

end RGraph.Txn
