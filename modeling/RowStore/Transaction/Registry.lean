/- RowStore/Transaction/Registry
   role: definitions
   digest: The clock, the stamps of all transactions, and the snapshots that are still in use. -/

import RowStore.Row.Id

/-!
Time is a counter that only commits advance. A transaction reads as of the time at which it began,
its snapshot. Its stamp is a mark above all times while it is open and becomes the time of its
commit, so everything it wrote turns from open to committed at once. The snapshots of unfinished
transactions and of pinned views are listed, once for each of their users; the least of them bounds
what may be forgotten.
-/

set_option autoImplicit false
set_option relaxedAutoImplicit false

namespace RowStore.Transaction

open RowStore.Row (RowId)

/-- A time of the clock, or the stamp of a transaction; below `2 ^ 64`. -/
abbrev Timestamp := Nat

/-- The number of a transaction, in the order of their beginnings. -/
abbrev TxnId := Nat

abbrev PinId := Nat

def firstTime : Timestamp := 1

/-- The bit that sets the stamps of open transactions apart, `2 ^ 63`. -/
def openBit : Timestamp := 0x8000000000000000

/-- The stamp of a transaction while it is open: its snapshot with the open bit set. -/
def openStamp (snapshot : Timestamp) : Timestamp :=
  if snapshot < openBit then snapshot + openBit else snapshot

/-- The stamp is a commit time. As no snapshot is zero, open stamps lie above the bare open bit. -/
def isCommitted (stamp : Timestamp) : Bool := decide (stamp < openBit + 1)

/-- The stamp is a commit time before the given time. -/
def isSettled (horizon stamp : Timestamp) : Bool := isCommitted stamp && decide (stamp < horizon)

/-- The time after a commit; the clock is a 64-bit counter. -/
def tick (time : Timestamp) : Timestamp := (time + 1) % 0x10000000000000000

/-- A row that a transaction wrote: the number of its table and its id. -/
structure Touch where
  table : Nat
  row : RowId
  deriving DecidableEq, Repr

/-- A transaction: its snapshot, its stamp, and the rows it has written and not yet settled, in the
order of the writes. -/
structure Txn where
  snapshot : Timestamp
  stamp : Timestamp
  touched : List Touch
  deriving DecidableEq, Repr

/-- A snapshot kept in use by a number of views. -/
structure Pin where
  snapshot : Timestamp
  holders : Nat
  deriving DecidableEq, Repr

/-- A way to read: as of a time, together with the writes of one's own transaction. A pinned view
keeps its snapshot in use. -/
structure View where
  snapshot : Timestamp
  own : Option TxnId := none
  pin : Option PinId := none
  deriving DecidableEq, Repr

namespace View

def isOwn (view : View) (txn : TxnId) : Bool := decide (view.own = some txn)

/-- The view shows the writes of the transaction, given the stamps of all transactions. -/
def sees (stamps : TxnId → Timestamp) (view : View) (txn : TxnId) : Bool :=
  view.isOwn txn || isSettled view.snapshot (stamps txn)

def isPinned (view : View) : Bool := view.pin.isSome

end View

/-- The clock, all transactions ever begun, the snapshots in use, and all pins ever set. -/
structure Registry where
  clock : Timestamp := firstTime
  active : List Timestamp := []
  txns : Array Txn := #[]
  pins : Array Pin := #[]
  deriving DecidableEq, Repr

namespace Registry

/-- The stamp of a transaction. A number that was never given out counts as committed before all
times. -/
def stamp (registry : Registry) (txn : TxnId) : Timestamp :=
  match registry.txns[txn]? with
  | some t => t.stamp
  | none => 0

def snapshot (registry : Registry) (txn : TxnId) : Timestamp :=
  match registry.txns[txn]? with
  | some t => t.snapshot
  | none => 0

def touched (registry : Registry) (txn : TxnId) : List Touch :=
  match registry.txns[txn]? with
  | some t => t.touched
  | none => []

/-- The least snapshot in use, or the time of the clock when there is none. -/
def horizon (registry : Registry) : Timestamp := registry.active.min?.getD registry.clock

def start (registry : Registry) : TxnId × Registry :=
  let now := registry.clock
  (registry.txns.size,
    { registry with
      active := now :: registry.active
      txns := registry.txns.push ⟨now, openStamp now, []⟩ })

/-- The view of a transaction: as of its snapshot, with its own writes. -/
def ownView (registry : Registry) (txn : TxnId) : View :=
  { snapshot := registry.snapshot txn, own := some txn }

def touch (registry : Registry) (txn : TxnId) (t : Touch) : Registry :=
  { registry with
    txns := registry.txns.modify txn fun txn => { txn with touched := txn.touched ++ [t] } }

/-- A transaction committed now: its commit time, the rows left to settle, and the registry with
the clock advanced and one use of the snapshot given up. A transaction may be committed again and
then takes a new commit time. -/
def commit (registry : Registry) (txn : TxnId) : Timestamp × List Touch × Registry :=
  let now := registry.clock
  (now, registry.touched txn,
    { registry with
      clock := tick now
      active := registry.active.erase (registry.snapshot txn)
      txns := registry.txns.modify txn fun t => { t with stamp := now, touched := [] } })

/-- A transaction rolled back: the rows left to restore, and the registry with one use of the
snapshot given up. Its stamp stays as it is. -/
def rollback (registry : Registry) (txn : TxnId) : List Touch × Registry :=
  (registry.touched txn,
    { registry with
      active := registry.active.erase (registry.snapshot txn)
      txns := registry.txns.modify txn fun t => { t with touched := [] } })

def pinNow (registry : Registry) : View × Registry :=
  let now := registry.clock
  ({ snapshot := now, pin := some registry.pins.size },
    { registry with
      active := now :: registry.active
      pins := registry.pins.push ⟨now, 1⟩ })

def hold (registry : Registry) (view : View) : Registry :=
  match view.pin with
  | none => registry
  | some pin =>
    { registry with pins := registry.pins.modify pin fun p => { p with holders := p.holders + 1 } }

/-- One holder of a view less. With the last one the snapshot is no longer in use. -/
def release (registry : Registry) (view : View) : Registry :=
  match view.pin with
  | none => registry
  | some pin =>
    match registry.pins[pin]? with
    | none => registry
    | some p =>
      { registry with
        active := if p.holders = 1 then registry.active.erase p.snapshot else registry.active
        pins := registry.pins.modify pin fun p => { p with holders := p.holders - 1 } }

end Registry

end RowStore.Transaction
