/- RowStore/Run/History
   role: definitions
   digest: What has been written and when it was committed, and what follows from that for a row. -/

import RowStore.Text.Bytes
import RowStore.Transaction.Registry

/-!
A history lists the successful writes on all rows, with the commits and the rollbacks among them. It
keeps no versions and forgets nothing. What a view shows of a row is what the writes leave that were
committed before the view's snapshot, taken in the order of the commits, followed by the writes of
the view's own transaction.
-/

set_option autoImplicit false
set_option relaxedAutoImplicit false

namespace RowStore.Run

open RowStore.Text (Bytes)
open RowStore.Transaction (Timestamp Touch TxnId View)

inductive Write
  | inserted (data : Bytes)
  | replaced (data : Bytes)
  | deleted
  deriving DecidableEq, Repr

namespace Write

/-- The bytes that the write leaves, or none for a deletion. -/
def left : Write → Option Bytes
  | .inserted data => some data
  | .replaced data => some data
  | .deleted => none

/-- What writes leave of a row that is absent before them: what the last one leaves. -/
def replay (writes : List Write) : Option Bytes := writes.foldl (fun _ write => write.left) none

end Write

/-- Something that happened to a transaction: it wrote a row, or it ended. -/
inductive Event
  | wrote (txn : TxnId) (row : Touch) (write : Write)
  | committed (txn : TxnId) (time : Timestamp)
  | withdrawn (txn : TxnId)
  deriving DecidableEq, Repr

def Event.writeOf? (row : Touch) (txn : TxnId) : Event → Option Write
  | .wrote writer written write => if writer = txn ∧ written = row then some write else none
  | _ => none

def Event.writeOn? (row : Touch) : Event → Option (TxnId × Write)
  | .wrote writer written write => if written = row then some (writer, write) else none
  | _ => none

def Event.commit? : Event → Option (TxnId × Timestamp)
  | .committed txn time => some (txn, time)
  | _ => none

/-- Events, the oldest first. -/
abbrev History := List Event

namespace History

def writes (history : History) (row : Touch) (txn : TxnId) : List Write :=
  history.filterMap (Event.writeOf? row txn)

/-- The transactions committed before a time, in the order of their commit times. -/
def settledBefore (history : History) (time : Timestamp) : List TxnId :=
  (((history.filterMap Event.commit?).filter fun c => decide (c.2 < time)).mergeSort
    fun a b => decide (a.2 ≤ b.2)).map (·.1)

/-- What a view shows of a row, by the history alone. -/
def read (history : History) (row : Touch) (view : View) : Option Bytes :=
  Write.replay
    ((history.settledBefore view.snapshot ++ view.own.toList).flatMap (history.writes row))

def isWithdrawn (history : History) (txn : TxnId) : Bool := history.contains (.withdrawn txn)

/-- The last write on a row by a transaction that was not rolled back, with that transaction. -/
def surviving (history : History) (row : Touch) : Option (TxnId × Write) :=
  ((history.filterMap (Event.writeOn? row)).filter fun w => !history.isWithdrawn w.1).getLast?

def commitTime? (history : History) (txn : TxnId) : Option Timestamp :=
  (history.filterMap Event.commit?).lookup txn

end History

end RowStore.Run
