/- RowStore/Table/Chain
   role: definitions
   digest: The versions of one row, what a view reads of them, and which may be given up. -/

import RowStore.Fault
import RowStore.Transaction.Registry

/-!
A row is kept as the list of its versions, the oldest first. Each version names the transaction
that wrote it and, once it is deleted or replaced, the one that did so. Which of them a view shows
depends on the stamps of these transactions alone.
-/

set_option autoImplicit false
set_option relaxedAutoImplicit false

namespace RowStore.Table

open RowStore.Row (RowId)
open RowStore.Text (Bytes)
open RowStore.Transaction (TxnId Timestamp View isSettled)

structure Version where
  data : Bytes
  creator : TxnId
  deleter : Option TxnId := none
  deriving DecidableEq, Repr

/-- The versions of a row, the oldest first. A row without versions is absent. -/
abbrev Chain := List Version

namespace Chain

/-- The bytes that a view reads: those of the newest version whose creator it sees, unless it also
sees that version deleted. -/
def read (stamps : TxnId → Timestamp) (view : View) (chain : Chain) : Option Bytes :=
  match chain.reverse.find? fun v => view.sees stamps v.creator with
  | none => none
  | some v => if v.deleter.any (view.sees stamps) then none else some v.data

/-- Whether a transaction may write over the newest version, and then whether that version is its
own. The version must be seen by the transaction's view and not be deleted. -/
def checkWritable (stamps : TxnId → Timestamp) (view : View) (row : RowId) (newest : Version) :
    Except Fault Bool :=
  if !view.sees stamps newest.creator then .error (.writeConflict row)
  else
    match newest.deleter with
    | none => .ok (view.isOwn newest.creator)
    | some deleter =>
      if view.sees stamps deleter then .error (.rowNotFound row) else .error (.writeConflict row)

def delete (stamps : TxnId → Timestamp) (view : View) (txn : TxnId) (row : RowId) (chain : Chain) :
    Except Fault Chain :=
  match chain.getLast? with
  | none => .error (.rowNotFound row)
  | some newest => (checkWritable stamps view row newest).map fun _ =>
    chain.dropLast ++ [{ newest with deleter := some txn }]

/-- The chain with new bytes written by the view's transaction. Its own version is overwritten; any
other one is marked deleted and followed by a new version. -/
def replace (stamps : TxnId → Timestamp) (view : View) (txn : TxnId) (row : RowId) (data : Bytes)
    (chain : Chain) : Except Fault Chain :=
  match chain.getLast? with
  | none => .error (.rowNotFound row)
  | some newest => (checkWritable stamps view row newest).map fun own =>
    chain.dropLast ++
      if own then [{ newest with data := data }]
      else [{ newest with deleter := some txn }, { data := data, creator := txn }]

def withdraw (txn : TxnId) (chain : Chain) : Chain :=
  (chain.filter fun v => v.creator != txn).map fun v =>
    if v.deleter = some txn then { v with deleter := none } else v

/-- The number of versions before the last one with a settled creator; zero if there is none. Views
of the horizon or later read none of these. -/
def superseded (settled : TxnId → Bool) : Chain → Nat
  | [] => 0
  | _ :: rest => if rest.any (settled ·.creator) then superseded settled rest + 1 else 0

/-- The chain is a single version whose making and deletion are both settled: the row is absent from
every view of the horizon or later. -/
def isGone (settled : TxnId → Bool) : Chain → Bool
  | [v] => settled v.creator && v.deleter.any settled
  | _ => false

/-- The number of the oldest versions that may be forgotten when every view reads as of the horizon
or later. -/
def forgettable (stamps : TxnId → Timestamp) (horizon : Timestamp) (chain : Chain) : Nat :=
  let settled := fun txn => isSettled horizon (stamps txn)
  let old := chain.superseded settled
  if Chain.isGone settled (chain.drop old) then chain.length else old

def purge (stamps : TxnId → Timestamp) (horizon : Timestamp) (chain : Chain) : Chain :=
  chain.drop (chain.forgettable stamps horizon)

end Chain

end RowStore.Table
