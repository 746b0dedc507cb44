/- RowStore/Transaction/Locks
   role: definitions
   digest: The page locks that one transaction keeps for itself. -/

import RowStore.Fault

set_option autoImplicit false
set_option relaxedAutoImplicit false

namespace RowStore.Transaction

inductive LockMode
  | readOnly
  | readWrite
  deriving DecidableEq, Repr

/-- A lock held in the first mode may move to the second. -/
def LockMode.maySwitch : LockMode → LockMode → Bool
  | .readOnly, .readWrite => true
  | .readWrite, .readOnly => true
  | _, _ => false

/-- The pages locked, each with its mode; no page occurs twice. -/
structure LockTable where
  entries : List (UInt32 × LockMode) := []
  deriving DecidableEq, Repr

namespace LockTable

def modeOf? (locks : LockTable) (page : UInt32) : Option LockMode := locks.entries.lookup page

def size (locks : LockTable) : Nat := locks.entries.length

def switch (locks : LockTable) (page : UInt32) (mode : LockMode) : LockTable :=
  ⟨locks.entries.map fun e => if e.1 = page then (page, mode) else e⟩

/-- A page is about to be used in a mode. An entry moves to that mode if it may. -/
def check (locks : LockTable) (page : UInt32) (mode : LockMode) : Except Fault LockTable :=
  match locks.modeOf? page with
  | none => .ok locks
  | some held =>
    if held = mode then .ok locks
    else if held.maySwitch mode then .ok (locks.switch page mode)
    else .error (.lockConflict page)

/-- A page has been used in a mode. A new entry takes that mode, an old one is only raised to
read-write. -/
def record (locks : LockTable) (page : UInt32) (mode : LockMode) : LockTable :=
  match locks.modeOf? page with
  | none => ⟨locks.entries ++ [(page, mode)]⟩
  | some _ => if mode = .readWrite then locks.switch page .readWrite else locks

end LockTable

end RowStore.Transaction
