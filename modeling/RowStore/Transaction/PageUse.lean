/- RowStore/Transaction/PageUse
   role: definitions
   digest: The uses that a transaction makes of pages, and which of them its locks go by. -/

import RowStore.Transaction.Locks

set_option autoImplicit false
set_option relaxedAutoImplicit false

namespace RowStore.Transaction

/-- One use of a page, or the end of the transaction that made the uses before. -/
inductive PageUse
  | written (page : UInt32)
  | recorded (page : UInt32) (mode : LockMode)
  | checked (page : UInt32) (mode : LockMode)
  | ended
  deriving DecidableEq, Repr

namespace PageUse

/-- A use brings something about, and every later one lets it stand. Both may depend on the uses
before. -/
def Since (begins keeps : List PageUse → PageUse → Prop) (uses : List PageUse) : Prop :=
  ∃ i use, uses[i]? = some use ∧ begins (uses.take i) use ∧
    ∀ j later, i < j → uses[j]? = some later → keeps (uses.take j) later

def Enters (page : UInt32) : PageUse → Prop
  | .written used => used = page
  | .recorded used _ => used = page
  | .checked _ _ => False
  | .ended => False

/-- The page has been written or recorded since the last end of a transaction. -/
def Entered (page : UInt32) (uses : List PageUse) : Prop :=
  Since (fun _ use => use.Enters page) (fun _ later => later ≠ .ended) uses

/-- The use, after others, sets the mode of the page. Writing does so always, recording unless it
would weaken an entry, and checking only where there is an entry. -/
def Sets (page : UInt32) (before : List PageUse) : PageUse → LockMode → Prop
  | .written used, mode => used = page ∧ mode = .readWrite
  | .recorded used asked, mode =>
    used = page ∧ mode = asked ∧ (asked = .readWrite ∨ ¬ Entered page before)
  | .checked used asked, mode => used = page ∧ mode = asked ∧ Entered page before
  | .ended, _ => False

/-- The last use that set the mode of the page, since the last end of a transaction, set it to the
given one. -/
def LastSet (page : UInt32) (uses : List PageUse) (mode : LockMode) : Prop :=
  Since (fun before use => use.Sets page before mode)
    (fun before later => later ≠ .ended ∧ ∀ other, ¬ later.Sets page before other) uses

end PageUse

end RowStore.Transaction
