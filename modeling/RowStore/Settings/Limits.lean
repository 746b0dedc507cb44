/- RowStore/Settings/Limits
   role: definitions
   digest: The limits of a store, read from a TOML document. -/

import RowStore.Engine.Basic
import RowStore.Settings.ByteSize
import RowStore.Settings.Document

set_option autoImplicit false
set_option relaxedAutoImplicit false

namespace RowStore.Config

open RowStore.Settings

/-- The limits that a document sets at its top level: a count of rows that is no negative number,
and a size in bytes as a string. Both have to be there; other keys are ignored. -/
def ofText? (text : String) : Option Config := do
  let document ← Document.ofText? text
  let .integer rows ← Document.setting? document "rows_per_page" | none
  let .text size ← Document.setting? document "max_record_size" | none
  let maxRecordSize ← ByteSize.ofText? size
  if rows < 0 then none else some { rowsPerPage := rows.toNat, maxRecordSize }

def ofText (text : String) : Except Fault Config :=
  match ofText? text with
  | some config => .ok config
  | none => .error (.misuse .config)

end RowStore.Config
