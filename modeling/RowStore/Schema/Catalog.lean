/- RowStore/Schema/Catalog
   role: definitions
   digest: The catalog of table layouts, in the order in which the tables were created. -/

import RowStore.Schema.Layout

set_option autoImplicit false
set_option relaxedAutoImplicit false

namespace RowStore.Schema

/-- The layouts of all tables, the oldest first, and the number given out last. -/
structure Catalog where
  layouts : List Layout := []
  lastId : Nat := 0
  deriving DecidableEq, Repr

namespace Catalog

def find? (catalog : Catalog) (name : String) : Option Layout :=
  catalog.layouts.find? fun layout => layout.name == name

def findById? (catalog : Catalog) (id : Nat) : Option Layout :=
  catalog.layouts.find? fun layout => layout.id == id

def contains (catalog : Catalog) (name : String) : Bool := (catalog.find? name).isSome

/-- The catalog with one more table, under the next number. A name that is in use is refused before
the declaration is looked at. -/
def create (catalog : Catalog) (spec : TableSpec) : Except SchemaFault (Layout × Catalog) :=
  if catalog.contains spec.name then .error (.tableExists spec.name)
  else
    let id := catalog.lastId + 1
    (Layout.ofSpec id spec).map fun layout => (layout, ⟨catalog.layouts ++ [layout], id⟩)

end Catalog

end RowStore.Schema
