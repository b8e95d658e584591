/-
  ServedChain — names of hosts.

  Statistics list the labels of a name in the opposite order, in the first
  column of a table.

  * `Hostname.reverse` turns the order of the labels around;
  * `Hostname.ofTable` reads the names in a table.
-/
import ServedChain.Text.Split
import ServedChain.Tsv

namespace ServedChain.Hostname

/-- The name with its labels in the opposite order. -/
def reverse (name : String) : String :=
  String.ofList (Text.join '.' (Text.split '.' name.toList).reverse)

/-- The names in the first column of a table. -/
def ofTable (table : String) : Except Tsv.Error (List String) :=
  (Tsv.parse table.toList).map fun rows => rows.map fun row => reverse (String.ofList (row.headD []))

end ServedChain.Hostname
