/-!
# Flag words

A flag word is reported by the labels of the flags that are set in it, in the order of a table.
-/

namespace PeCoff

/-- The labels whose bits are all set in a word, in the order of the table. -/
def setLabels (table : List (UInt32 × String)) (word : UInt32) : List String :=
  table.filterMap fun (mask, label) => if word &&& mask = mask then some label else none

end PeCoff
