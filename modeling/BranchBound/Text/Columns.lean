/-
Rows of a table with columns of fixed width: every field is filled up with blanks at its end, a
field that is too wide is written whole, and a bar stands between two fields.
-/
namespace BranchBound.Text

/-- A field filled up with blanks at its end. -/
def padded (width : Nat) (field : String) : String :=
  field ++ String.ofList (List.replicate (width - field.length) ' ')

/-- A row of fields, each with the width of its column. -/
def row (fields : List (Nat × String)) : String :=
  " | ".intercalate (fields.map fun field => padded field.1 field.2)

end BranchBound.Text
