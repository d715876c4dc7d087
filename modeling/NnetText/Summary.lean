import NnetText.Conversion

/-!
# The summary of a conversion

What a person wants to see of a converted model: its size, the numbers of components and
constants, and a table with a line for each component and, below it, one for each constant.
Columns are padded by characters; a text that is wider than its column pushes the rest to the
right.
-/

namespace NnetText

namespace Summary

/-- A text at the left of a column. -/
def alignLeft (width : Nat) (s : String) : String :=
  s ++ String.ofList (List.replicate (width - s.length) ' ')

/-- A text at the right of a column. -/
def alignRight (width : Nat) (s : String) : String :=
  String.ofList (List.replicate (width - s.length) ' ') ++ s

/-- A line of the table. -/
def row (id name type dim inputs : String) : String :=
  "  " ++ alignRight 4 id ++ "  " ++ alignLeft 24 name ++ " " ++ alignLeft 36 type ++ " " ++
    alignRight 6 dim ++ "  " ++ inputs

/-- The line of a constant. -/
def constant (name : String) (t : Tensor) : String :=
  "          " ++ name ++ " [" ++ ", ".intercalate (t.shape.map toString) ++ "]"

/-- The lines of a component. -/
def component (c : Component) : List String :=
  row (toString c.id) c.name c.typeTag ((c.dim.map toString).getD "-")
      (", ".intercalate c.inputs) ::
    c.constants.entries.map (fun e => constant e.1 e.2)

/-- The table of the components, behind an empty line; without components there is none. -/
def table (components : List Component) : List String :=
  if components.isEmpty then []
  else "" :: row "ID" "NAME" "TYPE" "DIM" "INPUTS" :: components.flatMap component

end Summary

/-- **The lines of the summary** of a conversion of the model that is called `title`. -/
def Conversion.summary (title : String) (elapsed : Duration) (c : Conversion) : List String :=
  ("Model: " ++ title) ::
    (c.file.map
      (fun f => "  Size: " ++ f.humanSize ++ " (" ++ toString f.lineCount ++ " lines)")).toList ++
    ["  Components: " ++ toString c.components.length ++ ", constants: " ++
      toString c.constantCount ++ ", time: " ++ elapsed.milliseconds ++ "ms"] ++
    Summary.table c.components

end NnetText
