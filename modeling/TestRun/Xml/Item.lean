import TestRun.Xml.Text
set_option autoImplicit false

namespace TestRun.Xml

inductive Item
  | comment (text : String)
  /-- An element with children shows them and not its text. -/
  | element (tag : String) (attributes : List (String × String)) (text : String)
      (children : List Item)

def attributesText (attributes : List (String × String)) : String :=
  String.join (attributes.map fun a => " " ++ a.1 ++ "=\"" ++ escapeAttribute a.2 ++ "\"")

namespace Item

mutual

/-- The lines of an item behind their margin; `deeper` is what each level adds to it. -/
def lines (deeper margin : String) : Item → List String
  | comment text => [margin ++ "<!--" ++ text ++ "-->"]
  | element tag attributes text [] =>
    let opening := margin ++ "<" ++ tag ++ attributesText attributes
    if text.isEmpty then [opening ++ "/>"]
    else [opening ++ ">" ++ escapeText text ++ "</" ++ tag ++ ">"]
  | element tag attributes _ (child :: rest) =>
    (margin ++ "<" ++ tag ++ attributesText attributes ++ ">") ::
      (lines deeper (margin ++ deeper) child ++ linesAll deeper (margin ++ deeper) rest ++
        [margin ++ "</" ++ tag ++ ">"])

def linesAll (deeper margin : String) : List Item → List String
  | [] => []
  | item :: rest => lines deeper margin item ++ linesAll deeper margin rest

end

end Item

def header : String := "<?xml version=\"1.0\" encoding=\"UTF-8\"?>"

def documentText (indent : Option String) (root : Item) : String :=
  let deeper := indent.getD ""
  String.intercalate (if deeper.isEmpty then "" else "\n") (header :: root.lines deeper "") ++ "\n"

end TestRun.Xml
