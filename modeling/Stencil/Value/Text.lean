import Stencil.Value.Basic
import Stencil.Binary64.Text
import Stencil.Text.Quoted

/-!
# Written forms of values

`Value.text` is the form inside a printed expression; `Value.describe` also names the kind of each
value and shows a list's element tag.
-/

namespace Stencil

namespace Value

def boolText (b : Bool) : String := if b then "true" else "false"

mutual

/-- The form in which a constant stands in a printed expression. -/
def text : Value → String
  | int n => toString n.toInt
  | float x => x.text
  | bool b => boolText b
  | str s => Text.quoted s
  | unit => "()"
  | list _ items => "[" ++ ", ".intercalate (texts items) ++ "]"

/-- The written forms of the items of a list. -/
def texts : List Value → List String
  | [] => []
  | v :: vs => text v :: texts vs

end

mutual

/-- The form that names the kind of the value. -/
def describe : Value → String
  | int n => "Int(" ++ toString n.toInt ++ ")"
  | float x => "Float(" ++ x.text ++ ")"
  | bool b => "Bool(" ++ boolText b ++ ")"
  | str s => "Str(" ++ Text.quoted s ++ ")"
  | unit => "Unit"
  | list elem items =>
    "List(ListValue \x7b elem: " ++ elem.text ++ ", items: ["
      ++ ", ".intercalate (descriptions items) ++ "] \x7d)"

/-- The described forms of the items of a list. -/
def descriptions : List Value → List String
  | [] => []
  | v :: vs => describe v :: descriptions vs

end

end Value

end Stencil
