import Traversal.Plan.Basic
import Traversal.Text.Outline

namespace Traversal

open Text in
def NodeList.outline (l : NodeList) : String :=
  fields "Fixed" [("values", list (l.ids.map fun id => call "NodeId" (toString id)))]

def Role.outline : Role → String
  | .subject => "Subject"
  | .predicate => "Predicate"
  | .object => "Object"
  | .label => "Label"

namespace Plan

open Text in
/-- A node of a plan from the text of its kind. -/
def node (kind : String) (tags : TagSet) : String :=
  fields "Iter"
    [("kind", kind), ("tagger", fields "Tagger" [("tags", set (tags.toList.map quoted))])]

open Text in
mutual

/-- The plan on one line as nested constructors. -/
def outline : Plan → String
  | .all tags => node "AllNodes" tags
  | .fixed nodes tags => node (call "Fixed" nodes.outline) tags
  | .and subs tags => node (call "And" (list (outlines subs))) tags
  | .or subs tags => node (call "Or" (list (outlines subs))) tags
  | .not inner whole tags =>
    node (fields "Not" [("inner", inner.outline), ("all", whole.outline)]) tags
  | .linksTo role sub tags =>
    node (fields "LinksTo" [("sub", sub.outline), ("dir", role.outline)]) tags
  | .hasA role sub tags =>
    node (fields "HasA" [("sub", sub.outline), ("dir", role.outline)]) tags

def outlines : List Plan → List String
  | [] => []
  | p :: ps => p.outline :: outlines ps

end

end Plan

end Traversal
