import ElmSuite.Text.Codes
import ElmSuite.Yaml.Tag

/-!
The nodes of a YAML document.  They are known by numbers, because a node may stand in several
places, even inside itself.
-/

namespace ElmSuite.Yaml

/-- The number of a node in its document. -/
abbrev NodeNumber := Nat

/-- What is in a node. -/
inductive Content
  | scalar (codes : Codes)
  | sequence (items : List NodeNumber)
  | mapping (entries : List (NodeNumber × NodeNumber))
deriving DecidableEq, Repr

/-- A node: its kind and what is in it. -/
structure Node where
  tag : Tag
  content : Content
deriving DecidableEq, Repr

/-- The nodes of a document by their numbers. -/
abbrev Nodes := Array Node

namespace Nodes

/-- The kind of a node. -/
def tagOf (nodes : Nodes) (number : NodeNumber) : Tag :=
  (nodes[number]?.map Node.tag).getD .unknown

/-- The entries of a mapping; other nodes have none. -/
def entriesOf (nodes : Nodes) (number : NodeNumber) : List (NodeNumber × NodeNumber) :=
  match nodes[number]? with
  | some ⟨_, .mapping entries⟩ => entries
  | _ => []

/-- The nodes with other content in one of them. -/
def fill (nodes : Nodes) (number : NodeNumber) (content : Content) : Nodes :=
  nodes.modify number fun node => { node with content }

/-- The nodes, of which one is a text if it was the key `=`. -/
def settleKey (nodes : Nodes) (number : NodeNumber) : Nodes :=
  nodes.modify number fun node => if node.tag = .value then { node with tag := .str } else node

end Nodes

end ElmSuite.Yaml
