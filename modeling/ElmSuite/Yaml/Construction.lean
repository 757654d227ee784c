import ElmSuite.Yaml.Document
import ElmSuite.Yaml.Scalar

/-!
The data that a YAML document stands for.  Scalars have their values at once, while a collection is
only started where it stands, and its parts are looked at after all collections that were started
before it.  So of several faults the one in the outer collections is told.  A node has one value
wherever it stands.
-/

namespace ElmSuite.Yaml

/-- The data of a document: the value of its root, and the entries of the root if it is a
mapping. -/
structure Data where
  root : Value
  entries : List (Value × Value) := []
deriving DecidableEq, Repr

/-- Which collection a kind of nodes makes. -/
def Tag.collection? : Tag → Option Collection
  | .seq | .omap | .pairs => some .list
  | .map => some .mapping
  | .set => some .set
  | _ => none

namespace Nodes

/-- The first entry of a list that merges another mapping: what it merges, and the list without
it. -/
def takeMerge (nodes : Nodes) :
    List (NodeNumber × NodeNumber) → Option (NodeNumber × List (NodeNumber × NodeNumber))
  | [] => none
  | (key, source) :: rest =>
      if nodes.tagOf key = .merge then some (source, rest)
      else (takeMerge nodes rest).map fun (found, others) => (found, (key, source) :: others)

/-- The number of the entries of all mappings. -/
def entryCount (nodes : Nodes) : Nat :=
  nodes.foldl (fun count node =>
    match node.content with
    | .mapping entries => count + entries.length
    | _ => count) 0

/-- The nodes after a mapping has taken over the entries of the mappings that it merges, in front of
its own; `merged` are those it has found.  In a list of mappings the first one wins, so it comes
last.  The mappings that are merged do the same before.  Every step takes a merging entry away. -/
def mergeInto : Nat → NodeNumber → List (NodeNumber × NodeNumber) → Nodes → Except Defect Nodes
  | 0, _, _, nodes => .ok nodes
  | fuel + 1, number, merged, nodes =>
      let own := nodes.entriesOf number
      match nodes.takeMerge own with
      | none => .ok (own.foldl (fun nodes entry => nodes.settleKey entry.1)
          (nodes.fill number (.mapping (merged ++ own))))
      | some (source, rest) => do
          let nodes := nodes.fill number (.mapping rest)
          match nodes[source]? with
          | some ⟨_, .mapping _⟩ =>
              let nodes ← mergeInto fuel source [] nodes
              mergeInto fuel number (merged ++ nodes.entriesOf source) nodes
          | some ⟨_, .sequence items⟩ =>
              let (found, nodes) ← items.foldlM (fun (found, nodes) item => do
                match nodes[item]? with
                | some ⟨_, .mapping _⟩ =>
                    let nodes ← mergeInto fuel item [] nodes
                    return (nodes.entriesOf item ++ found, nodes)
                | _ => throw .wrongNode) ([], nodes)
              mergeInto fuel number (merged ++ found) nodes
          | _ => throw .wrongNode

/-- The nodes after a mapping has taken over the entries of the mappings that it merges. -/
def flatten (nodes : Nodes) (number : NodeNumber) : Except Defect Nodes :=
  nodes.mergeInto (nodes.entryCount + 2) number []

/-- The text of a node that has the kind of a scalar: a scalar, or a mapping with one under the key
`=`.  A search of more steps than there are nodes never ends. -/
def textOf (nodes : Nodes) : Nat → NodeNumber → Except Defect Codes
  | 0, _ => .error (.badScalar .endless)
  | fuel + 1, number =>
      match nodes[number]? with
      | some ⟨_, .scalar codes⟩ => .ok codes
      | some ⟨_, .mapping entries⟩ =>
          match entries.find? fun entry => nodes.tagOf entry.1 == .value with
          | some (_, source) => textOf nodes fuel source
          | none => .error .wrongNode
      | _ => .error .wrongNode

/-- The value of a node of the kind of a scalar. -/
def scalarOf (nodes : Nodes) (number : NodeNumber) : Except Defect Value :=
  let tag := nodes.tagOf number
  if Scalar.isScalarTag tag then do
    let codes ← nodes.textOf (nodes.size + 1) number
    match tag, nodes[number]? with
    | .timestamp, some ⟨_, .mapping _⟩ => throw (.badScalar .nestedTimestamp)
    | _, _ => Scalar.value number tag codes
  else .error .unknownTag

end Nodes

/-- The state of finding values: the nodes as merging leaves them, the values by the numbers of
their nodes, the collections in the order in which they were started, and the entries of the
mappings whose parts have been looked at. -/
structure Construction where
  nodes : Nodes
  values : Array (Option Value)
  started : Array NodeNumber := #[]
  entries : List (NodeNumber × List (Value × Value)) := []

namespace Construction

/-- The value of a node, and the state that knows it. -/
def valueOf (s : Construction) (number : NodeNumber) : Except Defect (Value × Construction) :=
  match s.values[number]?.join with
  | some value => .ok (value, s)
  | none =>
      match (s.nodes.tagOf number).collection? with
      | some kind =>
          let value := .collection kind
          .ok (value, { s with
            values := s.values.setIfInBounds number (some value)
            started := s.started.push number })
      | none => do
          let value ← s.nodes.scalarOf number
          return (value, { s with values := s.values.setIfInBounds number (some value) })

/-- The state after the items of a sequence have been looked at. -/
def visitItems (s : Construction) (items : List NodeNumber) : Except Defect Construction :=
  items.foldlM (fun s item => (s.valueOf item).map Prod.snd) s

/-- The entries of a mapping, each the key first, and the state that knows them. -/
def visitEntries (s : Construction) :
    List (NodeNumber × NodeNumber) → Except Defect (List (Value × Value) × Construction)
  | [] => .ok ([], s)
  | (key, value) :: rest => do
      let (key, s) ← s.valueOf key
      if !key.isKey then throw .unhashableKey
      let (value, s) ← s.valueOf value
      let (more, s) ← visitEntries s rest
      return ((key, value) :: more, s)

/-- The state after a list of mappings of one entry has been looked at. -/
def visitPairs (s : Construction) (items : List NodeNumber) : Except Defect Construction :=
  items.foldlM (fun (s : Construction) (item : NodeNumber) =>
    match s.nodes[item]? with
    | some ⟨_, .mapping [(key, value)]⟩ => s.visitItems [key, value]
    | _ => .error .wrongNode) s

/-- The state after the parts of a mapping have been looked at. -/
def visitMapping (s : Construction) (number : NodeNumber) : Except Defect Construction := do
  let nodes ← s.nodes.flatten number
  let (entries, s) ← visitEntries { s with nodes } (nodes.entriesOf number)
  return { s with entries := (number, Value.gather entries) :: s.entries }

/-- The state after the parts of a collection have been looked at. -/
def visit (s : Construction) (number : NodeNumber) : Except Defect Construction :=
  match s.nodes[number]? with
  | some ⟨.seq, .sequence items⟩ => s.visitItems items
  | some ⟨.omap, .sequence items⟩ => s.visitPairs items
  | some ⟨.pairs, .sequence items⟩ => s.visitPairs items
  | some ⟨.map, .mapping _⟩ => s.visitMapping number
  | some ⟨.set, .mapping _⟩ => s.visitMapping number
  | _ => .error .wrongNode

/-- The state after the parts of all collections from a position on have been looked at; a node is
started once, so there are no more of them than nodes. -/
def visitFrom : Nat → Nat → Construction → Except Defect Construction
  | 0, _, s => .ok s
  | fuel + 1, position, s =>
      match s.started[position]? with
      | none => .ok s
      | some number => do visitFrom fuel (position + 1) (← s.visit number)

end Construction

namespace Data

/-- The data of a document. -/
def ofDocument (document : Document) : Except Defect Data := do
  let size := document.nodes.size
  let start : Construction := { nodes := document.nodes, values := Array.replicate size none }
  let (root, s) ← start.valueOf document.root
  let last ← s.visitFrom (size + 1) 0
  return ⟨root, (last.entries.lookup document.root).getD []⟩

/-- The data of the document in a text; without a document it is null. -/
def ofText (text : List Char) : Except Defect Data := do
  match ← Document.ofText text with
  | some document => ofDocument document
  | none => return { root := .null }

end Data

end ElmSuite.Yaml
