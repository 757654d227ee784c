import ElmSuite.Yaml.Node
import ElmSuite.Yaml.Token

/-!
YAML documents as graphs of nodes.  An alias stands for the node that its anchor names, and a
collection is named as soon as it starts, so it may hold itself.
-/

namespace ElmSuite.Yaml

/-- A document: its nodes, and which of them is the root. -/
structure Document where
  nodes : Nodes
  root : NodeNumber
deriving Repr

/-- The state of building a document: the tokens that are left, what the anchors name, and the
nodes. -/
structure Building where
  tokens : List Token
  anchors : List (String × NodeNumber) := []
  nodes : Nodes := #[]

/-- A node that has been built, and the state after it. -/
abbrev BuiltNode := Except Defect (NodeNumber × Building)

/-- Items that have been built, and the state after them. -/
abbrev BuiltItems := Except Defect (List NodeNumber × Building)

/-- Entries that have been built, and the state after them. -/
abbrev BuiltEntries := Except Defect (List (NodeNumber × NodeNumber) × Building)

namespace Building

/-- The tag handles that need no directive. -/
def standardHandles : List (String × String) :=
  [("!", "!"), ("!!", Tag.standardStart)]

/-- Whether the next token is one of a list. -/
def nextIn (tokens : List Token) (choices : List Token) : Bool :=
  tokens.head?.any choices.contains

/-- The defect of tokens that do not go on as they have to. -/
def unexpected : List Token → Defect
  | .broken defect :: _ => defect
  | _ => .badStructure

/-- Checks that there is a token, or the end, at the place at hand. -/
def checkWhole : List Token → Except Defect Unit
  | .broken defect :: _ => .error defect
  | _ => .ok ()

/-- The state with the tokens that are left. -/
def leave (s : Building) (tokens : List Token) : Building :=
  { s with tokens }

/-- One more node, which an anchor may name, and the state with it. -/
def add (s : Building) (anchor : Option String) (node : Node) : NodeNumber × Building :=
  let number := s.nodes.size
  let anchors := match anchor with
    | some name => (name, number) :: s.anchors
    | none => s.anchors
  (number, { s with anchors, nodes := s.nodes.push node })

/-- One more node without content. -/
def addEmpty (s : Building) : NodeNumber × Building :=
  s.add none ⟨.null, .scalar []⟩

/-- The state with the content of a node. -/
def fill (s : Building) (number : NodeNumber) (content : Content) : Building :=
  { s with nodes := s.nodes.fill number content }

/-- The full name of a tag; `!` alone is no name. -/
def tagName (handles : List (String × String)) (handle : Option String) (suffix : String) :
    Except Defect (Option String) :=
  match handle with
  | none => .ok (if suffix = "!" then none else some suffix)
  | some handle =>
      match handles.lookup handle with
      | some start => .ok (some (start ++ suffix))
      | none => .error .unknownHandle

/-- What stands in front of the content of a node: its anchor, and its tag as written. -/
def properties : List Token → Option String × Option (Option String × String) × List Token
  | .anchor name :: .tag handle suffix :: rest => (some name, some (handle, suffix), rest)
  | .tag handle suffix :: .anchor name :: rest => (some name, some (handle, suffix), rest)
  | .anchor name :: rest => (some name, none, rest)
  | .tag handle suffix :: rest => (none, some (handle, suffix), rest)
  | rest => (none, none, rest)

/-- What stands in front of the content of a node, with the full name of its tag.  While an anchor
or a tag may still follow, the place behind has to be whole before the handle of the tag is looked
up. -/
def readProperties (handles : List (String × String)) (tokens : List Token) :
    Except Defect (Option String × Option (Option String) × List Token) := do
  let (anchor, tag, content) := properties tokens
  if anchor.isNone || tag.isNone then checkWhole content
  let name ← tag.mapM fun (handle, suffix) => tagName handles handle suffix
  checkWhole content
  return (anchor, name, content)

/-- The kind of a scalar: that of its tag, or the one it looks like if it is plain or has the tag
that names nothing. -/
def scalarTag (name : Option (Option String)) (plain : Bool) (codes : Codes) : Tag :=
  match name with
  | some (some name) => .ofName name
  | _ =>
      if plain || name.isSome then
        match codes.mapM Codes.charOf? with
        | some text => .ofPlain text
        | none => .str
      else .str

/-- The kind of a collection: that of its tag, or the common one. -/
def collectionTag (name : Option (Option String)) (common : Tag) : Tag :=
  (name.join.map Tag.ofName).getD common

/-- A sequence whose items are read after it has been named. -/
def listed (s : Building) (anchor : Option String) (tag : Tag)
    (read : Building → BuiltItems) : BuiltNode := do
  let (number, s) := s.add anchor ⟨tag, .sequence []⟩
  let (items, s) ← read s
  return (number, s.fill number (.sequence items))

/-- A mapping whose entries are read after it has been named. -/
def paired (s : Building) (anchor : Option String) (tag : Tag)
    (read : Building → BuiltEntries) : BuiltNode := do
  let (number, s) := s.add anchor ⟨tag, .mapping []⟩
  let (entries, s) ← read s
  return (number, s.fill number (.mapping entries))

mutual

/-- A node.  Only outside brackets it may be a block collection, and only as a part of a mapping a
sequence that is not indented. -/
def node (handles : List (String × String)) : Nat → Bool → Bool → Building → BuiltNode
  | 0, _, _, _ => .error .badStructure
  | fuel + 1, inBlock, flush, s =>
      match s.tokens with
      | .alias name :: rest =>
          match s.anchors.lookup name with
          | some found => .ok (found, s.leave rest)
          | none => .error .unknownAlias
      | tokens => do
          let (anchor, name, content) ← readProperties handles tokens
          let listTag := collectionTag name .seq
          let mapTag := collectionTag name .map
          let blank := anchor.isSome || name.isSome
          if anchor.any fun name => (s.anchors.lookup name).isSome then throw .duplicateAnchor
          if flush && nextIn content [.entry] then
            (s.leave content).listed anchor listTag fun s => flushItems handles fuel s
          else
            match content, inBlock with
            | .scalar plain codes :: rest, _ =>
                return (s.leave rest).add anchor ⟨scalarTag name plain codes, .scalar codes⟩
            | .openBracket :: rest, _ =>
                (s.leave rest).listed anchor listTag fun s => flowItems handles fuel true s
            | .openBrace :: rest, _ =>
                (s.leave rest).paired anchor mapTag fun s => flowEntries handles fuel true s
            | .sequenceStart :: rest, true =>
                (s.leave rest).listed anchor listTag fun s => blockItems handles fuel s
            | .mappingStart :: rest, true =>
                (s.leave rest).paired anchor mapTag fun s => blockEntries handles fuel s
            | rest, _ =>
                if blank then return (s.leave rest).add anchor ⟨scalarTag name true [], .scalar []⟩
                else throw .badStructure

/-- A node, or an empty one in front of certain tokens. -/
def nodeUnless (handles : List (String × String)) :
    Nat → List Token → Bool → Bool → Building → BuiltNode
  | 0, _, _, _, _ => .error .badStructure
  | fuel + 1, stops, inBlock, flush, s =>
      if nextIn s.tokens stops then .ok s.addEmpty else node handles fuel inBlock flush s

/-- A value behind a key; without a colon it is empty. -/
def valueUnless (handles : List (String × String)) : Nat → List Token → Bool → Building → BuiltNode
  | 0, _, _, _ => .error .badStructure
  | fuel + 1, stops, inBlock, s =>
      match s.tokens with
      | .value :: rest => nodeUnless handles fuel stops inBlock inBlock (s.leave rest)
      | _ => .ok s.addEmpty

/-- The items of an indented sequence. -/
def blockItems (handles : List (String × String)) : Nat → Building → BuiltItems
  | 0, _ => .error .badStructure
  | fuel + 1, s =>
      match s.tokens with
      | .entry :: rest => do
          let (item, s) ← nodeUnless handles fuel [.entry, .blockEnd] true false (s.leave rest)
          let (more, s) ← blockItems handles fuel s
          return (item :: more, s)
      | .blockEnd :: rest => .ok ([], s.leave rest)
      | rest => .error (unexpected rest)

/-- The items of a sequence that is not indented. -/
def flushItems (handles : List (String × String)) : Nat → Building → BuiltItems
  | 0, _ => .error .badStructure
  | fuel + 1, s =>
      match s.tokens with
      | .entry :: rest => do
          let stops := [.entry, .key, .value, .blockEnd]
          let (item, s) ← nodeUnless handles fuel stops true false (s.leave rest)
          let (more, s) ← flushItems handles fuel s
          return (item :: more, s)
      | _ => .ok ([], s)

/-- The entries of a block mapping. -/
def blockEntries (handles : List (String × String)) : Nat → Building → BuiltEntries
  | 0, _ => .error .badStructure
  | fuel + 1, s =>
      match s.tokens with
      | .key :: rest => do
          let stops := [.key, .value, .blockEnd]
          let (key, s) ← nodeUnless handles fuel stops true true (s.leave rest)
          let (value, s) ← valueUnless handles fuel stops true s
          let (more, s) ← blockEntries handles fuel s
          return ((key, value) :: more, s)
      | .blockEnd :: rest => .ok ([], s.leave rest)
      | rest => .error (unexpected rest)

/-- The items of a sequence in brackets; an item with a colon is a mapping of one entry. -/
def flowItems (handles : List (String × String)) : Nat → Bool → Building → BuiltItems
  | 0, _, _ => .error .badStructure
  | fuel + 1, first, s =>
      match s.tokens, first with
      | .closeBracket :: rest, _ => .ok ([], s.leave rest)
      | .comma :: rest, false => flowItem handles fuel (s.leave rest)
      | rest, false => .error (unexpected rest)
      | _, true => flowItem handles fuel s

/-- The items of a sequence in brackets from an item or the end. -/
def flowItem (handles : List (String × String)) : Nat → Building → BuiltItems
  | 0, _ => .error .badStructure
  | fuel + 1, s =>
      match s.tokens with
      | .closeBracket :: rest => .ok ([], s.leave rest)
      | .key :: rest => do
          let (key, s) ←
            nodeUnless handles fuel [.value, .comma, .closeBracket] false false (s.leave rest)
          let (value, s) ← valueUnless handles fuel [.comma, .closeBracket] false s
          let (item, s) := s.add none ⟨.map, .mapping [(key, value)]⟩
          let (more, s) ← flowItems handles fuel false s
          return (item :: more, s)
      | _ => do
          let (item, s) ← node handles fuel false false s
          let (more, s) ← flowItems handles fuel false s
          return (item :: more, s)

/-- The entries of a mapping in braces. -/
def flowEntries (handles : List (String × String)) :
    Nat → Bool → Building → BuiltEntries
  | 0, _, _ => .error .badStructure
  | fuel + 1, first, s =>
      match s.tokens, first with
      | .closeBrace :: rest, _ => .ok ([], s.leave rest)
      | .comma :: rest, false => flowEntry handles fuel (s.leave rest)
      | rest, false => .error (unexpected rest)
      | _, true => flowEntry handles fuel s

/-- The entries of a mapping in braces from an entry or the end. -/
def flowEntry (handles : List (String × String)) : Nat → Building → BuiltEntries
  | 0, _ => .error .badStructure
  | fuel + 1, s =>
      match s.tokens with
      | .closeBrace :: rest => .ok ([], s.leave rest)
      | .key :: rest => do
          let (key, s) ←
            nodeUnless handles fuel [.value, .comma, .closeBrace] false false (s.leave rest)
          let (value, s) ← valueUnless handles fuel [.comma, .closeBrace] false s
          let (more, s) ← flowEntries handles fuel false s
          return ((key, value) :: more, s)
      | _ => do
          let (key, s) ← node handles fuel false false s
          let (value, s) := s.addEmpty
          let (more, s) ← flowEntries handles fuel false s
          return ((key, value) :: more, s)

end

end Building

namespace Document

/-- The tokens behind the directives of a document, and the tag handles that they define.  The
version may be told once, and has to be the first. -/
def directives (version : Bool) (handles : List (String × String)) :
    List Token → Except Defect (List (String × String) × List Token)
  | .version major :: rest =>
      if version || major != 1 then .error .directive else directives true handles rest
  | .handle name start :: rest =>
      if (handles.lookup name).isSome then .error .directive
      else directives version ((name, start) :: handles) rest
  | .directive :: rest => directives version handles rest
  | rest => .ok (handles, rest)

/-- Checks that nothing but ends stand behind a document. -/
def checkEnd (tokens : List Token) : Except Defect Unit :=
  match tokens.dropWhile (· == .documentEnd) with
  | [] => .ok ()
  | rest => do
      let (_, rest) ← directives false [] rest
      match rest with
      | .documentStart :: _ => throw .severalDocuments
      | rest => throw (Building.unexpected rest)

/-- The document of tokens and its end. -/
def ofContent (handles : List (String × String)) (tokens : List Token) :
    Except Defect Document := do
  let (root, last) ← Building.node handles (4 * tokens.length + 4) true false { tokens }
  checkEnd last.tokens
  return ⟨last.nodes, root⟩

/-- The document without content. -/
def empty : Document :=
  ⟨#[⟨.null, .scalar []⟩], 0⟩

/-- The only document of a list of tokens; none if there is no document. -/
def ofTokens (tokens : List Token) : Except Defect (Option Document) := do
  if tokens.isEmpty then return none
  else if Building.nextIn tokens [.documentStart] || tokens.head?.any isDirective then
    let (handles, rest) ← directives false [] tokens
    match rest with
    | .documentStart :: content =>
        if content.isEmpty || Building.nextIn content [.documentStart, .documentEnd] ||
            content.head?.any isDirective then
          checkEnd content
          return some empty
        else return some (← ofContent (handles ++ Building.standardHandles) content)
    | rest => throw (Building.unexpected rest)
  else return some (← ofContent Building.standardHandles tokens)
where
  /-- Whether a token is a directive. -/
  isDirective : Token → Bool
    | .version _ => true
    | .handle _ _ => true
    | .directive => true
    | _ => false

/-- The only document of a text. -/
def ofText (text : List Char) : Except Defect (Option Document) :=
  ofTokens (Token.ofText text)

end Document

end ElmSuite.Yaml
