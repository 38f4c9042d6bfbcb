import TypeRules.Yaml.Token

/-! # YAML trees

What a YAML text says, as a tree of scalars, sequences and mappings.  A text with a fault has
a tree, too: it is `cut` where the fault is, and what stands before that can be read.

An alias is not replaced by the node that it stands for, which may contain the alias itself.
It has the number of that node instead, and takes up one of a limited number of jumps when it
is followed.

* `Node` is a tree.
* `Names` are what the names in a document stand for.
* `Node.follow?` goes from an alias to its node.
* `Document.ofText` reads a text as a single document.
-/

namespace TypeRules.Yaml

/-! ## Trees -/

inductive Node where
  | scalar (text : String) (style : Style) (tag : Option Tag)
  | sequence (tag : Option Tag) (items : List Node)
  | mapping (tag : Option Tag) (entries : List (Node × Node))
  /-- An alias, which stands for the node of a number. -/
  | reference (number : Nat)
  | cut
  deriving Repr, Inhabited

def nullWords : List String := ["~", "null", "Null", "NULL"]

namespace Node

/-- A value that is not written at all. -/
def empty : Node := scalar "" .plain none

/-- Whether the value is not written at all, or nothing but a tag. -/
def isEmpty : Node → Bool
  | scalar text style _ => text == "" && style == .plain
  | _ => false

/-- Whether the value is not written or an explicit null, whatever its tag. -/
def isNull : Node → Bool
  | scalar text style _ => style == .plain && (text == "" || nullWords.contains text)
  | _ => false

def tag? : Node → Option Tag
  | scalar _ _ tag => tag
  | sequence tag _ => tag
  | mapping tag _ => tag
  | reference _ => none
  | cut => none

/-- The extent of what stands before something, and of that itself. -/
def before (extent : Nat × Bool) (rest : Unit → Nat × Bool) : Nat × Bool :=
  if extent.2 then
    let (n, whole) := rest ()
    (extent.1 + n, whole)
  else extent

/-- The extent of a collection around its content. -/
def closed (extent : Nat × Bool) : Nat × Bool :=
  (extent.1 + (if extent.2 then 2 else 1), extent.2)

mutual

/-- How much of a tree there is before its first fault, and whether there is none.  Scalars and
aliases count once, the beginnings and ends of collections also. -/
def extent : Node → Nat × Bool
  | scalar _ _ _ => (1, true)
  | sequence _ items => closed (extentAll items)
  | mapping _ entries => closed (extentEntries entries)
  | reference _ => (1, true)
  | cut => (0, false)

def extentAll : List Node → Nat × Bool
  | [] => (0, true)
  | item :: items => before item.extent fun _ => extentAll items

def extentEntries : List (Node × Node) → Nat × Bool
  | [] => (0, true)
  | (key, value) :: entries =>
    before key.extent fun _ => before value.extent fun _ => extentEntries entries

end

/-- Whether there is no fault in the tree. -/
def isWhole (n : Node) : Bool := n.extent.2

end Node

/-! ## Names -/

/-- What the names in a document stand for: its handles of tags and the number of each anchor;
besides how many nodes with an anchor have begun, and those of them that have ended, each with
its number and its rank in the order of the beginnings. -/
structure Names where
  handles : Handles
  numbers : List (String × Nat)
  begun : Nat
  ended : List (Nat × Nat × Node)

namespace Names

/-- The names at the beginning of a document. -/
def start (handles : Handles) : Names := ⟨handles, [], 0, []⟩

/-- The number for a further node with an anchor: the number of different anchors so far.  So
an anchor that is used anew takes the number of the next one. -/
def nextNumber (n : Names) : Nat := n.numbers.length

/-- The names from the beginning of a node with an anchor on. -/
def begin (n : Names) (anchor : String) : Names :=
  { n with
    numbers := (anchor, n.nextNumber) :: n.numbers.filter fun (name, _) => name ≠ anchor
    begun := n.begun + 1 }

/-- The names behind the end of a node with an anchor. -/
def finish (n : Names) (number rank : Nat) (node : Node) : Names :=
  { n with ended := (number, rank, node) :: n.ended }

/-- The node with a number; of several ones that which began last. -/
def target (n : Names) (number : Nat) : Node :=
  let nodes := n.ended.filter fun (k, _, _) => k = number
  (nodes.foldl (fun (best : Nat × Node) (_, rank, node) =>
    if best.1 ≤ rank then (rank, node) else best) (0, .cut)).2

def targets (n : Names) : Array Node := ((List.range n.begun).map n.target).toArray

end Names

/-! ## From tokens to trees

Every function below gives what it read, the tokens behind it, and the names known there.
At a fault it gives `cut` and no further tokens. -/

/-- Something that was read, the tokens behind it, and the names known there. -/
structure Parsed (α : Type) where
  value : α
  rest : List Token
  names : Names

/-- What can stand in front of a node. -/
structure Properties where
  anchor : Option String
  tag : Option TagSpelling

/-- Whether nothing stands in front of a node. -/
def Properties.isEmpty (p : Properties) : Bool := p.anchor.isNone && p.tag.isNone

/-- The anchor and the tag in front of a node, in either order, and the tokens behind them. -/
def Properties.ofTokens : List Token → Properties × List Token
  | .anchor name :: .tag tag :: rest => (⟨some name, some tag⟩, rest)
  | .anchor name :: rest => (⟨some name, none⟩, rest)
  | .tag tag :: .anchor name :: rest => (⟨some name, some tag⟩, rest)
  | .tag tag :: rest => (⟨none, some tag⟩, rest)
  | tokens => (⟨none, none⟩, tokens)

/-- The meaning of the tag in front of a node.  An outer nothing is for handles that are not
known, an inner one for nodes without a tag. -/
def Properties.meaning? (p : Properties) (handles : Handles) : Option (Option Tag) :=
  match p.tag with
  | none => some none
  | some tag => (tag.resolve? handles).map some

/-- Whether an entry of an indented collection is left empty before these tokens. -/
def endsBlockEntry : List Token → Bool
  | .key :: _ => true
  | .value :: _ => true
  | .blockEnd :: _ => true
  | _ => false

/-- Whether an item of an indented sequence is left empty before these tokens. -/
def endsBlockItem : List Token → Bool
  | .blockEntry :: _ => true
  | .blockEnd :: _ => true
  | _ => false

/-- Whether an entry of a flow collection ends before these tokens. -/
def endsFlowEntry (closing : Token) : List Token → Bool
  | token :: _ => token == .flowEntry || token == closing
  | [] => false

/-- The tokens behind the comma in front of a further entry. -/
def behindComma? (first : Bool) : List Token → Option (List Token)
  | .flowEntry :: rest => if first then some (.flowEntry :: rest) else some rest
  | tokens => if first then some tokens else none

mutual

/-- Reads a node.  In an indented collection `block` nodes may be collections themselves; a
sequence that is a value may go `unindented`. -/
def node (fuel : Nat) (block unindented : Bool) (tokens : List Token) (names : Names) :
    Parsed Node :=
  match fuel with
  | 0 => ⟨.cut, [], names⟩
  | fuel + 1 =>
    match tokens with
    | .alias name :: rest =>
      -- Only an anchor that stands before the alias counts, though its node may change later.
      match names.numbers.lookup name with
      | some number => ⟨.reference number, rest, names⟩
      | none => ⟨.cut, [], names⟩
    | tokens =>
      let (properties, tokens) := Properties.ofTokens tokens
      match properties.meaning? names.handles with
      | none => ⟨.cut, [], names⟩
      | some tag =>
        let marked := !properties.isEmpty
        match properties.anchor with
        | none => content fuel block unindented marked tag tokens names
        | some anchor =>
          let r := content fuel block unindented marked tag tokens (names.begin anchor)
          { r with names := r.names.finish names.nextNumber names.begun r.value }

/-- Reads what stands behind the anchor and tag of a node; nothing may stand there only if it
is `marked` by one of them. -/
def content (fuel : Nat) (block unindented marked : Bool) (tag : Option Tag)
    (tokens : List Token) (names : Names) : Parsed Node :=
  match fuel with
  | 0 => ⟨.cut, [], names⟩
  | fuel + 1 =>
    let fallback : Parsed Node :=
      if marked then ⟨.scalar "" .plain tag, tokens, names⟩ else ⟨.cut, [], names⟩
    match tokens with
    | .scalar text style :: rest => ⟨.scalar text style tag, rest, names⟩
    | .flowSequence :: rest =>
      let r := flowItems fuel true rest names
      ⟨.sequence tag r.value, r.rest, r.names⟩
    | .flowMapping :: rest =>
      let r := flowEntries fuel true rest names
      ⟨.mapping tag r.value, r.rest, r.names⟩
    | .blockEntry :: _ =>
      if unindented then
        let r := unindentedItems fuel tokens names
        ⟨.sequence tag r.value, r.rest, r.names⟩
      else fallback
    | .blockSequence :: rest =>
      if block then
        let r := blockItems fuel rest names
        ⟨.sequence tag r.value, r.rest, r.names⟩
      else fallback
    | .blockMapping :: rest =>
      if block then
        let r := blockEntries fuel rest names
        ⟨.mapping tag r.value, r.rest, r.names⟩
      else fallback
    | _ => fallback

def blockItems (fuel : Nat) (tokens : List Token) (names : Names) : Parsed (List Node) :=
  match fuel with
  | 0 => ⟨[.cut], [], names⟩
  | fuel + 1 =>
    match tokens with
    | .blockEnd :: rest => ⟨[], rest, names⟩
    | .blockEntry :: rest =>
      let item : Parsed Node :=
        if endsBlockItem rest then ⟨.empty, rest, names⟩ else node fuel true false rest names
      let r := blockItems fuel item.rest item.names
      { r with value := item.value :: r.value }
    | _ => ⟨[.cut], [], names⟩

/-- Reads the items of a sequence that stands at the indentation of its key. -/
def unindentedItems (fuel : Nat) (tokens : List Token) (names : Names) :
    Parsed (List Node) :=
  match fuel with
  | 0 => ⟨[.cut], [], names⟩
  | fuel + 1 =>
    match tokens with
    | .blockEntry :: rest =>
      let item : Parsed Node :=
        if endsBlockItem rest || endsBlockEntry rest then ⟨.empty, rest, names⟩
        else node fuel true false rest names
      let r := unindentedItems fuel item.rest item.names
      { r with value := item.value :: r.value }
    | tokens => ⟨[], tokens, names⟩

def blockEntries (fuel : Nat) (tokens : List Token) (names : Names) :
    Parsed (List (Node × Node)) :=
  match fuel with
  | 0 => ⟨[(.cut, .cut)], [], names⟩
  | fuel + 1 =>
    match tokens with
    | .blockEnd :: rest => ⟨[], rest, names⟩
    | .key :: rest =>
      let key : Parsed Node :=
        if endsBlockEntry rest then ⟨.empty, rest, names⟩ else node fuel true true rest names
      let value : Parsed Node :=
        match key.rest with
        | .value :: rest =>
          if endsBlockEntry rest then ⟨.empty, rest, key.names⟩
          else node fuel true true rest key.names
        | rest => ⟨.empty, rest, key.names⟩
      let r := blockEntries fuel value.rest value.names
      { r with value := (key.value, value.value) :: r.value }
    | _ => ⟨[(.cut, .cut)], [], names⟩

/-- Reads the items of a flow sequence.  An item with a colon is a mapping of one entry. -/
def flowItems (fuel : Nat) (first : Bool) (tokens : List Token) (names : Names) :
    Parsed (List Node) :=
  match fuel with
  | 0 => ⟨[.cut], [], names⟩
  | fuel + 1 =>
    match tokens with
    | .flowSequenceEnd :: rest => ⟨[], rest, names⟩
    | tokens =>
      match behindComma? first tokens with
      | none => ⟨[.cut], [], names⟩
      | some (.flowSequenceEnd :: rest) => ⟨[], rest, names⟩
      | some (.key :: rest) =>
        let key : Parsed Node :=
          -- The sign in place of a key that is left out is passed over together with it.
          if endsFlowEntry .flowSequenceEnd rest || rest.head? == some .value then
            ⟨.empty, rest.tail, names⟩
          else node fuel false false rest names
        let value := flowValue fuel .flowSequenceEnd key.rest key.names
        let r := flowItems fuel false value.rest value.names
        { r with value := .mapping none [(key.value, value.value)] :: r.value }
      | some rest =>
        let item := node fuel false false rest names
        let r := flowItems fuel false item.rest item.names
        { r with value := item.value :: r.value }

/-- Reads the entries of a flow mapping.  An entry without a colon is a key alone. -/
def flowEntries (fuel : Nat) (first : Bool) (tokens : List Token) (names : Names) :
    Parsed (List (Node × Node)) :=
  match fuel with
  | 0 => ⟨[(.cut, .cut)], [], names⟩
  | fuel + 1 =>
    match tokens with
    | .flowMappingEnd :: rest => ⟨[], rest, names⟩
    | tokens =>
      match behindComma? first tokens with
      | none => ⟨[(.cut, .cut)], [], names⟩
      | some (.flowMappingEnd :: rest) => ⟨[], rest, names⟩
      | some (.key :: rest) =>
        let key : Parsed Node :=
          if endsFlowEntry .flowMappingEnd rest || rest.head? == some .value then
            ⟨.empty, rest, names⟩
          else node fuel false false rest names
        let value := flowValue fuel .flowMappingEnd key.rest key.names
        let r := flowEntries fuel false value.rest value.names
        { r with value := (key.value, value.value) :: r.value }
      | some rest =>
        let key := node fuel false false rest names
        let r := flowEntries fuel false key.rest key.names
        { r with value := (key.value, .empty) :: r.value }

/-- Reads the value of an entry of a flow collection, which may be left out. -/
def flowValue (fuel : Nat) (closing : Token) (tokens : List Token) (names : Names) :
    Parsed Node :=
  match fuel with
  | 0 => ⟨.cut, [], names⟩
  | fuel + 1 =>
    match tokens with
    | .value :: rest =>
      if endsFlowEntry closing rest then ⟨.empty, rest, names⟩
      else node fuel false false rest names
    | tokens => ⟨.empty, tokens, names⟩

end

/-! ## Aliases -/

/-- What can be done with aliases: the nodes that they stand for, and how many more of them may
be followed. -/
structure Aliases where
  targets : Array Node
  jumps : Nat

/-- The node that an alias stands for; any other node is that node itself. -/
def Node.follow? (n : Node) : StateT Aliases Option Node :=
  match n with
  | reference number => fun aliases =>
    match aliases.jumps with
    | 0 => none
    | jumps + 1 => (aliases.targets[number]?).map fun node => (node, { aliases with jumps })
  | n => return n

/-! ## Documents -/

/-- A text as a single document: its tree, what its aliases stand for, and whether the text has
no fault and nothing behind the document. -/
structure Document where
  root : Node
  aliases : Aliases
  sound : Bool

namespace Document

/-- A document that is nothing but a fault. -/
def broken : Document := ⟨.cut, ⟨#[], 0⟩, false⟩

/-- How many aliases may be followed for each part of a document. -/
def jumpsPerPart : Nat := 100

/-- Whether a document is left empty before these tokens. -/
def endsDocument : List Token → Bool
  | .directive _ :: _ => true
  | .documentStart :: _ => true
  | .documentEnd :: _ => true
  | .textEnd :: _ => true
  | _ => false

/-- Reads a document from behind the line that begins it. -/
def ofContent (handles : Handles) (tokens : List Token) : Document :=
  let names := Names.start handles
  let r : Parsed Node :=
    if endsDocument tokens then ⟨.empty, tokens, names⟩
    else node (4 * tokens.length + 8) true false tokens names
  let (parts, whole) := r.value.extent
  ⟨r.value, ⟨r.names.targets, jumpsPerPart * parts⟩,
    whole && r.rest.dropWhile (· == .documentEnd) == [.textEnd]⟩

def directives : List Token → List Directive × List Token
  | .directive directive :: rest =>
    let (more, rest) := directives rest
    (directive :: more, rest)
  | tokens => ([], tokens)

/-- Reads tokens as a single document.  Directives must be followed by the line that begins the
document. -/
def ofTokens (tokens : List Token) : Document :=
  match directives tokens with
  | ([], .documentStart :: rest) => ofContent Handles.standard rest
  -- A document cannot end before it has begun.
  | ([], .documentEnd :: _) => broken
  | ([], tokens) => ofContent Handles.standard tokens
  | (directives, .documentStart :: rest) =>
    match Directive.handles? directives with
    | some handles => ofContent handles rest
    | none => broken
  | _ => broken

def ofText (text : String) : Document := ofTokens (Token.ofText text.toList)

end Document

end TypeRules.Yaml
