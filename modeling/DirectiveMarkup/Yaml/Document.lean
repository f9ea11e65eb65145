import DirectiveMarkup.Yaml.Token

/-!
# Documents of YAML

A document is a tree of scalars, sequences and mappings. A node that is not written is an empty
plain scalar. The items of a sequence may stand at the column of the key that they belong to.
-/

namespace DirectiveMarkup.Yaml

/-- A node of a document. -/
inductive Document where
  | scalar (plain : Bool) (text : String)
  | sequence (items : List Document)
  | mapping (entries : List (Document × Document))

/-- The node that is not written. -/
def Document.empty : Document := .scalar true ""

/-- A reader of tokens, which fails where they are not as they should be. -/
abbrev TokenReader := StateT (List Token) Option

namespace TokenReader

/-- The next token, which stays. -/
def peek : TokenReader (Option Token) :=
  List.head? <$> get

/-- Pass over the next token. -/
def advance : TokenReader Unit :=
  modify (List.drop 1)

/-- Pass over the next token if it is the given one, and tell whether it was. -/
def accept (token : Token) : TokenReader Bool := do
  if (← peek) = some token then
    advance
    return true
  return false

/-- True when the next token is one of the given ones, or there is none. -/
def stopsAt (marks : List Token) : TokenReader Bool := do
  return (← peek).all marks.contains

end TokenReader

open TokenReader

mutual

/-- A node in block context. Where `bare` is true it may be a sequence at the column of its
key. No more than five steps are taken for each token. -/
def blockNode (bare : Bool) : (steps : Nat) → TokenReader Document
  | 0 => failure
  | steps + 1 => do
    match ← peek with
    | some .item => if bare then .sequence <$> bareItems steps else failure
    | some .sequenceStart =>
      advance
      .sequence <$> blockItems steps
    | some .mappingStart =>
      advance
      .mapping <$> blockEntries steps
    | _ => flowNode steps

/-- A node in block context, or nothing before one of the given marks. -/
def blockNodeBefore (bare : Bool) (marks : List Token) : (steps : Nat) → TokenReader Document
  | 0 => failure
  | steps + 1 => do
    if ← stopsAt marks then return .empty
    blockNode bare steps

/-- The items of a block sequence and its end. -/
def blockItems : (steps : Nat) → TokenReader (List Document)
  | 0 => failure
  | steps + 1 => do
    if ← accept .blockEnd then return []
    if ← accept .item then
      let item ← blockNodeBefore false [.item, .blockEnd] steps
      return item :: (← blockItems steps)
    failure

/-- The items of a sequence at the column of its key. -/
def bareItems : (steps : Nat) → TokenReader (List Document)
  | 0 => failure
  | steps + 1 => do
    if ← accept .item then
      let item ← blockNodeBefore false [.item, .key, .value, .blockEnd] steps
      return item :: (← bareItems steps)
    return []

/-- The entries of a block mapping and its end. -/
def blockEntries : (steps : Nat) → TokenReader (List (Document × Document))
  | 0 => failure
  | steps + 1 => do
    if ← accept .blockEnd then return []
    if ← accept .key then
      let key ← blockNodeBefore true [.key, .value, .blockEnd] steps
      if ← accept .value then
        let value ← blockNodeBefore true [.key, .value, .blockEnd] steps
        return (key, value) :: (← blockEntries steps)
      return (key, .empty) :: (← blockEntries steps)
    failure

/-- A scalar, or a collection in brackets or braces. -/
def flowNode : (steps : Nat) → TokenReader Document
  | 0 => failure
  | steps + 1 => do
    match ← peek with
    | some (.scalar plain text) =>
      advance
      return .scalar plain text
    | some .bracket =>
      advance
      .sequence <$> flowItems true steps
    | some .brace =>
      advance
      .mapping <$> flowEntries true steps
    | _ => failure

/-- A node inside brackets or braces, or nothing before one of the given marks. -/
def flowNodeBefore (marks : List Token) : (steps : Nat) → TokenReader Document
  | 0 => failure
  | steps + 1 => do
    if ← stopsAt marks then return .empty
    flowNode steps

/-- The value of an entry, which may be left out with or without its value mark. -/
def flowValue (close : Token) : (steps : Nat) → TokenReader Document
  | 0 => failure
  | steps + 1 => do
    if ← accept .value then flowNodeBefore [.comma, close] steps
    else return .empty

/-- An entry between braces, whose key mark has been read. -/
def flowEntry : (steps : Nat) → TokenReader (Document × Document)
  | 0 => failure
  | steps + 1 => do
    let key ← flowNodeBefore [.value, .comma, .braceEnd] steps
    return (key, ← flowValue .braceEnd steps)

/-- A single entry between brackets, whose key mark has been read. A value mark, a comma or a
bracket in the place of the key is passed over. -/
def singleEntry : (steps : Nat) → TokenReader (Document × Document)
  | 0 => failure
  | steps + 1 => do
    if ← stopsAt [.value, .comma, .bracketEnd] then
      advance
      return (.empty, ← flowValue .bracketEnd steps)
    let key ← flowNode steps
    return (key, ← flowValue .bracketEnd steps)

/-- The items between brackets and the closing one. An item may be a single entry. -/
def flowItems (first : Bool) : (steps : Nat) → TokenReader (List Document)
  | 0 => failure
  | steps + 1 => do
    if ← accept .bracketEnd then return []
    if !first then
      if !(← accept .comma) then failure
      if ← accept .bracketEnd then return []
    if ← accept .key then
      let entry ← singleEntry steps
      return .mapping [entry] :: (← flowItems false steps)
    let item ← flowNode steps
    return item :: (← flowItems false steps)

/-- The entries between braces and the closing one. -/
def flowEntries (first : Bool) : (steps : Nat) → TokenReader (List (Document × Document))
  | 0 => failure
  | steps + 1 => do
    if ← accept .braceEnd then return []
    if !first then
      if !(← accept .comma) then failure
      if ← accept .braceEnd then return []
    if ← accept .key then
      let entry ← flowEntry steps
      return entry :: (← flowEntries false steps)
    let key ← flowNode steps
    return (key, .empty) :: (← flowEntries false steps)

end

/-- The root of a document. Only behind a start mark may it be left out. -/
def readRoot (steps : Nat) : TokenReader Document := do
  if ← accept .documentStart then blockNodeBefore false [.documentStart, .documentEnd] steps
  else blockNode false steps

/-- The one document of a stream of tokens; `none` when nothing is written. -/
def readDocument (steps : Nat) : TokenReader (Option Document) := do
  if (← peek).isNone then return none
  let root ← readRoot steps
  modify (List.dropWhile (· = .documentEnd))
  if (← peek).isSome then failure
  return some root

/-- The one document of a text. The inner `none` is an empty text, the outer one a malformed
text or one with several documents. -/
def document? (text : String) : Option (Option Document) := do
  let tokens ← tokens? text
  (readDocument (5 * (tokens.length + 1))).run' tokens

end DirectiveMarkup.Yaml
