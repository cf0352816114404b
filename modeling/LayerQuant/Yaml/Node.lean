import LayerQuant.Yaml.Scalar

/-!
# Nodes of a YAML document

Reads the part of YAML that configurations and descriptions are written in: block and flow
collections, plain and quoted scalars, comments, and a mark at the start of the document. Structure
outside of brackets is given by indentation: the entries of a collection begin in one column, and
what belongs to an entry is indented further, except that a sequence may begin in the column of the
key it belongs to. A key stands before its colon on one line, unless a question mark announces it.
-/

namespace LayerQuant

/-- A node of a document. -/
inductive Yaml where
  /-- A scalar and whether it was written plainly. -/
  | scalar (text : String) (plain : Bool)
  | sequence (items : List Yaml)
  | mapping (members : List (Yaml × Yaml))
deriving Inhabited

namespace Yaml

/-- The node of a value that is not written at all. -/
def empty : Yaml := scalar "" true

/-- A node as it was read: what follows it, and the line it ends on. -/
structure Parsed where
  node : Yaml
  after : Cursor
  lastLine : Nat

/-- The node of a scanned scalar. -/
def Parsed.ofScanned (plain : Bool) (scanned : Scanned) : Parsed :=
  ⟨scalar (String.ofList scanned.text) plain, scanned.after, scanned.lastLine⟩

/-- Reads a scalar. -/
def readScalar (flow : Bool) (indent : Int) (cursor : Cursor) : Option Parsed :=
  match cursor.rest with
  | '\x27' :: rest => (scanSingle .none (cursor.place.right 1) rest).map (.ofScanned false)
  | '"' :: rest => (scanDouble .none none (cursor.place.right 1) rest).map (.ofScanned false)
  | rest =>
    if canStartPlain flow rest then
      (scanPlain flow indent .none cursor.place.line cursor.place rest).map (.ofScanned true)
    else none

/-- The number of bytes between two places of a line. -/
def bytesUpTo (start stop : Cursor) : Nat :=
  (String.ofList (start.rest.take (stop.place.column - start.place.column))).utf8ByteSize

/-- Whether a key may be followed by this colon: it stands on the line that the key began on, after
at most 1024 bytes. -/
def isKeyColon (start colon : Cursor) : Bool :=
  colon.rest.head? == some ':' && colon.place.line == start.place.line &&
    bytesUpTo start colon ≤ 1024

mutual

/-- Reads a scalar or a collection in brackets. The first argument bounds the nested parts. -/
def readFlow : Nat → Bool → Int → Cursor → Option Parsed
  | 0, _, _, _ => none
  | depth + 1, flow, indent, cursor =>
    match cursor.rest with
    | '[' :: _ => (readItems depth indent (cursor.drop 1).skipFlow).map
        fun (items, after) => ⟨sequence items, after, after.place.line⟩
    | '{' :: _ => (readPairs depth indent (cursor.drop 1).skipFlow).map
        fun (members, after) => ⟨mapping members, after, after.place.line⟩
    | _ => readScalar flow indent cursor

/-- Reads a part of a member within brackets, which is empty if nothing stands before the next
mark. -/
def readPart : Nat → Int → Cursor → Option (Yaml × Cursor)
  | 0, _, _ => none
  | depth + 1, indent, cursor =>
    match cursor.rest with
    | ':' :: _ | ',' :: _ | ']' :: _ | '}' :: _ => some (empty, cursor)
    | _ => (readFlow depth true indent cursor).map fun part => (part.node, part.after.skipFlow)

/-- Reads a key within brackets and the value after its colon. Without a colon there is no value,
but a key that a question mark announces has an empty one then. -/
def readMember : Nat → Int → Cursor → Option (Yaml × Option Yaml × Cursor)
  | 0, _, _ => none
  | depth + 1, indent, cursor =>
    match cursor.rest with
    | '?' :: _ => do
      let (key, colon) ← readPart depth indent (cursor.drop 1).skipFlow
      let (value, next) ←
        if colon.rest.head? == some ':' then readPart depth indent (colon.drop 1).skipFlow
        else some (empty, colon)
      some (key, some value, next)
    | _ => do
      let key ← readFlow depth true indent cursor
      let colon := key.after.skipFlow
      if isKeyColon cursor colon then
        let (value, next) ← readPart depth indent (colon.drop 1).skipFlow
        some (key.node, some value, next)
      else some (key.node, none, colon)

/-- Reads the items of a sequence in brackets up to the closing one. An item with a value is a
mapping of one member. -/
def readItems : Nat → Int → Cursor → Option (List Yaml × Cursor)
  | 0, _, _ => none
  | depth + 1, indent, cursor =>
    match cursor.rest with
    | ']' :: _ => some ([], cursor.drop 1)
    | _ => do
      let (key, value, next) ← readMember depth indent cursor
      let item := match value with
        | some value => mapping [(key, value)]
        | none => key
      match next.rest with
      | ',' :: _ =>
        let (items, after) ← readItems depth indent (next.drop 1).skipFlow
        some (item :: items, after)
      | ']' :: _ => some ([item], next.drop 1)
      | _ => none

/-- Reads the members of a mapping in brackets up to the closing one. A member without a value has
an empty one. -/
def readPairs : Nat → Int → Cursor → Option (List (Yaml × Yaml) × Cursor)
  | 0, _, _ => none
  | depth + 1, indent, cursor =>
    match cursor.rest with
    | '}' :: _ => some ([], cursor.drop 1)
    | _ => do
      let (key, value, next) ← readMember depth indent cursor
      let member := (key, value.getD empty)
      match next.rest with
      | ',' :: _ =>
        let (members, after) ← readPairs depth indent (next.drop 1).skipFlow
        some (member :: members, after)
      | '}' :: _ => some ([member], next.drop 1)
      | _ => none

end

/-- The next token after a node outside of brackets. It stands on a later line. -/
def afterNode (parsed : Parsed) : Option Cursor :=
  let next := parsed.after.skipBlock true
  if next.atEnd || parsed.lastLine < next.place.line then some next else none

mutual

/-- Reads a node outside of brackets that is indented by more than `indent` columns, up to the next
token. A colon that is indented less belongs to a collection around it. `nested` says whether a
block collection may begin here. -/
def readBlock : Nat → Int → Bool → Cursor → Option (Yaml × Cursor)
  | 0, _, _, _ => none
  | depth + 1, indent, nested, cursor =>
    if atIndicator '-' cursor.rest then
      if nested then
        (readEntries depth cursor.place.column false cursor).map fun (items, next) =>
          (sequence items, next)
      else none
    else if atIndicator '?' cursor.rest then
      if nested then
        (readAnnounced depth cursor.place.column cursor).map fun (members, next) =>
          (mapping members, next)
      else none
    else do
      let parsed ← readFlow depth false indent cursor
      let next := parsed.after.skipBlock true
      if atIndicator ':' next.rest && decide (indent < next.place.column) then
        if nested && isKeyColon cursor next then
          (readMembers depth cursor.place.column parsed.node next).map fun (members, next) =>
            (mapping members, next)
        else none
      else (afterNode parsed).map (parsed.node, ·)

/-- Reads the entries of a block sequence from one of its dashes on. With `shared`, the column of
the dashes is that of the keys around the sequence, and a key ends it. -/
def readEntries : Nat → Nat → Bool → Cursor → Option (List Yaml × Cursor)
  | 0, _, _, _ => none
  | depth + 1, column, shared, cursor => do
    let start := (cursor.drop 1).skipBlock false
    let (item, next) ←
      if start.atEnd || (start.place.line != cursor.place.line && start.place.column ≤ column) then
        some (empty, start)
      else readBlock depth column true start
    if next.atEnd || next.place.column < column then some ([item], next)
    else if next.place.column == column && atIndicator '-' next.rest then
      let (items, next) ← readEntries depth column shared next
      some (item :: items, next)
    else if next.place.column == column && shared then some ([item], next)
    else none

/-- Reads what a mark of a block mapping stands before: a key after a question mark, or a value
after a colon. It may be empty. `nested` says whether a block collection may begin on the line of
the mark. -/
def readMarked : Nat → Nat → Bool → Cursor → Option (Yaml × Cursor)
  | 0, _, _, _ => none
  | depth + 1, column, nested, mark =>
    let start := (mark.drop 1).skipBlock (!nested)
    if start.atEnd then some (empty, start)
    else if start.place.line == mark.place.line then readBlock depth column nested start
    else if column < start.place.column then readBlock depth column true start
    else if start.place.column == column && atIndicator '-' start.rest then
      (readEntries depth column true start).map fun (items, next) => (sequence items, next)
    else some (empty, start)

/-- Reads the members of a block mapping from the colon after one of its keys on. -/
def readMembers : Nat → Nat → Yaml → Cursor → Option (List (Yaml × Yaml) × Cursor)
  | 0, _, _, _ => none
  | depth + 1, column, key, colon => do
    let (value, next) ← readMarked depth column false colon
    let (members, next) ← readFurther depth column next
    some ((key, value) :: members, next)

/-- Reads the members of a block mapping from a question mark on. The colon of the value begins a
line, and without it the value is empty. -/
def readAnnounced : Nat → Nat → Cursor → Option (List (Yaml × Yaml) × Cursor)
  | 0, _, _ => none
  | depth + 1, column, mark => do
    let (key, next) ← readMarked depth column true mark
    let (value, next) ←
      if next.place.column == column && atIndicator ':' next.rest then
        readMarked depth column true next
      else some (empty, next)
    let (members, next) ← readFurther depth column next
    some ((key, value) :: members, next)

/-- Reads the members of a block mapping that follow another one, if there are any. -/
def readFurther : Nat → Nat → Cursor → Option (List (Yaml × Yaml) × Cursor)
  | 0, _, _ => none
  | depth + 1, column, cursor =>
    if cursor.atEnd || cursor.place.column < column then some ([], cursor)
    else if cursor.place.column != column || atIndicator '-' cursor.rest then none
    else if atIndicator '?' cursor.rest then readAnnounced depth column cursor
    else do
      let parsed ← readFlow depth false column cursor
      let colon := parsed.after.skipBlock true
      if isKeyColon cursor colon && atIndicator ':' colon.rest then
        readMembers depth column parsed.node colon
      else none

end

/-- Whether a line is a mark that ends or starts a document. -/
def isMark (mark : List Char) (line : List Char) : Bool :=
  mark.isPrefixOf line && atGap (line.drop mark.length)

/-- Cuts a text before the first line that is a mark of a document, and returns that line and what
follows it too. `fresh` says whether the text begins a line. -/
def splitMark : Bool → List Char → List Char × List Char
  | _, [] => ([], [])
  | fresh, c :: rest =>
    if fresh && (isMark ['-', '-', '-'] (c :: rest) || isMark ['.', '.', '.'] (c :: rest)) then
      ([], c :: rest)
    else
      let (before, after) := splitMark (isBreak c) rest
      (c :: before, after)

/-- Whether nothing but marks that end a document, blank lines and comments is left. The first
argument bounds the number of marks. -/
def isRestEmpty : Nat → Cursor → Bool
  | 0, _ => false
  | bound + 1, cursor =>
    cursor.atEnd ||
      (cursor.place.column == 0 && isMark ['.', '.', '.'] cursor.rest &&
        isRestEmpty bound ((cursor.drop 3).skipBlock true))

/-- Reads the content of a document. A document that says nothing at all has no node. -/
def readContent (cursor : Cursor) (marked : Bool) : Option (Option Yaml) :=
  let (content, rest) := splitMark false cursor.rest
  let start := Cursor.skipBlock ⟨content, cursor.place⟩ marked
  if !isRestEmpty (rest.length + 1) ⟨rest, {}⟩ then none
  else if start.atEnd then some (if marked then some empty else none)
  else
    match readBlock (4 * content.length + 4) (-1)
        (!(marked && start.place.line == cursor.place.line)) start with
    | some (node, next) => if next.atEnd then some (some node) else none
    | none => none

/-- Reads a text with at most one document. It does not begin with the mark that ends one. -/
def ofText? (text : String) : Option (Option Yaml) :=
  let characters := text.toList
  if characters.all isAllowed then
    let start := Cursor.skipBlock ⟨normalizeLines characters, {}⟩ false
    if start.place.column == 0 && isMark ['-', '-', '-'] start.rest then
      readContent (start.drop 3) true
    else if start.place.column == 0 && isMark ['.', '.', '.'] start.rest then none
    else readContent start false
  else none

end Yaml

end LayerQuant
