import Overlay.Yaml.Scalar

/-!
The tokens of a YAML text, indentation included: a block collection is opened and closed by tokens
of its own. A key is recognized only by the colon behind it, so the place of the last node that may
turn out to be a key is kept, and the tokens that open a mapping and mark a key are put in there.

The texts read here are those of configuration files: one document of block and flow collections
and of plain and quoted scalars.
-/

namespace Overlay.Yaml

inductive Token
  | documentStart
  | documentEnd
  | sequenceStart
  | mappingStart
  | blockEnd
  | openSequence
  | closeSequence
  | openMapping
  | closeMapping
  /-- The hyphen in front of an item of a block sequence. -/
  | entry
  | comma
  | key
  | value
  | plain (text : List Char)
  | quoted (text : List Char)

/-- A node that is a key if a colon follows it. -/
structure PendingKey where
  /-- The node stands where the enclosing mapping expects a key. -/
  required : Bool
  /-- Number of tokens in front of it. -/
  position : Nat
  pos : Pos

/-- A text in the course of being split into tokens. -/
structure Scanner where
  rest : List Char
  pos : Pos
  /-- The tokens so far, last first. -/
  tokens : List Token
  /-- The columns of the open block collections, innermost first. -/
  indents : List Nat
  /-- A key may start here. -/
  keyAllowed : Bool
  /-- The pending key of each open pair of brackets, innermost first, and of the block context. -/
  keys : List (Option PendingKey)

namespace Scanner

def ofText (text : List Char) : Scanner :=
  ⟨text, ⟨0, 0, 0⟩, [], [], true, [none]⟩

def inFlow (s : Scanner) : Bool :=
  1 < s.keys.length

def emit (t : Token) (s : Scanner) : Scanner :=
  { s with tokens := t :: s.tokens }

/-- Goes past the next character. -/
def advance (c : Char) (rest : List Char) (s : Scanner) : Scanner :=
  { s with rest, pos := s.pos.advance c }

/-- Puts tokens in behind the first `position` ones. -/
def insertAt (position : Nat) (ts : List Token) (s : Scanner) : Scanner :=
  let newer := s.tokens.length - position
  { s with tokens := s.tokens.take newer ++ ts.reverse ++ s.tokens.drop newer }

/-! ## White space and comments -/

/-- A byte order mark at the start of a line means nothing, but takes up a column. -/
def atByteOrderMark (s : Scanner) (c : Char) : Bool :=
  c == '\ufeff' && s.pos.column == 0

/-- Goes past blanks, line breaks and comments, inside a comment if `comment` is set. Behind a line
break in block context a key may start. Tabs may not indent a key. -/
def skip (s : Scanner) (comment : Bool) : List Char → Scanner
  | [] => { s with rest := [] }
  | c :: cs =>
    if isBreak c then
      let s := s.advance c cs
      skip { s with keyAllowed := s.keyAllowed || !s.inFlow } false cs
    else if comment || c == ' ' || (c == '\t' && (s.inFlow || !s.keyAllowed)) ||
        s.atByteOrderMark c then
      skip (s.advance c cs) comment cs
    else if c == '#' then skip (s.advance c cs) true cs
    else { s with rest := c :: cs }

/-! ## Indentation -/

/-- Whether `column` is further right than the innermost block collection. -/
def isIndented (s : Scanner) (column : Nat) : Bool :=
  match s.indents with
  | [] => true
  | indent :: _ => indent < column

/-- Closes the block collections among `indents` that are further right than `column`. -/
def closeBlocks (s : Scanner) (column : Option Nat) : List Nat → Scanner
  | [] => { s with indents := [] }
  | indent :: rest =>
    if column.all (· < indent) then closeBlocks (s.emit .blockEnd) column rest
    else { s with indents := indent :: rest }

/-- Closes the block collections that end in front of `column`; all if there is none. -/
def unroll (s : Scanner) (column : Option Nat) : Scanner :=
  if s.inFlow then s else s.closeBlocks column s.indents

/-- Opens a block collection in `column`, in front of what stands behind the first `position`
tokens, unless the one in that column is open already. -/
def roll (s : Scanner) (column position : Nat) (t : Token) : Scanner :=
  if !s.inFlow && s.isIndented column then
    { s.insertAt position [t] with indents := column :: s.indents }
  else s

/-! ## Keys -/

/-- The innermost pending key. -/
def pending (s : Scanner) : Option PendingKey :=
  s.keys.head?.join

def setPending (s : Scanner) (k : Option PendingKey) : Scanner :=
  { s with keys := k :: s.keys.drop 1 }

/-- Gives the pending key up; it must not be one that is required. -/
def dropKey (s : Scanner) : Option Scanner :=
  if s.pending.any (·.required) then none else some (s.setPending none)

/-- Notes that the next token may be a key. -/
def saveKey (s : Scanner) : Option Scanner :=
  if s.keyAllowed then do
    let s ← s.dropKey
    let required := !s.inFlow && s.indents.head? == some s.pos.column
    return s.setPending (some ⟨required, s.tokens.length, s.pos⟩)
  else some s

/-- A key is too far away for a colon here to belong to it. -/
def isStale (s : Scanner) (k : PendingKey) : Bool :=
  k.pos.line < s.pos.line || k.pos.index + 1024 < s.pos.index

/-- Gives up all keys that are too far away. -/
def dropStaleKeys (s : Scanner) : Option Scanner :=
  if s.keys.any fun k => k.any fun k => s.isStale k && k.required then none
  else some { s with keys := s.keys.map fun k => k.filter fun k => !s.isStale k }

/-! ## Tokens -/

/-- A line `---` or `...`. -/
def scanMark (s : Scanner) (t : Token) : Option Scanner := do
  let s ← (s.unroll none).dropKey
  let pos := ⟨s.pos.line, s.pos.column + 3, s.pos.index + 3⟩
  return { s.emit t with rest := s.rest.drop 3, pos, keyAllowed := false }

/-- An opening bracket. -/
def scanOpen (s : Scanner) (t : Token) (c : Char) (cs : List Char) : Option Scanner := do
  let s ← s.saveKey
  return { (s.advance c cs).emit t with keys := none :: s.keys, keyAllowed := true }

/-- A closing bracket. -/
def scanClose (s : Scanner) (t : Token) (c : Char) (cs : List Char) : Option Scanner := do
  let s ← s.dropKey
  let keys := if s.inFlow then s.keys.drop 1 else s.keys
  return { (s.advance c cs).emit t with keys, keyAllowed := false }

/-- A comma. -/
def scanComma (s : Scanner) (c : Char) (cs : List Char) : Option Scanner := do
  let s ← s.dropKey
  return { (s.advance c cs).emit .comma with keyAllowed := true }

/-- The hyphen of an item. -/
def scanEntry (s : Scanner) (c : Char) (cs : List Char) : Option Scanner := do
  guard (s.inFlow || s.keyAllowed)
  let s ← (s.roll s.pos.column s.tokens.length .sequenceStart).dropKey
  return { (s.advance c cs).emit .entry with keyAllowed := true }

/-- A question mark in front of a key, which then need not stand on one line. -/
def scanKey (s : Scanner) (c : Char) (cs : List Char) : Option Scanner := do
  guard (s.inFlow || s.keyAllowed)
  let s ← (s.roll s.pos.column s.tokens.length .mappingStart).dropKey
  return { (s.advance c cs).emit .key with keyAllowed := !s.inFlow }

/-- The colon behind a key, or in the place of an empty one. -/
def scanValue (s : Scanner) (c : Char) (cs : List Char) : Option Scanner := do
  let s ←
    match s.pending with
    | some k =>
      let s := (s.insertAt k.position [.key]).roll k.pos.column k.position .mappingStart
      some { s.setPending none with keyAllowed := false }
    | none => do
      guard (s.inFlow || s.keyAllowed)
      let opened := s.roll s.pos.column s.tokens.length .mappingStart
      some { opened with keyAllowed := !s.inFlow }
  return (s.advance c cs).emit .value

/-- Goes on behind a scalar. -/
def goOn (s : Scanner) (t : List Char → Token) (read : Scanned) : Scanner :=
  { s.emit (t read.text) with rest := read.rest, pos := read.pos, keyAllowed := read.newLine }

/-- A quoted scalar. -/
def scanQuoted (s : Scanner) (c : Char) (cs : List Char) : Option Scanner := do
  let s ← s.saveKey
  let read := if c == '"' then readDouble else readSingle
  return s.goOn .quoted (← read (s.pos.advance c) [] .none cs)

/-- A plain scalar. -/
def scanPlain (s : Scanner) : Option Scanner := do
  let s ← s.saveKey
  let indent := match s.indents with
    | [] => 0
    | indent :: _ => indent + 1
  return s.goOn .plain (← readPlain s.inFlow indent s.pos [] .none s.rest)

/-- Characters with a meaning at the start of a node. -/
def isIndicator (c : Char) : Bool :=
  isFlowMark c || "-?:#&*!|>'\"%@`".toList.contains c

/-- Whether `c` and what follows it start a plain scalar. -/
def startsPlain (flow : Bool) (c : Char) (cs : List Char) : Bool :=
  (!isIndicator c && !isBlank c) || (c == '-' && !cs.head?.any isBlank) ||
    (!flow && (c == '?' || c == ':') && !startsBlank cs)

/-- Takes the token that starts with `c`. -/
def scanToken (s : Scanner) (c : Char) (cs : List Char) : Option Scanner :=
  if s.pos.column == 0 && startsMark (c :: cs) then
    s.scanMark (if c == '-' then .documentStart else .documentEnd)
  else if c == '[' then s.scanOpen .openSequence c cs
  else if c == '\x7b' then s.scanOpen .openMapping c cs
  else if c == ']' then s.scanClose .closeSequence c cs
  else if c == '\x7d' then s.scanClose .closeMapping c cs
  else if c == ',' then s.scanComma c cs
  else if c == '-' && startsBlank cs then s.scanEntry c cs
  else if c == '?' && (s.inFlow || startsBlank cs) then s.scanKey c cs
  else if c == ':' && (s.inFlow || startsBlank cs) then s.scanValue c cs
  else if c == '"' || c == '\'' then s.scanQuoted c cs
  else if startsPlain s.inFlow c cs then s.scanPlain
  else none

/-- The tokens of the text; every turn takes at least one character. -/
def scanAll : (turns : Nat) → Scanner → Option (List Token)
  | 0, _ => none
  | turns + 1, s => do
    let s := s.skip false s.rest
    let s ← s.dropStaleKeys
    let s := s.unroll (some s.pos.column)
    match s.rest with
    | [] =>
      let s ← (s.unroll none).dropKey
      return s.tokens.reverse
    | c :: cs => scanAll turns (← s.scanToken c cs)

end Scanner

/-- All kinds of line ends as one character each. -/
def unifyBreaks : List Char → List Char
  | '\r' :: '\n' :: cs => '\n' :: unifyBreaks cs
  | '\r' :: cs => '\n' :: unifyBreaks cs
  | '\u0085' :: cs => '\n' :: unifyBreaks cs
  | c :: cs => c :: unifyBreaks cs
  | [] => []

/-- The tokens of a text. -/
def scan? (text : List Char) : Option (List Token) := do
  guard (text.all isPrintable)
  let text := unifyBreaks text
  (Scanner.ofText text).scanAll (text.length + 1)

end Overlay.Yaml
