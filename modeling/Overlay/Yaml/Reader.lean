import Overlay.Yaml.Token

/-!
Reading a YAML document from its tokens. A node that is left out is an empty plain scalar.
-/

namespace Overlay

/-- A node of a YAML document. What a plain scalar means depends on where it occurs. -/
inductive Yaml
  | plain (text : List Char)
  | quoted (text : List Char)
  | sequence (items : List Yaml)
  | mapping (entries : List (Yaml × Yaml))

namespace Yaml

/-- The node where there is none in the text. -/
def empty : Yaml :=
  .plain []

/-- A node and the tokens behind it. -/
abbrev Read :=
  Option (Yaml × List Token)

/-- The key or value of a block mapping is left out: the next token starts something else. -/
def endsBlockNode : List Token → Bool
  | .key :: _ => true
  | .value :: _ => true
  | .blockEnd :: _ => true
  | _ => false

/-- An item of a block sequence is left out. -/
def endsItem : List Token → Bool
  | .entry :: _ => true
  | .blockEnd :: _ => true
  | _ => false

/-- A key of a mapping in brackets is left out. -/
def endsFlowKey : List Token → Bool
  | .value :: _ => true
  | .comma :: _ => true
  | .closeMapping :: _ => true
  | _ => false

/-- The key of a pair in a sequence. If it is left out, what stands in its place is passed over. -/
def pairKey (node : List Token → Read) : List Token → Read
  | .value :: ts => some (empty, ts)
  | .comma :: ts => some (empty, ts)
  | .closeSequence :: ts => some (empty, ts)
  | ts => node ts

/-- A value in brackets is left out. -/
def endsFlowValue : List Token → Bool
  | .comma :: _ => true
  | .closeMapping :: _ => true
  | .closeSequence :: _ => true
  | _ => false

/-- The node that `node` reads, unless it is left out. -/
def orEmpty (leftOut : List Token → Bool) (node : List Token → Read) (ts : List Token) : Read :=
  if leftOut ts then some (empty, ts) else node ts

/-- The value behind a key, if there is a colon. -/
def afterColon (leftOut : List Token → Bool) (node : List Token → Read) : List Token → Read
  | .value :: ts => orEmpty leftOut node ts
  | ts => some (empty, ts)

/-- What is being read; items and entries read before are listed last first. -/
inductive Goal
  /-- A node; `block` allows block collections, `value` also a sequence that is not indented. -/
  | node (block value : Bool)
  | blockItems (done : List Yaml)
  | flatItems (done : List Yaml)
  | blockEntries (done : List (Yaml × Yaml))
  | flowItems (done : List Yaml)
  | flowEntries (done : List (Yaml × Yaml))

/-- Reads a node, or the rest of a collection. Three turns for each token are enough. -/
def read : (turns : Nat) → Goal → List Token → Read
  | 0, _, _ => none
  | turns + 1, .node block value, ts =>
    match ts with
    | .plain text :: ts => some (.plain text, ts)
    | .quoted text :: ts => some (.quoted text, ts)
    | .openSequence :: ts => read turns (.flowItems []) ts
    | .openMapping :: ts => read turns (.flowEntries []) ts
    | .sequenceStart :: ts => if block then read turns (.blockItems []) ts else none
    | .mappingStart :: ts => if block then read turns (.blockEntries []) ts else none
    | .entry :: _ => if value then read turns (.flatItems []) ts else none
    | _ => none
  | turns + 1, .blockItems done, ts =>
    match ts with
    | .entry :: ts => do
      let (item, ts) ← orEmpty endsItem (read turns (.node true false)) ts
      read turns (.blockItems (item :: done)) ts
    | .blockEnd :: ts => some (.sequence done.reverse, ts)
    | _ => none
  | turns + 1, .flatItems done, ts =>
    match ts with
    | .entry :: ts => do
      let leftOut := fun ts => endsItem ts || endsBlockNode ts
      let (item, ts) ← orEmpty leftOut (read turns (.node true false)) ts
      read turns (.flatItems (item :: done)) ts
    | _ => some (.sequence done.reverse, ts)
  | turns + 1, .blockEntries done, ts =>
    match ts with
    | .key :: ts => do
      let (k, ts) ← orEmpty endsBlockNode (read turns (.node true true)) ts
      let (v, ts) ← afterColon endsBlockNode (read turns (.node true true)) ts
      read turns (.blockEntries ((k, v) :: done)) ts
    | .blockEnd :: ts => some (.mapping done.reverse, ts)
    | _ => none
  | turns + 1, .flowItems done, ts => do
    let node := read turns (.node false false)
    if let .closeSequence :: ts := ts then return (.sequence done.reverse, ts)
    let (item, ts) ←
      match ts with
      | .key :: ts => do
        let (k, ts) ← pairKey node ts
        let (v, ts) ← afterColon endsFlowValue node ts
        pure (.mapping [(k, v)], ts)
      | _ => node ts
    match ts with
    | .comma :: ts => read turns (.flowItems (item :: done)) ts
    | .closeSequence :: ts => return (.sequence (item :: done).reverse, ts)
    | _ => none
  | turns + 1, .flowEntries done, ts => do
    let node := read turns (.node false false)
    if let .closeMapping :: ts := ts then return (.mapping done.reverse, ts)
    let (entry, ts) ←
      match ts with
      | .key :: ts => do
        let (k, ts) ← orEmpty endsFlowKey node ts
        let (v, ts) ← afterColon endsFlowValue node ts
        pure ((k, v), ts)
      | _ => do
        let (k, ts) ← node ts
        pure ((k, empty), ts)
    match ts with
    | .comma :: ts => read turns (.flowEntries (entry :: done)) ts
    | .closeMapping :: ts => return (.mapping (entry :: done).reverse, ts)
    | _ => none

/-- Reads a text with at most one document. -/
def read? (text : List Char) : Option Yaml := do
  let ts ← scan? text
  let node := read (3 * ts.length + 3) (.node true false)
  let (doc, ts) ←
    match ts with
    | [] => some (empty, [])
    | .documentStart :: ts =>
      match ts with
      | [] | .documentStart :: _ | .documentEnd :: _ => some (empty, ts)
      | _ => node ts
    | _ => node ts
  let rest := ts.dropWhile fun
    | .documentEnd => true
    | _ => false
  guard rest.isEmpty
  return doc

/-- Reads a text with at most one document. -/
def ofString? (s : String) : Option Yaml :=
  read? s.toList

end Yaml

end Overlay
