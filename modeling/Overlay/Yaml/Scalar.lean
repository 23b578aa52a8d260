import Overlay.Text.Hex

/-!
Scalars of a YAML text: plain, single-quoted and double-quoted. A scalar may go on over several
lines; a line break between two lines becomes a blank, and further empty lines become breaks.
-/

namespace Overlay.Yaml

/-! ## Characters -/

def isBlank (c : Char) : Bool :=
  c == ' ' || c == '\t'

def isBreak (c : Char) : Bool :=
  c == '\n' || c == '\u2028' || c == '\u2029'

/-- Characters that a text may contain. -/
def isPrintable (c : Char) : Bool :=
  c == '\t' || c == '\n' || c == '\r' || c == '\u0085' || (' ' ≤ c && c ≤ '~') ||
    ('\u00a0' ≤ c && c != '\ufffe' && c != '\uffff')

/-- The text ends or goes on with a blank or a line break. -/
def startsBlank : List Char → Bool
  | [] => true
  | c :: _ => isBlank c || isBreak c

/-- A line `---` or `...` starts here. -/
def startsMark : List Char → Bool
  | '-' :: '-' :: '-' :: rest => startsBlank rest
  | '.' :: '.' :: '.' :: rest => startsBlank rest
  | _ => false

/-- A place in the text; all three count from 0. Columns are counted in characters. -/
structure Pos where
  line : Nat
  column : Nat
  /-- Number of bytes in front. -/
  index : Nat

/-- The place behind the character `c`. -/
def Pos.advance (p : Pos) (c : Char) : Pos :=
  let index := p.index + c.utf8Size
  if isBreak c then ⟨p.line + 1, 0, index⟩ else ⟨p.line, p.column + 1, index⟩

/-! ## White space inside scalars -/

/-- White space between two characters of a scalar, last first. -/
inductive Gap
  /-- Blanks on one line. -/
  | blanks (cs : List Char)
  /-- One or more line breaks; the first one is missing if it was escaped. -/
  | lines (first : Option Char) (more : List Char)

namespace Gap

def none : Gap :=
  .blanks []

def isNone : Gap → Bool
  | .blanks [] => true
  | _ => false

def isLines : Gap → Bool
  | .blanks _ => false
  | .lines _ _ => true

def addBlank : Gap → Char → Gap
  | .blanks cs, c => .blanks (c :: cs)
  | gap, _ => gap

def addBreak : Gap → Char → Gap
  | .blanks _, c => .lines (some c) []
  | .lines first more, c => .lines first (c :: more)

/-- What the gap stands for, last first. -/
def text : Gap → List Char
  | .blanks cs => cs
  | .lines (some '\n') [] => [' ']
  | .lines (some '\n') more => more
  | .lines (some c) more => more ++ [c]
  | .lines Option.none more => more

end Gap

/-- A scalar that has been read, and where the text goes on. -/
structure Scanned where
  text : List Char
  pos : Pos
  rest : List Char
  /-- The text goes on in another line. -/
  newLine : Bool

/-! ## Plain scalars -/

/-- Characters that end a plain scalar inside brackets. -/
def isFlowMark (c : Char) : Bool :=
  c == ',' || c == '[' || c == ']' || c == '\x7b' || c == '\x7d'

/-- Inside brackets a colon may not be followed directly by one of these. -/
def startsFlowMark : List Char → Bool
  | c :: _ => isFlowMark c || c == '?'
  | [] => false

/-- Reads a plain scalar, inside brackets if `flow` is set, whose further lines are indented by at
least `indent`. The characters read so far are in `text`, last first, with `gap` behind them. -/
def readPlain (flow : Bool) (indent : Nat) (p : Pos) (text : List Char) (gap : Gap) :
    List Char → Option Scanned
  | [] => some ⟨text.reverse, p, [], gap.isLines⟩
  | c :: cs =>
    if isBlank c then
      if gap.isLines && c == '\t' && p.column < indent then none
      else readPlain flow indent (p.advance c) text (gap.addBlank c) cs
    else if isBreak c then readPlain flow indent (p.advance c) text (gap.addBreak c) cs
    else
      let ends :=
        (!gap.isNone &&
          ((!flow && p.column < indent) || (p.column == 0 && startsMark (c :: cs)) || c == '#')) ||
        (c == ':' && startsBlank cs) || (flow && isFlowMark c)
      if ends then some ⟨text.reverse, p, c :: cs, gap.isLines⟩
      else if flow && c == ':' && startsFlowMark cs then none
      else readPlain flow indent (p.advance c) (c :: gap.text ++ text) .none cs

/-! ## Quoted scalars -/

/-- Reads a single-quoted scalar behind its opening quote. -/
def readSingle (p : Pos) (text : List Char) (gap : Gap) : List Char → Option Scanned
  | [] => none
  | '\'' :: '\'' :: cs =>
    readSingle ((p.advance '\'').advance '\'') ('\'' :: gap.text ++ text) .none cs
  | c :: cs =>
    if c == '\'' then some ⟨(gap.text ++ text).reverse, p.advance c, cs, false⟩
    else if p.column == 0 && startsMark (c :: cs) then none
    else if isBlank c then readSingle (p.advance c) text (gap.addBlank c) cs
    else if isBreak c then readSingle (p.advance c) text (gap.addBreak c) cs
    else readSingle (p.advance c) (c :: gap.text ++ text) .none cs

/-- The character whose number is given by exactly `count` hexadecimal digits. -/
def coded? (count : Nat) (cs : List Char) : Option Char := do
  guard (cs.length = count)
  let n ← Hex.value? cs
  if n.isValidChar then some (Char.ofNat n) else none

/-- The character that a backslash and `c` stand for. -/
def escaped? : Char → Option Char
  | '0' => some '\x00'
  | 'a' => some '\x07'
  | 'b' => some '\x08'
  | 't' => some '\t'
  | '\t' => some '\t'
  | 'n' => some '\n'
  | 'v' => some '\x0b'
  | 'f' => some '\x0c'
  | 'r' => some '\r'
  | 'e' => some '\x1b'
  | ' ' => some ' '
  | '"' => some '"'
  | '/' => some '/'
  | '\\' => some '\\'
  | 'N' => some '\u0085'
  | '_' => some '\u00a0'
  | 'L' => some '\u2028'
  | 'P' => some '\u2029'
  | _ => none

/-- How many hexadecimal digits follow a backslash and `c`. -/
def codeLength? : Char → Option Nat
  | 'x' => some 2
  | 'u' => some 4
  | 'U' => some 8
  | _ => none

/-- Reads a double-quoted scalar behind its opening quote. -/
def readDouble (p : Pos) (text : List Char) (gap : Gap) (cs : List Char) : Option Scanned :=
  match cs with
  | [] => none
  | '\\' :: e :: cs =>
    let text := gap.text ++ text
    let p := (p.advance '\\').advance e
    if isBreak e then readDouble p text (.lines none []) cs
    else
      match codeLength? e with
      | some count =>
        match coded? count (cs.take count) with
        | some c =>
          readDouble ⟨p.line, p.column + count, p.index + count⟩ (c :: text) .none (cs.drop count)
        | none => none
      | none =>
        match escaped? e with
        | some c => readDouble p (c :: text) .none cs
        | none => none
  | c :: cs =>
    if c == '"' then some ⟨(gap.text ++ text).reverse, p.advance c, cs, false⟩
    else if p.column == 0 && startsMark (c :: cs) then none
    else if isBlank c then readDouble (p.advance c) text (gap.addBlank c) cs
    else if isBreak c then readDouble (p.advance c) text (gap.addBreak c) cs
    else readDouble (p.advance c) (c :: gap.text ++ text) .none cs
termination_by cs.length
decreasing_by all_goals simp <;> omega

end Overlay.Yaml
