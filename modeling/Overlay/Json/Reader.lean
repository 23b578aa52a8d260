import Overlay.Json.Token

/-!
Reading a JSON value from its tokens. The containers that are still open are kept as a list of
frames, innermost first, so a text may be nested to any depth.
-/

namespace Overlay.Json

/-- An open container; what it holds so far is listed last first. -/
inductive Frame
  | array (done : List Json)
  | object (done : List (List Char × Json)) (key : List Char)

/-- What may follow the tokens read so far. -/
inductive Expect
  /-- A value. -/
  | value (frames : List Frame)
  /-- The first item of an array, or its end. -/
  | arrayStart (frames : List Frame)
  /-- The first key of an object, or its end. -/
  | objectStart (frames : List Frame)
  /-- A further key of an object. -/
  | key (done : List (List Char × Json)) (frames : List Frame)
  /-- The colon behind a key. -/
  | colon (done : List (List Char × Json)) (key : List Char) (frames : List Frame)
  /-- A comma or the end of the innermost container, or of the text: `v` is complete. -/
  | after (v : Json) (frames : List Frame)

namespace Expect

/-- Takes the first token of a value. -/
def start (frames : List Frame) : Token → Option Expect
  | .openArray => some (.arrayStart frames)
  | .openObject => some (.objectStart frames)
  | .null => some (.after .null frames)
  | .bool b => some (.after (.bool b) frames)
  | .number text => some (.after (.number text) frames)
  | .string text => some (.after (.string text) frames)
  | _ => none

/-- Takes one token. -/
def step : Expect → Token → Option Expect
  | .value fs, t => start fs t
  | .arrayStart fs, .closeArray => some (.after (.array []) fs)
  | .arrayStart fs, t => start (.array [] :: fs) t
  | .objectStart fs, .closeObject => some (.after (.object []) fs)
  | .objectStart fs, .string k => some (.colon [] k fs)
  | .key done fs, .string k => some (.colon done k fs)
  | .colon done k fs, .colon => some (.value (.object done k :: fs))
  | .after v (.array done :: fs), .comma => some (.value (.array (v :: done) :: fs))
  | .after v (.array done :: fs), .closeArray => some (.after (.array (v :: done).reverse) fs)
  | .after v (.object done k :: fs), .comma => some (.key ((k, v) :: done) fs)
  | .after v (.object done k :: fs), .closeObject =>
    some (.after (.object ((k, v) :: done).reverse) fs)
  | _, _ => none

/-- The value read, if the text may end here. -/
def result? : Expect → Option Json
  | .after v [] => some v
  | _ => none

end Expect

/-- The value that the tokens spell. -/
def ofTokens? (ts : List Token) : Option Json :=
  ts.foldlM Expect.step (.value []) >>= Expect.result?

/-- Reads a text that consists of one value and white space. -/
def read? (cs : List Char) : Option Json :=
  Token.scan? cs >>= ofTokens?

/-- Reads a text that consists of one value and white space. -/
def ofString? (s : String) : Option Json :=
  read? s.toList

end Overlay.Json
