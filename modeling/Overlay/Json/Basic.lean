/-!
JSON documents. Numbers and strings keep their spelling: which spellings stand for an acceptable
number or text depends on where they occur, and a value that nobody looks at may hold any.
-/

namespace Overlay

/-- A JSON value. The text of a string is what stands between its quotes, escapes included. -/
inductive Json
  | null
  | bool (b : Bool)
  | number (text : List Char)
  | string (text : List Char)
  | array (items : List Json)
  | object (fields : List (List Char × Json))

end Overlay
