/-! # JSON values

Answers can be given as JSON.  Objects keep their fields in the order they were put in.

* `Json.compact` writes a value on one line, `Json.lines` on as many as it has parts, with two
  blanks of indentation a level.
* `Json.ofOption` writes a missing value as `null`.
-/

namespace TypeRules

inductive Json where
  | null
  | bool (value : Bool)
  | number (value : Int)
  | string (value : String)
  | array (items : List Json)
  | object (fields : List (String × Json))
  deriving BEq, Repr, Inhabited

namespace Json

/-- The value, or `null` if it is missing. -/
def ofOption (value : Option Json) : Json := value.getD null

/-- A text, or `null` if it is missing. -/
def ofText (text : Option String) : Json := ofOption (text.map string)

/-! ## Strings -/

/-- A digit of a code point in an escape. -/
def hexDigit (n : Nat) : Char := "0123456789abcdef".toList.getD n '0'

/-- A character inside of quotes.  Quotes, backslashes and control characters are escaped. -/
def escapeChar (c : Char) : List Char :=
  if c = '"' then ['\\', '"']
  else if c = '\\' then ['\\', '\\']
  else if c = '\n' then ['\\', 'n']
  else if c = '\r' then ['\\', 'r']
  else if c = '\t' then ['\\', 't']
  else if c.toNat = 8 then ['\\', 'b']
  else if c.toNat = 12 then ['\\', 'f']
  else if c.toNat < 32 then ['\\', 'u', '0', '0', hexDigit (c.toNat / 16), hexDigit (c.toNat % 16)]
  else [c]

def quoted (text : String) : String :=
  "\"" ++ String.ofList (text.toList.flatMap escapeChar) ++ "\""

/-! ## Layouts -/

mutual

/-- The value on one line. -/
def compact : Json → String
  | null => "null"
  | bool value => if value then "true" else "false"
  | number value => toString value
  | string value => quoted value
  | array items => "[" ++ ",".intercalate (compactItems items) ++ "]"
  | object fields => "\x7b" ++ ",".intercalate (compactFields fields) ++ "\x7d"

def compactItems : List Json → List String
  | [] => []
  | item :: items => item.compact :: compactItems items

def compactFields : List (String × Json) → List String
  | [] => []
  | (key, value) :: fields => (quoted key ++ ":" ++ value.compact) :: compactFields fields

end

/-- The indented lines of a field, which has the lines of its value. -/
def keyed (key : String) : List String → List String
  | [] => []
  | first :: rest => ("  " ++ quoted key ++ ": " ++ first) :: rest.map ("  " ++ ·)

def closed : List String → List String
  | [] => []
  | [last] => [last ++ ","]
  | line :: rest => line :: closed rest

mutual

/-- The lines of a value: the first continues the line it stands on, the others are
indented relative to it.  A value without parts stands on one line. -/
def lines : Json → List String
  | array (item :: items) => "[" :: (itemLines (item :: items) ++ ["]"])
  | object (field :: fields) => "\x7b" :: (fieldLines (field :: fields) ++ ["\x7d"])
  | value => [value.compact]

/-- The lines of the items of an array, with commas between the items. -/
def itemLines : List Json → List String
  | [] => []
  | [item] => item.lines.map ("  " ++ ·)
  | item :: items => closed (item.lines.map ("  " ++ ·)) ++ itemLines items

/-- The lines of the fields of an object, with commas between the fields. -/
def fieldLines : List (String × Json) → List String
  | [] => []
  | [(key, value)] => keyed key value.lines
  | (key, value) :: fields => closed (keyed key value.lines) ++ fieldLines fields

end

end Json

end TypeRules
