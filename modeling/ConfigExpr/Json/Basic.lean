/-! JSON values and their text. An object keeps its fields in the order in which they are
written. -/
namespace ConfigExpr

inductive Json where
  | null
  | bool (value : Bool)
  /-- A number written as plain digits. -/
  | natural (value : Nat)
  /-- Any other number, as it is written. -/
  | number (literal : String)
  | string (text : String)
  | array (items : List Json)
  | object (fields : List (String × Json))
  deriving Repr

/-- Compact text has no blanks; indented text has one item a line, two spaces deeper a level. -/
inductive Layout where
  | compact
  | indented
  deriving DecidableEq, Repr

namespace Layout

def lineBreak : Layout → Nat → String
  | compact, _ => ""
  | indented, level => String.ofList ('\n' :: List.replicate (2 * level) ' ')

def colon : Layout → String
  | compact => ":"
  | indented => ": "

end Layout

namespace Json

def hexDigit (n : Nat) : Char := Nat.digitChar (n % 16)

def escapeChar (c : Char) : List Char :=
  if c = '"' then ['\\', '"']
  else if c = '\\' then ['\\', '\\']
  else if c = '\x08' then ['\\', 'b']
  else if c = '\t' then ['\\', 't']
  else if c = '\n' then ['\\', 'n']
  else if c = '\x0c' then ['\\', 'f']
  else if c = '\r' then ['\\', 'r']
  else if c.toNat < 0x20 then
    ['\\', 'u', '0', '0', hexDigit (c.toNat / 16), hexDigit c.toNat]
  else [c]

def quoted (text : String) : String :=
  String.ofList ('"' :: text.toList.flatMap escapeChar ++ ['"'])

mutual

def text (layout : Layout) (level : Nat) : Json → String
  | null => "null"
  | bool value => if value then "true" else "false"
  | natural value => toString value
  | number literal => literal
  | string content => quoted content
  | array items =>
    if items.isEmpty then "[]"
    else "[" ++ itemsText layout (level + 1) items ++ layout.lineBreak level ++ "]"
  | object fields =>
    if fields.isEmpty then "\x7b\x7d"
    else "\x7b" ++ fieldsText layout (level + 1) fields ++ layout.lineBreak level ++ "\x7d"

def itemsText (layout : Layout) (level : Nat) : List Json → String
  | [] => ""
  | [x] => layout.lineBreak level ++ text layout level x
  | x :: y :: r =>
    layout.lineBreak level ++ text layout level x ++ "," ++ itemsText layout level (y :: r)

def fieldsText (layout : Layout) (level : Nat) : List (String × Json) → String
  | [] => ""
  | [(key, x)] => layout.lineBreak level ++ quoted key ++ layout.colon ++ text layout level x
  | (key, x) :: y :: r =>
    layout.lineBreak level ++ quoted key ++ layout.colon ++ text layout level x ++ "," ++
      fieldsText layout level (y :: r)

end

def render (layout : Layout) (json : Json) : String := json.text layout 0

end Json

end ConfigExpr
