import CallTree.Text.Quoted

/-!
# JSON

Values and their text.  All text is ASCII: any other character is written by
its UTF-16 units.  A value is written on one line, or with every member on a
line of its own.
-/

namespace CallTree

inductive JsonValue where
  | null
  | boolean (value : Bool)
  | integer (value : Int)
  | string (value : String)
  | array (items : List JsonValue)
  | object (members : List (String × JsonValue))
  deriving Repr, Inhabited

namespace JsonValue

/-- A character by its code unit. -/
def escapedUnit (unit : Nat) : List Char :=
  ['\\', 'u'] ++ Text.hexDigits 4 unit

def escapedCharacter (c : Char) : List Char :=
  if c == '"' then ['\\', '"']
  else if c == '\\' then ['\\', '\\']
  else if c == '\n' then ['\\', 'n']
  else if c == '\r' then ['\\', 'r']
  else if c == '\t' then ['\\', 't']
  else if c.toNat == 0x08 then ['\\', 'b']
  else if c.toNat == 0x0c then ['\\', 'f']
  else if 0x20 ≤ c.toNat && c.toNat < 0x7f then [c]
  else if c.toNat < 0x10000 then escapedUnit c.toNat
  else
    let offset := c.toNat - 0x10000
    escapedUnit (0xd800 + offset / 0x400) ++ escapedUnit (0xdc00 + offset % 0x400)

def quote (text : String) : String :=
  String.ofList (['"'] ++ text.toList.flatMap escapedCharacter ++ ['"'])

/-- How values are laid out. -/
structure Layout where
  /-- The spaces for each level, or none to write everything on one line. -/
  indent : Option Nat := some 2

namespace Layout

/-- What stands before the first member, at the given level. -/
def lineBreak (layout : Layout) (level : Nat) : String :=
  match layout.indent with
  | none => ""
  | some width => "\n" ++ String.ofList (List.replicate (width * level) ' ')

/-- What stands between members. -/
def separator (layout : Layout) (level : Nat) : String :=
  match layout.indent with
  | none => ", "
  | some _ => "," ++ layout.lineBreak level

/-- Put members between brackets.  Without members nothing stands between
them. -/
def enclose (layout : Layout) (level : Nat) (first last : String) (members : List String) :
    String :=
  if members.isEmpty then first ++ last
  else
    first ++ layout.lineBreak (level + 1) ++ (layout.separator (level + 1)).intercalate members ++
      layout.lineBreak level ++ last

end Layout

mutual

/-- The text of a value at the given level. -/
def render (layout : Layout) (level : Nat) : JsonValue → String
  | null => "null"
  | boolean value => if value then "true" else "false"
  | integer value => toString value
  | string value => quote value
  | array items => layout.enclose level "[" "]" (renderItems layout (level + 1) items)
  | object members =>
      layout.enclose level "\x7b" "\x7d" (renderMembers layout (level + 1) members)

def renderItems (layout : Layout) (level : Nat) : List JsonValue → List String
  | [] => []
  | item :: items => render layout level item :: renderItems layout level items

def renderMembers (layout : Layout) (level : Nat) : List (String × JsonValue) → List String
  | [] => []
  | (name, value) :: members =>
      (quote name ++ ": " ++ render layout level value) :: renderMembers layout level members

end

end JsonValue
end CallTree
