import GatewayStack.Json.Basic

/-!
# JSON text

Two layouts of a value: `compact`, without any blank, and `pretty`, with an
indent of two blanks, one entry a line, and empty containers closed on the
spot. Strings are written raw but for quotes, backslashes and the characters
below U+0020.
-/

namespace GatewayStack.Json

def hexDigit (n : Nat) : Char := (Nat.digitChar (n % 16))

/-- A character as it stands between quotes. -/
def escapeChar (c : Char) : List Char :=
  if c = '"' then ['\\', '"']
  else if c = '\\' then ['\\', '\\']
  else if c = '\x08' then ['\\', 'b']
  else if c = '\x0c' then ['\\', 'f']
  else if c = '\n' then ['\\', 'n']
  else if c = '\r' then ['\\', 'r']
  else if c = '\t' then ['\\', 't']
  else if c.toNat < 32 then ['\\', 'u', '0', '0', hexDigit (c.toNat / 16),
    hexDigit c.toNat]
  else [c]

def quote (s : String) : String :=
  "\"" ++ String.ofList (s.toList.flatMap escapeChar) ++ "\""

def boolText (b : Bool) : String := if b then "true" else "false"

mutual

/-- The value without any blank. -/
def compact : Json → String
  | .null => "null"
  | .bool b => boolText b
  | .num n => n.text
  | .str s => quote s
  | .arr items => "[" ++ String.intercalate "," (compactItems items) ++ "]"
  | .obj fields =>
    "\x7b" ++ String.intercalate "," (compactFields fields) ++ "\x7d"

def compactItems : List Json → List String
  | [] => []
  | item :: rest => compact item :: compactItems rest

def compactFields : List (String × Json) → List String
  | [] => []
  | (name, value) :: rest =>
      (quote name ++ ":" ++ compact value) :: compactFields rest

end

/-- Entries between brackets, one a line and one level further in. -/
def block (opening closing : String) (level : Nat)
    (entries : List String) : String :=
  let margin (n : Nat) := "\n" ++ String.ofList (List.replicate (2 * n) ' ')
  opening ++ margin (level + 1) ++
    String.intercalate ("," ++ margin (level + 1)) entries
    ++ margin level ++ closing

mutual

/-- The value laid out at a level of nesting. -/
def prettyAt (level : Nat) : Json → String
  | .null => "null"
  | .bool b => boolText b
  | .num n => n.text
  | .str s => quote s
  | .arr [] => "[]"
  | .arr (item :: rest) =>
    block "[" "]" level (prettyItems (level + 1) (item :: rest))
  | .obj [] => "\x7b\x7d"
  | .obj (field :: rest) =>
    block "\x7b" "\x7d" level (prettyFields (level + 1) (field :: rest))

def prettyItems (level : Nat) : List Json → List String
  | [] => []
  | item :: rest => prettyAt level item :: prettyItems level rest

def prettyFields (level : Nat) : List (String × Json) → List String
  | [] => []
  | (name, value) :: rest =>
    (quote name ++ ": " ++ prettyAt level value) :: prettyFields level rest

end

/-- The value with an indent of two blanks. -/
def pretty (value : Json) : String := prettyAt 0 value

end GatewayStack.Json
