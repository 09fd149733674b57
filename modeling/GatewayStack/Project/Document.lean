import GatewayStack.Json.Printer

/-!
# Strings of a configuration file

A configuration file holds its strings between double quotes, written as JSON
writes them, and reads them by the rules of a YAML file: some characters may
not stand there at all, a line break inside the quotes is folded together with
the blanks around it, no line of it may begin with the mark between two
documents, and a key has to fit on one line of limited length.

JSON escapes the usual line breaks, so only NEL, LS and PS reach the file as
they are.
-/

namespace GatewayStack.Document

def isPrintable (c : Char) : Bool :=
  c.toNat < 0x7F || c.toNat = 0x85
    || (0xA0 ≤ c.toNat && c.toNat ≠ 0xFFFE && c.toNat ≠ 0xFFFF)

/-- Whether a character ends a line although JSON does not escape it. -/
def isBreak (c : Char) : Bool := c.toNat = 0x85 || c.toNat = 0x2028 ||
    c.toNat = 0x2029

/-- A line break as text: NEL is a plain one, LS and PS stay what they are. -/
def breakText (c : Char) : Char := if c.toNat = 0x85 then '\n' else c

/-- What a run of line breaks is folded to: a single plain one becomes a
blank, and of several the first plain one goes. -/
def foldBreaks : List Char → List Char
  | [] => []
  | first :: rest =>
    if breakText first = '\n' then
      if rest = [] then [' '] else rest.map breakText
    else first :: rest.map breakText

/-- Folds a text, given the blanks and the line breaks just before it. Blanks
next to a line break are dropped. -/
def foldFrom (blanks breaks : List Char) : List Char → List Char
  | [] => if breaks = [] then blanks else foldBreaks breaks
  | c :: rest =>
    if isBreak c then foldFrom [] (breaks ++ [c]) rest
    else if c = ' ' then foldFrom (if breaks = [] then blanks ++ [c]
      else []) breaks rest
    else (if breaks = [] then blanks else foldBreaks breaks) ++ c :: foldFrom
      [] [] rest

/-- Whether a line begins with the mark between two documents: three hyphens
or three dots, and then a blank or the end of the line. -/
def beginsWithMark : List Char → Bool
  | '-' :: '-' :: '-' :: c :: _ => c = ' ' || isBreak c
  | '.' :: '.' :: '.' :: c :: _ => c = ' ' || isBreak c
  | _ => false

/-- Whether a line after the first begins with the mark between two
documents. -/
def hasMark : List Char → Bool
  | [] => false
  | c :: rest => (isBreak c && beginsWithMark rest) || hasMark rest

/-- A string as it is read back from a file. -/
def string? (s : String) : Option String :=
  if s.toList.all isPrintable && !hasMark s.toList then
    some (String.ofList (foldFrom [] [] s.toList))
  else none

/-- Longest key, in bytes and with its quotes. -/
def maxKeyLength : Nat := 1024

/-- A key as it is read back from a file. -/
def key? (s : String) : Option String :=
  if s.toList.all (fun c => isPrintable c && !isBreak c)
      && (Json.quote s).utf8ByteSize ≤ maxKeyLength then some s
  else none

mutual

/-- A value as it is read back from a file; nothing when it cannot be. -/
def value? : Json → Option Json
  | .str s => (string? s).map .str
  | .arr items => (items? items).map .arr
  | .obj fields => (fields? fields).map .obj
  | value => some value

def items? : List Json → Option (List Json)
  | [] => some []
  | item :: rest =>
    match value? item, items? rest with
    | some item, some rest => some (item :: rest)
    | _, _ => none

def fields? : List (String × Json) → Option (List (String × Json))
  | [] => some []
  | (name, value) :: rest =>
    match key? name, value? value, fields? rest with
    | some name, some value, some rest => some ((name, value) :: rest)
    | _, _, _ => none

end

end GatewayStack.Document
