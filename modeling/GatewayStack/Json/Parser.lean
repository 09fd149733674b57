import GatewayStack.Json.Basic
import GatewayStack.Number.Decimal

/-!
# Reading JSON text

A strict reader: no trailing commas, no text after the value, no raw control
characters in strings, no half of a surrogate pair on its own, and at most 127
arrays and objects around one another. A field named twice keeps its first
position and its last value.

An integer that fits 64 bits stays an integer; any other number, and `-0`, is
read as a decimal into a floating-point number, and one beyond the finite range
is an error.

Every step works on a list of characters and answers with the characters that
are left.
-/

namespace GatewayStack.Json.Parser

/-- Deepest nesting of arrays and objects. -/
def maxDepth : Nat := 127

def isBlank (c : Char) : Bool := c = ' ' || c = '\t' || c = '\n' || c = '\r'

def skipBlanks : List Char → List Char := List.dropWhile isBlank

/-- The text after a fixed word. -/
def word : List Char → List Char → Option (List Char)
  | [], text => some text
  | _ :: _, [] => none
  | w :: ws, c :: cs => if w = c then word ws cs else none

def hexDigit? (c : Char) : Option Nat :=
  if c.isDigit then some (c.toNat - '0'.toNat)
  else if 'a' ≤ c ∧ c ≤ 'f' then some (c.toNat - 'a'.toNat + 10)
  else if 'A' ≤ c ∧ c ≤ 'F' then some (c.toNat - 'A'.toNat + 10)
  else none

def hex4 : List Char → Option (Nat × List Char)
  | a :: b :: c :: d :: rest => do
    let a ← hexDigit? a
    let b ← hexDigit? b
    let c ← hexDigit? c
    let d ← hexDigit? d
    return (((a * 16 + b) * 16 + c) * 16 + d, rest)
  | _ => none

/-- The character of a `\u` escape whose marker is read already: one code
unit, or a pair of surrogates. -/
def unicodeEscape (text : List Char) : Option (Char × List Char) :=
  match hex4 text with
  | none => none
  | some (unit, rest) =>
    if 0xD800 ≤ unit ∧ unit < 0xDC00 then
      match rest with
      | '\\' :: 'u' :: rest =>
        match hex4 rest with
        | some (low, rest) =>
          if 0xDC00 ≤ low ∧ low < 0xE000 then
            some (Char.ofNat (0x10000 + (unit - 0xD800) * 0x400 +
              (low - 0xDC00)), rest)
          else none
        | none => none
      | _ => none
    else if 0xDC00 ≤ unit ∧ unit < 0xE000 then none
    else some (Char.ofNat unit, rest)

/-- The character of an escape whose backslash is read already. -/
def escape : List Char → Option (Char × List Char)
  | '"' :: rest => some ('"', rest)
  | '\\' :: rest => some ('\\', rest)
  | '/' :: rest => some ('/', rest)
  | 'b' :: rest => some ('\x08', rest)
  | 'f' :: rest => some ('\x0c', rest)
  | 'n' :: rest => some ('\n', rest)
  | 'r' :: rest => some ('\r', rest)
  | 't' :: rest => some ('\t', rest)
  | 'u' :: rest => unicodeEscape rest
  | _ => none

/-- The characters of a string whose opening quote is read already. -/
def stringChars : Nat → List Char → Option (List Char × List Char)
  | 0, _ => none
  | _, [] => none
  | fuel + 1, c :: rest =>
    if c = '"' then some ([], rest)
    else if c = '\\' then
      match escape rest with
      | some (e, rest) => (stringChars fuel rest).map fun (cs, rest) =>
        (e :: cs, rest)
      | none => none
    else if c.toNat < 32 then none
    else (stringChars fuel rest).map fun (cs, rest) => (c :: cs, rest)

/-- A string whose opening quote is read already. -/
def string (fuel : Nat) (text : List Char) : Option (String × List Char) :=
  (stringChars fuel text).map fun (cs, rest) => (String.ofList cs, rest)

/-- The longest run of digits. -/
def digits (text : List Char) : List Nat × List Char :=
  ((text.takeWhile Char.isDigit).map fun c => c.toNat - '0'.toNat,
    text.dropWhile Char.isDigit)

def natural (digits : List Nat) : Nat :=
  digits.foldl (fun n digit => n * 10 + digit) 0

/-- The digits after the point: none when there is no point, an error when no
digit follows it. -/
def fraction : List Char → Option (Option (List Nat) × List Char)
  | '.' :: rest =>
    match digits rest with
    | ([], _) => none
    | (fractional, rest) => some (some fractional, rest)
  | text => some (none, text)

/-- The power after the exponent mark: none when there is no mark, an error
when no digit follows it. -/
def power : List Char → Option (Option Int × List Char)
  | c :: rest =>
    if c = 'e' ∨ c = 'E' then
      let (negative, rest) : Bool × List Char :=
        match rest with
        | '+' :: rest => (false, rest)
        | '-' :: rest => (true, rest)
        | rest => (false, rest)
      match digits rest with
      | ([], _) => none
      | (exponent, rest) =>
        let n := natural exponent
        some (some (if negative then -(n : Int) else n), rest)
    else some (none, c :: rest)
  | [] => some (none, [])

def integer (negative : Bool) (whole : List Nat) : Option Number :=
  let n := natural whole
  if negative ∧ 0 < n ∧ n ≤ Nat.pow 2 63 then some (.int (-(n : Int)))
  else if negative = false ∧ n < Nat.pow 2 64 then some (.int n)
  else ((Decimal.ofDigits whole [] 0).toBinary64? negative).map .real

/-- A number without its sign. -/
def unsigned (negative : Bool) (text : List Char) :
    Option (Number × List Char) :=
  match digits text with
  | ([], _) => none
  | (whole, rest) =>
    if whole.head? = some 0 ∧ 1 < whole.length then none
    else
      match fraction rest with
      | none => none
      | some (fractional, rest) =>
        match power rest with
        | none => none
        | some (exponent, rest) =>
          match fractional, exponent with
          | none, none => (integer negative whole).map fun number =>
            (number, rest)
          | _, _ =>
            let decimal :=
              Decimal.ofDigits whole (fractional.getD []) (exponent.getD 0)
            (decimal.toBinary64? negative).map fun x => (.real x, rest)

def number : List Char → Option (Number × List Char)
  | '-' :: rest => unsigned true rest
  | text => unsigned false text

mutual

/-- A value, within so many levels of nesting. -/
def value : Nat → Nat → List Char → Option (Json × List Char)
  | 0, _, _ => none
  | fuel + 1, depth, text =>
    match skipBlanks text with
    | [] => none
    | '"' :: rest => (string (fuel + 1) rest).map fun (s, rest) =>
      (.str s, rest)
    | '[' :: rest =>
      match depth with
      | 0 => none
      | depth + 1 =>
        match skipBlanks rest with
        | ']' :: rest => some (.arr [], rest)
        | rest => (items fuel depth rest).map fun (items, rest) =>
          (.arr items, rest)
    | '\x7b' :: rest =>
      match depth with
      | 0 => none
      | depth + 1 =>
        match skipBlanks rest with
        | '\x7d' :: rest => some (.obj [], rest)
        | rest =>
          (members fuel depth rest).map fun (entries, rest) =>
            (.obj (Fields.ofEntries entries), rest)
    | 'n' :: rest => (word ['u', 'l', 'l'] rest).map fun rest => (.null, rest)
    | 't' :: rest => (word ['r', 'u', 'e'] rest).map fun rest =>
      (.bool true, rest)
    | 'f' :: rest => (word ['a', 'l', 's', 'e'] rest).map fun rest =>
      (.bool false, rest)
    | rest => (number rest).map fun (n, rest) => (.num n, rest)

/-- One or more items, up to the closing bracket. -/
def items : Nat → Nat → List Char → Option (List Json × List Char)
  | 0, _, _ => none
  | fuel + 1, depth, text =>
    match value fuel depth text with
    | none => none
    | some (item, rest) =>
      match skipBlanks rest with
      | ']' :: rest => some ([item], rest)
      | ',' :: rest => (items fuel depth rest).map fun (more, rest) =>
        (item :: more, rest)
      | _ => none

/-- One or more fields, up to the closing brace. -/
def members : Nat → Nat → List Char → Option (List (String × Json) × List Char)
  | 0, _, _ => none
  | fuel + 1, depth, text =>
    match skipBlanks text with
    | '"' :: rest =>
      match string (fuel + 1) rest with
      | none => none
      | some (name, rest) =>
        match skipBlanks rest with
        | ':' :: rest =>
          match value fuel depth rest with
          | none => none
          | some (v, rest) =>
            match skipBlanks rest with
            | '\x7d' :: rest => some ([(name, v)], rest)
            | ',' :: rest =>
              (members fuel depth rest).map fun (more, rest) =>
                ((name, v) :: more, rest)
            | _ => none
        | _ => none
    | _ => none

end

end Parser

/-- The value that a text holds, when it holds exactly one. Two steps a
character suffice for any text. -/
def parseChars (text : List Char) : Option Json :=
  match Parser.value (2 * text.length + 2) Parser.maxDepth text with
  | some (v, rest) => if Parser.skipBlanks rest = [] then some v else none
  | none => none

/-- The value that a text holds, when it holds exactly one. -/
def parse? (text : String) : Option Json := parseChars text.toList

end GatewayStack.Json
