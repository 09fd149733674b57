/-!
# Case, as far as ASCII sees it

The upper and lower case of a character may be several characters, and those
of a character outside ASCII may lie inside it: `ß` becomes `SS`, the Kelvin
sign becomes `k`. The two functions here give every ASCII character of the
full mapping. The few characters outside ASCII whose mapping reaches ASCII are
listed; any other stands for itself, and so never turns into an ASCII
character.
-/

namespace GatewayStack.Text

def upper (c : Char) : List Char :=
  if c.toNat < 128 then [c.toUpper]
  else
    match c.toNat with
    | 0x00DF => ['S', 'S']
    | 0x0131 => ['I']
    | 0x0149 => [Char.ofNat 0x02BC, 'N']
    | 0x017F => ['S']
    | 0x01F0 => ['J', Char.ofNat 0x030C]
    | 0x1E96 => ['H', Char.ofNat 0x0331]
    | 0x1E97 => ['T', Char.ofNat 0x0308]
    | 0x1E98 => ['W', Char.ofNat 0x030A]
    | 0x1E99 => ['Y', Char.ofNat 0x030A]
    | 0x1E9A => ['A', Char.ofNat 0x02BE]
    | 0xFB00 => ['F', 'F']
    | 0xFB01 => ['F', 'I']
    | 0xFB02 => ['F', 'L']
    | 0xFB03 => ['F', 'F', 'I']
    | 0xFB04 => ['F', 'F', 'L']
    | 0xFB05 => ['S', 'T']
    | 0xFB06 => ['S', 'T']
    | _ => [c]

def lower (c : Char) : List Char :=
  if c.toNat < 128 then [c.toLower]
  else
    match c.toNat with
    | 0x0130 => ['i', Char.ofNat 0x0307]
    | 0x212A => ['k']
    | _ => [c]

/-- The first character in upper case and the others in lower case. -/
def capitalize : List Char → List Char
  | [] => []
  | c :: rest => upper c ++ rest.flatMap lower

/-- Only the first character in upper case, of a text in ASCII. -/
def upperFirst : List Char → List Char
  | [] => []
  | c :: rest => c.toUpper :: rest

def isAsciiAlphanumeric (c : Char) : Bool := c.toNat < 128 && c.isAlphanum

/-- A text with its ASCII letters in lower case. -/
def asciiLower (s : String) : String :=
  String.ofList (s.toList.map Char.toLower)

/-- A text with its ASCII letters in upper case. -/
def asciiUpper (s : String) : String :=
  String.ofList (s.toList.map Char.toUpper)

end GatewayStack.Text
