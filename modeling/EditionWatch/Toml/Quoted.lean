/-!
# TOML strings

Strings stand in double quotes, where a backslash begins an escape, or in single quotes,
where every character stands for itself. Both kinds may be tripled to span lines. Control
characters other than the tab are refused everywhere.
-/

namespace EditionWatch.Toml.Quoted

/-- Whether a character may stand for itself: a tab or no control character. -/
def isPlain (c : Char) : Bool := c = '\t' || (0x20 ≤ c.toNat && c.toNat ≠ 0x7F)

/-- The single quote. -/
def single : Char := '\x27'

/-- The value of a hexadecimal digit. -/
def hexValue? (c : Char) : Option Nat :=
  if c.isDigit then some (c.toNat - '0'.toNat)
  else if 'a' ≤ c && c ≤ 'f' then some (c.toNat - 'a'.toNat + 10)
  else if 'A' ≤ c && c ≤ 'F' then some (c.toNat - 'A'.toNat + 10)
  else none

/-- The character whose code point the digits denote. -/
def hexChar? (digits : List Char) : Option Char := do
  let n ← digits.foldlM (fun n c => (hexValue? c).map (16 * n + ·)) 0
  if n.isValidChar then some (Char.ofNat n) else none

/-- The character that a one-letter escape stands for. -/
def escaped? (c : Char) : Option Char :=
  match c with
  | 'b' => some '\x08'
  | 't' => some '\t'
  | 'n' => some '\n'
  | 'f' => some '\x0c'
  | 'r' => some '\r'
  | 'e' => some '\x1b'
  | '"' => some '"'
  | '\\' => some '\\'
  | _ => none

/-- The content of a string and the text behind it. -/
abbrev Reading := Option (List Char × List Char)

/-- A reading with one more character in front; a missing character spoils it. -/
def push (c : Option Char) (reading : Reading) : Reading := do
  let c ← c
  let (content, rest) ← reading
  some (c :: content, rest)

/-- Reads a string in double quotes behind its opening quote. -/
def basic : List Char → Reading
  | [] => none
  | '"' :: rest => some ([], rest)
  | '\\' :: 'x' :: a :: b :: rest => push (hexChar? [a, b]) (basic rest)
  | '\\' :: 'u' :: a :: b :: c :: d :: rest => push (hexChar? [a, b, c, d]) (basic rest)
  | '\\' :: 'U' :: a :: b :: c :: d :: e :: f :: g :: h :: rest =>
    push (hexChar? [a, b, c, d, e, f, g, h]) (basic rest)
  | '\\' :: c :: rest => push (escaped? c) (basic rest)
  | c :: rest => if isPlain c && c ≠ '\\' then push (some c) (basic rest) else none

/-- Reads a string in single quotes behind its opening quote. -/
def literal : List Char → Reading
  | [] => none
  | c :: rest =>
    if c = single then some ([], rest)
    else if isPlain c then push (some c) (literal rest)
    else none

/-- Whether a text is blank up to the end of its line. -/
def endsLine (text : List Char) : Bool :=
  match text.dropWhile fun c => c = ' ' || c = '\t' with
  | '\n' :: _ => true
  | '\r' :: '\n' :: _ => true
  | _ => false

/-- Reads a string in triple double quotes behind its opening and the line end that may
follow it. A backslash at the end of a line joins it with the next text, which `joining`
says is being looked for; up to two quotes may stand before the closing three. -/
def basicLines (joining : Bool) : List Char → Reading
  | [] => none
  | '"' :: '"' :: '"' :: '"' :: '"' :: rest => some (['"', '"'], rest)
  | '"' :: '"' :: '"' :: '"' :: rest => some (['"'], rest)
  | '"' :: '"' :: '"' :: rest => some ([], rest)
  | '\\' :: 'x' :: a :: b :: rest => push (hexChar? [a, b]) (basicLines false rest)
  | '\\' :: 'u' :: a :: b :: c :: d :: rest =>
    push (hexChar? [a, b, c, d]) (basicLines false rest)
  | '\\' :: 'U' :: a :: b :: c :: d :: e :: f :: g :: h :: rest =>
    push (hexChar? [a, b, c, d, e, f, g, h]) (basicLines false rest)
  | '\\' :: c :: rest =>
    if endsLine (c :: rest) then basicLines true rest
    else push (escaped? c) (basicLines false rest)
  | '\r' :: '\n' :: rest =>
    if joining then basicLines true rest else push (some '\n') (basicLines false rest)
  | c :: rest =>
    if joining && (c = ' ' || c = '\t' || c = '\n') then basicLines true rest
    else if (isPlain c || c = '\n') && c ≠ '\\' then push (some c) (basicLines false rest)
    else none

/-- Reads a string in triple single quotes behind its opening and the line end that may
follow it. -/
def literalLines : List Char → Reading
  | [] => none
  | '\x27' :: '\x27' :: '\x27' :: '\x27' :: '\x27' :: rest => some ([single, single], rest)
  | '\x27' :: '\x27' :: '\x27' :: '\x27' :: rest => some ([single], rest)
  | '\x27' :: '\x27' :: '\x27' :: rest => some ([], rest)
  | '\r' :: '\n' :: rest => push (some '\n') (literalLines rest)
  | c :: rest => if isPlain c || c = '\n' then push (some c) (literalLines rest) else none

/-- The text without the line end that may open a string of several lines. -/
def behindLineEnd : List Char → List Char
  | '\n' :: rest => rest
  | '\r' :: '\n' :: rest => rest
  | rest => rest

end EditionWatch.Toml.Quoted
