import EditionWatch.Toml.Quoted
import EditionWatch.Toml.Scalar

/-!
# TOML documents

A document is read expression by expression: table headers, headers of array elements, and
keys with values. Each expression ends its line. Arrays and braced tables may span lines,
hold comments and end in a comma; they may be nested eighty deep.
-/

namespace EditionWatch.Toml

/-- Text without the blanks of its first line's beginning. -/
def trimBlanks (text : List Char) : List Char := text.dropWhile fun c => c = ' ' || c = '\t'

/-- Text behind any blanks, line ends and comments; `inComment` tells whether it begins
inside a comment. -/
def trimLines (inComment : Bool) : List Char → Option (List Char)
  | [] => some []
  | '\n' :: rest => trimLines false rest
  | '\r' :: '\n' :: rest => trimLines false rest
  | c :: rest =>
    if inComment then (if Quoted.isPlain c then trimLines true rest else none)
    else if c = ' ' || c = '\t' then trimLines false rest
    else if c = '#' then trimLines true rest
    else some (c :: rest)

/-- Text behind the end of an expression: only blanks and a comment may be left of its line,
and the comment is left for later. -/
def lineEnd (text : List Char) : Option (List Char) :=
  match trimBlanks text with
  | [] => some []
  | '\n' :: rest => some rest
  | '\r' :: '\n' :: rest => some rest
  | '#' :: rest => some ('#' :: rest)
  | _ => none

/-- Whether a character may stand in a key without quotes. -/
def isBare (c : Char) : Bool := c.isAlphanum || c = '_' || c = '-'

/-- Reads one name of a key. -/
def name : List Char → Option (String × List Char)
  | [] => none
  | c :: rest =>
    if c = '"' then (Quoted.basic rest).map fun r => (String.ofList r.1, r.2)
    else if c = Quoted.single then (Quoted.literal rest).map fun r => (String.ofList r.1, r.2)
    else
      let bare := (c :: rest).takeWhile isBare
      if bare.isEmpty then none
      else some (String.ofList bare, (c :: rest).drop bare.length)

/-- A dotted key: the names before the last one, and the last one. -/
structure Key where
  /-- The names that lead to a table. -/
  steps : List String
  /-- The name in that table. -/
  last : String

/-- Reads a key of at most so many names, with blanks around its dots and behind it. -/
def key : Nat → List Char → Option (Key × List Char)
  | 0, _ => none
  | limit + 1, text => do
    let (first, rest) ← name text
    match trimBlanks rest with
    | '.' :: rest =>
      let (following, rest) ← key limit (trimBlanks rest)
      some (⟨first :: following.steps, following.last⟩, rest)
    | rest => some (⟨[], first⟩, rest)

/-- Reads a key and its value. -/
def pair (value : List Char → Option (Value × List Char)) (text : List Char) :
    Option ((Key × Value) × List Char) := do
  let (k, rest) ← key text.length text
  match rest with
  | '=' :: rest =>
    let (v, rest) ← value (trimBlanks rest)
    some ((k, v), rest)
  | _ => none

/-- Reads at most so many elements of an array, up to its closing bracket. -/
def elements (value : List Char → Option (Value × List Char)) :
    Nat → List Char → Option (List Value × List Char)
  | 0, _ => none
  | limit + 1, text => do
    match ← trimLines false text with
    | ']' :: rest => some ([], rest)
    | text =>
      let (v, rest) ← value text
      match ← trimLines false rest with
      | ',' :: rest =>
        let (vs, rest) ← elements value limit rest
        some (v :: vs, rest)
      | ']' :: rest => some ([v], rest)
      | _ => none

/-- Reads at most so many pairs of a braced table into it, up to its closing brace. -/
def fields (value : List Char → Option (Value × List Char)) :
    Nat → Entries → List Char → Option (Entries × List Char)
  | 0, _, _ => none
  | limit + 1, table, text => do
    match ← trimLines false text with
    | '\x7d' :: rest => some (table, rest)
    | text =>
      let ((k, v), rest) ← pair value text
      let table ← table.assign? k.steps k.last v
      match ← trimLines false rest with
      | ',' :: rest => fields value limit table rest
      | '\x7d' :: rest => some (table, rest)
      | _ => none

/-- A string value and the text behind it. -/
def ofReading (reading : Quoted.Reading) : Option (Value × List Char) :=
  reading.map fun r => (.text (String.ofList r.1), r.2)

/-- Reads a value in which arrays and braced tables are nested at most `depth` deep. -/
def value : Nat → List Char → Option (Value × List Char)
  | _, '"' :: '"' :: '"' :: rest =>
    ofReading (Quoted.basicLines false (Quoted.behindLineEnd rest))
  | _, '"' :: rest => ofReading (Quoted.basic rest)
  | _, '\x27' :: '\x27' :: '\x27' :: rest =>
    ofReading (Quoted.literalLines (Quoted.behindLineEnd rest))
  | _, '\x27' :: rest => ofReading (Quoted.literal rest)
  | 0, '[' :: _ => none
  | depth + 1, '[' :: rest =>
    (elements (value depth) (rest.length + 1) rest).map fun r => (.array r.1, r.2)
  | 0, '\x7b' :: _ => none
  | depth + 1, '\x7b' :: rest =>
    (fields (value depth) (rest.length + 1) [] rest).map fun r => (.table .literal r.1, r.2)
  | _, text =>
    let (written, rest) := Scalar.split text
    (Scalar.read written).map fun v => (v, rest)

/-- How deep arrays and braced tables may be nested. -/
def depthLimit : Nat := 80

/-- A document that is being read. -/
structure Draft where
  /-- The whole table so far. -/
  root : Entries
  /-- The path of the table that pairs are put into. -/
  header : List String

/-- The draft with one more pair in its current table. -/
def Draft.assign? (draft : Draft) (k : Key) (v : Value) : Option Draft := do
  let root ← draft.root.underHeader (Entries.assign? k.steps k.last v) draft.header
  some { draft with root := root }

/-- The draft with the table of a header opened. -/
def Draft.openTable? (draft : Draft) (k : Key) : Option Draft := do
  let root ← draft.root.openTable? k.steps k.last
  some ⟨root, k.steps ++ [k.last]⟩

/-- The draft with a new element of an array of tables opened. -/
def Draft.openElement? (draft : Draft) (k : Key) : Option Draft := do
  let root ← draft.root.openElement? k.steps k.last
  some ⟨root, k.steps ++ [k.last]⟩

/-- Reads one expression without the end of its line. -/
def expression (draft : Draft) : List Char → Option (Draft × List Char)
  | '[' :: '[' :: text => do
    let (k, rest) ← key text.length (trimBlanks text)
    match rest with
    | ']' :: ']' :: rest => some (← draft.openElement? k, rest)
    | _ => none
  | '[' :: text => do
    let (k, rest) ← key text.length (trimBlanks text)
    match rest with
    | ']' :: rest => some (← draft.openTable? k, rest)
    | _ => none
  | text => do
    let ((k, v), rest) ← pair (value depthLimit) text
    some (← draft.assign? k v, rest)

/-- Reads at most so many expressions. -/
def expressions : Nat → Draft → List Char → Option Draft
  | 0, _, _ => none
  | limit + 1, draft, text => do
    match ← trimLines false text with
    | [] => some draft
    | text =>
      let (draft, rest) ← expression draft text
      expressions limit draft (← lineEnd rest)

/-- The text without the byte order mark that may open it. -/
def behindMark : List Char → List Char
  | '\uFEFF' :: rest => rest
  | text => text

/-- The table that a document denotes. -/
def parse (text : List Char) : Option Entries :=
  let text := behindMark text
  (expressions (text.length + 1) ⟨[], []⟩ text).map Draft.root

end EditionWatch.Toml
