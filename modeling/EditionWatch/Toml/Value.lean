import EditionWatch.KeyMap

/-!
# TOML values and tables

A document is a table. Tables come about in four ways, and the rules that forbid defining a
table twice depend on the way: by a header of their own, as a step on the path of another
header, by a dotted key, or written in braces. A braced table can never be extended, a table
of dotted keys only by dotted keys or by headers below it, and a header may turn a table
that was only a step so far into one of its own.
-/

namespace EditionWatch.Toml

/-- How a table came about. -/
inductive Origin where
  /-- It has a header of its own. -/
  | header
  /-- It is a step on the path of some header. -/
  | implied
  /-- It is a step on the path of a dotted key. -/
  | dotted
  /-- It is written in braces. -/
  | literal
  deriving DecidableEq, Repr

/-- A TOML value; numbers with a fraction and moments of time are kept as written. -/
inductive Value where
  /-- A string. -/
  | text (content : String)
  /-- A whole number. -/
  | integer (n : Int)
  /-- A number with a fraction or an exponent, infinity, or not a number. -/
  | float (written : List Char)
  /-- A truth value. -/
  | boolean (b : Bool)
  /-- A date, a time of day, or both. -/
  | moment (written : List Char)
  /-- An array. -/
  | array (elements : List Value)
  /-- A table. -/
  | table (origin : Origin) (entries : List (String × Value))
  /-- An array of tables with headers, the latest apart from the earlier ones. -/
  | tables (latest : List (String × Value)) (earlier : List (List (String × Value)))

/-- The content of a table: names and values in the order of their definition. -/
abbrev Entries := List (String × Value)

namespace Entries

/-- The value under a name. -/
def get? (t : Entries) (name : String) : Option Value := KeyMap.find name t

/-- Defines a name that has no value yet. -/
def define? (name : String) (value : Value) (t : Entries) : Option Entries :=
  match t.get? name with
  | none => some (KeyMap.store name value t)
  | some _ => none

/-- Changes the table that a header's path leads to; missing steps are implied, and an array
of tables stands for its latest element. -/
def underHeader (change : Entries → Option Entries) : List String → Entries → Option Entries
  | [], t => change t
  | name :: path, t =>
    match t.get? name with
    | none => do
      let inner ← underHeader change path []
      some (KeyMap.store name (.table .implied inner) t)
    | some (.table .literal _) => none
    | some (.table origin inner) => do
      let inner ← underHeader change path inner
      some (KeyMap.store name (.table origin inner) t)
    | some (.tables latest earlier) => do
      let latest ← underHeader change path latest
      some (KeyMap.store name (.tables latest earlier) t)
    | some _ => none

/-- Changes the table that the steps of a dotted key lead to. The last step must be a table
made by dotted keys; a step on the way may also be implied by a header. -/
def underDotted (change : Entries → Option Entries) : List String → Entries → Option Entries
  | [], t => change t
  | name :: path, t =>
    match t.get? name with
    | none => do
      let inner ← underDotted change path []
      some (KeyMap.store name (.table .dotted inner) t)
    | some (.table .dotted inner) => do
      let inner ← underDotted change path inner
      some (KeyMap.store name (.table .dotted inner) t)
    | some (.table .implied inner) =>
      if path.isEmpty then none
      else do
        let inner ← underDotted change path inner
        some (KeyMap.store name (.table .implied inner) t)
    | some (.tables latest earlier) =>
      if path.isEmpty then none
      else do
        let latest ← underDotted change path latest
        some (KeyMap.store name (.tables latest earlier) t)
    | some _ => none

/-- Defines the value of a dotted key: its steps and its last name. -/
def assign? (steps : List String) (name : String) (value : Value) (t : Entries) :
    Option Entries :=
  underDotted (define? name value) steps t

/-- Opens the table of a header, given by the steps of its path and its last name. -/
def openTable? (steps : List String) (name : String) (t : Entries) : Option Entries :=
  underHeader (fun parent =>
    match parent.get? name with
    | none => some (KeyMap.store name (.table .header []) parent)
    | some (.table .implied inner) => some (KeyMap.store name (.table .header inner) parent)
    | some _ => none) steps t

/-- Opens a new element of an array of tables. -/
def openElement? (steps : List String) (name : String) (t : Entries) : Option Entries :=
  underHeader (fun parent =>
    match parent.get? name with
    | none => some (KeyMap.store name (.tables [] []) parent)
    | some (.tables latest earlier) =>
      some (KeyMap.store name (.tables [] (latest :: earlier)) parent)
    | some _ => none) steps t

end Entries

end EditionWatch.Toml
