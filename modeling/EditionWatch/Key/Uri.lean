import EditionWatch.Key.Edition
import EditionWatch.Key.PublicKey
import EditionWatch.Text.Decimal

/-!
# Document keys and edition URIs

A document is identified by its author's public key and its name. One edition of it has the
URI `<key>/<document>/<edition>`. The document name may itself hold slashes: the key ends
at the first slash of a URI and the edition begins behind the last one.
-/

namespace EditionWatch

/-- A document: its author and its name, without the number of any edition. -/
structure DocumentKey where
  /-- The author's public key. -/
  author : PublicKey
  /-- The name of the document. -/
  document : String
  deriving DecidableEq

/-- One edition of a document. -/
structure EditionUri where
  /-- The document. -/
  key : DocumentKey
  /-- The number of the edition. -/
  edition : Edition
  deriving DecidableEq

namespace DocumentKey

/-- Documents are ordered by author, then by name. -/
instance : Ord DocumentKey :=
  ⟨fun a b => (compare a.author b.author).then (compare a.document b.document)⟩

/-- The URI of one edition of the document. -/
def uri (key : DocumentKey) (edition : Edition) : EditionUri := ⟨key, edition⟩

/-- The written form of a document key. -/
def render (key : DocumentKey) : List Char :=
  key.author.render ++ '/' :: key.document.toList

/-- The written form of a document key as text. -/
def text (key : DocumentKey) : String := String.ofList key.render

/-- Documents in order, each once. -/
def sortedDistinct (keys : List DocumentKey) : List DocumentKey :=
  (keys.mergeSort fun a b => (compare a b).isLE).eraseReps

/-- The diagnostic form of a document key, with the author's key shortened. -/
def debugText (key : DocumentKey) : String :=
  "VersionedKey(" ++ key.author.short ++ "/" ++ key.document ++ ")"

end DocumentKey

namespace EditionUri

/-- URIs are ordered by document, then by edition. -/
instance : Ord EditionUri :=
  ⟨fun a b => (compare a.key b.key).then (compare a.edition b.edition)⟩

/-- URIs in order. -/
def sorted (uris : List EditionUri) : List EditionUri :=
  uris.mergeSort fun a b => (compare a b).isLE

/-- The URI of another edition of the same document. -/
def withEdition (uri : EditionUri) (edition : Edition) : EditionUri := ⟨uri.key, edition⟩

/-- The written form of a URI. -/
def render (uri : EditionUri) : List Char :=
  uri.key.render ++ '/' :: Decimal.write uri.edition.toNat

/-- The written form of a URI as text. -/
def text (uri : EditionUri) : String := String.ofList uri.render

/-- The diagnostic form of a URI. -/
def debugText (uri : EditionUri) : String :=
  "EditionUri \x7b key: " ++ uri.key.debugText ++ ", edition: "
    ++ Decimal.text uri.edition.toNat ++ " \x7d"

/-- The causes for which a text is refused as a URI. -/
inductive Fault where
  /-- The text has fewer than two slashes. -/
  | missingSegment
  /-- Nothing stands between the first and the last slash. -/
  | emptyDocument
  /-- The text before the first slash is not a public key. -/
  | key (source : PublicKey.Fault)
  /-- The text behind the last slash is not an edition number. -/
  | edition (source : Decimal.Fault)
  deriving DecidableEq, Repr

/-- The text before and behind the first `separator`. -/
def splitFirst (separator : Char) : List Char → Option (List Char × List Char)
  | [] => none
  | c :: rest =>
    if c = separator then some ([], rest)
    else (splitFirst separator rest).map fun parts => (c :: parts.1, parts.2)

/-- The text before and behind the last `separator`. -/
def splitLast (separator : Char) : List Char → Option (List Char × List Char)
  | [] => none
  | c :: rest =>
    match splitLast separator rest with
    | some parts => some (c :: parts.1, parts.2)
    | none => if c = separator then some ([], rest) else none

/-- Reads a URI; a missing slash is noticed first, then an empty document name, then a
fault in the key, then one in the edition number. -/
def parse (text : List Char) : Except Fault EditionUri :=
  match splitLast '/' text with
  | none => .error .missingSegment
  | some (front, number) =>
    match splitFirst '/' front with
    | none => .error .missingSegment
    | some (_, []) => .error .emptyDocument
    | some (author, document) =>
      match PublicKey.parse author with
      | .error source => .error (.key source)
      | .ok author =>
        match Decimal.read number with
        | .error source => .error (.edition source)
        | .ok edition => .ok ⟨⟨author, String.ofList document⟩, edition⟩

/-- The sentence that names the fault. -/
def Fault.message : Fault → String
  | .missingSegment => "expected <key>/<document>/<edition>"
  | .emptyDocument => "document name must not be empty"
  | .key (.encoding _) => "public key was not encoded in valid z32"
  | .key (.length count) => "length must be 32 bytes, but got " ++ toString count ++ " byte(s)"
  | .edition _ => "invalid edition number"

/-- The sentence of the underlying fault, where there is one. -/
def Fault.cause? : Fault → Option String
  | .key (.encoding source) => some source.message
  | .edition source => some source.message
  | _ => none

end EditionUri

end EditionWatch
