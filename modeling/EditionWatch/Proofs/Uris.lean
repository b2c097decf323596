import EditionWatch.Key.Uri
import EditionWatch.Proofs.Encoding
import EditionWatch.Proofs.Numerals

/-!
# What the reader of URIs takes

A URI is the text of a public key, a document name that is not empty and the text of an edition
number, with a slash between them. The key ends at the first slash of the text and the number
begins behind the last one, so only the name may hold slashes itself, and no text is a URI in two
ways. Any other text is refused for the first fault that it has, in this order: a missing slash,
an empty name, a fault of the key, a fault of the number.

The text that is written for a URI is read as that URI again unless its document has no name.
-/

namespace EditionWatch.EditionUri

/-- A text that writes this URI. -/
inductive Spells : List Char → EditionUri → Prop where
  /-- A key, a name and an edition number between slashes. -/
  | parts {author document number : List Char} {key : PublicKey} {edition : Edition}
      (authorPlain : '/' ∉ author) (numberPlain : '/' ∉ number) (named : document ≠ [])
      (authored : PublicKey.Spells author key) (numbered : Decimal.Spells number edition) :
      Spells (author ++ '/' :: (document ++ '/' :: number))
        ⟨⟨key, String.ofList document⟩, edition⟩

/-- A text that writes no URI, with the first fault that it has. -/
inductive Misspells : List Char → Fault → Prop where
  /-- There are fewer than two slashes. -/
  | missingSegment {text : List Char} (few : text.count '/' < 2) : Misspells text .missingSegment
  /-- Nothing stands between the first slash and the last one. -/
  | emptyDocument {author number : List Char} (authorPlain : '/' ∉ author)
      (numberPlain : '/' ∉ number) : Misspells (author ++ '/' :: '/' :: number) .emptyDocument
  /-- Something stands there, and what stands before the first slash is no key. -/
  | key {author document number : List Char} {source : PublicKey.Fault}
      (authorPlain : '/' ∉ author) (numberPlain : '/' ∉ number) (named : document ≠ [])
      (unauthored : PublicKey.Misspells author source) :
      Misspells (author ++ '/' :: (document ++ '/' :: number)) (.key source)
  /-- There is a key and a name, and what stands behind the last slash is no edition number. -/
  | edition {author document number : List Char} {key : PublicKey} {source : Decimal.Fault}
      (authorPlain : '/' ∉ author) (numberPlain : '/' ∉ number) (named : document ≠ [])
      (authored : PublicKey.Spells author key) (unnumbered : Decimal.Misspells number source) :
      Misspells (author ++ '/' :: (document ++ '/' :: number)) (.edition source)

section Splits

variable {separator : Char} {text front back : List Char}

theorem splitFirst_eq_none (absent : separator ∉ text) : splitFirst separator text = none := by
  induction text with
  | nil => rfl
  | cons c text ih =>
    have hne : c ≠ separator := fun h => absent (h ▸ List.mem_cons_self)
    rw [splitFirst, if_neg hne, ih fun h => absent (List.mem_cons_of_mem c h)]
    rfl

/-- A text is split at the first separator if the part before it has none. -/
theorem splitFirst_append (plain : separator ∉ front) (back : List Char) :
    splitFirst separator (front ++ separator :: back) = some (front, back) := by
  induction front with
  | nil => exact if_pos rfl
  | cons c front ih =>
    have hne : c ≠ separator := fun h => plain (h ▸ List.mem_cons_self)
    rw [List.cons_append, splitFirst, if_neg hne, ih fun h => plain (List.mem_cons_of_mem c h)]
    rfl

theorem splitLast_eq_none (absent : separator ∉ text) : splitLast separator text = none := by
  induction text with
  | nil => rfl
  | cons c text ih =>
    have hne : c ≠ separator := fun h => absent (h ▸ List.mem_cons_self)
    rw [splitLast, ih fun h => absent (List.mem_cons_of_mem c h)]
    exact if_neg hne

/-- A text is split at the last separator if the part behind it has none. -/
theorem splitLast_append (front : List Char) (plain : separator ∉ back) :
    splitLast separator (front ++ separator :: back) = some (front, back) := by
  induction front with
  | nil =>
    rw [List.nil_append, splitLast, splitLast_eq_none plain]
    exact if_pos rfl
  | cons c front ih => rw [List.cons_append, splitLast, ih]

/-- A text with a separator is cut at its last one. -/
theorem exists_last (present : separator ∈ text) :
    ∃ front back, text = front ++ separator :: back ∧ separator ∉ back := by
  obtain ⟨back, front, hform, hplain⟩ :=
    List.eq_append_cons_of_mem (List.mem_reverse.mpr present)
  refine ⟨front.reverse, back.reverse, ?_, by rwa [List.mem_reverse]⟩
  rw [← List.reverse_reverse text, hform]
  simp

end Splits

section Reading

variable {text author document number : List Char} {uri : EditionUri} {fault : Fault}

/-- With fewer than two slashes a segment is missing. -/
theorem parse_of_few (few : text.count '/' < 2) : parse text = .error .missingSegment := by
  by_cases hpresent : '/' ∈ text
  · obtain ⟨front, back, rfl, hback⟩ := exists_last hpresent
    have hfront : '/' ∉ front := by
      rw [List.count_append, List.count_cons_self] at few
      exact List.count_eq_zero.mp (by omega)
    rw [parse, splitLast_append front hback]
    simp only [splitFirst_eq_none hfront]
  · rw [parse, splitLast_eq_none hpresent]

/-- The three parts of a text are cut out at its first slash and its last one. -/
theorem split_parts (authorPlain : '/' ∉ author) (numberPlain : '/' ∉ number)
    (document : List Char) :
    splitLast '/' (author ++ '/' :: (document ++ '/' :: number)) =
        some (author ++ '/' :: document, number) ∧
      splitFirst '/' (author ++ '/' :: document) = some (author, document) := by
  refine ⟨?_, splitFirst_append authorPlain document⟩
  have hform : author ++ '/' :: (document ++ '/' :: number) =
      (author ++ '/' :: document) ++ '/' :: number := by simp
  rw [hform, splitLast_append _ numberPlain]

/-- Between two slashes side by side the name of the document is missing. -/
theorem parse_of_unnamed (authorPlain : '/' ∉ author) (numberPlain : '/' ∉ number) :
    parse (author ++ '/' :: '/' :: number) = .error .emptyDocument := by
  obtain ⟨hlast, hfirst⟩ := split_parts authorPlain numberPlain []
  rw [List.nil_append] at hlast
  rw [parse, hlast]
  simp only [hfirst]

/-- A text with a name between its slashes is read by its key and then by its number. -/
theorem parse_of_named (authorPlain : '/' ∉ author) (numberPlain : '/' ∉ number)
    (named : document ≠ []) :
    parse (author ++ '/' :: (document ++ '/' :: number)) =
      ((PublicKey.parse author).mapError Fault.key).bind fun key =>
        ((Decimal.read number).mapError Fault.edition).map fun edition =>
          ⟨⟨key, String.ofList document⟩, edition⟩ := by
  obtain ⟨hlast, hfirst⟩ := split_parts authorPlain numberPlain document
  cases document with
  | nil => exact absurd rfl named
  | cons c document =>
    rw [parse, hlast]
    simp only [hfirst]
    cases PublicKey.parse author with
    | error source => rfl
    | ok key => cases Decimal.read number <;> rfl

/-- A text that spells an edition is parsed as it. -/
theorem parse_of_spells (h : Spells text uri) : parse text = .ok uri := by
  cases h with
  | parts authorPlain numberPlain named authored numbered =>
    rw [parse_of_named authorPlain numberPlain named, PublicKey.parse_of_spells authored,
      Decimal.read_of_spells numbered]
    rfl

/-- A text that misspells an edition is refused with its fault. -/
theorem parse_of_misspells (h : Misspells text fault) : parse text = .error fault := by
  cases h with
  | missingSegment few => exact parse_of_few few
  | emptyDocument authorPlain numberPlain => exact parse_of_unnamed authorPlain numberPlain
  | key authorPlain numberPlain named unauthored =>
    rw [parse_of_named authorPlain numberPlain named, PublicKey.parse_of_misspells unauthored]
    rfl
  | edition authorPlain numberPlain named authored unnumbered =>
    rw [parse_of_named authorPlain numberPlain named, PublicKey.parse_of_spells authored,
      Decimal.read_of_misspells unnumbered]
    rfl

/-- A text with two slashes or more has a first one and a last one. -/
theorem exists_parts (many : 2 ≤ text.count '/') :
    ∃ author document number, text = author ++ '/' :: (document ++ '/' :: number) ∧
      '/' ∉ author ∧ '/' ∉ number := by
  have hpresent : '/' ∈ text := List.count_pos_iff.mp (by omega)
  obtain ⟨author, rest, rfl, hauthor⟩ := List.eq_append_cons_of_mem hpresent
  rw [List.count_append, List.count_eq_zero.mpr hauthor, List.count_cons_self] at many
  have hrest : '/' ∈ rest := List.count_pos_iff.mp (by omega)
  obtain ⟨document, number, rfl, hnumber⟩ := exists_last hrest
  exact ⟨author, document, number, rfl, hauthor, hnumber⟩

/-- Every text writes a URI or is refused for one fault. -/
theorem spells_or_misspells (text : List Char) :
    (∃ uri, Spells text uri) ∨ ∃ fault, Misspells text fault := by
  by_cases hfew : text.count '/' < 2
  · exact .inr ⟨_, .missingSegment hfew⟩
  obtain ⟨author, document, number, rfl, hauthor, hnumber⟩ := exists_parts (Nat.not_lt.mp hfew)
  by_cases hnamed : document = []
  · subst hnamed
    exact .inr ⟨_, .emptyDocument hauthor hnumber⟩
  obtain ⟨key, hkey⟩ | ⟨source, hsource⟩ := PublicKey.spells_or_misspells author
  · obtain ⟨edition, hedition⟩ | ⟨source, hsource⟩ := Decimal.spells_or_misspells number
    · exact .inl ⟨_, .parts hauthor hnumber hnamed hkey hedition⟩
    · exact .inr ⟨_, .edition hauthor hnumber hnamed hkey hsource⟩
  · exact .inr ⟨_, .key hauthor hnumber hnamed hsource⟩

/-- Exactly the texts that write a URI are read as one, and every other text is refused for the
first of its faults: a missing slash, an empty document name, the first byte of the key that is
not in the alphabet, the length of the key, and then the fault of the edition number. -/
theorem uris_exact (s : String) :
    (∀ uri, parse s.toList = .ok uri ↔ Spells s.toList uri) ∧
      ∀ fault, parse s.toList = .error fault ↔ Misspells s.toList fault := by
  refine ⟨fun uri => ⟨fun hparse => ?_, parse_of_spells⟩,
    fun fault => ⟨fun hparse => ?_, parse_of_misspells⟩⟩
  · obtain ⟨other, hother⟩ | ⟨fault, hfault⟩ := spells_or_misspells s.toList
    · have heq := (parse_of_spells hother).symm.trans hparse
      rwa [← Except.ok.inj heq]
    · exact absurd ((parse_of_misspells hfault).symm.trans hparse) (by simp)
  · obtain ⟨uri, huri⟩ | ⟨other, hother⟩ := spells_or_misspells s.toList
    · exact absurd ((parse_of_spells huri).symm.trans hparse) (by simp)
    · have heq := (parse_of_misspells hother).symm.trans hparse
      rwa [← Except.error.inj heq]

end Reading

section Writing

variable {uri : EditionUri}

/-- An edition is written as its author, its document and its number, with slashes between them. -/
theorem render_eq (uri : EditionUri) :
    uri.render = uri.key.author.render ++
      '/' :: (uri.key.document.toList ++ '/' :: Decimal.write uri.edition.toNat) := by
  simp [render, DocumentKey.render]

/-- An edition of a document that has a name is spelled out. -/
theorem spells_render (named : uri.key.document ≠ "") : Spells uri.render uri := by
  have hnamed : uri.key.document.toList ≠ [] := fun h => named (String.toList_eq_nil_iff.mp h)
  have hspells := Spells.parts (PublicKey.slash_notMem_render uri.key.author)
    (Decimal.slash_notMem_write uri.edition.toNat) hnamed (PublicKey.spells_render uri.key.author)
    (Decimal.spells_write uri.edition)
  rw [String.ofList_toList] at hspells
  rw [render_eq]
  exact hspells

/-- An edition of a document without a name is misspelled. -/
theorem misspells_render (unnamed : uri.key.document = "") :
    Misspells uri.render .emptyDocument := by
  rw [render_eq, unnamed]
  exact .emptyDocument (PublicKey.slash_notMem_render uri.key.author)
    (Decimal.slash_notMem_write uri.edition.toNat)

/-- What is read has a document name. -/
theorem named_of_spells {text : List Char} (h : Spells text uri) : uri.key.document ≠ "" := by
  cases h with
  | parts _ _ named _ _ =>
    intro hempty
    have hlist := congrArg String.toList hempty
    rw [String.toList_ofList] at hlist
    exact named hlist

/-- The text of a URI is read as that URI if its document has a name and is refused for the empty
name otherwise, and a URI that was read from any text is read from its own text again. -/
theorem uris_round_trip :
    (∀ uri : EditionUri, parse uri.text.toList =
      if uri.key.document = "" then .error .emptyDocument else .ok uri) ∧
    ∀ (s : String) (uri : EditionUri), parse s.toList = .ok uri →
      parse uri.text.toList = .ok uri := by
  have hwritten : ∀ uri : EditionUri, parse uri.text.toList =
      if uri.key.document = "" then .error .emptyDocument else .ok uri := by
    intro uri
    rw [text, String.toList_ofList]
    split
    case isTrue hunnamed => exact parse_of_misspells (misspells_render hunnamed)
    case isFalse hnamed => exact parse_of_spells (spells_render hnamed)
  refine ⟨hwritten, fun s uri hparse => ?_⟩
  obtain ⟨other, hother⟩ | ⟨fault, hfault⟩ := spells_or_misspells s.toList
  · have heq := (parse_of_spells hother).symm.trans hparse
    rw [← Except.ok.inj heq, hwritten, if_neg (named_of_spells hother)]
  · exact absurd ((parse_of_misspells hfault).symm.trans hparse) (by simp)

set_option maxRecDepth 4000 in
/-- A key with bits that are left over and a number with a sign and a leading zero are read, and
the URI keeps neither. -/
theorem uris_round_trip_of_signed_number :
    parse "yhdoqba8yhdoqba8yhdoqba8yhdoqba8yhdoqba8yhdoqba8yhd3/site/blog/+042".toList =
        .ok ⟨⟨PublicKey.uniform 7, "site/blog"⟩, 42⟩ ∧
      parse (text ⟨⟨PublicKey.uniform 7, "site/blog"⟩, 42⟩).toList =
        .ok ⟨⟨PublicKey.uniform 7, "site/blog"⟩, 42⟩ :=
  ⟨rfl, uris_round_trip.2
    "yhdoqba8yhdoqba8yhdoqba8yhdoqba8yhdoqba8yhdoqba8yhd3/site/blog/+042" _ rfl⟩

end Writing

end EditionWatch.EditionUri
