import EditionWatch.Key.Uri

/-!
# Fetches

An edition is fetched either by its first block, which shows whether it exists, or with its
whole content. A fetch brings data or ends in one of three faults; data that was found but
could not be delivered still shows that the edition exists, and nothing but a clear "not
found" shows that it does not.
-/

namespace EditionWatch

/-- What is fetched of an edition. -/
inductive FetchKind where
  /-- Its first block. -/
  | block
  /-- Its whole content. -/
  | content
  deriving DecidableEq, Repr

/-- The ways in which a fetch fails. -/
inductive FetchFault where
  /-- Data was found and then lost. -/
  | dataFound
  /-- There is no data. -/
  | notFound
  /-- Anything else. -/
  | other
  deriving DecidableEq, Repr

/-- The sentence that names the fault. -/
def FetchFault.message : FetchFault → String
  | .dataFound => "data found, but the request failed later"
  | .notFound => "data not found"
  | .other => "fetch failed"

/-- How a fetch ends. -/
inductive Reply where
  /-- With the data. -/
  | data
  /-- Without it. -/
  | fault (cause : FetchFault)
  deriving DecidableEq, Repr

/-- What the end of a fetch tells about the existence of an edition. -/
inductive Verdict where
  /-- The edition exists. -/
  | present
  /-- The edition does not exist. -/
  | absent
  /-- Nothing can be said. -/
  | indeterminate
  deriving DecidableEq, Repr

/-- The verdict on a reply. -/
def Reply.verdict : Reply → Verdict
  | .data => .present
  | .fault .dataFound => .present
  | .fault .notFound => .absent
  | .fault .other => .indeterminate

/-- The name of a verdict. -/
def Verdict.text : Verdict → String
  | .present => "Exists"
  | .absent => "Absent"
  | .indeterminate => "Indeterminate"

/-- What is reported to someone who asked whether an edition exists. -/
inductive HintResult where
  /-- It exists. -/
  | present
  /-- It was not found. -/
  | notFound (cause : FetchFault)
  /-- The question could not be answered. -/
  | failed (cause : FetchFault)
  deriving DecidableEq, Repr

/-- The report on a reply. -/
def Reply.hintResult : Reply → HintResult
  | .data => .present
  | .fault .dataFound => .present
  | .fault .notFound => .notFound .notFound
  | .fault .other => .failed .other

/-- Whether the edition was reported to exist. -/
def HintResult.isPresent : HintResult → Bool
  | .present => true
  | _ => false

/-- The name of a report. -/
def HintResult.text : HintResult → String
  | .present => "Exists"
  | .notFound _ => "NotFound"
  | .failed _ => "Failed"

/-- The fault behind a report. -/
def HintResult.cause? : HintResult → Option FetchFault
  | .present => none
  | .notFound cause => some cause
  | .failed cause => some cause

/-- A fetch of one edition. -/
structure Request where
  /-- What is fetched. -/
  kind : FetchKind
  /-- The edition. -/
  uri : EditionUri
  deriving DecidableEq

end EditionWatch
