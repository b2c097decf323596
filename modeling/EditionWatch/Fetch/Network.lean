import EditionWatch.Fetch.Basic

/-!
# A network with set answers

Fetches are answered from rules that say how ranges of editions behave; the latest rule for
an edition counts, and without a rule an edition is absent. A rule may further say that
fetching an edition takes the watch away from its owner; this stays so under later rules.
Each kind of fetch has a latency of its own.
-/

namespace EditionWatch

/-- A point in time, in nanoseconds from the start. -/
abbrev Instant := Nat

/-- A rule for a range of editions of one document. -/
structure NetworkRule where
  /-- The document. -/
  key : DocumentKey
  /-- The first edition of the range. -/
  first : Edition
  /-- The last edition of the range. -/
  last : Edition
  /-- How fetching a block ends; nothing if it never does. -/
  block : Option Reply
  /-- How fetching the content ends; nothing if it never does. -/
  content : Option Reply
  /-- The kinds of fetches that release the watch when they are issued. -/
  releases : List FetchKind

/-- Whether a rule speaks about an edition. -/
def NetworkRule.covers (rule : NetworkRule) (uri : EditionUri) : Bool :=
  rule.key = uri.key && rule.first ≤ uri.edition && uri.edition ≤ rule.last

/-- What a rule says about the end of a fetch. -/
def NetworkRule.reply (rule : NetworkRule) : FetchKind → Option Reply
  | .block => rule.block
  | .content => rule.content

/-- A network. -/
structure Network where
  /-- The rules, latest first. -/
  rules : List NetworkRule
  /-- How long fetching a block takes, in nanoseconds. -/
  blockLatency : Nat
  /-- How long fetching content takes, in nanoseconds. -/
  contentLatency : Nat

/-- A fetch that has been issued and not been answered. -/
structure Flight where
  /-- The fetch. -/
  request : Request
  /-- How it is going to end; nothing if it never does. -/
  reply : Option Reply
  /-- When it ends. -/
  due : Instant

namespace Network

/-- The network in which no edition exists and every answer comes at once. -/
def quiet : Network := ⟨[], 0, 0⟩

/-- How a fetch ends. -/
def reply (net : Network) (request : Request) : Option Reply :=
  match net.rules.find? (·.covers request.uri) with
  | none => some (.fault .notFound)
  | some rule => rule.reply request.kind

/-- How long a fetch takes. -/
def latency (net : Network) : FetchKind → Nat
  | .block => net.blockLatency
  | .content => net.contentLatency

/-- Whether issuing a fetch releases the watch. -/
def releases (net : Network) (request : Request) : Bool :=
  net.rules.any fun rule => rule.covers request.uri && rule.releases.contains request.kind

/-- A fetch issued at some time. -/
def issue (net : Network) (now : Instant) (request : Request) : Flight :=
  ⟨request, net.reply request, now + net.latency request.kind⟩

end Network

/-- The answer of a fetch, once it is there. -/
def Flight.answer (flight : Flight) (now : Instant) : Option Reply :=
  if flight.due ≤ now then flight.reply else none

/-- The time at which a fetch is going to be answered, if ever. -/
def Flight.wake (flight : Flight) : Option Instant := flight.reply.map fun _ => flight.due

end EditionWatch
