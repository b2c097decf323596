import EditionWatch.Key.Edition

/-!
# Content feeds

A content feed turns the news of found editions into fetches of their content. It goes for
an edition only if that is newer than all it went for before, and then gives up on the
previous one; once cancelled it goes for nothing more.
-/

namespace EditionWatch

/-- The identity of a content feed. -/
abbrev FeedId := Nat

/-- A content feed. -/
structure ContentFeed where
  /-- The name under which content is reported. -/
  listener : String
  /-- Whether failures go unreported. -/
  quiet : Bool
  /-- The newest edition it went for. -/
  latest : Option Edition
  /-- Whether the subscription was cancelled. -/
  cancelled : Bool

namespace ContentFeed

/-- A feed that went for nothing yet. -/
def fresh (listener : String) (quiet : Bool) : ContentFeed := ⟨listener, quiet, none, false⟩

/-- Whether a feed goes for an edition. -/
def wants (feed : ContentFeed) (e : Edition) : Bool := !feed.cancelled && isAbove e feed.latest

/-- The feed once it goes for an edition. -/
def pursue (feed : ContentFeed) (e : Edition) : ContentFeed := { feed with latest := some e }

/-- Whether a feed still goes for an edition it went for before. -/
def pursues (feed : ContentFeed) (e : Edition) : Bool :=
  !feed.cancelled && feed.latest = some e

end ContentFeed

end EditionWatch
