import EditionWatch.Span.Basic

/-!
# Settings

What can be set about a watch: how many temporary pollers are kept, when a stalled slot is
prefetched, how often documents are polled, and how far one round of polling goes.
-/

namespace EditionWatch

/-- The settings of a watch. -/
structure Settings where
  /-- How many temporary pollers are kept; zero counts as one. -/
  maxTemporary : UInt64
  /-- How long a slot may stay unconfirmed before its content is prefetched. -/
  prefetchDelay : Span
  /-- The delay between rounds while new editions show up. -/
  pollInterval : Span
  /-- The longest delay between rounds. -/
  maxPollInterval : Span
  /-- How many misses in a row end the walk of a round. -/
  minFailures : UInt64
  /-- How many editions the walk of a round may probe. -/
  maxProbes : UInt64
  deriving DecidableEq

namespace Settings

/-- The settings in force where nothing else is said. -/
def standard : Settings where
  maxTemporary := 64
  prefetchDelay := .ofMilliseconds 60000
  pollInterval := .ofMilliseconds 30000
  maxPollInterval := .ofMilliseconds 3600000
  minFailures := 3
  maxProbes := 32

end Settings

end EditionWatch
