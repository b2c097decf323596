import EditionWatch.Settings.Basic

/-!
# Backoff

A background poller waits between rounds. While rounds find nothing the wait doubles up to
the longest one allowed; a round that finds something sets it back to the shortest. What is
kept is the wait that follows the next fruitless round, so the cap takes effect one wait
later than the doubling. Doubling fails if it leaves the range of spans.
-/

namespace EditionWatch.Backoff

/-- A wait and the backoff after it. -/
structure Pause where
  /-- How long to wait now. -/
  wait : Span
  /-- How long to wait after the next fruitless round. -/
  next : Span

/-- The wait after a round that found something or nothing. -/
def pause? (settings : Settings) (backoff : Span) (found : Bool) : Option Pause :=
  if found then some ⟨settings.pollInterval, settings.pollInterval⟩
  else backoff.double?.map fun doubled => ⟨backoff, doubled.shorter settings.maxPollInterval⟩

end EditionWatch.Backoff
