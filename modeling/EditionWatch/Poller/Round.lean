import EditionWatch.Fetch.Basic
import EditionWatch.Records.Frontier
import EditionWatch.Settings.Basic

/-!
# Polling rounds

A round first probes the editions it was hinted at, newest first, down to the first one that
exists; hints at or below the slot are passed over. It then walks forward from the first
unknown edition, but not from below the edition the poller started at, until so many probes
in a row have missed or so many have been made. If anything was found that was new, it ends
by fetching the content of the slot, unless that is known good already.

A round is data: where it stands, and what has been found. What it needs from outside, the
frontier of its document and the replies to its fetches, is handed to it step by step.
-/

namespace EditionWatch

/-- Where a polling round stands. -/
inductive Round where
  /-- It is about to look which hints are of interest. -/
  | opening (hints : List Edition)
  /-- It is about to turn to the next of these hints. -/
  | hinting (hints : List Edition)
  /-- It waits for the block of a hinted edition; the others come later. -/
  | askingHint (edition : Edition) (hints : List Edition)
  /-- It is done with the hints and about to look where to walk from. -/
  | aligning (found : Bool)
  /-- It is about to probe an edition, after so many misses in a row and so many probes. -/
  | walking (found : Bool) (edition : Edition) (misses probes : Nat)
  /-- It waits for the block of an edition of the walk. -/
  | asking (found : Bool) (edition : Edition) (misses probes : Nat)
  /-- The walk is over with something found; it is about to look at the slot. -/
  | confirming
  /-- It waits for the content of the slot. -/
  | fetching (slot : Edition)
  /-- It is over. -/
  | over (found : Bool)
  deriving DecidableEq

namespace Round

/-- Puts an edition into a list that is sorted from the newest down, unless it is there. -/
def addHint (e : Edition) : List Edition → List Edition
  | [] => [e]
  | hint :: rest =>
    if hint < e then e :: hint :: rest
    else if hint = e then hint :: rest
    else hint :: addHint e rest

/-- The round after looking at which hints are not below the first unknown edition. -/
def selectHints (frontier : Frontier) (hints : List Edition) : Round :=
  .hinting (hints.filter fun e => frontier.nextUnknown ≤ e)

/-- The round after turning to a hint; it is passed over if it has become known. -/
def tryHint (frontier : Frontier) (e : Edition) (hints : List Edition) : Round :=
  if e < frontier.nextUnknown then .hinting hints else .askingHint e hints

/-- The round after looking where to walk from. -/
def align (frontier : Frontier) (origin : Edition) (found : Bool) : Round :=
  .walking found (max frontier.nextUnknown origin) 0 0

/-- Whether a walk goes on. -/
def goesOn (settings : Settings) (misses probes : Nat) : Bool :=
  misses < settings.minFailures.toNat && probes < settings.maxProbes.toNat

/-- The round after the walk has looked whether to go on. -/
def proceed (settings : Settings) (found : Bool) (e : Edition) (misses probes : Nat) : Round :=
  if goesOn settings misses probes then .asking found e misses probes
  else if found then .confirming
  else .over false

/-- The round after a probe of the walk that missed. -/
def miss (found : Bool) (e : Edition) (misses probes : Nat) : Round :=
  .walking found (Edition.next e) (misses + 1) (probes + 1)

/-- The round after a probe of the walk that hit; `raised` tells whether the slot rose. -/
def hit (found raised : Bool) (e : Edition) (probes : Nat) : Round :=
  .walking (found || raised) (Edition.next e) 0 (probes + 1)

/-- The round after looking at the slot: it is fetched if it is not known good. -/
def confirm (frontier : Frontier) : Round :=
  match frontier.slot with
  | none => .over true
  | some slot => if isAbove slot frontier.good then .fetching slot else .over true

/-- The fetch that a round waits for. -/
def request? (key : DocumentKey) : Round → Option Request
  | .askingHint e _ => some ⟨.block, ⟨key, e⟩⟩
  | .asking _ e _ _ => some ⟨.block, ⟨key, e⟩⟩
  | .fetching slot => some ⟨.content, ⟨key, slot⟩⟩
  | _ => none

end Round

end EditionWatch
