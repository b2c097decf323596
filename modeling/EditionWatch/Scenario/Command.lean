import EditionWatch.Watch.Clock

/-!
# Scenario commands

A scenario is played on a watch by its owner: calls on the watch, changes of the network,
time passing, and looks at what the owner holds. Subscriptions and pollers are held under
names of the owner's choice.
-/

namespace EditionWatch.Scenario

/-- A command of the owner. -/
inductive Command where
  /-- Let so many nanoseconds pass. -/
  | advance (span : Nat)
  /-- Set how a range of editions behaves. -/
  | setRule (rule : NetworkRule)
  /-- Set how long fetches take, in nanoseconds. -/
  | setLatency (block content : Nat)
  /-- Look at a held poller. -/
  | inspectPoller (name : String)
  /-- Wait for the rounds of a held poller, up to so many nanoseconds. -/
  | awaitRounds (name : String) (count timeout : Nat)
  /-- Look at a held subscription of either kind. -/
  | inspectSubscription (name : String)
  /-- Compare two held subscriptions. -/
  | compare (first second : String)
  /-- Ask for the diagnostic form of a held subscription. -/
  | debug (name : String)
  /-- Have the executor refuse exactly these kinds of work. -/
  | refuse (kinds : List JobKind)
  /-- Give up the watch. -/
  | release
  /-- Ask how much work the executor has taken. -/
  | countSubmissions
  /-- Subscribe a listener and hold the subscription. -/
  | subscribe (key : DocumentKey) (listener name : String) (options : Watch.SubscribeOptions)
  /-- Remove a held subscription. -/
  | unsubscribe (name : String)
  /-- Subscribe to content and hold the subscription. -/
  | subscribeContent (key : DocumentKey) (listener name : String) (quiet : Bool)
      (options : Watch.SubscribeOptions)
  /-- Remove a held subscription to content, or only the subscription of its feed. -/
  | unsubscribeContent (name : String) (innerOnly : Bool)
  /-- Take note that an edition exists. -/
  | noteSlot (uri : EditionUri)
  /-- Take note that the content of an edition was fetched. -/
  | noteGood (uri : EditionUri)
  /-- Take note of an edition that was fetched elsewhere. -/
  | noteFetched (uri : EditionUri) (metadata : Bool)
  /-- Look a document up and hold the poller that serves the lookup. -/
  | resolve (uri : EditionUri) (prefetch : Bool) (name : String)
  /-- Ask whether an edition exists and wait for the answer, up to so many nanoseconds. -/
  | probe (uri : EditionUri) (good : Bool) (timeout : Nat)
  /-- Pass on a hint. -/
  | hint (uri : EditionUri)
  /-- Have a hint checked for a listener. -/
  | check (uri : EditionUri) (listener : String)
  /-- Stop all background work. -/
  | shutdown
  /-- Ask for the settings. -/
  | showSettings

/-- The answer to a command. -/
inductive Answer where
  /-- There is nothing to tell. -/
  | nothing
  /-- Yes or no. -/
  | flag (b : Bool)
  /-- A number. -/
  | count (n : Nat)
  /-- A text. -/
  | text (s : String)
  /-- A poller: its document, whether it is cancelled, and its rounds. -/
  | poller (key : DocumentKey) (cancelled : Bool) (rounds : Nat)
  /-- A subscription: its document, whether it polls in the background, and the newest
  edition its feed went for. -/
  | subscription (key : DocumentKey) (background : Bool) (latest : Option Edition)
  /-- A new subscription: whether it polls in the background. -/
  | subscribed (background : Bool)
  /-- The settings. -/
  | settings (s : Settings)
  /-- The name stands for nothing. -/
  | unknownName
  /-- The watch has been given up. -/
  | released
  /-- The subscription was refused. -/
  | refused (cause : Watch.SubscribeFault)

/-- A scenario being played. -/
structure Play where
  /-- The watch. -/
  watch : Watch
  /-- The held subscriptions. -/
  subscriptions : KeyMap String Subscription
  /-- The held subscriptions to content. -/
  contents : KeyMap String Watch.ContentSubscription

/-- The play before its first command. -/
def Play.initial (settings : Settings) (listeners : List Listener) : Play :=
  ⟨.initial settings listeners, .empty, .empty⟩

end EditionWatch.Scenario
