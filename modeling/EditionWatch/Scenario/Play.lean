import EditionWatch.Scenario.Command

/-!
# Playing scenarios

Each command is carried out in turn. Its answer is reported together with what the owner can
see of the watch afterwards, how the tally changed, and what happened meanwhile.
-/

namespace EditionWatch.Scenario

/-- A play after a command, and the answer to it. -/
structure Step where
  /-- The play. -/
  play : Play
  /-- The answer. -/
  answer : Answer

namespace Play

/-- The play with another watch. -/
def withWatch (p : Play) (w : Watch) : Play := { p with watch := w }

/-- A command that changes the watch and has no answer. -/
def change (p : Play) (w : Watch) : Step := ⟨p.withWatch w, .nothing⟩

/-- A command that changes nothing. -/
def tell (p : Play) (answer : Answer) : Step := ⟨p, answer⟩

/-- The poller that the owner holds under a name. -/
def heldPoller? (p : Play) (name : String) : Option PollerId :=
  (p.watch.handles.find? fun handle => handle.1 = name).map Prod.snd

/-- Looks at a held poller. -/
def inspectPoller (p : Play) (name : String) : Answer :=
  match (p.heldPoller? name).bind fun id => p.watch.pollers[id]? with
  | none => .unknownName
  | some poller => .poller poller.key (p.watch.isCancelled poller) poller.rounds

/-- Waits for the rounds of a held poller. -/
def awaitRounds (p : Play) (name : String) (count timeout : Nat) : Step :=
  match p.heldPoller? name with
  | none => p.tell .unknownName
  | some id =>
    let w := p.watch.awaitRounds id count timeout
    ⟨p.withWatch w, match w.roundsReached id count with
      | none => .nothing
      | some b => .flag b⟩

/-- Looks at a held subscription. -/
def inspectSubscription (p : Play) (name : String) : Answer :=
  match p.contents.get? name with
  | some s =>
    .subscription s.inner.key s.inner.background
      (p.watch.feeds[s.feed]?.bind ContentFeed.latest)
  | none =>
    match p.subscriptions.get? name with
    | some s => .subscription s.key s.background none
    | none => .unknownName

/-- Compares two held subscriptions. -/
def compare (p : Play) (first second : String) : Answer :=
  match p.subscriptions.get? first, p.subscriptions.get? second with
  | some a, some b => .flag (a = b)
  | _, _ => .unknownName

/-- The diagnostic form of a held subscription, with the callback's identity left open. -/
def debug (p : Play) (name : String) : Answer :=
  match p.subscriptions.get? name with
  | some s => .text (s.debugText "<addr>")
  | none => .unknownName

/-- Subscribes a listener. -/
def subscribe (p : Play) (key : DocumentKey) (listener name : String)
    (options : Watch.SubscribeOptions) : Step :=
  match p.watch.subscribe key listener options with
  | .error cause => p.tell (.refused cause)
  | .ok result =>
    ⟨{ p with
        watch := result.watch
        subscriptions := p.subscriptions.insert name result.subscription },
      .subscribed result.subscription.background⟩

/-- Subscribes to content. -/
def subscribeContent (p : Play) (key : DocumentKey) (listener name : String) (quiet : Bool)
    (options : Watch.SubscribeOptions) : Step :=
  match p.watch.subscribeContent key listener quiet options with
  | .error cause => p.tell (.refused cause)
  | .ok result =>
    ⟨{ p with
        watch := result.watch
        contents := p.contents.insert name result.subscription },
      .subscribed result.subscription.inner.background⟩

/-- Removes a held subscription. -/
def unsubscribe (p : Play) (name : String) : Step :=
  match p.subscriptions.get? name with
  | none => p.tell .unknownName
  | some s => p.change (p.watch.unsubscribe s)

/-- Removes a held subscription to content, or only the subscription of its feed. -/
def unsubscribeContent (p : Play) (name : String) (innerOnly : Bool) : Step :=
  match p.contents.get? name with
  | none => p.tell .unknownName
  | some s =>
    p.change (if innerOnly then p.watch.unsubscribe s.inner else p.watch.unsubscribeContent s)

/-- Looks a document up. -/
def resolve (p : Play) (uri : EditionUri) (prefetch : Bool) (name : String) : Step :=
  let result := p.watch.resolve uri prefetch
  p.change (result.watch.bind name result.poller)

/-- Asks whether an edition exists. -/
def probe (p : Play) (uri : EditionUri) (good : Bool) (timeout : Nat) : Step :=
  let w := p.watch.awaitProbe uri good timeout
  ⟨p.withWatch w, match w.probed with
    | none => .nothing
    | some verdict => .text verdict.text⟩

/-- Carries out a command that needs the watch, if the owner still has it. -/
def needing (p : Play) (step : Step) : Step :=
  if p.watch.held then step else p.tell .released

/-- Carries out a command. -/
def run (p : Play) : Command → Step
  | .advance span => p.change (p.watch.advance span)
  | .setRule rule =>
    let w := p.watch
    p.change { w with network := { w.network with rules := rule :: w.network.rules } }
  | .setLatency block content =>
    let w := p.watch
    p.change
      { w with network := { w.network with blockLatency := block, contentLatency := content } }
  | .inspectPoller name => p.tell (p.inspectPoller name)
  | .awaitRounds name count timeout => p.awaitRounds name count timeout
  | .inspectSubscription name => p.tell (p.inspectSubscription name)
  | .compare first second => p.tell (p.compare first second)
  | .debug name => p.tell (p.debug name)
  | .refuse kinds =>
    let w := p.watch
    p.change { w with refused := kinds }
  | .release => p.change p.watch.release
  | .countSubmissions => p.tell (.count p.watch.submissions)
  | .subscribe key listener name options => p.needing (p.subscribe key listener name options)
  | .unsubscribe name => p.needing (p.unsubscribe name)
  | .subscribeContent key listener name quiet options =>
    p.needing (p.subscribeContent key listener name quiet options)
  | .unsubscribeContent name innerOnly => p.needing (p.unsubscribeContent name innerOnly)
  | .noteSlot uri =>
    p.needing ⟨p.withWatch (p.watch.noteSlot uri), .flag (p.watch.records.raisesSlot uri)⟩
  | .noteGood uri =>
    p.needing ⟨p.withWatch (p.watch.noteGood uri), .flag (p.watch.records.raisesGood uri)⟩
  | .noteFetched uri metadata => p.needing (p.change (p.watch.noteFetched uri metadata))
  | .resolve uri prefetch name => p.needing (p.resolve uri prefetch name)
  | .probe uri good timeout => p.needing (p.probe uri good timeout)
  | .hint uri => p.needing (p.change (p.watch.hint uri))
  | .check uri listener => p.needing (p.change (p.watch.check uri listener))
  | .shutdown => p.needing (p.change p.watch.shutdown)
  | .showSettings => p.needing (p.tell (.settings p.watch.settings))

end Play

/-- What the owner of a watch can see of it. -/
structure View where
  /-- The newest editions of each document of the scenario. -/
  frontiers : List Frontier
  /-- How many documents have background pollers. -/
  backgroundPollers : Nat
  /-- How many documents have temporary pollers. -/
  temporaryPollers : Nat
  /-- How many subscribers there are. -/
  subscriptions : Nat
  /-- Of how many documents something is known. -/
  documents : Nat

/-- What the owner can see. -/
def View.of (keys : List DocumentKey) (r : Records) : View where
  frontiers := keys.map r.frontier
  backgroundPollers := r.pool.size
  temporaryPollers := r.cache.byUse.size
  subscriptions := r.registry.count
  documents := r.frontiers.size

/-- The report on a command. -/
structure Report where
  /-- The answer. -/
  answer : Answer
  /-- What the owner sees of the watch, while it is held. -/
  view : Option View
  /-- How many fetches have not been answered. -/
  inFlight : Nat
  /-- The counters that rose, with the amount. -/
  counted : List (String × Nat)
  /-- What happened since the last report. -/
  events : List Event

/-- Plays commands in turn; `seen` events have been reported before, and `earlier` is the
tally of the last report. -/
def reports (keys : List DocumentKey) (seen : Nat) (earlier : Tally) :
    Play → List Command → List Report
  | _, [] => []
  | p, command :: rest =>
    let step := p.run command
    let w := step.play.watch
    let report : Report :=
      { answer := step.answer
        view := if w.held then some (.of keys w.records) else none
        inFlight := w.inFlight
        counted := w.records.tally.since earlier
        events := (w.journal.extract seen w.journal.size).toList }
    report :: reports keys w.journal.size w.records.tally step.play rest

/-- Plays a whole scenario. -/
def play (keys : List DocumentKey) (settings : Settings) (listeners : List Listener)
    (commands : List Command) : List Report :=
  reports keys 0 {} (.initial settings listeners) commands

end EditionWatch.Scenario
