import EditionWatch.Records.Registry

/-!
# The delivery queue

Deliveries wait in the order in which they came about. They are handed out by one job at a
time: whoever puts deliveries in asks for such a job only if none is believed to be at work,
and the job works on until it finds the queue empty.
-/

namespace EditionWatch

/-- The deliveries that wait. -/
structure DeliveryQueue where
  /-- The waiting deliveries, first come first. -/
  pending : List Delivery
  /-- Whether a job is believed to be handing them out. -/
  draining : Bool
  deriving DecidableEq

namespace DeliveryQueue

/-- No delivery waits and no job is at work. -/
def empty : DeliveryQueue := ⟨[], false⟩

/-- Puts deliveries at the end. -/
def enqueue (q : DeliveryQueue) (deliveries : List Delivery) : DeliveryQueue :=
  { q with pending := q.pending ++ deliveries }

/-- Whether a job has to be asked for. -/
def needsJob (q : DeliveryQueue) : Bool := !q.draining && !q.pending.isEmpty

/-- The queue once a job has been asked for. -/
def claim (q : DeliveryQueue) : DeliveryQueue := { q with draining := true }

/-- The queue once the job has found it empty. -/
def release (q : DeliveryQueue) : DeliveryQueue := { q with draining := false }

/-- The first delivery and the queue without it. -/
def pop? (q : DeliveryQueue) : Option (Delivery × DeliveryQueue) :=
  match q.pending with
  | [] => none
  | d :: rest => some (d, { q with pending := rest })

end DeliveryQueue

end EditionWatch
