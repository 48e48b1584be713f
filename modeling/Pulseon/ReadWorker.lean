import Pulseon.Viewer

/-!
# The read worker

One thread takes requests from a channel, keeps the newest of each kind and runs
them; the other submits them and applies the events that come back. `Reader` is
both with the requests and the events between them. `begun` and `applied` record
what was begun and applied, newest first.
-/

namespace Pulseon

structure TaggedRequest where
  generation : Generation
  request : ReadRequest

def TaggedRequest.tag (t : TaggedRequest) : Generation × ReadKind := (t.generation, t.request.kind)

def ReadEvent.tag (e : ReadEvent) : Generation × ReadKind := (e.generation, e.kind)

structure PendingRequests where
  discover : Option TaggedRequest := none
  overview : Option TaggedRequest := none
  detail : Option TaggedRequest := none

namespace PendingRequests

/-- The slot after a push. -/
def keep (slot : Option TaggedRequest) (tagged : TaggedRequest) : Option TaggedRequest :=
  if slot.all fun pending => pending.generation ≤ tagged.generation then some tagged else slot

def push (p : PendingRequests) (tagged : TaggedRequest) : PendingRequests :=
  match tagged.request with
  | .discover _ => { p with discover := keep p.discover tagged }
  | .overview _ => { p with overview := keep p.overview tagged }
  | .detail _ => { p with detail := keep p.detail tagged }

def takeNext (p : PendingRequests) : Option (TaggedRequest × PendingRequests) :=
  match p.discover, p.overview, p.detail with
  | some t, _, _ => some (t, { p with discover := none })
  | none, some t, _ => some (t, { p with overview := none })
  | none, none, some t => some (t, { p with detail := none })
  | none, none, none => none

def requests (p : PendingRequests) : List TaggedRequest :=
  p.discover.toList ++ p.overview.toList ++ p.detail.toList

end PendingRequests

/-! ## Execution -/

/-- What a session reads, each read with its errors. -/
structure ReadSession where
  discover : DiscoveryRequest → Except String CatalogSnapshot
  queryOverview : OverviewRequest → Except String CurveSnapshot
  queryDetail : DetailRequest → Except String CurveSnapshot

/-- The session is open, was opened for this request, or could not be opened. -/
def execute (session : Except String ReadSession) (tagged : TaggedRequest) : ReadEvent where
  generation := tagged.generation
  kind := tagged.request.kind
  result := do
    let session ← session
    match tagged.request with
    | .discover request => return .catalog (← session.discover request)
    | .overview request => return .overview (← session.queryOverview request)
    | .detail request => return .detail (← session.queryDetail request)

/-- Where the worker's loop is: waiting for a first request, emptying the
channel, about to take the next request, or executing one. -/
inductive WorkerLoop
  | waiting
  | draining (pending : PendingRequests)
  | drained (pending : PendingRequests)
  | executing (tagged : TaggedRequest) (pending : PendingRequests)

def WorkerLoop.requests : WorkerLoop → List TaggedRequest
  | .waiting => []
  | .draining pending => pending.requests
  | .drained pending => pending.requests
  | .executing tagged pending => tagged :: pending.requests

/-! ## Both threads -/

structure Reader where
  core : ViewerCore := {}
  channel : List TaggedRequest := []
  worker : WorkerLoop := .waiting
  events : List ReadEvent := []
  begun : List (Generation × ReadKind) := []
  applied : List (Generation × ReadKind) := []

inductive ReaderOp
  | change (op : UserOp)
  | submit (generation : Generation) (request : ReadRequest)
  | deliver
  | recv
  | drain
  | drained
  | take
  | execute (session : Except String ReadSession)

/-- The desktop's submit: the request goes to the worker and is begun. -/
def Reader.submit (r : Reader) (generation : Generation) (request : ReadRequest) : Reader :=
  { r with
    channel := r.channel ++ [⟨generation, request⟩]
    core := r.core.begin generation request
    begun := (generation, request.kind) :: r.begun }

/-- The first event is applied. -/
def Reader.deliver (r : Reader) : Option Reader :=
  match r.events with
  | [] => none
  | event :: events =>
    (r.core.apply event).map fun (core, outcome) =>
      { r with core := core, events := events, applied := if outcome = .applied then event.tag :: r.applied
        else r.applied }

def Reader.step (r : Reader) : ReaderOp → Option Reader
  | .change op => some { r with core := r.core.change op }
  | .submit generation request => some (r.submit generation request)
  | .deliver => r.deliver
  | .recv =>
    match r.worker, r.channel with
    | .waiting, tagged :: channel =>
      some { r with channel := channel, worker := .draining (PendingRequests.push {} tagged) }
    | _, _ => none
  | .drain =>
    match r.worker, r.channel with
    | .draining pending, tagged :: channel =>
      some { r with channel := channel, worker := .draining (pending.push tagged) }
    | _, _ => none
  | .drained =>
    match r.worker, r.channel with
    | .draining pending, [] => some { r with worker := .drained pending }
    | _, _ => none
  | .take =>
    match r.worker with
    | .drained pending =>
      match pending.takeNext with
      | none => some { r with worker := .waiting }
      | some (tagged, pending) => some { r with worker := .executing tagged pending }
    | _ => none
  | .execute session =>
    match r.worker with
    | .executing tagged pending =>
      some { r with worker := .draining pending, events := r.events ++ [execute session tagged] }
    | _ => none

/-- Generations strictly increase. -/
def Reader.Legal (r : Reader) : ReaderOp → Prop
  | .submit generation _ => ∀ b ∈ r.begun, b.1 < generation
  | _ => True

/-- Nothing is on its way: the channel, the worker's slots, its running request
and the event queue are empty. -/
structure Reader.Quiet (r : Reader) : Prop where
  channel : r.channel = []
  worker : r.worker.requests = []
  events : r.events = []

end Pulseon
