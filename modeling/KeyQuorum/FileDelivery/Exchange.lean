/-
  **THE ORDER OF THE LETTERS ABOUT ONE TRACKED FILE**
  (`file_delivery/exchange.rs`).

  Request, answer, file, receipt, snapshot: each needs the one before it,
  read off the hash-chained history of the sender's own copy.
-/
import KeyQuorum.FileHistory.TrackedFile

namespace KeyQuorum.Exchange

open Foundation

/-- `Step`: one step of the exchange. -/
inductive Step where
  | request
  | answer
  | file
  | receipt
  | snapshot
  deriving DecidableEq, Repr

/-- `Step::for_kind`: the step a letter of this kind is. -/
def Step.forKind : UInt8 → Option Step
  | 18 => some .request
  | 19 => some .answer
  | 15 => some .file
  | 16 => some .receipt
  | 17 => some .snapshot
  | _ => none

def Step.name : Step → String
  | .request => "request"
  | .answer => "answer"
  | .file => "tracked file"
  | .receipt => "receipt"
  | .snapshot => "history snapshot"

/-- `Visa`: how strictly a tracked file needs an accepted request. -/
inductive Visa where
  | required
  | ifRequested
  deriving DecidableEq, Repr

def requestEvents : List HistoryEventType := [.fileRequested, .changeRequested]

/-- `by`: the event's actor. -/
def isBy (event : HistoryEvent) (label : String) : Bool := event.actorLabel = some label

/-- A request of one kind that `peer` made of `owner`. -/
def asks (event : HistoryEvent) (kinds : List HistoryEventType) (owner peer : String) : Bool :=
  kinds.contains event.eventType && isBy event peer && event.details.get "to" = some owner

def answers (event : HistoryEvent) (owner requestId : String) : Bool :=
  event.eventType = .requestAnswered && isBy event owner && event.details.get "request_id" = some requestId

/-- `answered_requests`: requests with the position of the answer and its decision. -/
def answeredRequests (file : TrackedFile) (owner peer : String) : List (HistoryEvent × Nat × String) :=
  (file.events.filter fun event => asks event requestEvents owner peer).filterMap fun request => do
    let id ← request.details.get "request_id"
    let (answer, index) ← file.events.zipIdx.find? fun entry => answers entry.1 owner id
    let decision ← answer.details.get "decision"
    some (request, index, decision)

def sharedWith (event : HistoryEvent) (owner peer : String) : Bool :=
  event.eventType = .shareAttempted && event.outcome ≠ .denied && isBy event owner
    && event.details.get "to" = some peer && (event.details.get "delivery_id").isSome

def receivedFrom (event : HistoryEvent) (peer : String) : Bool :=
  event.eventType = .shareDelivered && event.details.get "from" = some peer

def acceptedBy (event : HistoryEvent) (peer : String) : Bool :=
  event.eventType = .shareDelivered && event.details.get "by" = some peer
    && event.details.get "result" = some "accepted"

def decisionOn (file : TrackedFile) (owner : String) : Option String → Option String
  | none => none
  | some id => file.events.findSome? fun event =>
    if answers event owner id then event.details.get "decision" else none

/-- `latest_file_request`: the decision on the latest file request, if there is one. -/
def latestFileRequest (file : TrackedFile) (owner peer : String) : Option (Option String) :=
  (file.events.reverse.find? fun event => asks event [.fileRequested] owner peer).map fun request =>
    decisionOn file owner (request.details.get "request_id")

def stepReached (file : TrackedFile) (owner peer : String) (visa : Visa) : Step → Bool
  | .request => true
  | .answer => !(answeredRequests file owner peer).isEmpty
  | .file =>
    if visa = .ifRequested then
      match latestFileRequest file owner peer with
      | none => true
      | some decision => decision = some "accepted"
    else (answeredRequests file owner peer).any fun (request, index, decision) =>
      request.eventType = .fileRequested && decision = "accepted"
        && (file.events.drop index).any fun event => sharedWith event owner peer
  | .receipt => file.events.any fun event => receivedFrom event peer
  | .snapshot => file.events.any fun event => receivedFrom event peer || acceptedBy event peer

def missing (peer : String) (visa : Visa) : Step → String
  | .request => ""
  | .answer => "a request from " ++ peer ++ " that you have answered"
  | .file =>
    if visa = .ifRequested then
      peer ++ " asked for this file: accept their latest request before sending it"
    else "a file request from " ++ peer ++ " that you accepted, followed by `file share` to " ++ peer
  | .receipt => "a tracked file received from " ++ peer
  | .snapshot => "a completed delivery between you and " ++ peer

def requireStep (file : TrackedFile) (owner peer : String) (step : Step) (visa : Visa) : Except Error Unit :=
  if stepReached file owner peer visa step then .ok ()
  else .error (.exchangeOutOfOrder (missing peer visa step))

end KeyQuorum.Exchange
