import WarmPool.Duration
import WarmPool.Http.Request

/-!
# Exchanges

What one side of a connection does: it sends requests, goes on with whatever comes back, and pauses
now and then. `Exchange.against` answers the requests from a script.
-/

namespace WarmPool.Http

/-- Requests, each with what is done about its response; none stands for a lost connection. -/
inductive Exchange (α : Type) where
  | done (value : α)
  | send (request : Request) (next : Option Response → Exchange α)
  | pause (delay : Duration) (next : Exchange α)

namespace Exchange

/-- Goes on with the value of an exchange. -/
def bind : Exchange α → (α → Exchange β) → Exchange β
  | done a, f => f a
  | send request next, f => send request fun response => (next response).bind f
  | pause delay next, f => pause delay (next.bind f)

instance : Monad Exchange where
  pure := done
  bind := bind

/-- The value of an exchange that ends without a request or a pause. -/
def immediate? : Exchange α → Option α
  | done a => some a
  | send _ _ | pause _ _ => none

end Exchange

/-! ### Scripts -/

/-- An answer laid down in advance. -/
inductive Cue where
  | respond (response : Response)
  /-- The body of the request comes back. -/
  | echo
  /-- The connection is lost. -/
  | drop
deriving DecidableEq, Repr

/-- The answer that a cue gives to a request. -/
def Cue.answer (request : Request) : Cue → Option Response
  | respond response => some response
  | echo => some ⟨200, ((request.body.map Prod.snd).map Json.compact).getD ""⟩
  | drop => none

/-- The body of the answer when the script has ended. -/
def exhaustedBody : Json :=
  .object
    [("kind", .string "Status"), ("status", .string "Failure"),
      ("message", .string "script exhausted"), ("reason", .string "InternalError"),
      ("code", Json.ofNat 500)]

/-- What came of an exchange: its value, the requests it sent and the rest of the script. -/
structure Played (α : Type) where
  value : α
  requests : List Request
  rest : List Cue

/-- Runs an exchange against a script. -/
def Exchange.against : (script : List Cue) → Exchange α → Played α
  | script, .done a => ⟨a, [], script⟩
  | script, .pause _ next => next.against script
  | script, .send request next =>
    let (response, rest) : Option Response × List Cue :=
      match script with
      | [] => (some ⟨500, exhaustedBody.compact⟩, [])
      | cue :: rest => (cue.answer request, rest)
    let played := (next response).against rest
    { played with requests := request :: played.requests }

end WarmPool.Http
