import Rollout.Duration
import Rollout.Http.Body
import Rollout.Json.Basic
import Rollout.Readiness
import Rollout.Record.Basic
import Rollout.Uri.Basic
/-!
# Backend

The reporter that asks a server about the instances of a process. It is known by the URL that the
paths of its resources start with. A query is one connection on which one request is sent; what
comes of it depends on that connection alone.
-/

namespace Rollout

structure Backend where
  host : String
  port : UInt16
  /-- The path that every resource is below, without slashes at its end. -/
  base : String
  timeout : Duration
  deriving DecidableEq, Repr

/-- What is wrong with the URL of a backend. -/
inductive UrlError where
  | malformed
  | otherScheme
  deriving DecidableEq, Repr

/-- The error as a reporter's, with the detail that a malformed URL is reported with. -/
def UrlError.report (url detail : String) : UrlError → ReporterError
  | .malformed => .invalidUrl s!"{url}: {detail}"
  | .otherScheme => .invalidUrl s!"unsupported scheme in {url}, expected http"

/-- A request without a body. -/
structure Request where
  target : Uri
  headers : List (String × String)
  deriving DecidableEq, Repr

def Request.line (r : Request) : String := "GET " ++ String.ofList r.target.text ++ " HTTP/1.1"

/-- How a connection to a backend goes. -/
inductive Connection where
  /-- Nobody listens. -/
  | refused
  /-- It is taken, and nothing is ever answered. -/
  | stalled
  /-- It is closed before the request has been read. -/
  | dropped
  /-- The request is read and these bytes are sent before it is closed. -/
  | answered (bytes : Bytes)
  deriving DecidableEq, Repr

/-- What the layers below make of an exchange with a backend, and what they report of an error. -/
inductive Exchange where
  /-- Time was over before it came to an end. -/
  | timedOut
  | unconnected (detail : String)
  | unshaken (detail : String)
  | unsendable (detail : String)
  | unanswered (detail : String)
  /-- A response came, with a body that was read to its end or not. -/
  | responded (status : Http.Status) (body : Except String Bytes)

/-- The exchange in which a server sends these bytes and closes the connection. -/
def Exchange.ofReply (detail : String) (bytes : Bytes) : Exchange :=
  match Http.Head.readFinal? (bytes.length + 1) bytes with
  | none => .unanswered detail
  | some (head, rest) =>
    match Http.Framing.ofHead? head with
    | none => .unanswered detail
    | some framing =>
      .responded head.status <|
        match framing.read? rest with
        | some body => .ok body
        | none => .error detail

namespace Backend

def defaultPort : UInt16 := 80

def trimSlashes (path : List Char) : List Char := (path.reverse.dropWhile (· = '/')).reverse

def ofUrl (url : String) (timeout : Duration) : Except UrlError Backend :=
  match Uri.parse? url with
  | none => .error .malformed
  | some (.full scheme authority target) =>
    if scheme = "http".toList then
      .ok {
        host := String.ofList authority.host
        port := authority.port?.getD defaultPort
        base := String.ofList (trimSlashes target.path)
        timeout }
    else .error .otherScheme
  | some _ => .error .otherScheme

/-- Where the backend is connected to. -/
def address (b : Backend) : String := s!"{b.host}:{b.port.toNat}"

def path (b : Backend) (guid : Guid) : String :=
  b.base ++ "/v1/processes/" ++ guid ++ "/instances"

/-- The URI of the instances of a process, in which its guid stands as it is. -/
def uri (b : Backend) (guid : Guid) : String := "http://" ++ b.address ++ b.path guid

/-- The request for the instances of a process, unless its guid makes the URI malformed. -/
def request? (b : Backend) (guid : Guid) : Option Request :=
  (Uri.parse? (b.uri guid)).map fun target =>
    ⟨target,
      [("host", b.address), ("accept", "application/json"), ("user-agent", "deployd/0.1")]⟩

/-- The body of a response with a status of success. Another status is told before the body is
looked at. -/
def bodyOf (b : Backend) (guid : Guid) : Exchange → Except ReporterError Bytes
  | .timedOut => .error (.unavailable s!"{b.uri guid} timed out after {b.timeout.text}")
  | .unconnected detail => .error (.unavailable s!"connect {b.address}: {detail}")
  | .unshaken detail => .error (.unavailable s!"handshake: {detail}")
  | .unsendable detail => .error (.invalidResponse s!"build request: {detail}")
  | .unanswered detail => .error (.unavailable s!"request: {detail}")
  | .responded status body =>
    if status.isSuccess then body.mapError fun detail => .unavailable s!"read body: {detail}"
    else .error (.unavailable s!"{b.uri guid} returned {status.text}")

/-- What the backend answers as a reporter; the detail is what is reported of a body that cannot be
decoded. -/
def answerOf (b : Backend) (guid : Guid) (detail : String) (e : Exchange) : Answer := do
  let body ← b.bodyOf guid e
  match Instances.ofBytes? body with
  | some instances => return instances
  | none => throw (.invalidResponse detail)

/-- How an exchange goes over a connection. The request is made once the connection is there. -/
def exchange (b : Backend) (guid : Guid) (detail : String) (c : Connection) : Exchange :=
  match c, b.request? guid with
  | .refused, _ => .unconnected "Connection refused (os error 111)"
  | _, none => .unsendable detail
  | .stalled, some _ => .timedOut
  | .dropped, some _ => .unanswered detail
  | .answered bytes, some _ => .ofReply detail bytes

/-- The request that a server reads on a connection. -/
def received? (b : Backend) (guid : Guid) : Connection → Option Request
  | .answered _ => b.request? guid
  | _ => none

/-- What the backend answers over a connection, with the detail that the layers below report. -/
def answer (b : Backend) (guid : Guid) (detail : String) (c : Connection) : Answer :=
  b.answerOf guid detail (b.exchange guid detail c)

end Backend
end Rollout
