import Rollout.File
import Rollout.Lock.Client
import Rollout.Tls.Pem
import Rollout.Tls.ServerName
import Rollout.Uri.Basic
/-!
# Lock service

The service is asked over a connection on which both sides show certificates. Everything that the
connection needs is checked before the first request: the files with credentials, in order, then
the endpoint. That nobody listens there shows only when a request is made.
-/

namespace Rollout

namespace LockService

/-- How long a request may take. -/
def requestTimeout : Duration := .ofSecs 5

/-- What is wrong with the means to reach the service. -/
inductive SetupError where
  | unreadable (path : String)
  | malformed (path : String)
  | noCertificate (path : String)
  | noPrivateKey (path : String)
  | invalidEndpoint (uri : String)
  | invalidName (uri : String)
  deriving DecidableEq, Repr

/-- The error as a lock client's, with the detail that the layers below report. -/
def SetupError.report (detail : String) : SetupError → LockError
  | .unreadable path => .config s!"read {path}: {detail}"
  | .malformed path => .config s!"parse {path}: {detail}"
  | .noCertificate path => .config s!"{path} contains no certificates"
  | .noPrivateKey path => .config s!"{path} contains no private key"
  | .invalidEndpoint uri => .config s!"invalid endpoint {uri}: {detail}"
  | .invalidName uri => .config s!"tls for {uri}: {detail}"

/-- A file that has to hold at least one certificate. All its sections are read. -/
def checkCertificates (path : String) (file : FileState) : Except SetupError Unit :=
  match file.bytes? with
  | none => .error (.unreadable path)
  | some bytes =>
    let items := Pem.items bytes
    if Pem.Item.malformed ∈ items then .error (.malformed path)
    else if Pem.Item.known .certificate ∈ items then .ok ()
    else .error (.noCertificate path)

/-- A file that has to hold a private key. It is read up to the first one. -/
def checkPrivateKey (path : String) (file : FileState) : Except SetupError Unit :=
  match file.bytes? with
  | none => .error (.unreadable path)
  | some bytes =>
    match Pem.search Pem.Kind.isPrivateKey (Pem.items bytes) with
    | .error _ => .error (.malformed path)
    | .ok true => .ok ()
    | .ok false => .error (.noPrivateKey path)

def checkCredentials (l : Locket) (files : String → FileState) : Except SetupError Unit := do
  checkCertificates l.caFile (files l.caFile)
  checkCertificates l.certFile (files l.certFile)
  checkPrivateKey l.keyFile (files l.keyFile)

def checkEndpoint (l : Locket) : Except SetupError Unit :=
  if Uri.parse? l.uri = none then .error (.invalidEndpoint l.uri)
  else if ServerName.isValid l.host then .ok ()
  else .error (.invalidName l.uri)

/-- All that is checked before the first request. -/
def setup (l : Locket) (files : String → FileState) : Except SetupError Unit := do
  checkCredentials l files
  checkEndpoint l

/-- What comes of a request. -/
inductive Response where
  /-- The acknowledgement. -/
  | done
  /-- A status in place of the acknowledgement. -/
  | status (code : StatusCode) (text : String)
  /-- There is no connection. -/
  | unreachable (detail : String)
  deriving DecidableEq, Repr

/-- A response without an acknowledgement is an error, even one with the status of success. -/
def Response.outcome : Response → Except LockError Unit
  | .done => .ok ()
  | .status .ok _ => .error (.ofStatus .internal "Missing response message.")
  | .status code text => .error (.ofStatus code text)
  | .unreachable detail => .error (.ofStatus .unavailable detail)

end LockService

/-- The path under which the service takes a call. -/
def LockCall.path : LockCall → String
  | .lock _ => "/models.Locket/Lock"
  | .release _ => "/models.Locket/Release"

end Rollout
