import Konnectivity.Lib.GoMap
import Konnectivity.Storage.Backend

/-!
# Admitting an agent

`ProxyServer.connect` up to the point where the agent's backend is given to
the managers: the agent's ID and identifiers are read from the metadata of
its stream, and with authentication enabled the token in that metadata is
reviewed by the Kubernetes API server. The review is a function of the
options, and `header.GenAgentIdentifiers` one of the identifiers' text;
nothing is assumed of either.

Texts are cut up as lists of characters, as in `Storage.Host`. An error is a
value of its own with the arguments of its message, and `text` is the message;
`quote` stands for what `%q` prints.
-/

namespace Konnectivity

open Lib

/-! ## Metadata -/

/-- `metadata.MD`. -/
abbrev MD := GoMap String (List String)

/-- `strings.ToLower` on an ASCII text. -/
def toLower (s : String) : String := String.ofList (s.toList.map Char.toLower)

/-- What HTTP/2 lets through as a header name, as far as letters go: ASCII and
no capitals. -/
def isWireName (k : String) : Bool :=
  k.toList.all fun c => c.val < 128 && !c.isUpper

/-- The metadata a transport attaches to a stream's context. -/
structure Incoming where
  md : MD
  wire : ∀ k ∈ md.keys, isWireName k = true

/-- `md[key] = append(md[key], value)`. -/
def MD.append (md : MD) (key value : String) : MD :=
  md.insert key ((md.lookup key).getD [] ++ [value])

/-- `metadata.Pairs`. -/
def MD.pairs (kv : List (String × String)) : MD :=
  kv.foldl (fun md p => md.append (toLower p.1) p.2) ∅

/-- `MD.Get`: the key is looked up in lower case. -/
def MD.get (md : MD) (k : String) : List String := (md.lookup (toLower k)).getD []

/-- `metadata.FromIncomingContext`: a copy with every key in lower case. -/
def fromIncomingContext (ctx : Option Incoming) : Option MD :=
  ctx.map fun i => i.md.entries.foldl (fun out e => out.insert (toLower e.1) e.2) ∅

namespace Header

def serverCount : String := "serverCount"

def serverID : String := "serverID"

def agentID : String := "agentID"

def agentIdentifiers : String := "agentIdentifiers"

def authenticationTokenContextKey : String := "Authorization"

def authenticationTokenContextSchemePrefix : String := "Bearer "

end Header

/-! ## The token -/

structure TokenReviewSpec where
  token : String
  audiences : List String
  deriving DecidableEq, Repr

/-- `TokenReviewStatus`; of the user only the name is read. -/
structure TokenReviewStatus where
  authenticated : Bool
  username : String
  error : String
  deriving DecidableEq, Repr

structure AgentTokenAuthenticationOptions where
  enabled : Bool
  agentNamespace : String
  agentServiceAccount : String
  authenticationAudience : String
  /-- `TokenReviews().Create`: the API error or the status of the review. -/
  createTokenReview : TokenReviewSpec → Except String TokenReviewStatus

/-- The errors of `validateAuthToken`. -/
inductive TokenError where
  | review (err : String)
  | status (err : String)
  | notAuthenticated
  | usernameFormat
  | notServiceAccount
  | namespaceMismatch (ns expected : String)
  | serviceAccountMismatch (sa expected : String)
  deriving DecidableEq, Repr

def TokenError.text (quote : String → String) : TokenError → String
  | .review err => "Failed to authenticate request. err:" ++ err
  | .status err => "lookup failed: " ++ err
  | .notAuthenticated => "lookup failed: service account jwt not valid"
  | .usernameFormat => "lookup failed: unexpected username format"
  | .notServiceAccount => "lookup failed: username returned is not a service account"
  | .namespaceMismatch ns expected =>
      "lookup failed: incoming request from " ++ quote ns ++ " namespace. Expected "
        ++ quote expected
  | .serviceAccountMismatch sa expected =>
      "lookup failed: incoming request from " ++ quote sa ++ " service account. Expected "
        ++ quote expected

/-- `strings.Split(s, ":")`. -/
def splitColon (s : String) : List String := (s.toList.splitOn ':').map String.ofList

/-- The checks on the name a review returned. The name has the form
`system:serviceaccount:(NAMESPACE):(SERVICEACCOUNT)`. -/
def AgentTokenAuthenticationOptions.checkUsername (o : AgentTokenAuthenticationOptions)
    (username : String) : Except TokenError String :=
  match splitColon username with
  | [system, serviceaccount, ns, sa] =>
      if system ≠ "system" ∨ serviceaccount ≠ "serviceaccount" then .error .notServiceAccount
      else if o.agentNamespace ≠ ns then .error (.namespaceMismatch ns o.agentNamespace)
      else if o.agentServiceAccount ≠ sa then
        .error (.serviceAccountMismatch sa o.agentServiceAccount)
      else .ok username
  | _ => .error .usernameFormat

/-- `validateAuthToken`. -/
def AgentTokenAuthenticationOptions.validateAuthToken (o : AgentTokenAuthenticationOptions)
    (token : String) : Except TokenError String :=
  match o.createTokenReview ⟨token, [o.authenticationAudience]⟩ with
  | .error err => .error (.review err)
  | .ok r =>
      if r.error ≠ "" then .error (.status r.error)
      else if !r.authenticated then .error .notAuthenticated
      else o.checkUsername r.username

/-- The errors of `authenticateAgentViaToken`. -/
inductive AuthError where
  | noMetadata
  | noToken
  | tooManyTokens (n : Nat)
  | noPrefix
  | invalid (err : TokenError)
  deriving DecidableEq, Repr

def AuthError.text (quote : String → String) : AuthError → String
  | .noMetadata => "Failed to retrieve metadata from context"
  | .noToken => "Authentication context was not found in metadata"
  | .tooManyTokens n => "too many (" ++ toString n ++ ") tokens are received"
  | .noPrefix =>
      "received token does not have " ++ quote Header.authenticationTokenContextSchemePrefix
        ++ " prefix"
  | .invalid err => "Failed to validate authentication token, err:" ++ err.text quote

/-- `strings.HasPrefix` and, where it holds, `strings.TrimPrefix`. -/
def trimPrefix? (pre s : String) : Option String :=
  if pre.toList.isPrefixOf s.toList then some (String.ofList (s.toList.drop pre.length)) else none

/-- `authenticateAgentViaToken`. -/
def AgentTokenAuthenticationOptions.authenticateAgentViaToken
    (o : AgentTokenAuthenticationOptions) (ctx : Option Incoming) : Except AuthError Unit :=
  match fromIncomingContext ctx with
  | none => .error .noMetadata
  | some md =>
      match md.get Header.authenticationTokenContextKey with
      | [] => .error .noToken
      | [v] =>
          match trimPrefix? Header.authenticationTokenContextSchemePrefix v with
          | none => .error .noPrefix
          | some token =>
              match o.validateAuthToken token with
              | .error err => .error (.invalid err)
              | .ok _ => .ok ()
      | vs => .error (.tooManyTokens vs.length)

/-! ## The stream -/

/-- The errors of `NewBackend`. -/
inductive BackendError where
  | noContext
  | agentIDs (got : List String)
  | noMetadata
  | agentIdentifiers (got : List String)
  | identifiers (err : String)
  deriving DecidableEq, Repr

/-- `%v` of a `[]string`. -/
def printStrings (vs : List String) : String := "[" ++ " ".intercalate vs ++ "]"

def BackendError.text : BackendError → String
  | .noContext => "failed to get context"
  | .agentIDs got => "expected one agent ID in the context, got " ++ printStrings got
  | .noMetadata => "failed to get metadata from context"
  | .agentIdentifiers got =>
      "expected at most one set of agent identifiers in the context, got " ++ printStrings got
  | .identifiers err => err

/-- What `connect` uses of an agent's stream. -/
structure AgentStream where
  incoming : Option Incoming
  /-- The error of `SendHeader`. -/
  sendHeader : MD → Option String

/-- What `connect` reads of the `ProxyServer`. -/
structure ConnectConfig where
  serverID : String
  serverCount : Int
  agentAuthenticationOptions : AgentTokenAuthenticationOptions
  /-- `header.GenAgentIdentifiers`. -/
  genAgentIdentifiers : String → Except String Identifiers

/-- `getAgentID`. -/
def getAgentID (stream : AgentStream) : Except BackendError AgentID :=
  match fromIncomingContext stream.incoming with
  | none => .error .noContext
  | some md =>
      match md.get Header.agentID with
      | [id] => .ok id
      | got => .error (.agentIDs got)

/-- `getAgentIdentifiers`. -/
def ConnectConfig.getAgentIdentifiers (s : ConnectConfig) (stream : AgentStream) :
    Except BackendError Identifiers :=
  match fromIncomingContext stream.incoming with
  | none => .error .noMetadata
  | some md =>
      match md.get Header.agentIdentifiers with
      | [] => .ok {}
      | [addrs] => (s.genAgentIdentifiers addrs).mapError .identifiers
      | got => .error (.agentIdentifiers got)

/-- `NewBackend`. -/
def ConnectConfig.newBackend (s : ConnectConfig) (stream : AgentStream) :
    Except BackendError BackendInfo := do
  let id ← getAgentID stream
  let idents ← s.getAgentIdentifiers stream
  return ⟨id, idents⟩

/-- What `connect` does before it serves the stream. -/
inductive ConnectStep where
  | sendHeader (h : MD)
  | addBackend (b : BackendInfo)

inductive ConnectError where
  | backend (err : BackendError)
  | auth (err : AuthError)
  | header (err : String)
  deriving DecidableEq, Repr

/-- The header that tells the agent which server it reached. -/
def ConnectConfig.header (s : ConnectConfig) : MD :=
  .pairs [(Header.serverID, s.serverID), (Header.serverCount, toString s.serverCount)]

/-- `connect` up to `addBackend`: its steps, and the error it returns early
with. -/
def ConnectConfig.connect (s : ConnectConfig) (stream : AgentStream) :
    List ConnectStep × Option ConnectError :=
  match s.newBackend stream with
  | .error err => ([], some (.backend err))
  | .ok backend =>
      let auth :=
        if s.agentAuthenticationOptions.enabled then
          s.agentAuthenticationOptions.authenticateAgentViaToken stream.incoming
        else .ok ()
      match auth with
      | .error err => ([], some (.auth err))
      | .ok _ =>
          match stream.sendHeader s.header with
          | some err => ([.sendHeader s.header], some (.header err))
          | none => ([.sendHeader s.header, .addBackend backend], none)

end Konnectivity
