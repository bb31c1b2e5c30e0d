import LiveConfig.Http
import LiveConfig.JsonText.Shape
import LiveConfig.Secrets

/-!
# Vault

Bundles of secrets that a Vault server keeps in versions. The last version is asked for by one request,
and the answer wraps the bundle in two layers that have to be complete.
-/

namespace LiveConfig

open Kv (Bytes)

/-- Where the server is, what is sent along with every request, and how long an answer may take. An
empty token is not sent. -/
structure Vault where
  address : String
  token : String
  space : Option String
  timeout : Duration

namespace Vault

/-- The server on the same machine, asked without a token. -/
def standard : Vault := ⟨"http://127.0.0.1:8200", "", none, .ofSeconds 10⟩

/-! ### Requests -/

/-- The address of a bundle: its names behind those of the server, and the version of the interface in
front of them all. -/
def url? (v : Vault) (s : Secrets) : Option Http.Url := do
  let u ← Http.Url.parse? v.address
  let u := u.extend (Text.split '/' (s.mount ++ "/data/" ++ s.path))
  return { u with path := "v1" :: u.path, query := some "" }

/-- Asks for the last version of a bundle, if the request can be sent. -/
def read? (v : Vault) (s : Secrets) : Option Http.Request := do
  let u ← v.url? s
  let token ← Http.headers? "x-vault-token" (if v.token = "" then none else some v.token)
  let spaceHeader ← Http.headers? "x-vault-namespace" v.space
  return ⟨"GET", u.target, token ++ spaceHeader, []⟩

/-! ### Answers -/

open JsonText (Shape)

/-- The greatest number of 64 bits. -/
def greatest : Nat := 0xFFFFFFFFFFFFFFFF

/-- What is told about a version of a bundle. -/
def versionFields : List (String × Shape) :=
  [("created_time", .text), ("deletion_time", .text), ("custom_metadata", .maybe (.map .text)),
    ("destroyed", .bool), ("version", .count greatest)]

/-- A version of a bundle. -/
def bundleFields : List (String × Shape) := [("data", .any), ("metadata", .record versionFields)]

/-- What is told about a token. -/
def tokenFields : List (String × Shape) :=
  [("client_token", .text), ("accessor", .text), ("policies", .list .text),
    ("token_policies", .list .text), ("metadata", .maybe (.map .text)),
    ("lease_duration", .count greatest), ("renewable", .bool), ("entity_id", .text),
    ("token_type", .text), ("orphan", .bool)]

/-- What is told about an answer that is kept elsewhere. -/
def wrappingFields : List (String × Shape) :=
  [("token", .text), ("accessor", .text), ("ttl", .count greatest), ("creation_time", .text),
    ("creation_path", .text)]

/-- An answer about a bundle. -/
def answerFields : List (String × Shape) :=
  [("data", .record bundleFields), ("auth", .maybe (.record tokenFields)), ("lease_id", .text),
    ("lease_duration", .count 0xFFFFFFFF), ("renewable", .bool), ("request_id", .text),
    ("warnings", .maybe (.list .text)), ("wrap_info", .maybe (.record wrappingFields))]

/-- The bundle inside an answer. -/
def bundle? (body : Bytes) : Option Tree := do
  let answer ← JsonText.parse? body
  if (Shape.record answerFields).fits answer then
    let data ← Shape.field? answerFields "data" answer
    let bundle ← Shape.field? bundleFields "data" data
    bundle.tree? JsonText.widest (JsonText.depthLimit - 2)
  else none

/-- A bundle could not be read. -/
def readError (s : Secrets) : Error := .client ("Failed to read secret '" ++ s.place ++ "'")

/-- The tree of the bundle that a server answers with, if it answers. -/
def answered (s : Secrets) (r : Option Http.Response) : Except Error Tree :=
  match (r.filter fun r => 200 ≤ r.status ∧ r.status ≤ 208).bind (bundle? ·.content) with
  | some t => .ok t
  | none => .error (readError s)

/-- What is read of a bundle, where a request that can be sent gets an answer or none. -/
def get (v : Vault) (s : Secrets) (r : Option Http.Response) : Except Error Tree :=
  s.get (answered s ((v.read? s).bind fun _ => r))

end Vault

end LiveConfig
