import LiveConfig.Error
import LiveConfig.Http
import LiveConfig.JsonText.Record
import LiveConfig.Kv.Path
import LiveConfig.Number.Numeral
import LiveConfig.Text.Escape

/-!
# Consul

A key/value store that a Consul agent serves: how it is asked for all keys under a path and to create a
key, and how its answers are read. A listing of a path that does not exist is an empty one.
-/

namespace LiveConfig

open Kv (Bytes Pair Listing Query)

/-- Where the agent is, what is sent along with every request, and how long an answer may take. -/
structure Consul where
  address : String
  token : Option String
  datacenter : Option String
  timeout : Duration

namespace Consul

/-- The agent on the same machine, asked without a token. -/
def standard : Consul := ⟨"http://127.0.0.1:8500", none, none, .ofSeconds 10⟩

/-! ### Requests -/

/-- The path below which an agent serves its keys. -/
def root : String := "/v1/kv/"

/-- The address of a key. -/
def url (c : Consul) (key : String) : String :=
  Kv.trimRoot c.address ++ root ++ String.ofList (key.toList.dropWhile (· == Kv.separator))

/-- A request for a key with some parameters behind that of the datacenter, if it can be sent. -/
def request? (c : Consul) (method key : String) (params : List (String × String)) (body : Bytes) :
    Option Http.Request := do
  let u ← Http.Url.parse? (c.url key)
  let headers ← Http.headers? "x-consul-token" c.token
  let params := (c.datacenter.map fun dc => ("dc", dc)).toList ++ params
  return ⟨method, (params.foldl (fun u p => u.withParam p.1 p.2) u).target, headers, body⟩

/-- The parameters of a query that may be held back. -/
def queryParams : Option Query → List (String × String)
  | none => []
  | some q => [("index", q.index.repr), ("wait", q.wait.millis.repr ++ "ms")]

/-- Asks for all keys that start with `key`. -/
def list? (c : Consul) (key : String) (query : Option Query) : Option Http.Request :=
  c.request? "GET" key (("recurse", "true") :: queryParams query) []

/-- Asks to create a key, which succeeds only while it does not exist. -/
def insert? (c : Consul) (key : String) (value : Bytes) : Option Http.Request :=
  c.request? "PUT" key [("cas", "0")] value

/-! ### Answers -/

/-- A request could not be sent, or was not answered. -/
def sendError : Error := .client "Consul request failed"

/-- An answer could not be read. -/
def readError : Error := .client "Failed to parse Consul response"

/-- The index that an answer goes with; zero, if it has none that can be read. -/
def index (r : Http.Response) : Nat :=
  ((r.header? "x-consul-index").bind Numeral.unsigned64?).getD 0

/-- A key with its value as it is written, which may be missing. -/
structure Entry where
  key : String
  value : Option String

/-- An entry of a listing: an object, or a list of key and value. -/
def Entry.ofJson? : JsonText → Option Entry
  | .list [key, value] => (JsonText.list [key, value]).fields? ["Key", "Value"] >>= read?
  | .object members => (JsonText.object members).fields? ["Key", "Value"] >>= read?
  | _ => none
where
  read? (f : JsonText.Fields) : Option Entry := do
    return ⟨← (← f.find? "Key").text?, ← f.optionalText? "Value"⟩

/-- The octets of an entry. -/
def Entry.pair (e : Entry) : Except Error Pair :=
  match Text.Base64.decode? ((e.value.getD "").toList) with
  | some bytes => .ok ⟨e.key, bytes⟩
  | none => .error (.client ("Invalid value for '" ++ e.key ++ "'"))

/-- The entries of a listing. -/
def entries? (body : Bytes) : Option (List Entry) :=
  match JsonText.parse? body with
  | some (.list items) => items.mapM Entry.ofJson?
  | _ => none

/-- What an answer says about all keys under a path. -/
def listing (r : Http.Response) : Except Error Listing :=
  if r.status = 404 then .ok ⟨[], index r⟩
  else if !r.isSuccess then
    .error (.client ("Consul request failed with status " ++ Http.statusText r.status))
  else
    match entries? r.content with
    | none => .error readError
    | some es => (es.mapM Entry.pair).map fun pairs => ⟨pairs, index r⟩

/-- What an answer says about the creation of a key: whether it did not exist. -/
def created (r : Http.Response) : Except Error Bool :=
  if !r.isSuccess then
    .error (.client ("Consul write failed with status " ++ Http.statusText r.status))
  else
    match JsonText.parse? r.content with
    | some (.bool b) => .ok b
    | _ => .error readError

/-- What comes of a request, if it can be sent and is answered. -/
def exchange {α : Type} (request : Option Http.Request) (answer : Option Http.Response)
    (read : Http.Response → Except Error α) : Except Error α :=
  match request, answer with
  | some _, some r => read r
  | _, _ => .error sendError

end Consul

end LiveConfig
