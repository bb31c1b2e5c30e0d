import LiveConfig.Http.Url
import LiveConfig.Kv.Pair
import LiveConfig.Text.Split

/-!
# Http

Requests to a server and its answers, as far as clients look at them.
-/

namespace LiveConfig.Http

open Kv (Bytes)

/-- A request: its method, the path with the query, headers with names in lower case, and a body. -/
structure Request where
  method : String
  target : String
  headers : List (String × String)
  body : Bytes

/-- An answer. -/
structure Response where
  status : Nat
  headers : List (String × String)
  body : Bytes

/-! ### Headers -/

/-- The value of a header as it is sent, if it can be sent; most control characters cannot. -/
def headerValue? (s : String) : Option String :=
  if s.toList.all fun c => (' ' ≤ c && c != '\x7f') || c == '\t' then
    some (String.ofList (Text.trim s.toList))
  else none

/-- A header that is left out, where there is no value for it. -/
def headers? (name : String) : Option String → Option (List (String × String))
  | none => some []
  | some value => (headerValue? value).map fun v => [(name, v)]

def isHeaderSpace (c : Char) : Bool := c == ' ' || c == '\t'

namespace Response

/-- The first header of a name, which is given in lower case. -/
def header? (r : Response) (name : String) : Option (List Char) :=
  (r.headers.find? fun h => h.1.toLower == name).map fun h =>
    ((h.2.toList.dropWhile isHeaderSpace).reverse.dropWhile isHeaderSpace).reverse

def isSuccess (r : Response) : Bool := 200 ≤ r.status && r.status < 300

/-- What is read of the body; some answers have none. -/
def content (r : Response) : Bytes := if r.status = 204 ∨ r.status = 304 then [] else r.body

end Response

/-! ### Statuses -/

/-- The phrases that go with statuses. -/
def reasons : List (Nat × String) :=
  [(100, "Continue"), (101, "Switching Protocols"), (102, "Processing"), (200, "OK"),
    (201, "Created"), (202, "Accepted"), (203, "Non Authoritative Information"),
    (204, "No Content"), (205, "Reset Content"), (206, "Partial Content"), (207, "Multi-Status"),
    (208, "Already Reported"), (226, "IM Used"), (300, "Multiple Choices"),
    (301, "Moved Permanently"), (302, "Found"), (303, "See Other"), (304, "Not Modified"),
    (305, "Use Proxy"), (307, "Temporary Redirect"), (308, "Permanent Redirect"),
    (400, "Bad Request"), (401, "Unauthorized"), (402, "Payment Required"), (403, "Forbidden"),
    (404, "Not Found"), (405, "Method Not Allowed"), (406, "Not Acceptable"),
    (407, "Proxy Authentication Required"), (408, "Request Timeout"), (409, "Conflict"),
    (410, "Gone"), (411, "Length Required"), (412, "Precondition Failed"),
    (413, "Payload Too Large"), (414, "URI Too Long"), (415, "Unsupported Media Type"),
    (416, "Range Not Satisfiable"), (417, "Expectation Failed"), (418, "I'm a teapot"),
    (421, "Misdirected Request"), (422, "Unprocessable Entity"), (423, "Locked"),
    (424, "Failed Dependency"), (425, "Too Early"), (426, "Upgrade Required"),
    (428, "Precondition Required"), (429, "Too Many Requests"),
    (431, "Request Header Fields Too Large"), (451, "Unavailable For Legal Reasons"),
    (500, "Internal Server Error"), (501, "Not Implemented"), (502, "Bad Gateway"),
    (503, "Service Unavailable"), (504, "Gateway Timeout"), (505, "HTTP Version Not Supported"),
    (506, "Variant Also Negotiates"), (507, "Insufficient Storage"), (508, "Loop Detected"),
    (510, "Not Extended"), (511, "Network Authentication Required")]

/-- A status with its phrase, which is told again behind it. -/
def statusText (status : Nat) : String :=
  match reasons.lookup status with
  | some reason => status.repr ++ " " ++ reason ++ ": " ++ reason
  | none => status.repr ++ " <unknown status code>: Unknown"

end LiveConfig.Http
