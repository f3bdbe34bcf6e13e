import SourceIndex.Embedding.Model
import SourceIndex.Json.Fields
import SourceIndex.Json.Read
import SourceIndex.Settings.Basic

set_option autoImplicit false

/-! # Embedding services

A service makes vectors for requests over the network. A request names the model and the
texts; some services also want to know whether the texts are documents or a query. The reply
holds one vector for each text, in order.

How a request travels is not said here: an exchange is a function from requests to replies.

* `EmbeddingService.ofSettings`: the service that settings name.
* `EmbeddingService.request`, `EmbeddingService.read`: what is sent, and what comes back.
* `EmbeddingService.model`: a service as a model.
-/

namespace SourceIndex

/-! ## Messages -/

/-- A request over the network. -/
structure ServiceRequest where
  url : String
  authorization : String
  body : Json

/-- What comes of a request. -/
inductive ServiceReply where
  | response (status : Nat) (body : String)
  /-- There is no connection. -/
  | refused

/-- The meanings of status codes. -/
def statusReasons : List (Nat × String) :=
  [(100, "Continue"), (101, "Switching Protocols"), (102, "Processing"), (200, "OK"),
   (201, "Created"), (202, "Accepted"), (203, "Non Authoritative Information"),
   (204, "No Content"), (205, "Reset Content"), (206, "Partial Content"),
   (207, "Multi-Status"), (208, "Already Reported"), (226, "IM Used"),
   (300, "Multiple Choices"), (301, "Moved Permanently"), (302, "Found"), (303, "See Other"),
   (304, "Not Modified"), (305, "Use Proxy"), (307, "Temporary Redirect"),
   (308, "Permanent Redirect"), (400, "Bad Request"), (401, "Unauthorized"),
   (402, "Payment Required"), (403, "Forbidden"), (404, "Not Found"),
   (405, "Method Not Allowed"), (406, "Not Acceptable"),
   (407, "Proxy Authentication Required"), (408, "Request Timeout"), (409, "Conflict"),
   (410, "Gone"), (411, "Length Required"), (412, "Precondition Failed"),
   (413, "Payload Too Large"), (414, "URI Too Long"), (415, "Unsupported Media Type"),
   (416, "Range Not Satisfiable"), (417, "Expectation Failed"), (418, "I'm a teapot"),
   (421, "Misdirected Request"), (422, "Unprocessable Entity"), (423, "Locked"),
   (424, "Failed Dependency"), (425, "Too Early"), (426, "Upgrade Required"),
   (428, "Precondition Required"), (429, "Too Many Requests"),
   (431, "Request Header Fields Too Large"), (451, "Unavailable For Legal Reasons"),
   (500, "Internal Server Error"), (501, "Not Implemented"), (502, "Bad Gateway"),
   (503, "Service Unavailable"), (504, "Gateway Timeout"),
   (505, "HTTP Version Not Supported"), (506, "Variant Also Negotiates"),
   (507, "Insufficient Storage"), (508, "Loop Detected"), (510, "Not Extended"),
   (511, "Network Authentication Required")]

/-- A status code with its meaning. -/
def statusText (status : Nat) : String :=
  toString status ++ " " ++
    (((statusReasons.find? (·.1 == status)).map (·.2)).getD "<unknown status code>")

/-! ## Vectors in a reply -/

/-- A whole number rounded to a single. -/
def singleOfInt (n : Int) : Float32 :=
  let magnitude := n.natAbs.toUInt64.toFloat32
  if n < 0 then -magnitude else magnitude

/-- A coordinate. -/
def coordinate? : Json → Option Float32
  | .int n => some (singleOfInt n)
  | .real x => some x.toFloat32
  | _ => none

/-- The values of a field that an object has once; a list with one item stands for an object
with one field. -/
def onlyField? (name : String) : Json → Option Json
  | .obj fields =>
    match fields.filter (·.1 == name) with
    | [(_, v)] => some v
    | _ => none
  | .arr [v] => some v
  | _ => none

/-- The vectors that the body of a reply holds. -/
def vectorsOfBody? (body : String) : Option (List Embedding) := do
  let data ← onlyField? "data" (← Json.read? body)
  (← data.items?).mapM fun item => do
    (← (← onlyField? "embedding" item).items?).mapM coordinate?

/-! ## Services -/

/-- What texts are for. -/
inductive TextPurpose where
  | document
  | query
  deriving DecidableEq, Repr

/-- The name of a purpose. -/
def TextPurpose.id : TextPurpose → String
  | .document => "document"
  | .query => "query"

/-- A service that makes vectors. -/
structure EmbeddingService where
  apiKey : String
  baseUrl : String
  modelName : String
  dimension : Nat
  /-- Whether requests say what texts are for. -/
  tellsPurpose : Bool
  deriving DecidableEq, Repr

/-- A provider: its address, the variable that may hold the key, and whether its requests say
what texts are for. -/
structure Provider where
  name : String
  baseUrl : String
  keyVariable : String
  tellsPurpose : Bool

/-- The providers that are known. -/
def providers : List Provider :=
  [⟨"voyage", "https://api.voyageai.com/v1", "VOYAGE_API_KEY", true⟩,
   ⟨"openai", "https://api.openai.com/v1", "OPENAI_API_KEY", false⟩]

namespace EmbeddingService

/-- The service that settings name, with the key from the settings or from a variable of the
environment; there is none without a key. -/
def ofSettings (s : Settings.Embedding) (environment : String → Option String) :
    Except Fault (Option EmbeddingService) :=
  if s.provider = "none" then .ok none
  else
    match providers.find? (·.name == s.provider) with
    | none => .error (.config ("unknown embedding provider '" ++ s.provider ++
        "' (expected voyage, openai or none)"))
    | some p =>
      match s.apiKey.or (environment p.keyVariable) with
      | none => .ok none
      | some key => .ok (some {
          apiKey := key
          baseUrl := Text.trimRightWhere (· == '/') (s.baseUrl.getD p.baseUrl)
          modelName := s.model
          dimension := s.dimensions
          tellsPurpose := p.tellsPurpose })

/-- The request for the vectors of texts. -/
def request (s : EmbeddingService) (purpose : TextPurpose) (texts : List String) :
    ServiceRequest where
  url := s.baseUrl ++ "/embeddings"
  authorization := "Bearer " ++ s.apiKey
  body := .obj ([("model", .str s.modelName), ("input", .arr (texts.map .str))] ++
    if s.tellsPurpose then [("input_type", .str purpose.id)] else [])

/-- The vectors that came for a request. -/
def read (r : ServiceRequest) : ServiceReply → Except Fault (List Embedding)
  | .refused =>
    .error (.embedding ("HTTP request failed: error sending request for url (" ++ r.url ++ ")"))
  | .response status body =>
    if 200 ≤ status ∧ status < 300 then
      match vectorsOfBody? body with
      | some vectors => .ok vectors
      | none => .error (.embedding "failed to parse response: error decoding response body")
    else .error (.embedding ("embedding API returned " ++ statusText status ++ ": " ++ body))

/-- The vectors of documents; none are asked for if there are no documents. -/
def embedDocuments (s : EmbeddingService) (exchange : ServiceRequest → ServiceReply)
    (texts : List String) : Except Fault (List Embedding) :=
  if texts.isEmpty then .ok []
  else
    let r := s.request .document texts
    read r (exchange r)

/-- The vector of a query, the first one of the reply. -/
def embedQuery (s : EmbeddingService) (exchange : ServiceRequest → ServiceReply)
    (text : String) : Except Fault Embedding :=
  let r := s.request .query [text]
  match read r (exchange r) with
  | .ok (v :: _) => .ok v
  | .ok [] => .error (.embedding "empty response from embedding API")
  | .error f => .error f

/-- What comes of asking a service. -/
def reply {α : Type} : Except Fault α → Reply α
  | .ok a => .answer a
  | .error f => .failure f

/-- A service as a model. -/
def model (s : EmbeddingService) (exchange : ServiceRequest → ServiceReply) :
    EmbeddingModel where
  name := s.modelName
  dimension := s.dimension
  documents texts := reply (s.embedDocuments exchange texts)
  query text := reply (s.embedQuery exchange text)

end EmbeddingService

end SourceIndex
