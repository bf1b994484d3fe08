import CodeIndex.Embedding.Provider
import CodeIndex.Record

/-!
A provider of embeddings over HTTP: a server of Ollama.

The client is told how requests are answered by a `Transport`, which gives no response where there is
no connection.

* `Client.probe` and `Client.embedding` are the two requests;
* `Client.serves` and `Client.reading` say what a response to them means;
* `Client.provider` is the provider that they make.
-/
namespace CodeIndex.Ollama

/-- A request: its method, the address it goes to, and what it holds. -/
structure Request where
  method : String
  url : String
  body : Option Json

/-- A response. -/
structure Response where
  status : Nat
  body : String

/-- How requests are answered. -/
abbrev Transport := Request → Option Response

/-- The transport that reaches nothing. -/
def Transport.unreachable : Transport := fun _ => none

/-! ## Responses -/

/-- The phrases that stand for codes of status. -/
def phrases : List (Nat × String) := [
  (100, "Continue"), (101, "Switching Protocols"), (102, "Processing"), (200, "OK"),
  (201, "Created"), (202, "Accepted"), (203, "Non Authoritative Information"),
  (204, "No Content"), (205, "Reset Content"), (206, "Partial Content"), (207, "Multi-Status"),
  (208, "Already Reported"), (226, "IM Used"), (300, "Multiple Choices"),
  (301, "Moved Permanently"), (302, "Found"), (303, "See Other"), (304, "Not Modified"),
  (305, "Use Proxy"), (307, "Temporary Redirect"), (308, "Permanent Redirect"),
  (400, "Bad Request"), (401, "Unauthorized"), (402, "Payment Required"), (403, "Forbidden"),
  (404, "Not Found"), (405, "Method Not Allowed"), (406, "Not Acceptable"),
  (407, "Proxy Authentication Required"), (408, "Request Timeout"), (409, "Conflict"),
  (410, "Gone"), (411, "Length Required"), (412, "Precondition Failed"),
  (413, "Payload Too Large"), (414, "URI Too Long"), (415, "Unsupported Media Type"),
  (416, "Range Not Satisfiable"), (417, "Expectation Failed"), (418, "I'm a teapot"),
  (421, "Misdirected Request"), (422, "Unprocessable Entity"), (423, "Locked"),
  (424, "Failed Dependency"), (425, "Too Early"), (426, "Upgrade Required"),
  (428, "Precondition Required"), (429, "Too Many Requests"),
  (431, "Request Header Fields Too Large"), (451, "Unavailable For Legal Reasons"),
  (500, "Internal Server Error"), (501, "Not Implemented"), (502, "Bad Gateway"),
  (503, "Service Unavailable"), (504, "Gateway Timeout"), (505, "HTTP Version Not Supported"),
  (506, "Variant Also Negotiates"), (507, "Insufficient Storage"), (508, "Loop Detected"),
  (510, "Not Extended"), (511, "Network Authentication Required")]

namespace Response

/-- A code of status with its phrase. -/
def statusText (r : Response) : String :=
  toString r.status ++ " " ++
    ((phrases.find? (·.1 == r.status)).map (·.2)).getD "<unknown status code>"

/-- Whether a response says that the request was served. -/
def isSuccess (r : Response) : Bool := 200 ≤ r.status && r.status < 300

/-- What a response holds; there are codes of status with which it holds nothing. -/
def content (r : Response) : String := if r.status == 204 || r.status == 304 then "" else r.body

end Response

/-- A record in JSON that does not give a field twice. -/
def strictRecord? (names : List String) (j : Json) : Option (Record Json) := do
  let r ← Record.ofJson? names j
  if names.all fun name => (r.fields.filter (·.1 == name)).length ≤ 1 then some r else none

/-- The vector in a response. -/
def vector? (text : String) : Option Vector32 := do
  let j ← Json.parse? text
  let r ← strictRecord? ["embedding"] j
  let numbers ← r.required "embedding" (Json.list? Json.real?)
  pure (numbers.map Single.ofFloat)

/-- The name of a model in a list of models. -/
def modelName? (j : Json) : Option String := do
  let r ← strictRecord? ["name"] j
  r.required "name" Json.str?

/-- The names of the models in a response. -/
def models? (text : String) : Option (List String) := do
  let j ← Json.parse? text
  let r ← strictRecord? ["models"] j
  r.defaulted "models" [] (Json.list? modelName?)

/-! ## The client -/

/-- A client of a server. -/
structure Client where
  /-- The address of the server, without slashes at its end. -/
  baseUrl : String
  model : String
  maxChars : Nat

namespace Client

/-- The client that a configuration asks for. -/
def ofConfig (c : EmbeddingConfig) : Client where
  baseUrl := String.ofList (c.baseUrl.toList.reverse.dropWhile (· == '/')).reverse
  model := c.model
  maxChars := c.maxChars

/-- The request for the list of models. -/
def probe (c : Client) : Request := ⟨"GET", c.baseUrl ++ "/api/tags", none⟩

/-- Whether the response to a probe says that the model is served. -/
def serves (c : Client) : Option Response → Bool
  | none => false
  | some r =>
    r.isSuccess &&
      ((models? r.content).getD []).any fun name => Text.occurs c.model.toList name.toList

/-- The request for the embedding of a text, which is cut at the limit. -/
def embedding (c : Client) (text : String) : Request :=
  ⟨"POST", c.baseUrl ++ "/api/embeddings",
    some (.obj [("model", .str c.model), ("prompt", .str (Chunk.truncate text c.maxChars))])⟩

/-- What the response to a request for an embedding means. -/
def reading (request : Request) : Option Response → EmbeddingReply
  | none =>
    .error (.unavailable
      ("ollama request failed: error sending request for url (" ++ request.url ++ ")"))
  | some r =>
    if !r.isSuccess then
      .error (.unavailable ("ollama returned " ++ r.statusText ++ ": " ++ r.content))
    else
      match vector? r.content with
      | none => .error (.unusable "failed to parse response: error decoding response body")
      | some [] => .error (.unusable "empty embedding from ollama")
      | some v => .ok v

/-- The client as a provider. -/
def provider (c : Client) (transport : Transport) : Provider where
  model := c.model
  available := c.serves (transport c.probe)
  answer _ text := reading (c.embedding text) (transport (c.embedding text))
  asked := []

end Client

end CodeIndex.Ollama
