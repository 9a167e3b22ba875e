import SentenceQuery.Dataset.Service
import SentenceQuery.Http.MediaType
import SentenceQuery.Http.Target
import SentenceQuery.Table.Json

/-!
# Requests and responses

The service answers five kinds of requests: `PUT /dataset/:id/:kind` adds a dataset from a JSON array of records, `DELETE
/dataset/:id` removes one, `GET /datasets` lists them, `POST /query` answers the sentence in the body, and `GET /health`
tells that the service runs. A path that is not served is 404, a method that is not served on a path is 405.
-/

namespace SentenceQuery

/-- The methods that are told apart. -/
inductive Method where
  | get
  | head
  | put
  | post
  | delete
  | other
deriving DecidableEq

/-- The method of a name; names of methods are in upper case. -/
def Method.ofName (name : String) : Method :=
  match name with
  | "GET" => .get
  | "HEAD" => .head
  | "PUT" => .put
  | "POST" => .post
  | "DELETE" => .delete
  | _ => .other

/-- A request. -/
structure Request where
  method : Method
  target : String
  contentType : Option String
  body : String
deriving DecidableEq

/-- The answer to a request. -/
structure Response where
  status : Nat
  body : String
deriving DecidableEq

/-- Why a request that reached its route is refused. -/
inductive RequestError where
  /-- a segment of the path is not UTF-8 -/
  | segment (name : String)
  /-- the content type does not name JSON -/
  | contentType
  /-- the body is not an array of records -/
  | body (fault : Json.Fault)
  /-- the kind in the path is none -/
  | kind (cause : LookupError)
  | service (cause : ServiceError)
deriving DecidableEq

/-- What is wrong with a body. -/
def Json.Fault.message : Json.Fault → String
  | .illFormed => "Failed to parse the request body as JSON: the text is not well formed"
  | .wrongShape => "Failed to deserialize the JSON body into the target type: a value has the wrong shape"

namespace RequestError

def message : RequestError → String
  | .segment name => "Invalid URL: Invalid UTF-8 in `" ++ name ++ "`"
  | .contentType => "Expected request with `Content-Type: application/json`"
  | .body fault => fault.message
  | .kind cause => cause.message
  | .service cause => cause.message

/-- Only a dataset that is to be removed and is not there is 404. -/
def status : RequestError → Nat
  | .service (.notFound _) => 404
  | _ => 400

/-- The response to a request that is refused: a JSON object with the message, but plain text where the path is at
fault. -/
def response (e : RequestError) : Response :=
  match e with
  | .segment _ => ⟨e.status, e.message⟩
  | _ => ⟨e.status, String.ofList (Json.ofMembers [("error", Json.ofString e.message)])⟩

end RequestError

namespace Response

/-- Done, and nothing to tell. -/
def done : Response := ⟨204, ""⟩

/-- The path is not served. -/
def unknownPath : Response := ⟨404, ""⟩

/-- The method is not served on the path. -/
def unknownMethod : Response := ⟨405, ""⟩

/-- A text. -/
def text (body : String) : Response := ⟨200, body⟩

/-- A JSON object with a list of results. -/
def results (items : List (List Char)) : Response :=
  ⟨200, String.ofList (Json.ofMembers [("result", Json.ofItems items)])⟩

/-- The response without its body. -/
def withoutBody (r : Response) : Response := ⟨r.status, ""⟩

end Response

/-- The text of a segment of the path. -/
def Request.segment (name : String) (s : List Char) : Except RequestError String :=
  match Target.decodeSegment? s with
  | some text => .ok text
  | none => .error (.segment name)

/-- The records in the body of a request. -/
def Request.records (r : Request) : Except RequestError (List Record) :=
  if (r.contentType.map MediaType.namesJson).getD false then
    (Record.listOfJsonStart r.body).mapError .body
  else .error .contentType

namespace Service

/-- Adds the dataset in a request's body. The path is read first, then the body, then the kind. -/
def put (s : Service) (r : Request) (id kind : List Char) : Except RequestError (Response × Service) := do
  let id ← Request.segment "id" id
  let kind ← Request.segment "kind" kind
  let records ← r.records
  let kind ← (Kind.ofName kind).mapError .kind
  let (_, s) ← (s.add id kind records).mapError .service
  .ok (.done, s)

/-- Removes a dataset. -/
def delete (s : Service) (id : List Char) : Except RequestError (Response × Service) := do
  let id ← Request.segment "id" id
  let s ← (s.remove id).mapError .service
  .ok (.done, s)

/-- The response to a listing. -/
def listing (s : Service) : Response := .results (s.list.map DatasetInfo.toJson)

/-- The response to a sentence. -/
def post (s : Service) (sentence : String) : Except RequestError Response := do
  let rows ← (s.query sentence).mapError .service
  .ok (.results (rows.map Row.toJson))

/-- What a request that may change the service comes to; a request that is refused changes nothing. -/
def commit (s : Service) (r : Except RequestError (Response × Service)) : Response × Service :=
  match r with
  | .ok done => done
  | .error e => (e.response, s)

/-- The response to a request on a route, and the service after it. -/
def respondOn (s : Service) (r : Request) (route : Route) : Response × Service :=
  match route, r.method with
  | .dataset id kind, .put => s.commit (s.put r id kind)
  | .datasetById id, .delete => s.commit (s.delete id)
  | .datasets, .get => (s.listing, s)
  | .datasets, .head => (s.listing.withoutBody, s)
  | .query, .post =>
    match s.post r.body with
    | .ok response => (response, s)
    | .error e => (e.response, s)
  | .health, .get => (.text "OK", s)
  | .health, .head => (Response.withoutBody (.text "OK"), s)
  | _, _ => (.unknownMethod, s)

/-- The response to a request, and the service after it. -/
def respond (s : Service) (r : Request) : Response × Service :=
  match Target.route? (Target.path r.target.toList) with
  | some route => s.respondOn r route
  | none => (.unknownPath, s)

end Service

end SentenceQuery
