import ScratchDb.Server.HttpMessages
import ScratchDb.Server.JsonResponses

/-!
# What a request asks for

Model of the branches of `HttpServer::handle_client` in `src/server.cpp`: a
request is answered with a fixed text, or it is a query for the executor of a
session. The page that a browser gets is a parameter.
-/

namespace ScratchDb

namespace HttpServer

open HttpMessages JsonStrings JsonResponses

/-! ## Requests -/

def trim (text : List Char) : List Char := (text.dropWhile isSpace).rdropWhile isSpace

def queryForExecutor (text : List Char) : List Char :=
  let query := trim text
  trim (if query.getLast? = some ';' then query.dropLast else query)

def validSessionId (sessionId : List Char) : Bool :=
  sessionId ≠ [] && sessionId.length ≤ 64 &&
    sessionId.all fun ch => ch.isAlphanum || ch = '_' || ch = '-'

/-- What the server answers. -/
inductive Reply where
  | badRequest
  | noContent
  | health
  | page
  | expectedQuery
  | invalidSessionId
  | notFound
  | result (r : ServedResult) (sessionId : List Char)
deriving DecidableEq

inductive Task where
  | reply (r : Reply)
  /-- run a query in a session -/
  | query (sessionId query : List Char)
deriving DecidableEq

def taskOf (request : HttpRequest) : Task :=
  if request.method = "OPTIONS".toList then .reply .noContent
  else if request.method = "GET".toList ∧ request.path = "/health".toList then .reply .health
  else if request.method = "GET".toList ∧ request.path = "/".toList then .reply .page
  else if request.method = "POST".toList ∧ request.path = "/query".toList then
    match parseJsonStringField request.body "query".toList with
    | none => .reply .expectedQuery
    | some query =>
      let sessionId :=
        (parseJsonStringField request.body "session_id".toList).getD "default".toList
      if validSessionId sessionId then .query sessionId (queryForExecutor query)
      else .reply .invalidSessionId
  else .reply .notFound

/-! ## Responses -/

namespace Reply

def status : Reply → Nat
  | .badRequest => 400
  | .noContent => 204
  | .health => 200
  | .page => 200
  | .expectedQuery => 400
  | .invalidSessionId => 400
  | .notFound => 404
  | .result r _ => if r.isOk then 200 else 400

def statusText : Reply → String
  | .badRequest => "Bad Request"
  | .noContent => "No Content"
  | .health => "OK"
  | .page => "OK"
  | .expectedQuery => "Bad Request"
  | .invalidSessionId => "Bad Request"
  | .notFound => "Not Found"
  | .result r _ => if r.isOk then "OK" else "Bad Request"

def contentType : Reply → String
  | .noContent => "text/plain"
  | .page => "text/html; charset=utf-8"
  | _ => "application/json"

/-- An answer that is an error of the request. -/
def refusal (message : String) : List Char :=
  "\x7b\"ok\":false,\"error\":\x7b\"message\":\"".toList ++ message.toList ++ "\"\x7d\x7d".toList

def body (indexHtml : List Char) : Reply → List Char
  | .badRequest => refusal "bad request"
  | .noContent => []
  | .health => "\x7b\"ok\":true\x7d".toList
  | .page => indexHtml
  | .expectedQuery => refusal "expected JSON body with query"
  | .invalidSessionId => refusal "invalid session_id"
  | .notFound => refusal "not found"
  | .result r sessionId => queryResultToJson r (String.ofList sessionId)

def bytes (indexHtml : List Char) (r : Reply) : List Char :=
  httpResponse r.status r.statusText r.contentType (r.body indexHtml)

end Reply

variable {indexHtml : List Char} (r : Reply)

theorem isPlain_statusText : isPlain r.statusText.toList = true := by
  cases r with
  | badRequest => decide
  | noContent => decide
  | health => decide
  | page => decide
  | expectedQuery => decide
  | invalidSessionId => decide
  | notFound => decide
  | result r sessionId =>
    rw [Reply.statusText]
    split
    · decide
    · decide

theorem isPlain_contentType : isPlain r.contentType.toList = true := by
  have hjson : isPlain "application/json".toList = true := by decide
  cases r with
  | noContent => decide
  | page => decide
  | badRequest => exact hjson
  | health => exact hjson
  | expectedQuery => exact hjson
  | invalidSessionId => exact hjson
  | notFound => exact hjson
  | result r sessionId => exact hjson

/-- A client that reads what has arrived gets the answer, or nothing where it was cut short. -/
theorem readResponse_reply (hbody : (r.body indexHtml).length < 2 ^ 64)
    (sendings : List Sending) :
    readResponse (sendAll sendings (r.bytes indexHtml)).2 =
      if (sendAll sendings (r.bytes indexHtml)).1 then some (r.status, r.body indexHtml)
      else none :=
  readResponse_sendAll r.status (r.body indexHtml) (isPlain_statusText r) (isPlain_contentType r)
    hbody sendings

end HttpServer

end ScratchDb
