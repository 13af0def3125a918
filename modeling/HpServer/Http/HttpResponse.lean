/-
**`http/HttpResponse`: the bytes of a response.**

A response is built as one header text and a payload. `ResponseResult` is what a provider hands to the
session: the bytes, the policy it announces, and possibly a part of a file to send behind them.

* `makeResponseHeader`, `makeResponse`, `makeErrorResponse`, `makeStaticResponseHeader`,
  `makeTaskJsonResponse`, `makeContinueResponse`, `contentTypeForPath`.
-/

import HpServer.Base.Buffer
import HpServer.Http.StaticRepresentation

namespace HpServer.Http

open Base

inductive ConnectionPolicy where
  | close | keepAlive
  deriving DecidableEq, Repr

inductive Status where
  | ok | created | unsupportedMediaType | serviceUnavailable | partialContent | notModified
  | rangeNotSatisfiable | badRequest | forbidden | notFound | methodNotAllowed | contentTooLarge
  | internalServerError | expectationFailed | notImplemented
  deriving DecidableEq, Repr

def Status.code : Status → Nat
  | .ok => 200
  | .created => 201
  | .unsupportedMediaType => 415
  | .serviceUnavailable => 503
  | .partialContent => 206
  | .notModified => 304
  | .rangeNotSatisfiable => 416
  | .badRequest => 400
  | .forbidden => 403
  | .notFound => 404
  | .methodNotAllowed => 405
  | .contentTooLarge => 413
  | .internalServerError => 500
  | .expectationFailed => 417
  | .notImplemented => 501

structure ResponseResult where
  bytes : Bytes
  effectivePolicy : ConnectionPolicy := .close
  file : Option FileRegion := none
  status : Status := .internalServerError
  contentBytes : Nat := 0

def reasonPhrase : Status → Bytes
  | .expectationFailed => text "Expectation Failed"
  | .notImplemented => text "Not Implemented"
  | .partialContent => text "Partial Content"
  | .notModified => text "Not Modified"
  | .rangeNotSatisfiable => text "Range Not Satisfiable"
  | .created => text "Created"
  | .unsupportedMediaType => text "Unsupported Media Type"
  | .serviceUnavailable => text "Service Unavailable"
  | .ok => text "OK"
  | .badRequest => text "Bad Request"
  | .forbidden => text "Forbidden"
  | .notFound => text "Not Found"
  | .methodNotAllowed => text "Method Not Allowed"
  | .contentTooLarge => text "Content Too Large"
  | .internalServerError => text "Internal Server Error"

/-- The text of an error answer; nothing for a status that is not one, where the source throws. -/
def errorBody : Status → Option Bytes
  | .unsupportedMediaType => some (text "415 Unsupported Media Type\n")
  | .serviceUnavailable => some (text "503 Service Unavailable\n")
  | .badRequest => some (text "400 Bad Request\n")
  | .forbidden => some (text "403 Forbidden\n")
  | .notFound => some (text "404 Not Found\n")
  | .methodNotAllowed => some (text "405 Method Not Allowed\n")
  | .contentTooLarge => some (text "413 Content Too Large\n")
  | .internalServerError => some (text "500 Internal Server Error\n")
  | .expectationFailed => some (text "417 Expectation Failed\n")
  | .notImplemented => some (text "501 Not Implemented\n")
  | .rangeNotSatisfiable => some (text "416 Range Not Satisfiable\n")
  | .created | .partialContent | .notModified | .ok => none

def connectionLine : ConnectionPolicy → Bytes
  | .close => text "Connection: close\r\n"
  | .keepAlive => text "Connection: keep-alive\r\n"

def statusLine (status : Status) : Bytes :=
  text "HTTP/1.1 " ++ decimalText status.code ++ text " " ++ reasonPhrase status ++ text "\r\n"

def makeResponseHeader (status : Status) (contentLength : Nat) (contentType allowedMethods : Bytes)
    (policy : ConnectionPolicy) : Bytes :=
  statusLine status
    ++ text "Content-Length: " ++ decimalText contentLength ++ text "\r\n"
    ++ text "Content-Type: " ++ contentType ++ text "\r\n"
    ++ connectionLine policy
    ++ (if status = .methodNotAllowed && !allowedMethods.isEmpty then
          text "Allow: " ++ allowedMethods ++ text "\r\n"
        else [])
    ++ text "\r\n"

def makeResponse (status : Status) (body contentType allowedMethods : Bytes)
    (policy : ConnectionPolicy) : Bytes :=
  makeResponseHeader status body.length contentType allowedMethods policy ++ body

/-- The default of `allowedMethods` in the source is `GET`. -/
def makeErrorResponse (status : Status) (policy : ConnectionPolicy) (omitBody : Bool)
    (allowedMethods : Bytes) : Option Bytes :=
  (errorBody status).map fun body =>
    if omitBody then
      makeResponseHeader status body.length (text "text/plain; charset=utf-8") allowedMethods policy
    else makeResponse status body (text "text/plain; charset=utf-8") allowedMethods policy

def errorContentBytes (status : Status) : Option Nat := (errorBody status).map List.length

/-- The answer made of `makeErrorResponse` and `errorContentBytes`, as every handler makes it. -/
def errorAnswer (status : Status) (policy : ConnectionPolicy) (omitBody : Bool) (allowedMethods : Bytes) :
    Option ResponseResult :=
  (makeErrorResponse status policy omitBody allowedMethods).bind fun bytes =>
    (errorContentBytes status).map fun contentBytes =>
      { bytes := bytes
        effectivePolicy := policy
        status := status
        contentBytes := if omitBody then 0 else contentBytes }

/-- The line inserted before the empty line of a header that ends in one. -/
def insertLine (header line : Bytes) : Bytes :=
  header.take (header.length - 2) ++ line ++ header.drop (header.length - 2)

def makeTaskJsonResponse (status : Status) (body : Bytes) (policy : ConnectionPolicy)
    (omitBody : Bool) (allowedMethods : Bytes) : ResponseResult :=
  let header := makeResponseHeader status body.length (text "application/json") allowedMethods policy
  { bytes :=
      insertLine header (text "Cache-Control: no-store\r\n") ++ (if omitBody then [] else body)
    effectivePolicy := policy
    status := status
    contentBytes := if omitBody then 0 else body.length }

/-- The optional line of a field. -/
def optionalLine (name : Bytes) : Option Bytes → Bytes
  | none => []
  | some value => name ++ value ++ text "\r\n"

def makeStaticResponseHeader (status : Status) (contentLength : Nat) (contentType : Bytes)
    (policy : ConnectionPolicy) (metadata : StaticResponseMetadata) : Bytes :=
  statusLine status
    ++ (if status = .notModified then []
        else
          text "Content-Length: " ++ decimalText contentLength ++ text "\r\n"
            ++ text "Content-Type: " ++ contentType ++ text "\r\n")
    ++ connectionLine policy
    ++ text "Date: " ++ metadata.date ++ text "\r\nETag: " ++ metadata.entityTag ++ text "\r\n"
    ++ optionalLine (text "Last-Modified: ") metadata.lastModified
    ++ text "Accept-Ranges: bytes\r\n"
    ++ optionalLine (text "Content-Range: ") metadata.contentRange
    ++ text "\r\n"

abbrev dot : UInt8 := 0x2e

/-- The extension of the last name of a path, from its last dot, in small letters. -/
def extensionOf (path : Bytes) : Option Bytes :=
  let name := path.rtakeWhile (· ≠ slash)
  if dot ∈ name then some ((dot :: name.rtakeWhile (· ≠ dot)).map lowerAscii) else none

def contentTypeForPath (path : Bytes) : Bytes :=
  match extensionOf path with
  | none => text "application/octet-stream"
  | some extension =>
    if extension = text ".html" || extension = text ".htm" then text "text/html; charset=utf-8"
    else if extension = text ".css" then text "text/css; charset=utf-8"
    else if extension = text ".js" then text "application/javascript"
    else if extension = text ".txt" then text "text/plain; charset=utf-8"
    else if extension = text ".json" then text "application/json"
    else if extension = text ".png" then text "image/png"
    else if extension = text ".jpg" || extension = text ".jpeg" then text "image/jpeg"
    else if extension = text ".gif" then text "image/gif"
    else if extension = text ".svg" then text "image/svg+xml"
    else text "application/octet-stream"

def makeContinueResponse : Bytes := text "HTTP/1.1 100 Continue\r\n\r\n"

/-- An error answer is a header and the text of the error. -/
theorem errorAnswer_eq {status : Status} {body : Bytes} (written : errorBody status = some body)
    (policy : ConnectionPolicy) (omitBody : Bool) (allowedMethods : Bytes) :
    errorAnswer status policy omitBody allowedMethods = some
      { bytes :=
          makeResponseHeader status body.length (text "text/plain; charset=utf-8") allowedMethods policy
            ++ (if omitBody then [] else body)
        effectivePolicy := policy
        status := status
        contentBytes := if omitBody then 0 else body.length } := by
  unfold errorAnswer makeErrorResponse errorContentBytes makeResponse
  rw [written]
  cases omitBody <;> simp

theorem errorAnswer_status {status : Status} {policy : ConnectionPolicy} {omitBody : Bool}
    {allowedMethods : Bytes} {result : ResponseResult}
    (made : errorAnswer status policy omitBody allowedMethods = some result) :
    result.status = status ∧ result.effectivePolicy = policy := by
  obtain ⟨bytes, -, rest⟩ := Option.bind_eq_some_iff.mp made
  obtain ⟨count, -, rfl⟩ := Option.map_eq_some_iff.mp rest
  exact ⟨rfl, rfl⟩

/-! ### Every response has bytes -/

end HpServer.Http
