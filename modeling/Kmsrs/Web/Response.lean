import Kmsrs.Web.Request

/-! Responses of the web role: fixed statuses and headers around a body. -/

namespace Kmsrs.Web

open Text

inductive Status where
  | ok
  | notFound
  | methodNotAllowed
  | badRequest
  | uriTooLong
  | headersTooLarge
  | payloadTooLarge
  | versionNotSupported
  | serviceUnavailable
deriving DecidableEq

namespace Status

def code : Status → ℕ
  | .ok => 200
  | .badRequest => 400
  | .notFound => 404
  | .methodNotAllowed => 405
  | .payloadTooLarge => 413
  | .uriTooLong => 414
  | .headersTooLarge => 431
  | .serviceUnavailable => 503
  | .versionNotSupported => 505

/-- The reason phrase, which is also the whole of the error body. -/
def reason : Status → Text
  | .ok => "OK".toList
  | .badRequest => "Bad Request".toList
  | .notFound => "Not Found".toList
  | .methodNotAllowed => "Method Not Allowed".toList
  | .payloadTooLarge => "Payload Too Large".toList
  | .uriTooLong => "URI Too Long".toList
  | .headersTooLarge => "Request Header Fields Too Large".toList
  | .serviceUnavailable => "Service Unavailable".toList
  | .versionNotSupported => "HTTP Version Not Supported".toList

def forRequestError : RequestError → Status
  | .requestLineTooLong => .uriTooLong
  | .headerTooLong | .tooManyHeaders | .headTooLong => .headersTooLarge
  | .unsupportedMethod => .methodNotAllowed
  | .unsupportedVersion => .versionNotSupported
  | .bodyNotAllowed => .payloadTooLarge
  | .malformedRequestLine | .malformedHeader | .notText => .badRequest

end Status

inductive ContentType where
  | html
  | text
  | metrics
deriving DecidableEq

def ContentType.asStr : ContentType → Text
  | .html => "text/html; charset=utf-8".toList
  | .text => "text/plain; charset=utf-8".toList
  | .metrics => "text/plain; version=0.0.4; charset=utf-8".toList

structure Response where
  status : Status
  contentType : ContentType
  body : Text
deriving DecidableEq

namespace Response

def html (body : Text) : Response := ⟨.ok, .html, body⟩

def text (body : Text) : Response := ⟨.ok, .text, body⟩

def metrics (body : Text) : Response := ⟨.ok, .metrics, body⟩

/-- An error, whose body is the status's own reason phrase. -/
def error (status : Status) : Response := ⟨status, .text, status.reason⟩

/-- Headers every response carries. -/
def headers : List (Text × Text) := [
  ("Connection".toList, "close".toList),
  ("Cache-Control".toList, "no-store".toList),
  ("Content-Security-Policy".toList,
    "default-src 'none'; style-src 'unsafe-inline'; form-action 'none'; frame-ancestors 'none'".toList),
  ("X-Content-Type-Options".toList, "nosniff".toList),
  ("Referrer-Policy".toList, "no-referrer".toList),
  ("X-Frame-Options".toList, "DENY".toList)]

def crlf : Text := ['\r', '\n']

/-- The head of a response; the length is the one the body would have. -/
def head (response : Response) : Text :=
  "HTTP/1.1 ".toList ++ decimal response.status.code ++ [' '] ++ response.status.reason ++ crlf ++
    "Content-Type: ".toList ++ response.contentType.asStr ++ crlf ++
    "Content-Length: ".toList ++ decimal (utf8Len response.body) ++ crlf ++
    headers.flatMap (fun header => header.1 ++ ": ".toList ++ header.2 ++ crlf) ++ crlf

/-- Serialise, including the body unless the request was a HEAD. -/
def write (response : Response) (includeBody : Bool) : List UInt8 :=
  toUtf8 response.head ++ if includeBody then toUtf8 response.body else []

end Response

end Kmsrs.Web
