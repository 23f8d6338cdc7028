/-!
Status codes of responses.
-/
namespace HttpContext

inductive Status
  | continue_ | switchingProtocols
  | ok | created | accepted | noContent | partialContent
  | movedPermanently | found | notModified
  | badRequest | unauthorized | forbidden | notFound | methodNotAllowed | requestTimeout
  | payloadTooLarge | rangeNotSatisfiable
  | internalServerError | notImplemented | badGateway | serviceUnavailable
  deriving Repr, DecidableEq

namespace Status

def all : List Status :=
  [continue_, switchingProtocols, ok, created, accepted, noContent, partialContent,
    movedPermanently, found, notModified, badRequest, unauthorized, forbidden, notFound,
    methodNotAllowed, requestTimeout, payloadTooLarge, rangeNotSatisfiable,
    internalServerError, notImplemented, badGateway, serviceUnavailable]

def code : Status → Nat
  | continue_ => 100
  | switchingProtocols => 101
  | ok => 200
  | created => 201
  | accepted => 202
  | noContent => 204
  | partialContent => 206
  | movedPermanently => 301
  | found => 302
  | notModified => 304
  | badRequest => 400
  | unauthorized => 401
  | forbidden => 403
  | notFound => 404
  | methodNotAllowed => 405
  | requestTimeout => 408
  | payloadTooLarge => 413
  | rangeNotSatisfiable => 416
  | internalServerError => 500
  | notImplemented => 501
  | badGateway => 502
  | serviceUnavailable => 503

def reason : Status → String
  | continue_ => "Continue"
  | switchingProtocols => "Switching Protocols"
  | ok => "OK"
  | created => "Created"
  | accepted => "Accepted"
  | noContent => "No Content"
  | partialContent => "Partial Content"
  | movedPermanently => "Moved Permanently"
  | found => "Found"
  | notModified => "Not Modified"
  | badRequest => "Bad Request"
  | unauthorized => "Unauthorized"
  | forbidden => "Forbidden"
  | notFound => "Not Found"
  | methodNotAllowed => "Method Not Allowed"
  | requestTimeout => "Request Timeout"
  | payloadTooLarge => "Payload Too Large"
  | rangeNotSatisfiable => "Range Not Satisfiable"
  | internalServerError => "Internal Server Error"
  | notImplemented => "Not Implemented"
  | badGateway => "Bad Gateway"
  | serviceUnavailable => "Service Unavailable"

def ofCode? (code : Nat) : Option Status :=
  all.find? fun status => status.code == code

end Status

end HttpContext
