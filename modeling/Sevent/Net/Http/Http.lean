/-
# Methods, statuses and versions

`sevent/net/http/http.h`, `sevent/net/http/http.cpp`.

`HttpMethod` and `HttpStatus` are cast to the enumerations of `http_parser.h`,
which have the same members with the same numbers and texts.
-/

import Sevent.Net.Http.ParseUrl

namespace Sevent
namespace Net
namespace Http

/-- `HttpMethod` and `enum http_method`. -/
inductive HttpMethod
  | HTTP_DELETE
  | HTTP_GET
  | HTTP_HEAD
  | HTTP_POST
  | HTTP_PUT
  | HTTP_CONNECT
  | HTTP_OPTIONS
  | HTTP_TRACE
  | HTTP_COPY
  | HTTP_LOCK
  | HTTP_MKCOL
  | HTTP_MOVE
  | HTTP_PROPFIND
  | HTTP_PROPPATCH
  | HTTP_SEARCH
  | HTTP_UNLOCK
  | HTTP_BIND
  | HTTP_REBIND
  | HTTP_UNBIND
  | HTTP_ACL
  | HTTP_REPORT
  | HTTP_MKACTIVITY
  | HTTP_CHECKOUT
  | HTTP_MERGE
  | HTTP_MSEARCH
  | HTTP_NOTIFY
  | HTTP_SUBSCRIBE
  | HTTP_UNSUBSCRIBE
  | HTTP_PATCH
  | HTTP_PURGE
  | HTTP_MKCALENDAR
  | HTTP_LINK
  | HTTP_UNLINK
  | HTTP_SOURCE
  deriving DecidableEq, Repr

/-- `http_method_str`. -/
def HttpMethod.http_method_str : HttpMethod → Bytes
  | .HTTP_DELETE => text "DELETE"
  | .HTTP_GET => text "GET"
  | .HTTP_HEAD => text "HEAD"
  | .HTTP_POST => text "POST"
  | .HTTP_PUT => text "PUT"
  | .HTTP_CONNECT => text "CONNECT"
  | .HTTP_OPTIONS => text "OPTIONS"
  | .HTTP_TRACE => text "TRACE"
  | .HTTP_COPY => text "COPY"
  | .HTTP_LOCK => text "LOCK"
  | .HTTP_MKCOL => text "MKCOL"
  | .HTTP_MOVE => text "MOVE"
  | .HTTP_PROPFIND => text "PROPFIND"
  | .HTTP_PROPPATCH => text "PROPPATCH"
  | .HTTP_SEARCH => text "SEARCH"
  | .HTTP_UNLOCK => text "UNLOCK"
  | .HTTP_BIND => text "BIND"
  | .HTTP_REBIND => text "REBIND"
  | .HTTP_UNBIND => text "UNBIND"
  | .HTTP_ACL => text "ACL"
  | .HTTP_REPORT => text "REPORT"
  | .HTTP_MKACTIVITY => text "MKACTIVITY"
  | .HTTP_CHECKOUT => text "CHECKOUT"
  | .HTTP_MERGE => text "MERGE"
  | .HTTP_MSEARCH => text "M-SEARCH"
  | .HTTP_NOTIFY => text "NOTIFY"
  | .HTTP_SUBSCRIBE => text "SUBSCRIBE"
  | .HTTP_UNSUBSCRIBE => text "UNSUBSCRIBE"
  | .HTTP_PATCH => text "PATCH"
  | .HTTP_PURGE => text "PURGE"
  | .HTTP_MKCALENDAR => text "MKCALENDAR"
  | .HTTP_LINK => text "LINK"
  | .HTTP_UNLINK => text "UNLINK"
  | .HTTP_SOURCE => text "SOURCE"

/-- `HttpStatus` and `enum http_status`. -/
inductive HttpStatus
  | HTTP_STATUS_CONTINUE
  | HTTP_STATUS_SWITCHING_PROTOCOLS
  | HTTP_STATUS_PROCESSING
  | HTTP_STATUS_OK
  | HTTP_STATUS_CREATED
  | HTTP_STATUS_ACCEPTED
  | HTTP_STATUS_NON_AUTHORITATIVE_INFORMATION
  | HTTP_STATUS_NO_CONTENT
  | HTTP_STATUS_RESET_CONTENT
  | HTTP_STATUS_PARTIAL_CONTENT
  | HTTP_STATUS_MULTI_STATUS
  | HTTP_STATUS_ALREADY_REPORTED
  | HTTP_STATUS_IM_USED
  | HTTP_STATUS_MULTIPLE_CHOICES
  | HTTP_STATUS_MOVED_PERMANENTLY
  | HTTP_STATUS_FOUND
  | HTTP_STATUS_SEE_OTHER
  | HTTP_STATUS_NOT_MODIFIED
  | HTTP_STATUS_USE_PROXY
  | HTTP_STATUS_TEMPORARY_REDIRECT
  | HTTP_STATUS_PERMANENT_REDIRECT
  | HTTP_STATUS_BAD_REQUEST
  | HTTP_STATUS_UNAUTHORIZED
  | HTTP_STATUS_PAYMENT_REQUIRED
  | HTTP_STATUS_FORBIDDEN
  | HTTP_STATUS_NOT_FOUND
  | HTTP_STATUS_METHOD_NOT_ALLOWED
  | HTTP_STATUS_NOT_ACCEPTABLE
  | HTTP_STATUS_PROXY_AUTHENTICATION_REQUIRED
  | HTTP_STATUS_REQUEST_TIMEOUT
  | HTTP_STATUS_CONFLICT
  | HTTP_STATUS_GONE
  | HTTP_STATUS_LENGTH_REQUIRED
  | HTTP_STATUS_PRECONDITION_FAILED
  | HTTP_STATUS_PAYLOAD_TOO_LARGE
  | HTTP_STATUS_URI_TOO_LONG
  | HTTP_STATUS_UNSUPPORTED_MEDIA_TYPE
  | HTTP_STATUS_RANGE_NOT_SATISFIABLE
  | HTTP_STATUS_EXPECTATION_FAILED
  | HTTP_STATUS_MISDIRECTED_REQUEST
  | HTTP_STATUS_UNPROCESSABLE_ENTITY
  | HTTP_STATUS_LOCKED
  | HTTP_STATUS_FAILED_DEPENDENCY
  | HTTP_STATUS_UPGRADE_REQUIRED
  | HTTP_STATUS_PRECONDITION_REQUIRED
  | HTTP_STATUS_TOO_MANY_REQUESTS
  | HTTP_STATUS_REQUEST_HEADER_FIELDS_TOO_LARGE
  | HTTP_STATUS_UNAVAILABLE_FOR_LEGAL_REASONS
  | HTTP_STATUS_INTERNAL_SERVER_ERROR
  | HTTP_STATUS_NOT_IMPLEMENTED
  | HTTP_STATUS_BAD_GATEWAY
  | HTTP_STATUS_SERVICE_UNAVAILABLE
  | HTTP_STATUS_GATEWAY_TIMEOUT
  | HTTP_STATUS_HTTP_VERSION_NOT_SUPPORTED
  | HTTP_STATUS_VARIANT_ALSO_NEGOTIATES
  | HTTP_STATUS_INSUFFICIENT_STORAGE
  | HTTP_STATUS_LOOP_DETECTED
  | HTTP_STATUS_NOT_EXTENDED
  | HTTP_STATUS_NETWORK_AUTHENTICATION_REQUIRED
  deriving DecidableEq, Repr

/-- The number of a status. -/
def HttpStatus.code : HttpStatus → ℕ
  | .HTTP_STATUS_CONTINUE => 100
  | .HTTP_STATUS_SWITCHING_PROTOCOLS => 101
  | .HTTP_STATUS_PROCESSING => 102
  | .HTTP_STATUS_OK => 200
  | .HTTP_STATUS_CREATED => 201
  | .HTTP_STATUS_ACCEPTED => 202
  | .HTTP_STATUS_NON_AUTHORITATIVE_INFORMATION => 203
  | .HTTP_STATUS_NO_CONTENT => 204
  | .HTTP_STATUS_RESET_CONTENT => 205
  | .HTTP_STATUS_PARTIAL_CONTENT => 206
  | .HTTP_STATUS_MULTI_STATUS => 207
  | .HTTP_STATUS_ALREADY_REPORTED => 208
  | .HTTP_STATUS_IM_USED => 226
  | .HTTP_STATUS_MULTIPLE_CHOICES => 300
  | .HTTP_STATUS_MOVED_PERMANENTLY => 301
  | .HTTP_STATUS_FOUND => 302
  | .HTTP_STATUS_SEE_OTHER => 303
  | .HTTP_STATUS_NOT_MODIFIED => 304
  | .HTTP_STATUS_USE_PROXY => 305
  | .HTTP_STATUS_TEMPORARY_REDIRECT => 307
  | .HTTP_STATUS_PERMANENT_REDIRECT => 308
  | .HTTP_STATUS_BAD_REQUEST => 400
  | .HTTP_STATUS_UNAUTHORIZED => 401
  | .HTTP_STATUS_PAYMENT_REQUIRED => 402
  | .HTTP_STATUS_FORBIDDEN => 403
  | .HTTP_STATUS_NOT_FOUND => 404
  | .HTTP_STATUS_METHOD_NOT_ALLOWED => 405
  | .HTTP_STATUS_NOT_ACCEPTABLE => 406
  | .HTTP_STATUS_PROXY_AUTHENTICATION_REQUIRED => 407
  | .HTTP_STATUS_REQUEST_TIMEOUT => 408
  | .HTTP_STATUS_CONFLICT => 409
  | .HTTP_STATUS_GONE => 410
  | .HTTP_STATUS_LENGTH_REQUIRED => 411
  | .HTTP_STATUS_PRECONDITION_FAILED => 412
  | .HTTP_STATUS_PAYLOAD_TOO_LARGE => 413
  | .HTTP_STATUS_URI_TOO_LONG => 414
  | .HTTP_STATUS_UNSUPPORTED_MEDIA_TYPE => 415
  | .HTTP_STATUS_RANGE_NOT_SATISFIABLE => 416
  | .HTTP_STATUS_EXPECTATION_FAILED => 417
  | .HTTP_STATUS_MISDIRECTED_REQUEST => 421
  | .HTTP_STATUS_UNPROCESSABLE_ENTITY => 422
  | .HTTP_STATUS_LOCKED => 423
  | .HTTP_STATUS_FAILED_DEPENDENCY => 424
  | .HTTP_STATUS_UPGRADE_REQUIRED => 426
  | .HTTP_STATUS_PRECONDITION_REQUIRED => 428
  | .HTTP_STATUS_TOO_MANY_REQUESTS => 429
  | .HTTP_STATUS_REQUEST_HEADER_FIELDS_TOO_LARGE => 431
  | .HTTP_STATUS_UNAVAILABLE_FOR_LEGAL_REASONS => 451
  | .HTTP_STATUS_INTERNAL_SERVER_ERROR => 500
  | .HTTP_STATUS_NOT_IMPLEMENTED => 501
  | .HTTP_STATUS_BAD_GATEWAY => 502
  | .HTTP_STATUS_SERVICE_UNAVAILABLE => 503
  | .HTTP_STATUS_GATEWAY_TIMEOUT => 504
  | .HTTP_STATUS_HTTP_VERSION_NOT_SUPPORTED => 505
  | .HTTP_STATUS_VARIANT_ALSO_NEGOTIATES => 506
  | .HTTP_STATUS_INSUFFICIENT_STORAGE => 507
  | .HTTP_STATUS_LOOP_DETECTED => 508
  | .HTTP_STATUS_NOT_EXTENDED => 510
  | .HTTP_STATUS_NETWORK_AUTHENTICATION_REQUIRED => 511

/-- `http_status_str`. -/
def HttpStatus.http_status_str : HttpStatus → Bytes
  | .HTTP_STATUS_CONTINUE => text "Continue"
  | .HTTP_STATUS_SWITCHING_PROTOCOLS => text "Switching Protocols"
  | .HTTP_STATUS_PROCESSING => text "Processing"
  | .HTTP_STATUS_OK => text "OK"
  | .HTTP_STATUS_CREATED => text "Created"
  | .HTTP_STATUS_ACCEPTED => text "Accepted"
  | .HTTP_STATUS_NON_AUTHORITATIVE_INFORMATION => text "Non-Authoritative Information"
  | .HTTP_STATUS_NO_CONTENT => text "No Content"
  | .HTTP_STATUS_RESET_CONTENT => text "Reset Content"
  | .HTTP_STATUS_PARTIAL_CONTENT => text "Partial Content"
  | .HTTP_STATUS_MULTI_STATUS => text "Multi-Status"
  | .HTTP_STATUS_ALREADY_REPORTED => text "Already Reported"
  | .HTTP_STATUS_IM_USED => text "IM Used"
  | .HTTP_STATUS_MULTIPLE_CHOICES => text "Multiple Choices"
  | .HTTP_STATUS_MOVED_PERMANENTLY => text "Moved Permanently"
  | .HTTP_STATUS_FOUND => text "Found"
  | .HTTP_STATUS_SEE_OTHER => text "See Other"
  | .HTTP_STATUS_NOT_MODIFIED => text "Not Modified"
  | .HTTP_STATUS_USE_PROXY => text "Use Proxy"
  | .HTTP_STATUS_TEMPORARY_REDIRECT => text "Temporary Redirect"
  | .HTTP_STATUS_PERMANENT_REDIRECT => text "Permanent Redirect"
  | .HTTP_STATUS_BAD_REQUEST => text "Bad Request"
  | .HTTP_STATUS_UNAUTHORIZED => text "Unauthorized"
  | .HTTP_STATUS_PAYMENT_REQUIRED => text "Payment Required"
  | .HTTP_STATUS_FORBIDDEN => text "Forbidden"
  | .HTTP_STATUS_NOT_FOUND => text "Not Found"
  | .HTTP_STATUS_METHOD_NOT_ALLOWED => text "Method Not Allowed"
  | .HTTP_STATUS_NOT_ACCEPTABLE => text "Not Acceptable"
  | .HTTP_STATUS_PROXY_AUTHENTICATION_REQUIRED => text "Proxy Authentication Required"
  | .HTTP_STATUS_REQUEST_TIMEOUT => text "Request Timeout"
  | .HTTP_STATUS_CONFLICT => text "Conflict"
  | .HTTP_STATUS_GONE => text "Gone"
  | .HTTP_STATUS_LENGTH_REQUIRED => text "Length Required"
  | .HTTP_STATUS_PRECONDITION_FAILED => text "Precondition Failed"
  | .HTTP_STATUS_PAYLOAD_TOO_LARGE => text "Payload Too Large"
  | .HTTP_STATUS_URI_TOO_LONG => text "URI Too Long"
  | .HTTP_STATUS_UNSUPPORTED_MEDIA_TYPE => text "Unsupported Media Type"
  | .HTTP_STATUS_RANGE_NOT_SATISFIABLE => text "Range Not Satisfiable"
  | .HTTP_STATUS_EXPECTATION_FAILED => text "Expectation Failed"
  | .HTTP_STATUS_MISDIRECTED_REQUEST => text "Misdirected Request"
  | .HTTP_STATUS_UNPROCESSABLE_ENTITY => text "Unprocessable Entity"
  | .HTTP_STATUS_LOCKED => text "Locked"
  | .HTTP_STATUS_FAILED_DEPENDENCY => text "Failed Dependency"
  | .HTTP_STATUS_UPGRADE_REQUIRED => text "Upgrade Required"
  | .HTTP_STATUS_PRECONDITION_REQUIRED => text "Precondition Required"
  | .HTTP_STATUS_TOO_MANY_REQUESTS => text "Too Many Requests"
  | .HTTP_STATUS_REQUEST_HEADER_FIELDS_TOO_LARGE => text "Request Header Fields Too Large"
  | .HTTP_STATUS_UNAVAILABLE_FOR_LEGAL_REASONS => text "Unavailable For Legal Reasons"
  | .HTTP_STATUS_INTERNAL_SERVER_ERROR => text "Internal Server Error"
  | .HTTP_STATUS_NOT_IMPLEMENTED => text "Not Implemented"
  | .HTTP_STATUS_BAD_GATEWAY => text "Bad Gateway"
  | .HTTP_STATUS_SERVICE_UNAVAILABLE => text "Service Unavailable"
  | .HTTP_STATUS_GATEWAY_TIMEOUT => text "Gateway Timeout"
  | .HTTP_STATUS_HTTP_VERSION_NOT_SUPPORTED => text "HTTP Version Not Supported"
  | .HTTP_STATUS_VARIANT_ALSO_NEGOTIATES => text "Variant Also Negotiates"
  | .HTTP_STATUS_INSUFFICIENT_STORAGE => text "Insufficient Storage"
  | .HTTP_STATUS_LOOP_DETECTED => text "Loop Detected"
  | .HTTP_STATUS_NOT_EXTENDED => text "Not Extended"
  | .HTTP_STATUS_NETWORK_AUTHENTICATION_REQUIRED => text "Network Authentication Required"

/-- `HttpVersion`, without `HTTP_SIZE`. -/
inductive HttpVersion
  | HTTP_1_0
  | HTTP_1_1
  | HTTP_2_0
  deriving DecidableEq, Repr

def methodToString (v : HttpMethod) : Bytes := v.http_method_str

def statusdToString (v : HttpStatus) : Bytes := v.http_status_str

def versionToString : HttpVersion → Bytes
  | .HTTP_1_0 => text "HTTP/1.0"
  | .HTTP_1_1 => text "HTTP/1.1"
  | .HTTP_2_0 => text "HTTP/2.0"

/-- `std::to_string` of a number that is not negative. -/
def to_string (n : ℕ) : Bytes := (Nat.toDigits 10 n).map Char.toUInt8

end Http
end Net
end Sevent
