import Two.Frames
import Two.HeaderList

/-!
# Requests and responses

The part of `two.c` that `http2.c` calls: from a method and a path to the resource registered for
them, and from the resource's handler to the response.

## Main definitions

* `Resource`, `Resources`: the registered resources; a handler is code of the application
* `parseUri`, `findResource`, `httpGetMethod`, `httpHasMethodSupport`, `httpHandleRequest`
* `validatePseudoheaders`: the checks of `http2.c` on a request
* `responseHeaders`: the header list `handle_end_stream` builds for a response

## Main results

* `contentLength_httpHandleRequest_le`: the content fits the memory given for it
-/

namespace Two

/-- `two_resource_t`. The handler belongs to the application: from the number of requests
served before, a method and a path it gives its result and the bytes it leaves in the zeroed
response memory, so two calls need not agree. -/
structure Resource where
  path : Bytes
  method : Bytes
  contentType : Bytes
  handler : ℕ → Bytes → Bytes → ℤ × Bytes

/-- `server_resources`. -/
abbrev Resources := List Resource

/-- `parse_uri` without the query parameters. The length is kept in an `unsigned int`. -/
def parseUri (uri : Bytes) (maxpath : ℕ) : Bytes :=
  let len := uri.length % 2 ^ 32
  -- a path without a leading slash gets one
  let (slash, maxpath) :=
    if len = 0 ∨ uri.head? ≠ some 47 then ([47], maxpath - 1) else ([], maxpath)
  -- from the first `?` on
  let ptr := uri.dropWhile (· != 63)
  let len := (len + 2 ^ 32 - ptr.length % 2 ^ 32) % 2 ^ 32
  slash ++ uri.take (min len (maxpath - 1))

/-- `find_resource`. -/
def findResource (server : Resources) (method path : Bytes) : Option Resource :=
  server.find? fun res =>
    res.path.take twoMaxPathSize == path.take twoMaxPathSize && res.method.isPrefixOf method

/-- `allowed_http_methods`. -/
def allowedHttpMethods : List Bytes :=
  [ascii "GET", ascii "HEAD", ascii "POST", ascii "PUT", ascii "DELETE"]

/-- `http_get_method`. -/
def httpGetMethod (method : Bytes) : Option Bytes :=
  allowedHttpMethods.find? fun allowed => allowed.isPrefixOf method

/-- `http_has_method_support`. -/
def httpHasMethodSupport (method : Bytes) : Bool :=
  match httpGetMethod method with
  | none => false
  | some method => (ascii "GET").isPrefixOf method

/-- `http_response_t`; `content` is the whole memory that holds the body. -/
structure HttpResponse where
  status : ℕ
  contentType : Option Bytes
  contentLength : ℕ
  content : Bytes

/-- The body of a response. -/
def HttpResponse.body (res : HttpResponse) : Bytes := slice res.content 0 res.contentLength

/-- `http_error`. -/
def httpError (content : Bytes) (code : ℕ) : HttpResponse := ⟨code, none, 0, content⟩

/-- The memory of the response after `memset` and the handler. -/
def responseMemory (written : Bytes) (maxlen : ℕ) : Bytes :=
  written.take maxlen ++ List.replicate (maxlen - written.length) 0

/-- `http_handle_request`, with the response memory `content` of `maxlen` bytes. -/
def httpHandleRequest (server : Resources) (calls : ℕ) (method path content : Bytes) (maxlen : ℕ) :
    HttpResponse :=
  if !httpHasMethodSupport method then httpError content 501
  else
    let path := parseUri path twoMaxPathSize
    match findResource server method path with
    | none => httpError content 404
    | some res =>
      let (contentLength, written) := res.handler calls method path
      let content := responseMemory written maxlen
      -- the handler has failed
      if contentLength < 0 then httpError content 500
      else ⟨200, some res.contentType, min contentLength.toNat maxlen, content⟩

/-- `validate_pseudoheaders`. -/
def validatePseudoheaders (headers : HeaderList) : Bool :=
  [":method", ":scheme", ":path"].all (fun name =>
    match headers.get (ascii name) with
    | none => false
    | some value => value != [] && !value.contains 44) &&
  headers.get (ascii "connection") == none &&
  match headers.get (ascii "te") with
  | none => true
  | some value => value == ascii "trailers"

/-- `header_list_set` where the result is not looked at. -/
def HeaderList.put (l : HeaderList) (name value : Bytes) : HeaderList := (l.set name value).getD l

/-- The response headers that `handle_end_stream` sets. `snprintf` keeps three characters of the
status and nine of the length. -/
def responseHeaders (res : HttpResponse) : HeaderList :=
  let l := HeaderList.reset.put (ascii ":status") ((ascii (toString res.status)).take 3)
  let l := match res.contentType with
    | none => l
    | some contentType => l.put (ascii "content-type") contentType
  l.put (ascii "content-length") ((ascii (toString res.contentLength)).take 9)

@[simp] theorem length_responseMemory (written : Bytes) (maxlen : ℕ) :
    (responseMemory written maxlen).length = maxlen := by
  simp only [responseMemory, List.length_append, List.length_take, List.length_replicate]
  omega

/-- The content fits the memory given for it. -/
theorem contentLength_httpHandleRequest_le (server : Resources) (calls : ℕ)
    (method path content : Bytes) (maxlen : ℕ) :
    (httpHandleRequest server calls method path content maxlen).contentLength ≤ maxlen := by
  unfold httpHandleRequest
  split
  · exact Nat.zero_le _
  · dsimp only
    split
    · exact Nat.zero_le _
    · split
      · exact Nat.zero_le _
      · exact Nat.min_le_right _ _

end Two
