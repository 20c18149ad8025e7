import AdServer.Basic
import AdServer.Library.LastWrite

/-!
The messages of the service. `read_header` puts the line of a request, its headers and its cookies
into one map. A header with the name of a part of the line takes its place there.
-/
namespace AdServer.Server

open LastWrite

def uriKey : Bytes := bytes "URI"

def queryStringKey : Bytes := bytes "QUERY"

def cookieKey : Bytes := bytes "Cookie"

def queryMethodKey : Bytes := bytes "Method"

def userAgentKey : Bytes := bytes "User-Agent"

def remoteAddrKey : Bytes := bytes "X-Forwarded-For"

def refererKey : Bytes := bytes "Referer"

def contentTypeKey : Bytes := bytes "Content-Type"

def contentEncodingKey : Bytes := bytes "Content-Encoding"

def acceptEncodingKey : Bytes := bytes "Accept-Encoding"

structure HttpRequest where
  headers : Bytes → Option Bytes := fun _ => none
  postdata : Bytes := []

namespace HttpRequest

/-- A header that is there is overwritten. -/
def set (request : HttpRequest) (header : Bytes × Bytes) : HttpRequest :=
  { request with headers := write request.headers header }

def get (request : HttpRequest) (key : Bytes) : Bytes := (request.headers key).getD []

def isGzip (request : HttpRequest) : Bool := bytes "gzip" <:+: request.get contentEncodingKey

def isResponseNeedGzip (request : HttpRequest) : Bool :=
  bytes "gzip" <:+: request.get acceptEncodingKey

def pathInfo (request : HttpRequest) : Bytes := request.get uriKey

def requestMethod (request : HttpRequest) : Bytes := request.get queryMethodKey

def queryString (request : HttpRequest) : Bytes := request.get queryStringKey

def setPostData (request : HttpRequest) (data : Bytes) : HttpRequest :=
  { request with postdata := data }

end HttpRequest

/-- `ngx_table_elt_t`; a header that nginx has taken away has the hash 0. -/
structure TableElt where
  hash : Nat
  key : Bytes
  value : Bytes

def TableElt.entry (header : TableElt) : Bytes × Bytes := (header.key, header.value)

/-- `ngx_list_t`: a first part and further ones. A further part is made for a header that does not
fit into the others, so it is not empty. -/
structure NgxList where
  part : List TableElt
  next : List { part : List TableElt // part ≠ [] }

def NgxList.elements (list : NgxList) : List TableElt :=
  list.part ++ list.next.flatMap Subtype.val

structure NgxRequest where
  method : Nat
  methodName : Bytes
  uri : Bytes
  args : Bytes
  headers : NgxList
  cookies : List Bytes
  /-- The buffers of the body; `none` if it is in a file. -/
  requestBody : Option (List Bytes)

/-- The loop of `read_header` over one part. -/
def readPart (request : HttpRequest) (part : List TableElt) : HttpRequest :=
  part.foldl (fun request header => if header.hash = 0 then request else request.set header.entry)
    request

/-- The loop over all parts. Whether a further part is empty is not asked. -/
def readParts (request : HttpRequest) (part : List TableElt) :
    List { part : List TableElt // part ≠ [] } → HttpRequest
  | [] => readPart request part
  | next :: others => readParts (readPart request part) next.val others

def cookiesText (cookies : List Bytes) : Bytes := cookies.flatMap fun cookie => cookie ++ bytes ";"

def readHeader (r : NgxRequest) : HttpRequest :=
  let request : HttpRequest := {}
  let request := request.set (queryMethodKey, r.methodName)
  let request := request.set (uriKey, r.uri)
  let request := request.set (queryStringKey, r.args)
  let request := readParts request r.headers.part r.headers.next
  request.set (cookieKey, cookiesText r.cookies)

structure HttpResponse where
  /-- `none` as long as no status has been set: the member is not initialized. -/
  respStatus : Option Int := none
  statusMsg : Bytes := []
  headers : Bytes → Option Bytes := fun _ => none
  body : Bytes := []
  bodyStream : Bytes := []
  needGzipResponse : Bool := false

namespace HttpResponse

def status (response : HttpResponse) (code : Int) (msg : Bytes := []) : HttpResponse :=
  { response with respStatus := some code, statusMsg := msg }

def set (response : HttpResponse) (header : Bytes × Bytes) : HttpResponse :=
  { response with headers := write response.headers header }

def setContentHeader (response : HttpResponse) (contentType : Bytes) : HttpResponse :=
  response.set (contentTypeKey, contentType)

def contentHeader (response : HttpResponse) : Bytes := (response.headers contentTypeKey).getD []

def setBody (response : HttpResponse) (bodyMessage : Bytes) : HttpResponse :=
  if bodyMessage = [] then response else { response with body := bodyMessage }

end HttpResponse

section ReadHeader

/-- The headers that are not taken away. -/
def liveHeaders (part : List TableElt) : List (Bytes × Bytes) :=
  (part.filter fun header => header.hash ≠ 0).map TableElt.entry

theorem headers_readPart (request : HttpRequest) (part : List TableElt) :
    readPart request part =
      { request with headers := (liveHeaders part).foldl write request.headers } := by
  induction part generalizing request with
  | nil => rfl
  | cons header part ih =>
      rw [readPart, List.foldl_cons]
      by_cases hhash : header.hash = 0
      · rw [if_pos hhash]
        refine (ih request).trans ?_
        rw [liveHeaders, liveHeaders, List.filter_cons_of_neg (by simpa using hhash)]
      · rw [if_neg hhash]
        refine (ih (request.set header.entry)).trans ?_
        rw [liveHeaders, liveHeaders, List.filter_cons_of_pos (by simpa using hhash),
          List.map_cons, List.foldl_cons]
        rfl

theorem liveHeaders_append (part others : List TableElt) :
    liveHeaders (part ++ others) = liveHeaders part ++ liveHeaders others := by
  rw [liveHeaders, List.filter_append, List.map_append]
  rfl

theorem headers_readParts (request : HttpRequest) (part : List TableElt)
    (next : List { part : List TableElt // part ≠ [] }) :
    readParts request part next =
      { request with
        headers :=
          (liveHeaders (part ++ next.flatMap Subtype.val)).foldl write request.headers } := by
  induction next generalizing request part with
  | nil =>
      rw [List.flatMap_nil, List.append_nil]
      exact headers_readPart request part
  | cons other next ih =>
      rw [readParts, ih, headers_readPart, List.flatMap_cons, liveHeaders_append part,
        List.foldl_append]

/-- The last header of a name that is not taken away. -/
def namedHeader (r : NgxRequest) (key : Bytes) : Option Bytes :=
  (last? (fun entry => entry.1 = key) (liveHeaders r.headers.elements)).map Prod.snd

/-- What the line of the request has under a key. -/
def lineEntry (r : NgxRequest) (key : Bytes) : Option Bytes :=
  if key = queryStringKey then some r.args
  else if key = uriKey then some r.uri
  else if key = queryMethodKey then some r.methodName
  else none

/-- The cookies are those that nginx has found, whatever the headers say. Anything else is the last
header of that name, and only if there is none a part of the line. -/
theorem headers_readHeader (r : NgxRequest) (key : Bytes) :
    (readHeader r).headers key =
      if key = cookieKey then some (cookiesText r.cookies)
      else (namedHeader r key).or (lineEntry r key) := by
  rw [readHeader, headers_readParts]
  by_cases hcookie : key = cookieKey
  · rw [if_pos hcookie]
    simp only [HttpRequest.set, write, hcookie, Function.update_self]
  · rw [if_neg hcookie]
    refine (Function.update_of_ne hcookie ..).trans ((foldl_write _ _ key).trans ?_)
    refine congrArg (Option.or _) ?_
    simp only [HttpRequest.set, write, lineEntry, Function.update_apply]

end ReadHeader

end AdServer.Server
