import AdServer.Library.Lockstep
import AdServer.Server.Config
import AdServer.Server.Http

/-!
The handler of the nginx module. The first request initializes the service with the configuration
of its location; a request then goes to one of the tasks by its path, and what the task has written
is sent. An exception that nothing catches ends the process.
-/
namespace AdServer.Server

inductive TaskKind where
  | bidQuery | showQuery | clickQuery | mappingQuery | trace | toolQuery
  deriving DecidableEq, Repr

def TaskKind.expectedReqStatus : TaskKind → Int
  | bidQuery => 300
  | showQuery => 200
  | clickQuery => 302
  | mappingQuery => 200
  | trace => 302
  | toolQuery => 200

/-- What the constructor of a task takes from the request. -/
structure TaskInput where
  isPost : Bool
  data : Bytes
  userCookies : Bytes
  userAgent : Bytes
  userIp : Bytes
  referer : Bytes

def TaskInput.ofRequest (request : HttpRequest) : TaskInput where
  isPost := request.requestMethod = bytes "POST"
  data :=
    if request.requestMethod = bytes "POST" then request.postdata else request.queryString
  userCookies := request.get cookieKey
  userAgent := request.get userAgentKey
  userIp := request.get remoteAddrKey
  referer := request.get refererKey

/-- What the logic of a task does to the response, and its messages to the log. -/
inductive ResponseWrite where
  | status (code : Int) (msg : Bytes)
  | header (entry : Bytes × Bytes)
  | body (text : Bytes)
  | log (text : Bytes)

inductive Ending where
  | returns | stdException | otherException
  deriving DecidableEq, Repr

structure Reaction where
  writes : List ResponseWrite
  ending : Ending
  /-- The message of `onError`. -/
  errorMessage : Bytes := []

structure DebugRequest where
  originmethod : Bytes
  originmodule : Bytes
  requestdata : Bytes

structure DebugResponse where
  respstatus : Int
  responsedata : Bytes
  debugmessage : Bytes

/-- What the handler takes from elsewhere during one request. -/
structure Surroundings where
  /-- The configuration of the location of the request. -/
  conf : LocationConf
  /-- How the rest of `global_init` ends. -/
  initEnding : Ending
  /-- `commonLogic`, `customLogic` and `doLog` of a task, with all that it finds from the requests
  before. -/
  logic : GlobalConfig → TaskKind → TaskInput → Reaction
  /-- A line of the log in a debug session. -/
  formatLog : Bytes → Bytes
  compress : Bytes → Bytes
  /-- `none` if the decompressor throws. -/
  decompress : Bytes → Option Bytes
  getProtoBufObject : Bytes → Option DebugRequest
  writeProtoBufObject : DebugResponse → Bytes
  /-- What a status that was never set happens to be. -/
  stackStatus : Int

structure ServiceState where
  serviceInitialized : Bool := false
  inDebugSession : Bool := false
  globalConfig : GlobalConfig := {}
  /-- How often `global_init` has come to its end. -/
  initialisations : Nat := 0

/-- What nginx sends. -/
structure Reply where
  status : Int
  contentType : Option Bytes
  headers : Bytes → Option Bytes
  body : Option Bytes

section Handler

variable (env : Surroundings)

/-- A message goes to the response in a debug session and to a file else. -/
def logTo (inDebugSession : Bool) (response : HttpResponse) (text : Bytes) : HttpResponse :=
  if inDebugSession then { response with bodyStream := response.bodyStream ++ env.formatLog text }
  else response

def applyWrite (inDebugSession : Bool) (response : HttpResponse) : ResponseWrite → HttpResponse
  | .status code msg => response.status code msg
  | .header entry => response.set entry
  | .body text => response.setBody text
  | .log text => logTo env inDebugSession response text

/-- `AbstractQueryTask::operator()`, and whether an exception leaves it. -/
def runTask (s : ServiceState) (kind : TaskKind) (request : HttpRequest)
    (response : HttpResponse) : HttpResponse × Ending :=
  let reaction := env.logic s.globalConfig kind (TaskInput.ofRequest request)
  let response :=
    reaction.writes.foldl (applyWrite env s.inDebugSession) (response.status kind.expectedReqStatus)
  match reaction.ending with
  | .returns => (response, .returns)
  | .stdException =>
    let response := (response.status 500 (bytes "error")).setContentHeader (bytes "text/html")
    (logTo env s.inDebugSession response reaction.errorMessage, .returns)
  | .otherException => (response, .otherException)

def dispatchRequest (s : ServiceState) (request : HttpRequest) (response : HttpResponse) :
    HttpResponse × Ending :=
  let queryPath := request.pathInfo
  if bytes "bid" <:+: queryPath then runTask env s .bidQuery request response
  else if queryPath = bytes "/v" ∨ queryPath = bytes "/s" then
    runTask env s .showQuery request response
  else if queryPath = bytes "/c" then runTask env s .clickQuery request response
  else if queryPath = bytes "/m" then runTask env s .mappingQuery request response
  else if queryPath = bytes "/t" then runTask env s .trace request response
  else if queryPath = bytes "/tool" then runTask env s .toolQuery request response
  else ((response.status 204).setContentHeader (bytes "text/html"), .returns)

def buildResponse (response : HttpResponse) : Reply :=
  let status := response.respStatus.getD env.stackStatus
  let response :=
    if status ≠ 204 ∧ response.body = [] then response.setBody (bytes "\r") else response
  let strResp := if response.needGzipResponse then env.compress response.body else response.body
  { status := status
    contentType := if status = 200 then some response.contentHeader else none
    headers := fun key => if key = contentTypeKey then none else response.headers key
    body := if status = 204 then none else some strResp }

def makeDebugRequest (request : HttpRequest) (debugRequest : DebugRequest) : HttpRequest :=
  let request := request.set (queryMethodKey, debugRequest.originmethod)
  let request := request.set (uriKey, debugRequest.originmodule)
  if request.requestMethod = bytes "GET" then
    request.set (queryStringKey, debugRequest.requestdata)
  else request.setPostData debugRequest.requestdata

/-- A debug session: the request inside is handled and packed up with its log. -/
def debugSession (s : ServiceState) (request : HttpRequest) (debugRequest : DebugRequest)
    (response : HttpResponse) : Option (ServiceState × HttpResponse) :=
  let s := { s with inDebugSession := true }
  let response := logTo env s.inDebugSession response (bytes "start debug session")
  match dispatchRequest env s (makeDebugRequest request debugRequest) response with
  | (response, .returns) =>
    let respstatus := response.respStatus.getD env.stackStatus
    let response := response.status 200
    let response := response.setBody
      (env.writeProtoBufObject ⟨respstatus, response.body, response.bodyStream⟩)
    some ({ s with inDebugSession := false }, response)
  | (response, .stdException) => some ({ s with inDebugSession := false }, response)
  | (_, .otherException) => none

/-- The body of a request that has one in memory. -/
def readPostData (r : NgxRequest) (request : HttpRequest) : Option HttpRequest :=
  match r.requestBody with
  | none => some request
  | some bufs =>
    if request.isGzip then (env.decompress bufs.flatten).map request.setPostData
    else some (request.setPostData bufs.flatten)

/-- A task outside of a debug session; an exception that leaves it ends the process. -/
def runAlone (s : ServiceState) (outcome : HttpResponse × Ending) :
    Option (ServiceState × HttpResponse) :=
  match outcome with
  | (response, .returns) => some (s, response)
  | _ => none

/-- What `after_read_post_data` does with the request before it builds the response. -/
def handlePost (s : ServiceState) (request : HttpRequest) : Option (ServiceState × HttpResponse) :=
  let queryPath := request.pathInfo
  if bytes "bid" <:+: queryPath then
    runAlone s (runTask env s .bidQuery request {})
  else if queryPath = bytes "/tool" then
    runAlone s (runTask env s .toolQuery request {})
  else if queryPath = bytes "/debug" then
    match env.getProtoBufObject request.postdata with
    | none => some (s, {})
    | some debugRequest => debugSession env s request debugRequest {}
  else some (s, {})

def afterReadPostData (s : ServiceState) (r : NgxRequest) : Option (ServiceState × Reply) := do
  let request ← readPostData env r (readHeader r)
  let (s, response) ← handlePost env s request
  some (s, buildResponse env response)

def httpPost : Nat := 8

/-- `!r->method & (NGX_HTTP_HEAD | NGX_HTTP_GET | NGX_HTTP_POST)`, where `!` comes first. -/
def methodRefused (method : Nat) : Bool :=
  ((if method = 0 then 1 else 0) &&& (4 ||| 2 ||| httpPost)) ≠ 0

def notAllowed : Reply := ⟨405, none, fun _ => none, none⟩

def globalInit (s : ServiceState) : Option ServiceState :=
  if s.serviceInitialized then some s
  else do
    let config ← s.globalConfig.take env.conf
    if env.initEnding = .returns then
      some {
        s with
        serviceInitialized := true
        globalConfig := config
        initialisations := s.initialisations + 1 }
    else none

/-- The response that a request with another method than `POST` starts with. -/
def freshResponse (request : HttpRequest) : HttpResponse :=
  if request.isResponseNeedGzip then
    { ({} : HttpResponse).set (contentEncodingKey, bytes "gzip") with needGzipResponse := true }
  else {}

/-- There is no reply yet if the body of the request is still to be read. -/
def adserviceHandler (s : ServiceState) (r : NgxRequest) :
    Option (ServiceState × Option Reply) :=
  if methodRefused r.method then some (s, some notAllowed)
  else do
    let s ← (if s.serviceInitialized then some s else globalInit env s)
    if r.method = httpPost then some (s, none)
    else
      let request := readHeader r
      let (s, response) ←
        runAlone s (dispatchRequest env s request (freshResponse request))
      some (s, some (buildResponse env response))

/-- What nginx calls the module for. -/
inductive Callback where
  | handler | afterBody
  deriving DecidableEq, Repr

structure Visit where
  callback : Callback
  request : NgxRequest
  env : Surroundings

def visit (s : ServiceState) (v : Visit) : Option (ServiceState × Option Reply) :=
  match v.callback with
  | .handler => adserviceHandler v.env s v.request
  | .afterBody => (afterReadPostData v.env s v.request).map fun (s, reply) => (s, some reply)

end Handler

section Status

variable {env : Surroundings} {s s' : ServiceState} {r : NgxRequest} {request : HttpRequest}

theorem respStatus_applyWrite {response : HttpResponse} (inDebugSession : Bool)
    (write : ResponseWrite) (h : response.respStatus.isSome) :
    (applyWrite env inDebugSession response write).respStatus.isSome := by
  cases write with
  | status code msg => rfl
  | header entry => exact h
  | body text =>
      rw [applyWrite, HttpResponse.setBody]
      split
      · exact h
      · exact h
  | log text =>
      rw [applyWrite, logTo]
      split
      · exact h
      · exact h

theorem respStatus_foldl {response : HttpResponse} (inDebugSession : Bool)
    (writes : List ResponseWrite) (h : response.respStatus.isSome) :
    (writes.foldl (applyWrite env inDebugSession) response).respStatus.isSome := by
  induction writes generalizing response with
  | nil => exact h
  | cons write writes ih => exact ih (respStatus_applyWrite inDebugSession write h)

/-- A task sets the status, and no exception of the standard library leaves it. -/
theorem runTask_spec (env : Surroundings) (s : ServiceState) (kind : TaskKind)
    (request : HttpRequest) (response : HttpResponse) :
    (runTask env s kind request response).1.respStatus.isSome ∧
      (runTask env s kind request response).2 ≠ .stdException := by
  have hwrites : ((env.logic s.globalConfig kind (TaskInput.ofRequest request)).writes.foldl
      (applyWrite env s.inDebugSession)
        (response.status kind.expectedReqStatus)).respStatus.isSome :=
    respStatus_foldl s.inDebugSession _ rfl
  rw [runTask]
  cases (env.logic s.globalConfig kind (TaskInput.ofRequest request)).ending with
  | returns => exact ⟨hwrites, (by decide : Ending.returns ≠ .stdException)⟩
  | stdException =>
      refine ⟨?_, (by decide : Ending.returns ≠ .stdException)⟩
      exact respStatus_applyWrite s.inDebugSession (.log _) rfl
  | otherException => exact ⟨hwrites, (by decide : Ending.otherException ≠ .stdException)⟩

theorem dispatchRequest_spec (env : Surroundings) (s : ServiceState) (request : HttpRequest)
    (response : HttpResponse) :
    (dispatchRequest env s request response).1.respStatus.isSome ∧
      (dispatchRequest env s request response).2 ≠ .stdException := by
  rw [dispatchRequest]
  repeat' split
  all_goals first
    | exact runTask_spec ..
    | exact ⟨rfl, (by decide : Ending.returns ≠ .stdException)⟩

theorem respStatus_debugSession {debugRequest : DebugRequest} {response response' : HttpResponse}
    (h : debugSession env s request debugRequest response = some (s', response')) :
    s' = { s with inDebugSession := false } ∧ response'.respStatus = some 200 := by
  have hspec := dispatchRequest_spec env { s with inDebugSession := true }
    (makeDebugRequest request debugRequest)
    (logTo env true response (bytes "start debug session"))
  rw [debugSession] at h
  split at h
  · cases h
    refine ⟨rfl, ?_⟩
    rw [HttpResponse.setBody]
    split <;> rfl
  · rename_i hending
    rw [hending] at hspec
    exact absurd rfl hspec.2
  · cases h

/-- A request that `after_read_post_data` gives to no task. -/
structure Untaken (env : Surroundings) (request : HttpRequest) : Prop where
  noBid : ¬bytes "bid" <:+: request.pathInfo
  noTool : request.pathInfo ≠ bytes "/tool"
  noDebug : request.pathInfo = bytes "/debug" → env.getProtoBufObject request.postdata = none

theorem runAlone_eq_some {outcome : HttpResponse × Ending} {response : HttpResponse}
    (h : runAlone s outcome = some (s', response)) : s' = s ∧ response = outcome.1 := by
  unfold runAlone at h
  split at h
  · cases h
    exact ⟨rfl, rfl⟩
  · cases h

theorem handlePost_spec {response : HttpResponse} (hs : s.inDebugSession = false)
    (h : handlePost env s request = some (s', response)) :
    s' = s ∧ (Untaken env request ∧ response = {} ∨
      ¬Untaken env request ∧ response.respStatus.isSome) := by
  rw [handlePost] at h
  split at h
  · rename_i hbid
    obtain ⟨rfl, rfl⟩ := runAlone_eq_some h
    exact ⟨rfl, .inr ⟨fun huntaken => huntaken.noBid hbid, (runTask_spec ..).1⟩⟩
  · rename_i hbid
    split at h
    · rename_i htool
      obtain ⟨rfl, rfl⟩ := runAlone_eq_some h
      exact ⟨rfl, .inr ⟨fun huntaken => huntaken.noTool htool, (runTask_spec ..).1⟩⟩
    · rename_i htool
      split at h
      · rename_i hdebug
        split at h
        · rename_i hparse
          cases h
          exact ⟨rfl, .inl ⟨⟨hbid, htool, fun _ => hparse⟩, rfl⟩⟩
        · rename_i hparse
          obtain ⟨rfl, hstatus⟩ := respStatus_debugSession h
          refine ⟨?_, .inr ⟨fun huntaken => ?_, Option.isSome_of_eq_some hstatus⟩⟩
          · rw [← hs]
          · cases (huntaken.noDebug hdebug).symm.trans hparse
      · rename_i hdebug
        cases h
        exact ⟨rfl, .inl ⟨⟨hbid, htool, fun hpath => absurd hpath hdebug⟩, rfl⟩⟩

/-- The status of the request inside a debug session is set when it is packed up. -/
theorem debugSession_stackStatus (g : Int) (debugRequest : DebugRequest) (response : HttpResponse) :
    debugSession { env with stackStatus := g } s request debugRequest response =
      debugSession env s request debugRequest response := by
  have hspec := dispatchRequest_spec env { s with inDebugSession := true }
    (makeDebugRequest request debugRequest)
    (logTo env true response (bytes "start debug session"))
  have hdispatch : dispatchRequest { env with stackStatus := g } = dispatchRequest env := rfl
  have hlog : logTo { env with stackStatus := g } = logTo env := rfl
  simp only [debugSession, hdispatch, hlog]
  cases hinside : dispatchRequest env { s with inDebugSession := true }
    (makeDebugRequest request debugRequest)
    (logTo env true response (bytes "start debug session")) with
  | mk inner ending =>
      rw [hinside] at hspec
      obtain ⟨code, (hcode : inner.respStatus = some code)⟩ := Option.isSome_iff_exists.mp hspec.1
      cases ending with
      | returns => simp only [hcode, Option.getD_some]
      | stdException => rfl
      | otherException => rfl

theorem handlePost_stackStatus (g : Int) :
    handlePost { env with stackStatus := g } s request = handlePost env s request := by
  have hrun : runTask { env with stackStatus := g } = runTask env := rfl
  simp only [handlePost, hrun, debugSession_stackStatus]

theorem buildResponse_stackStatus {response : HttpResponse} (h : response.respStatus.isSome)
    (g : Int) :
    buildResponse { env with stackStatus := g } response = buildResponse env response := by
  obtain ⟨code, hcode⟩ := Option.isSome_iff_exists.mp h
  simp only [buildResponse, hcode, Option.getD_some]

/-- `!` binds closer than `&`, so no method is refused. -/
theorem methodRefused_eq_false (method : Nat) : methodRefused method = false := by
  rw [methodRefused]
  split <;> rfl

theorem adserviceHandler_eq (env : Surroundings) (s : ServiceState) (r : NgxRequest) :
    adserviceHandler env s r = (globalInit env s).bind fun s =>
      if r.method = httpPost then some (s, none)
      else
        (runAlone s (dispatchRequest env s (readHeader r) (freshResponse (readHeader r)))).map
          fun (s, response) => (s, some (buildResponse env response)) := by
  have hinit : (if s.serviceInitialized then some s else globalInit env s) = globalInit env s := by
    rw [globalInit]
    split <;> rfl
  rw [adserviceHandler, methodRefused_eq_false, if_neg Bool.false_ne_true, hinit]
  refine congrArg (Option.bind _) (funext fun s => ?_)
  rw [Option.map_eq_bind]
  rfl

theorem adserviceHandler_stackStatus (g : Int) :
    adserviceHandler { env with stackStatus := g } s r = adserviceHandler env s r := by
  have hinit : globalInit { env with stackStatus := g } = globalInit env := rfl
  have hdispatch : dispatchRequest { env with stackStatus := g } = dispatchRequest env := rfl
  rw [adserviceHandler_eq, adserviceHandler_eq, hinit, hdispatch]
  refine congrArg (Option.bind _) (funext fun s => ?_)
  split
  · rfl
  · cases hrun : runAlone s
        (dispatchRequest env s (readHeader r) (freshResponse (readHeader r))) with
    | none => rfl
    | some result =>
        obtain ⟨t, response⟩ := result
        obtain ⟨rfl, rfl⟩ := runAlone_eq_some hrun
        exact congrArg (fun reply => some (t, some reply))
          (buildResponse_stackStatus (dispatchRequest_spec ..).1 g)

/-- A request that no task takes when its body has been read. -/
def UntakenPost (env : Surroundings) (r : NgxRequest) : Prop :=
  ∃ request, readPostData env r (readHeader r) = some request ∧ Untaken env request

theorem afterReadPostData_eq_some {reply : Reply}
    (h : afterReadPostData env s r = some (s', reply)) :
    ∃ request response, readPostData env r (readHeader r) = some request ∧
      handlePost env s request = some (s', response) ∧ reply = buildResponse env response := by
  obtain ⟨request, hread, hrest⟩ := Option.bind_eq_some_iff.mp h
  obtain ⟨⟨t, response⟩, hhandle, hbuild⟩ := Option.bind_eq_some_iff.mp hrest
  cases hbuild
  exact ⟨request, response, hread, hhandle, rfl⟩

theorem afterReadPostData_stackStatus {response : HttpResponse}
    (hread : readPostData env r (readHeader r) = some request)
    (hhandle : handlePost env s request = some (s', response)) (g : Int) :
    afterReadPostData { env with stackStatus := g } s r =
      some (s', buildResponse { env with stackStatus := g } response) := by
  have hsame : readPostData { env with stackStatus := g } r (readHeader r) = some request := hread
  rw [afterReadPostData, hsame]
  refine Eq.trans (Option.bind_some ..) ?_
  rw [handlePost_stackStatus, hhandle]
  rfl

def Visit.withStackStatus (v : Visit) (g : Int) : Visit :=
  { v with env := { v.env with stackStatus := g } }

/-- What nginx gets from the module is a matter of the request, unless no task takes it: then the
reply has whatever number was in the memory of the response. -/
theorem reply_determined_iff (s s' : ServiceState) (v : Visit) (answer : Option Reply)
    (hs : s.inDebugSession = false) (h : visit s v = some (s', answer)) :
    (∀ g, visit s (v.withStackStatus g) = some (s', answer)) ↔
      (v.callback = .afterBody → ¬UntakenPost v.env v.request) := by
  obtain ⟨callback, r, env⟩ := v
  cases callback with
  | handler =>
      refine ⟨fun _ hcallback => (nomatch hcallback), fun _ g => ?_⟩
      exact (adserviceHandler_stackStatus g).trans h
  | afterBody =>
      obtain ⟨⟨t, reply⟩, hafter, hanswer⟩ := Option.map_eq_some_iff.mp h
      cases hanswer
      obtain ⟨request, response, hread, hhandle, rfl⟩ := afterReadPostData_eq_some hafter
      have hother (g : Int) : visit s (Visit.withStackStatus ⟨.afterBody, r, env⟩ g) =
          some (s', some (buildResponse { env with stackStatus := g } response)) :=
        congrArg (Option.map _) (afterReadPostData_stackStatus hread hhandle g)
      obtain ⟨-, ⟨huntaken, rfl⟩ | ⟨htaken, hstatus⟩⟩ := handlePost_spec hs hhandle
      · refine ⟨fun hall => ?_, fun htaken => absurd ⟨request, hread, huntaken⟩ (htaken rfl)⟩
        have hequal := (hother (env.stackStatus + 1)).symm.trans (hall (env.stackStatus + 1))
        have hstatus : some (env.stackStatus + 1) = some env.stackStatus :=
          congrArg (fun result => result.bind fun out => out.2.map Reply.status) hequal
        exact absurd (Option.some.inj hstatus) (by omega)
      · refine ⟨fun _ _ hpost => ?_, fun _ g => ?_⟩
        · obtain ⟨request', hread', huntaken⟩ := hpost
          cases hread.symm.trans hread'
          exact htaken huntaken
        · rw [hother, buildResponse_stackStatus hstatus]

/-- A `POST` to a path that no task has. -/
def strayPost : NgxRequest :=
  ⟨httpPost, bytes "POST", bytes "/v", [], ⟨[], []⟩, [], some []⟩

/-- Tasks that do nothing. -/
def idle : Surroundings where
  conf := mergeLocationConf createLocationConf createLocationConf
  initEnding := .returns
  logic _ _ _ := { writes := [], ending := .returns }
  formatLog text := text
  compress text := text
  decompress text := some text
  getProtoBufObject _ := none
  writeProtoBufObject _ := []
  stackStatus := 0

theorem reply_determined_iff_stray :
    visit {} ⟨.afterBody, strayPost, idle⟩ = some ({}, some (buildResponse idle {})) ∧
      ((∀ g, visit {} (Visit.withStackStatus ⟨.afterBody, strayPost, idle⟩ g) =
          some ({}, some (buildResponse idle {}))) ↔
        (Callback.afterBody = .afterBody → ¬UntakenPost idle strayPost)) :=
  ⟨rfl, reply_determined_iff {} {} _ _ rfl rfl⟩

end Status

section Runs

/-- The state of the service between two callbacks, once it is initialized. -/
def ready (config : GlobalConfig) : ServiceState := ⟨true, false, config, 1⟩

variable {config : GlobalConfig}

/-- No callback changes what the module itself keeps, also not one with a debug session. -/
theorem visit_ready {v : Visit} {s : ServiceState} {answer : Option Reply}
    (h : visit (ready config) v = some (s, answer)) : s = ready config := by
  obtain ⟨callback, r, env⟩ := v
  cases callback with
  | handler =>
      obtain ⟨t, hinit, hrest⟩ := Option.bind_eq_some_iff.mp ((adserviceHandler_eq ..).symm.trans h)
      cases hinit
      split at hrest
      · cases hrest
        rfl
      · obtain ⟨⟨u, response⟩, hrun, hanswer⟩ := Option.map_eq_some_iff.mp hrest
        cases hanswer
        exact (runAlone_eq_some hrun).1
  | afterBody =>
      obtain ⟨⟨t, reply⟩, hafter, hanswer⟩ := Option.map_eq_some_iff.mp h
      cases hanswer
      obtain ⟨request, response, -, hhandle, -⟩ := afterReadPostData_eq_some hafter
      exact (handlePost_spec rfl hhandle).1

theorem globalInit_ready (env : Surroundings) (config : GlobalConfig) :
    globalInit env (ready config) = some (ready config) := if_pos rfl

/-- The configuration that a location gives to the service, if its initialization succeeds. -/
def initialConfig (env : Surroundings) : Option GlobalConfig :=
  if env.initEnding = .returns then ({} : GlobalConfig).take env.conf else none

theorem globalInit_fresh (env : Surroundings) :
    globalInit env {} = (initialConfig env).map ready := by
  rw [globalInit, initialConfig, if_neg Bool.false_ne_true]
  by_cases hinit : env.initEnding = .returns
  · simp only [if_pos hinit, Option.map_eq_bind]
    rfl
  · simp only [if_neg hinit, Option.map_none]
    cases ({} : GlobalConfig).take env.conf <;> rfl

theorem visit_first (r : NgxRequest) (env : Surroundings) :
    visit {} ⟨.handler, r, env⟩ =
      (initialConfig env).bind fun config => visit (ready config) ⟨.handler, r, env⟩ := by
  refine (adserviceHandler_eq ..).trans ?_
  rw [globalInit_fresh, Option.bind_map]
  refine congrArg (Option.bind _) (funext fun config => ?_)
  exact (adserviceHandler_eq env (ready config) r).symm

/-- A run is its callbacks one by one, all of them with the configuration of the first. -/
theorem run_visits_iff {r : NgxRequest} {env : Surroundings} {visits : List Visit}
    {s : ServiceState} {answers : List (Option Reply)} :
    Lockstep.run visit {} (⟨.handler, r, env⟩ :: visits) = some (s, answers) ↔
      ∃ config, initialConfig env = some config ∧ s = ready config ∧
        List.Forall₂ (fun v answer => visit (ready config) v = some (ready config, answer))
          (⟨.handler, r, env⟩ :: visits) answers := by
  have hrun (config : GlobalConfig) :
      Lockstep.run visit (ready config) (⟨.handler, r, env⟩ :: visits) = some (s, answers) ↔ _ :=
    Lockstep.run_returning fun v s answer => visit_ready
  simp only [← hrun]
  rw [Lockstep.run, visit_first]
  cases initialConfig env with
  | none =>
      constructor
      · intro h
        cases h
      · rintro ⟨config, hconfig, -⟩
        cases hconfig
  | some config =>
      refine ⟨fun h => ⟨config, rfl, h⟩, ?_⟩
      rintro ⟨config', hconfig, h⟩
      cases hconfig
      exact h

/-- The callbacks of all requests come in some order, and the first is that of a new request. As
long as the process lives the service was initialized once, and no debug session goes on after its
request. -/
theorem service_runs (r : NgxRequest) (env : Surroundings) (visits : List Visit)
    (s : ServiceState) (answers : List (Option Reply))
    (hrun : Lockstep.run visit {} (⟨.handler, r, env⟩ :: visits) = some (s, answers)) :
    s.initialisations = 1 ∧ s.inDebugSession = false := by
  obtain ⟨config, -, rfl, -⟩ := run_visits_iff.mp hrun
  exact ⟨rfl, rfl⟩

theorem initialConfig_idle : ∃ config, initialConfig idle = some config := by
  have htimeouts :
      (parseConfigAdselectTimeout (idle.conf.text .adselecttimeout) .empty).isSome := by
    decide +kernel
  have hnodes : Mapping.parseConfigAeroSpikeNode (idle.conf.text .asnode) [] = some [] :=
    Mapping.parseLoop_none List.not_mem_nil
  obtain ⟨timeouts, htimeouts⟩ := Option.isSome_iff_exists.mp htimeouts
  refine Option.isSome_iff_exists.mp ?_
  have hreturns : idle.initEnding = .returns := rfl
  rw [initialConfig, if_pos hreturns, GlobalConfig.take, htimeouts, Option.bind_eq_bind,
    Option.bind_some, hnodes]
  rfl

theorem service_runs_stray :
    ∃ s answers,
      Lockstep.run visit {} [⟨.handler, strayPost, idle⟩, ⟨.afterBody, strayPost, idle⟩] =
        some (s, answers) ∧ s.initialisations = 1 ∧ s.inDebugSession = false := by
  obtain ⟨config, hconfig⟩ := initialConfig_idle
  have hhandler : visit (ready config) ⟨.handler, strayPost, idle⟩ = some (ready config, none) :=
    rfl
  have hbody : visit (ready config) ⟨.afterBody, strayPost, idle⟩ =
      some (ready config, some (buildResponse idle {})) := rfl
  have hrun := run_visits_iff.mpr ⟨config, hconfig, rfl, .cons hhandler (.cons hbody .nil)⟩
  obtain ⟨honce, hnone⟩ := service_runs strayPost idle _ _ _ hrun
  exact ⟨_, _, hrun, honce, hnone⟩

def Visit.withConf (v : Visit) (conf : LocationConf) : Visit :=
  { v with env := { v.env with conf := conf } }

theorem visit_withConf (v : Visit) (conf : LocationConf) :
    visit (ready config) (v.withConf conf) = visit (ready config) v := by
  obtain ⟨callback, r, env⟩ := v
  have hbuild : buildResponse { env with conf := conf } = buildResponse env := rfl
  cases callback with
  | handler =>
      have hdispatch : dispatchRequest { env with conf := conf } = dispatchRequest env := rfl
      simp only [visit, Visit.withConf, adserviceHandler_eq, globalInit_ready, hdispatch, hbuild]
  | afterBody =>
      have hread : readPostData { env with conf := conf } = readPostData env := rfl
      have hhandle : handlePost { env with conf := conf } = handlePost env := rfl
      simp only [visit, Visit.withConf, afterReadPostData, hread, hhandle, hbuild]

/-- The configuration of the location of the first request is in force for all of them. What the
locations of the others are configured with makes no difference. -/
theorem service_configured_once (r : NgxRequest) (env : Surroundings) (visits : List Visit)
    (conf : Visit → LocationConf) :
    Lockstep.run visit {} (⟨.handler, r, env⟩ :: visits.map fun v => v.withConf (conf v)) =
      Lockstep.run visit {} (⟨.handler, r, env⟩ :: visits) := by
  refine Option.ext fun ⟨s, answers⟩ => ?_
  rw [run_visits_iff, run_visits_iff]
  simp only [List.forall₂_cons_left_iff, List.forall₂_map_left_iff, visit_withConf]

end Runs

end AdServer.Server
