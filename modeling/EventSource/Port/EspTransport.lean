import EventSource.Port.Origin

/-!
# The ESP-IDF Transport

The functions of `sse_transport_esp.c` that open a connection. `esp_http_client` is an `EspEnv`:
arbitrary functions of everything that has happened to the transport. It enters the transport
through the event handler only. What happens is written to a log, each entry with the context that it
leaves behind.
-/

namespace EventSource.Port

open EventSource.CMemory
open EventSource.Parser
open EventSource.Client
open EventSource.Cut

/-! ## §1 The Context -/

/-- `ESP_MAX_REDIRECT_HOPS`. -/
def espMaxRedirectHops : Nat := 5

/-- `sizeof t->url` and `sizeof t->location`. -/
def urlSize : Nat := 512

/-- `long` on the 32-bit target. -/
def espLongBits : Nat := 32

/-- `esp_ctx_t` without the timeout of its reads: `hc` says whether the handle exists. -/
structure EspCtx where
  hc : Bool
  contentType : Mem
  location : Mem
  url : Mem
  retryAfterS : Int32
  deriving DecidableEq, Repr

/-- An event of `esp_http_client`: a header, or one that the handler ignores. -/
inductive EspEvent where
  | onHeader (key value : Mem)
  | other
  deriving DecidableEq, Repr

/-- One thing that happens to the transport. -/
inductive EspObs where
  | cleanup
  | request (url : Mem)
  | setHeader (name value : Mem)
  | opened
  | fetchHeaders
  | event (e : EspEvent)
  | redirect (location url : Mem)
  deriving DecidableEq, Repr

/-- Something that happened, and the context that it left behind. -/
structure EspEntry where
  obs : EspObs
  ctx : EspCtx
  deriving DecidableEq, Repr

/-- Everything that has happened, oldest first. -/
abbrev EspLog := List EspEntry

/-- The transport and its past. -/
structure EspWorld where
  ctx : EspCtx
  log : EspLog
  deriving DecidableEq, Repr

/-- `esp_http_client`. Every answer may depend on the whole past. -/
structure EspEnv where
  initOk : EspLog → Bool
  /-- The events during `esp_http_client_open`, and whether it returns `ESP_OK`. -/
  openEvents : EspLog → List EspEvent
  openOk : EspLog → Bool
  /-- The events during `esp_http_client_fetch_headers`, and whether it returns no error. -/
  fetchEvents : EspLog → List EspEvent
  fetchOk : EspLog → Bool
  statusCode : EspLog → Int
  redirectionOk : EspLog → Bool
  /-- The URL that `esp_http_client_set_redirection` makes of the current one and of the Location
  value as received. -/
  retarget : Mem → Mem → Mem

/-- Record that something happens. -/
def EspWorld.push (w : EspWorld) (o : EspObs) : EspWorld :=
  { w with log := w.log ++ [⟨o, w.ctx⟩] }

/-- Change the context only. -/
def EspWorld.update (w : EspWorld) (f : EspCtx → EspCtx) : EspWorld :=
  { w with ctx := f w.ctx }

@[simp] theorem espPush_log (w : EspWorld) (o : EspObs) :
    (w.push o).log = w.log ++ [⟨o, w.ctx⟩] := rfl

/-! ## §2 The Handle -/

/-- The URL that the handle points at. -/
def targetOf (log : EspLog) : Mem :=
  log.foldl (fun url e =>
    match e.obs with
    | .request u => u
    | .redirect _ u => u
    | _ => url) []

def contentTypeName : Bytes := ascii "content-type".toList
def locationName : Bytes := ascii "location".toList
def retryAfterKey : Bytes := ascii "retry-after".toList

/-- `strcasecmp(key, name) == 0`, for a name in lower case. -/
def isKey (key : Mem) (name : Bytes) : Bool :=
  (cstr key).map asciiLower = name

/-- The Location value of the current response as received, if there is one. -/
def receivedLocation (log : EspLog) : Option Mem :=
  log.foldl (fun value e =>
    match e.obs with
    | .request _ => none
    | .redirect _ _ => none
    | .event (.onHeader key v) => if isKey key locationName then some v else value
    | _ => value) none

/-! ## §3 Events -/

/-- `on_http_event`. -/
def onHttpEvent (t : EspCtx) : EspEvent → EspCtx
  | .onHeader key value =>
    if isKey key contentTypeName then
      { t with contentType := snprintf t.contentType 64 (cstr value) }
    else if isKey key locationName then
      { t with location := snprintf t.location urlSize (cstr value) }
    else if isKey key retryAfterKey then
      { t with
        retryAfterS :=
          readSeconds espLongBits ((cstr value).dropWhile (· = space)) t.retryAfterS }
    else t
  | .other => t

/-- The client calls the event handler. -/
def handleEvent (w : EspWorld) (e : EspEvent) : EspWorld :=
  (w.update fun t => onHttpEvent t e).push (.event e)

/-! ## §4 Opening -/

/-- `esp_teardown`. -/
def espTeardown (w : EspWorld) : EspWorld :=
  if w.ctx.hc then (w.update fun t => { t with hc := false }).push .cleanup else w

/-- One round of the loop over the request's headers: a header without a colon, or with a name that
does not fit, is left out. -/
def setHeader (w : EspWorld) (h : Mem) : EspWorld :=
  let name := before isColon (cstr h)
  match fromFirst isColon (cstr h) with
  | [] => w
  | _ :: value =>
    if 64 ≤ name.length then w
    else w.push (.setHeader name (value.dropWhile (· = space)))

/-- The statuses that are followed. -/
def isFollowedStatus (status : Int) : Bool :=
  status = 301 || status = 302 || status = 303 || status = 307 || status = 308

def httpStart : Bytes := ascii "http://".toList
def httpsStart : Bytes := ascii "https://".toList

/-- `'/'`. -/
def slash : UInt8 := 0x2F

/-- The absolute-path form of a Location. -/
def isAbsolutePath (location : Mem) : Bool :=
  (cstr location).head? = some slash && (cstr location)[1]? ≠ some slash

/-- The check of a redirect: the context to go on with, if it is followed. -/
def checkRedirect (t : EspCtx) : Option EspCtx :=
  if cstr t.location = [] then none
  else if isAbsolutePath t.location then some t
  -- an absolute http(s) Location has to match scheme, host and port
  else if (startsWithCase t.location httpStart || startsWithCase t.location httpsStart) &&
      sameOriginUrls t.url t.location then
    some { t with url := snprintf t.url urlSize (cstr t.location) }
  else none

/-- The request of a hop: `false` when it fails. -/
def sendRequest (env : EspEnv) (w : EspWorld) : Bool × EspWorld :=
  let w := w.push .opened
  let w := (env.openEvents w.log).foldl handleEvent w
  if !env.openOk w.log then (false, w)
  else
    let w := w.push .fetchHeaders
    let w := (env.fetchEvents w.log).foldl handleEvent w
    (env.fetchOk w.log, w)

/-- `esp_http_client_set_redirection` has pointed the handle at the Location value as received, and
the captured headers are cleared. -/
def followRedirect (env : EspEnv) (w : EspWorld) : EspWorld :=
  let value := (receivedLocation w.log).getD [0]
  (w.update fun t =>
    { t with
      contentType := t.contentType.set 0 0
      location := t.location.set 0 0
      retryAfterS := -1 }).push
    (.redirect value (env.retarget (targetOf w.log) value))

/-- The hop loop, with the number of hops that are left: `none` when the open fails. -/
def espHopLoop (env : EspEnv) : Nat → EspWorld → Option Int × EspWorld
  | left, w =>
    let r := sendRequest env w
    let status := env.statusCode r.2.log
    if !r.1 then (none, r.2)
    else if !isFollowedStatus status then (some status, r.2)
    else
      match left with
      -- no hop is left: the redirect itself is reported
      | 0 => (some status, r.2)
      | left + 1 =>
        match checkRedirect r.2.ctx with
        -- it may leave the origin: likewise
        | none => (some status, r.2)
        | some t =>
          let w := r.2.update fun _ => t
          if !env.redirectionOk w.log then (some status, w)
          else espHopLoop env left (followRedirect env w)

/-- The context at the start of an open: the request's URL is copied, as far as it fits. -/
def espStart (w : EspWorld) (url : Mem) : EspWorld :=
  (espTeardown w).update fun t =>
    { t with
      contentType := t.contentType.set 0 0
      location := t.location.set 0 0
      retryAfterS := -1
      url := snprintf t.url urlSize (cstr url) }

/-- `esp_open_fn`: what it returns and what it leaves in the out parameter. -/
def espOpenFn (env : EspEnv) (w : EspWorld) (req : SseRequest) (out : SseResponseInfo) :
    Int × SseResponseInfo × EspWorld :=
  let w := espStart w req.url
  if !env.initOk w.log then (-1, out, w)
  else
    let w := (w.update fun t => { t with hc := true }).push (.request req.url)
    let w := req.headers.foldl setHeader w
    let r := espHopLoop env espMaxRedirectHops w
    match r.1 with
    | none => (-1, out, espTeardown r.2)
    | some status =>
      (0,
        { statusCode := status
          contentType := snprintf out.contentType 64 (cstr r.2.ctx.contentType)
          retryAfterS := r.2.ctx.retryAfterS }, r.2)

end EventSource.Port
