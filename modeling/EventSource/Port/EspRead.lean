import EventSource.Lib.Trace
import EventSource.Port.CurlTransport
import EventSource.Port.EspOpen

/-!
# Reading over the ESP-IDF Transport

`esp_read_fn` and what it needs besides: the timeout that the handle was given last. A new handle has
the timeout of its configuration, ten seconds, until the first read sets its own. What happens to the
handle is written to a log, each entry with whether the handle existed.
-/

namespace EventSource.Port

open EventSource.CMemory
open EventSource.Parser
open EventSource.Client
open EventSource.Trace

/-! ## §1 The Context -/

/-- `INT_MAX`. -/
def intMax : Nat := 2147483647

/-- `timeout_ms` of the configuration that a handle is made with. -/
def espInitTimeoutMs : Nat := 10000

/-- `errno` after a read, as far as the transport looks at it. -/
inductive Errno where
  | ok
  | eagain
  | ewouldblock
  | etimedout
  | other
  deriving DecidableEq, Repr

/-- What `esp_http_client_read` returns and writes, `errno` after it, and the events meanwhile. -/
structure EspReply where
  result : Int
  bytes : Mem
  errno : Errno
  events : List EspEvent
  deriving DecidableEq, Repr

/-- One thing that happens to a handle. -/
inductive HandleObs where
  | fresh
  | setTimeout (ms : Nat)
  | read (want : Nat) (reply : EspReply)
  deriving DecidableEq, Repr

/-- Something that happened to the handle, if it existed. -/
structure HandleEntry where
  obs : HandleObs
  live : Bool
  deriving DecidableEq, Repr

/-- `esp_ctx_t`, with its `configured_timeout_ms`, and the past. -/
structure EspState where
  world : EspWorld
  configuredTimeoutMs : UInt32
  handle : List HandleEntry

/-- `esp_http_client` on an open connection. Every answer may depend on the whole past. -/
structure EspReadEnv where
  read : EspState → Nat → EspReply
  complete : EspState → Bool
  /-- `ESP_ERR_HTTP_EAGAIN`. -/
  eagain : Nat

/-- Record that something happens to the handle. -/
def EspState.push (s : EspState) (o : HandleObs) : EspState :=
  { s with handle := s.handle ++ [⟨o, s.world.ctx.hc⟩] }

@[simp] theorem espStatePush_world (s : EspState) (o : HandleObs) : (s.push o).world = s.world := rfl

@[simp] theorem espStatePush_handle (s : EspState) (o : HandleObs) :
    (s.push o).handle = s.handle ++ [⟨o, s.world.ctx.hc⟩] := rfl

/-- The timeout of the handle. -/
def handleTimeout (handle : List HandleEntry) : Nat :=
  handle.foldl (fun ms e =>
    match e.obs with
    | .fresh => espInitTimeoutMs
    | .setTimeout ms => ms
    | .read _ _ => ms) espInitTimeoutMs

/-! ## §2 The Functions -/

/-- The timeout is set on the handle if it is not the one set last; it takes an `int`. -/
def setReadTimeout (s : EspState) (timeoutMs : UInt32) : EspState :=
  if timeoutMs ≠ s.configuredTimeoutMs then
    { s.push (.setTimeout (min timeoutMs.toNat intMax)) with configuredTimeoutMs := timeoutMs }
  else s

/-- The result of a read that returned no bytes. -/
def espVerdict (env : EspReadEnv) (s : EspState) (r : Int) (errno : Errno) : Int :=
  -- the way in which a silent window is reported on hardware
  if r = -(env.eagain : Int) then readTimeout
  -- 0 is the end of the stream or, for some transports, a timeout
  else if r = 0 then if env.complete s then readEof else readTimeout
  else if errno = .eagain || errno = .ewouldblock || errno = .etimedout then readTimeout
  else readError

/-- `esp_read_fn`: what it returns and what it writes to the buffer. -/
def espReadFn (env : EspReadEnv) (s : EspState) (len : Nat) (timeoutMs : UInt32) :
    Int × Bytes × EspState :=
  if !s.world.ctx.hc then (readError, [], s)
  else
    let s := setReadTimeout s timeoutMs
    let want := min len intMax
    let reply := env.read s want
    let s := { s.push (.read want reply) with world := reply.events.foldl handleEvent s.world }
    if 0 < reply.result then (reply.result, reply.bytes, s)
    else (espVerdict env s reply.result reply.errno, reply.bytes, s)

/-- `esp_open_fn`: a success leaves a new handle, whose timeout the first read will set. -/
def espOpen (env : EspEnv) (s : EspState) (req : SseRequest) (out : SseResponseInfo) :
    Int × SseResponseInfo × EspState :=
  let r := espOpenFn env s.world req out
  let s := { s with world := r.2.2 }
  (r.1, r.2.1, if r.1 = 0 then { s.push .fresh with configuredTimeoutMs := 0 } else s)

/-- `esp_close_fn`. -/
def espCloseFn (s : EspState) : EspState :=
  { s with world := espTeardown s.world }

/-- A transport that `sse_transport_esp_http_client` returns. -/
def espTransportNew : EspState :=
  ⟨espNew, 0, []⟩

/-! ## §3 The Handle -/

theorem handleTimeout_snoc (handle : List HandleEntry) (e : HandleEntry) :
    handleTimeout (handle ++ [e]) =
      match e.obs with
      | .fresh => espInitTimeoutMs
      | .setTimeout ms => ms
      | .read _ _ => handleTimeout handle := by
  unfold handleTimeout
  rw [List.foldl_append]
  rfl

/-- An event neither makes nor frees a handle. -/
theorem handleEvents_hc (w : EspWorld) (es : List EspEvent) :
    (es.foldl handleEvent w).ctx.hc = w.ctx.hc :=
  List.foldlRecOn (motive := fun v : EspWorld => v.ctx.hc = w.ctx.hc) es handleEvent rfl
    fun v hv e _ => (onHttpEvent_spares v.ctx e).2.trans hv

theorem sendRequest_hc (env : EspEnv) (w : EspWorld) :
    (sendRequest env w).2.ctx.hc = w.ctx.hc := by
  apply sendRequest_keep fun v => v.ctx.hc = w.ctx.hc
  · rfl
  · exact fun v hv => hv
  · exact fun v e _ hv => (onHttpEvent_spares v.ctx e).2.trans hv

/-- Whatever comes of the hops, the handle stays. -/
theorem EspHopRun.hc {env : EspEnv} {left : Nat} {w v : EspWorld} {r : Option Int}
    (h : EspHopRun env left w r v) : v.ctx.hc = w.ctx.hc := by
  induction h with
  | failed left w => exact sendRequest_hc env w
  | surfaced left w status => exact sendRequest_hc env w
  | refused left w status hcheck =>
    exact (checkRedirect_spares hcheck).1.trans (sendRequest_hc env w)
  | @followed left w v r t hcheck h ih =>
    exact ih.trans ((checkRedirect_spares hcheck).1.trans (sendRequest_hc env w))

/-- An `open` that succeeds leaves a handle. -/
theorem espOpenFn_hc (env : EspEnv) (w : EspWorld) (req : SseRequest) (out : SseResponseInfo)
    (h : (espOpenFn env w req out).1 = 0) : (espOpenFn env w req out).2.2.ctx.hc = true := by
  let v := ((espStart w req.url).update fun t => { t with hc := true }).push (.request req.url)
  have hheaders : (req.headers.foldl setHeader v).ctx.hc = true :=
    setHeaders_keep (fun u => u.ctx.hc = true) (fun _ _ _ hu => hu) req.headers rfl
  have hloop : (espHopLoop env espMaxRedirectHops (req.headers.foldl setHeader v)).2.ctx.hc =
      true := (espHopLoop_run env _ _).hc.trans hheaders
  unfold espOpenFn at h ⊢
  simp only at h ⊢
  split at h
  · exact absurd (show (-1 : Int) = 0 from h) (by decide)
  · next hinit =>
    rw [if_neg hinit]
    split at h
    · exact absurd (show (-1 : Int) = 0 from h) (by decide)
    · exact hloop

end EventSource.Port
