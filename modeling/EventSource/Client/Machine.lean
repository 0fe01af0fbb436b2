import EventSource.Client.State

/-!
# The Client

The functions of `sse_client.c`, from the parser bridge to the public interface. Callbacks may close
or stop the client at any point, so every call of one is followed by what it does to the client
before the caller goes on.
-/

namespace EventSource.Client

open EventSource.CMemory
open EventSource.Parser

/-! ## §1 Closing and Callbacks -/

/-- `now_ms()`. -/
def nowMs (env : Env) (w : World) : UInt32 × World :=
  (.ofNat (env.time w.log), w.push (.clock (env.time w.log)))

def sseClientRequestStop (w : World) : World :=
  w.update fun c => { c with stopRequested := true }

def closeTransport (w : World) : World :=
  if w.client.transportOpen then
    (w.push .transportClose).update fun c => { c with transportOpen := false }
  else w

/-- What a callback does to a client that is already CLOSED: `to_closed` ends after
`close_transport` then. -/
def actClosed (w : World) : Reentry → World
  | .close => closeTransport w
  | .requestStop => sseClientRequestStop w

/-- `to_closed`. It is the one function that calls itself, through `on_closed`; the inner call finds
the client CLOSED (`toClosed_eq`). -/
def toClosed (env : Env) (w : World) : World :=
  let w := closeTransport w
  if w.client.state = .closed then w
  else
    let w := w.update fun c => { c with state := .closed }
    if w.client.cfg.callbacks.onClosed then
      let w := w.push .onClosed
      (env.reentry w.log).foldl actClosed w
    else w

def act (env : Env) (w : World) : Reentry → World
  | .close => toClosed env w
  | .requestStop => sseClientRequestStop w

/-- Call the application: the call is recorded, then the callback acts. -/
def callUser (env : Env) (w : World) (o : Obs) : World :=
  let w := w.push o
  (env.reentry w.log).foldl (act env) w

/-! ## §2 The Parser Bridge -/

def bridgeOnId (w : World) (id : Mem) (len : Nat) : World :=
  if w.client.state ≠ .opened then w
  else if len ≤ idMax then
    w.update fun c =>
      { c with
        lastEventId := memcpy c.lastEventId id (len + 1)
        lastEventIdLen := len
        oob := c.oob || c.lastEventId.length < len + 1 || id.length < len + 1 }
  else w

def bridgeOnRetry (w : World) (ms : UInt32) : World :=
  if w.client.state ≠ .opened then w
  else w.update fun c => { c with baseRetryMs := ms }

/-- The message made of a parser event. -/
def messageOf (c : SseClient) (ev : ParserEvent) : SseMessage :=
  { event := ev.event.getD (ascii "message".toList ++ [0])
    data := ev.data
    dataLen := ev.dataLen
    lastEventId := c.lastEventId }

def bridgeOnEvent (env : Env) (w : World) (ev : ParserEvent) : World :=
  if w.client.state ≠ .opened then w
  else
    -- healthy connection: reset the flap counter
    let w := w.update fun c => { c with attempts := 0 }
    if w.client.cfg.callbacks.onMessage then
      callUser env w (.onMessage (messageOf w.client ev))
    else w

/-- The parse errors that lose a message, under the reason the application is told. -/
def lossReason : ParseError → Option ErrorReason
  | .dataTooLarge => some .messageTooLarge
  | .eventTypeTooLarge => some .eventTypeInvalid
  | .eventTypeInvalid => some .eventTypeInvalid
  -- a dropped field loses no message
  | _ => none

def bridgeOnPerr (env : Env) (w : World) (err : ParseError) : World :=
  if w.client.state ≠ .opened then w
  else
    match lossReason err with
    | none => w
    | some reason =>
      -- informational: the stream goes on, and nothing is scheduled
      if w.client.cfg.callbacks.onError then callUser env w (.onError ⟨reason, 0, true, 0⟩)
      else w

/-- A callback of the parser reaches its bridge. -/
def deliver (env : Env) (w : World) (c : Callback) : World :=
  let w := w.push (.parser c)
  match c with
  | .onEvent ev => bridgeOnEvent env w ev
  | .onId id len => bridgeOnId w id len
  | .onRetry ms => bridgeOnRetry w ms
  | .onError err => bridgeOnPerr env w err

/-- The parser takes a byte. -/
def parseByte (w : World) (b : UInt8) : World :=
  (w.push (.byte b)).update fun c => { c with parser := (processByte c.parser b).1 }

/-- `process_byte` on the client's parser. No bridge touches the parser, so its callbacks can be
delivered once the byte has been processed. -/
def feedByte (env : Env) (w : World) (b : UInt8) : World :=
  (processByte w.client.parser b).2.foldl (deliver env) (parseByte w b)

/-- `sse_parser_feed(&c->parser, bytes, len)`. -/
def clientFeed (env : Env) (w : World) (bytes : List UInt8) : World :=
  bytes.foldl (feedByte env) w

/-! ## §3 Helpers -/

def prngNext (c : SseClient) : UInt32 × SseClient :=
  let x := c.prng
  let x := x ^^^ (x <<< 13)
  let x := x ^^^ (x >>> 17)
  let x := x ^^^ (x <<< 5)
  let x := if x = 0 then 0x9e3779b9 else x
  (x, { c with prng := x })

def eventStreamType : List UInt8 := ascii "text/event-stream".toList

/-- `'A'` to `'Z'` in lower case. -/
def asciiLower (b : UInt8) : UInt8 :=
  if 0x41 ≤ b && b ≤ 0x5A then b + 32 else b

/-- The end of the value, a parameter or a space. -/
def endsMediaType (b : UInt8) : Bool :=
  b = 0 || b = 0x3B || b = space

/-- The comparison stops at the terminator of `ct`, which no wanted byte equals. -/
def ctIsEventStream (ct : Mem) : Bool :=
  (ct.take eventStreamType.length).map asciiLower = eventStreamType &&
    endsMediaType (ct[eventStreamType.length]?.getD 0)

/-- `c->headers[n] = h`. -/
def putHeader (c : SseClient) (n : Nat) (h : Option Mem) : SseClient :=
  { c with
    headers := c.headers.set n h
    oob := c.oob || c.headers.length ≤ n }

def acceptHeader : Mem := ascii "Accept: text/event-stream".toList ++ [0]
def cacheHeader : Mem := ascii "Cache-Control: no-store".toList ++ [0]
def idHeaderPrefix : List UInt8 := ascii "Last-Event-ID: ".toList

/-- `sizeof c->id_header`. -/
def idHeaderSize : Nat := idMax + 32

/-- The resume position, if there is one, at index `n`. -/
def putIdHeader (c : SseClient) (n : Nat) : SseClient × Nat :=
  if 0 < c.lastEventIdLen then
    let c := { c with
      idHeader := snprintf c.idHeader idHeaderSize (idHeaderPrefix ++ cstr c.lastEventId) }
    (putHeader c n (some c.idHeader), n + 1)
  else (c, n)

/-- The loop of `build_headers`, from index `n` on. -/
def putExtraHeaders (c : SseClient) (n : Nat) : List Mem → SseClient × Nat
  | [] => (c, n)
  | h :: hs => putExtraHeaders (putHeader c n (some h)) (n + 1) hs

/-- `extra` is what the borrowed array holds now, up to its terminator. -/
def buildHeaders (c : SseClient) (extra : List Mem) : SseClient :=
  let c := putHeader c 0 (some acceptHeader)
  let c := putHeader c 1 (some cacheHeader)
  -- no more than were counted at the start, should the borrowed array have grown
  let r := putIdHeader c 2
  let r :=
    if c.cfg.extraHeaders.isSome then
      putExtraHeaders r.1 r.2 (extra.take c.extraHeaderCount)
    else r
  putHeader r.1 r.2 none

def defaultShouldRetry (reason : ErrorReason) (status : Int) (retryAfterS : Int32) : Bool :=
  match reason with
  | .transport | .idleTimeout | .badContentType => true
  | .serverStop => false
  | .httpStatus =>
    if 500 ≤ status then true
    else if status = 429 then true
    else 0 ≤ retryAfterS
  | _ => false

/-! ## §4 Failures -/

/-- `delay64` before the jitter. -/
def retryBase (c : SseClient) (retryAfterS : Int32) : UInt64 :=
  if 0 ≤ retryAfterS then .ofNat retryAfterS.toInt.toNat * 1000
  else if c.cfg.maxRetryMs = 0 then c.baseRetryMs.toUInt64
  else
    -- the backoff doubles with every attempt, up to its maximum
    let sh : UInt32 := if c.attempts > 15 then 15 else c.attempts
    let d := c.baseRetryMs.toUInt64 <<< sh.toUInt64
    if d > c.cfg.maxRetryMs.toUInt64 then c.cfg.maxRetryMs.toUInt64 else d

/-- `INT32_MAX`. -/
def int32Max : UInt32 := 0x7FFFFFFF

/-- The clamped delay, and the client with its generator advanced if it was used. -/
def retryDelay (c : SseClient) (retryAfterS : Int32) : UInt32 × SseClient :=
  let delay64 := retryBase c retryAfterS
  let r : UInt64 × SseClient :=
    if c.cfg.jitterPct ≠ 0 then
      let x := prngNext c
      (delay64 + delay64 * (x.1 % (c.cfg.jitterPct.toUInt32 + 1)).toUInt64 / 100, x.2)
    else (delay64, c)
  -- one clamp after all arithmetic, since the deadline is compared as a signed number
  (if r.1 > int32Max.toUInt64 then int32Max else r.1.toUInt32, r.2)

/-- The branch of `fail_conn` that does not retry. -/
def refuseRetry (env : Env) (w : World) (e : SseError) : World :=
  let e := { e with willRetry := false }
  let w := if w.client.cfg.callbacks.onError then callUser env w (.onError e) else w
  toClosed env w

/-- The branch of `fail_conn` that retries. -/
def scheduleRetry (env : Env) (w : World) (e : SseError) (retryAfterS : Int32) : World :=
  let r := retryDelay w.client retryAfterS
  let w := w.update fun _ => { r.2 with attempts := r.2.attempts + 1 }
  let now := nowMs env w
  let w := now.2.update fun c =>
    { c with
      retryDeadline := now.1 + r.1
      state := .waitingRetry }
  let e := { e with willRetry := true, retryInMs := r.1 }
  if w.client.cfg.callbacks.onError then callUser env w (.onError e) else w

def decideRetry (env : Env) (w : World) (e : SseError) (retryAfterS : Int32) (retry : Bool) :
    World :=
  if retry then scheduleRetry env w e retryAfterS else refuseRetry env w e

def failConn (env : Env) (w : World) (reason : ErrorReason) (status : Int)
    (retryAfterS : Int32) : World :=
  let w := closeTransport w
  let retry := defaultShouldRetry reason status retryAfterS
  let e : SseError := ⟨reason, status, retry, 0⟩
  if w.client.cfg.reconnectPolicy then
    let w := callUser env w (.reconnectPolicy e)
    -- the hook may have closed the client; its return value must not resurrect it
    if w.client.state = .closed then w
    else decideRetry env w e retryAfterS (env.policy w.log)
  else decideRetry env w e retryAfterS retry

/-! ## §5 Connecting -/

/-- The end of `do_connect`: the connection becomes OPEN. -/
def acceptResponse (env : Env) (w : World) : World :=
  let w := w.update fun c => { c with parser := sseParserReset c.parser }
  let now := nowMs env w
  let w := now.2.update fun c => { c with lastRxMs := now.1, state := .opened }
  if w.client.cfg.callbacks.onOpen then callUser env w (.onOpen w.client.attempts) else w

/-- What `do_connect` does with the response of a successful `open`. -/
def judgeResponse (env : Env) (w : World) (info : SseResponseInfo) : World :=
  if info.statusCode = 204 then failConn env w .serverStop 204 (-1)
  else if info.statusCode ≠ 200 then failConn env w .httpStatus info.statusCode info.retryAfterS
  else if !w.client.cfg.skipContentTypeCheck && !ctIsEventStream info.contentType then
    failConn env w .badContentType info.statusCode (-1)
  else acceptResponse env w

/-- The first half of `do_connect`, up to the return of `open`, which may have been called while
another task requests a stop. -/
def attempt (w : World) (extra : List Mem) (result : Int) (stop : Bool) : World :=
  let w := w.update fun c => buildHeaders { c with state := .connecting } extra
  let w := w.push (.transportOpen (w.client.cfg.url.getD []) w.client.headers result)
  w.update fun c => { c with stopRequested := c.stopRequested || stop }

/-- The response is filled in by `open`, over the values `do_connect` gives it. -/
def doConnect (env : Env) (w : World) : World :=
  let reply := env.openReply w.log
  let w := attempt w (env.extraHeaders w.log) reply.result reply.stop
  if reply.result ≠ 0 then failConn env w .transport 0 (-1)
  else
    judgeResponse env (w.update fun c => { c with transportOpen := true })
      (reply.fill ⟨0, [0], -1⟩)

/-! ## §6 The Public Interface -/

/-- What `sse_client_init` requires of its configuration. -/
def configOk (cfg : SseClientConfig) : Bool :=
  cfg.url.isSome && cfg.nowMs &&
    (match cfg.transport with
      | some t => t.openFn && t.readFn && t.closeFn
      | none => false) &&
    (match cfg.dataBuf with
      | some m => 2 ≤ m.length
      | none => false) &&
    (match cfg.idBuf with
      | some m => 2 ≤ m.length && m.length ≤ idMax + 1
      | none => false) &&
    (match cfg.eventBuf with
      | some m => 2 ≤ m.length
      | none => false) &&
    (match cfg.rxBuf with
      | some m => m.length ≠ 0
      | none => false) &&
    3 + (cfg.extraHeaders.getD []).length ≤ maxHeaders

/-- The configuration with its defaults filled in. -/
def withDefaults (cfg : SseClientConfig) : SseClientConfig :=
  { cfg with
    defaultRetryMs := if cfg.defaultRetryMs = 0 then 3000 else cfg.defaultRetryMs
    readTimeoutMs := if cfg.readTimeoutMs = 0 then 500 else cfg.readTimeoutMs }

/-- The parser of a client: all four of its callbacks are set. -/
def clientParser (cfg : SseClientConfig) : SseParser :=
  sseParserInit ⟨true, true, true, true⟩
    ⟨cfg.dataBuf.getD [], cfg.idBuf.getD [], cfg.eventBuf.getD []⟩

/-- The client as `sse_client_init` leaves it, with the clock reading its generator starts from. -/
def initClient (cfg : SseClientConfig) (now : UInt32) : SseClient :=
  { cfg := withDefaults cfg
    parser := clientParser cfg
    state := .idle
    stopRequested := false
    transportOpen := false
    attempts := 0
    extraHeaderCount := (cfg.extraHeaders.getD []).length
    baseRetryMs := (withDefaults cfg).defaultRetryMs
    retryDeadline := 0
    lastRxMs := 0
    prng := if now ^^^ 0xA5A5A5A5 = 0 then 1 else now ^^^ 0xA5A5A5A5
    lastEventId := List.replicate (idMax + 1) 0
    lastEventIdLen := 0
    idHeader := List.replicate idHeaderSize 0
    headers := List.replicate (maxHeaders + 1) none
    rxBuf := cfg.rxBuf.getD []
    oob := false }

/-- `sse_client_init`, with `none` for its return value -1. -/
def sseClientInit (env : Env) (cfg : SseClientConfig) : Option World :=
  if configOk cfg then some ⟨initClient cfg (.ofNat (env.time [])), []⟩ else none

/-- `UINT32_MAX`. -/
def uint32Max : UInt32 := 0xFFFFFFFF

/-- `c->state == SSE_STATE_CLOSED ? UINT32_MAX : 0`. -/
def closedHint (w : World) : UInt32 × World :=
  (if w.client.state = .closed then uint32Max else 0, w)

/-- The memory of a buffer after the transport has written `bytes` to it, never past its end. -/
def fillBuffer (buf bytes : Mem) : Mem :=
  (bytes ++ buf.drop bytes.length).take buf.length

/-- The call of `read`, during which another task may request a stop. -/
def readOnce (w : World) (result : Int) (bytes : Mem) (stop : Bool) : World :=
  let w := w.push (.transportRead w.client.rxBuf.length w.client.cfg.readTimeoutMs result)
  w.update fun c =>
    { c with
      rxBuf := fillBuffer c.rxBuf bytes
      stopRequested := c.stopRequested || stop }

/-- Bytes have been received at time `t`. -/
def receive (w : World) (t : Nat) : World :=
  (w.push (.clock t)).update fun c => { c with lastRxMs := .ofNat t }

/-- At time `t` nothing has been received for the idle timeout. -/
def idleFor (c : SseClient) (t : Nat) : Bool :=
  .ofNat t - c.lastRxMs ≥ c.cfg.idleTimeoutMs

/-- The idle timeout has struck. Unless the client ends up CLOSED the hint is the read timeout. -/
def pollIdle (env : Env) (w : World) : UInt32 × World :=
  let w := failConn env w .idleTimeout 0 (-1)
  (if w.client.state = .closed then uint32Max else w.client.cfg.readTimeoutMs, w)

/-- The idle check after a read that timed out. -/
def pollTimeout (env : Env) (w : World) : UInt32 × World :=
  if w.client.cfg.idleTimeoutMs ≠ 0 then
    let t := env.time w.log
    let w := w.push (.clock t)
    if idleFor w.client t then pollIdle env w else (w.client.cfg.readTimeoutMs, w)
  else (w.client.cfg.readTimeoutMs, w)

/-- The part of `sse_client_poll` that runs in state OPEN, after the read returned `r`. -/
def pollRead (env : Env) (w : World) (r : Int) : UInt32 × World :=
  if w.client.stopRequested then (uint32Max, toClosed env w)
  else if 0 < r then
    -- a transport may not report more than the buffer holds
    if w.client.rxBuf.length < r.toNat then closedHint (failConn env w .transport 0 (-1))
    else
      let w := receive w (env.time w.log)
      closedHint (clientFeed env w (w.client.rxBuf.take r.toNat))
  else if r = readTimeout then pollTimeout env w
  -- the end of the stream, or an error
  else closedHint (failConn env w .transport 0 (-1))

def pollOpen (env : Env) (w : World) : UInt32 × World :=
  let reply := env.readReply w.log
  pollRead env (readOnce w reply.result reply.bytes reply.stop) reply.result

def pollWaiting (env : Env) (w : World) : UInt32 × World :=
  let now := nowMs env w
  -- the wrapped difference, read as a signed number
  let remain := (w.client.retryDeadline - now.1).toInt32
  if remain ≤ 0 then (0, now.2.update fun c => { c with state := .connecting })
  else (remain.toUInt32, now.2)

def sseClientPoll (env : Env) (w : World) : UInt32 × World :=
  let w := if w.client.stopRequested && w.client.state ≠ .closed then toClosed env w else w
  match w.client.state with
  | .closed => (uint32Max, w)
  | .idle | .connecting => closedHint (doConnect env w)
  | .waitingRetry => pollWaiting env w
  | .opened => pollOpen env w

def sseClientClose (env : Env) (w : World) : World :=
  toClosed env w

/-! ## §7 Runs -/

/-- A call by the application, and what it leaves. -/
def apply (env : Env) (w : World) (call : ApiCall) : World :=
  let w := w.push (.call call)
  match call with
  | .poll => (sseClientPoll env w).2
  | .close => sseClientClose env w
  | .requestStop => sseClientRequestStop w

def runCalls (env : Env) (w : World) (calls : List ApiCall) : World :=
  calls.foldl (apply env) w

/-- The worlds that any number of calls after a successful `sse_client_init` can lead to. -/
def Reachable (env : Env) (cfg : SseClientConfig) (w : World) : Prop :=
  ∃ w₀ calls, sseClientInit env cfg = some w₀ ∧ runCalls env w₀ calls = w

end EventSource.Client
