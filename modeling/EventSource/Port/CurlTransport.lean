import EventSource.Lib.RingBuffer
import EventSource.Port.HttpText

/-!
# The curl Transport

The functions of `sse_transport_curl.c`. libcurl and the wall clock are a `CurlEnv`: arbitrary
functions of everything that has happened to the transport. libcurl enters the transport through its
two callbacks only, while it is being run or resumed. What happens is written to a log, each entry
with the context that it leaves behind.
-/

namespace EventSource.Port

open EventSource.CMemory
open EventSource.Parser
open EventSource.Client
open EventSource.RingBuffer

/-! ## §1 The Context -/

/-- `RING_CAP`. -/
def ringCap : Nat := 32 * 1024

instance : NeZero ringCap := ⟨by decide⟩

/-- `OPEN_TIMEOUT_MS`. -/
def openTimeoutMs : UInt32 := 30000

/-- `MAX_REDIRECT_HOPS`. -/
def maxRedirectHops : Nat := 5

/-- `CURLE_OK`. -/
def curleOk : Int := 0

/-- `SSE_READ_EOF`. -/
def readEof : Int := -1

/-- `SSE_READ_ERROR`. -/
def readError : Int := -2

/-- `long` on a 64-bit host. -/
def curlLongBits : Nat := 64

/-- `curl_ctx_t`: `multi` and `easy` say whether the handle exists, `hdrs` are the strings of the
list. -/
structure CurlCtx where
  multi : Bool
  easy : Bool
  hdrs : List Mem
  ring : Vector UInt8 ringCap
  rHead : Nat
  rLen : Nat
  bodyStarted : Bool
  headersDone : Bool
  headerBlockStatus : Int
  transferDone : Bool
  transferResult : Int
  paused : Bool
  retryAfterS : Int32

/-! ## §2 What Happens -/

/-- What `on_body` does with a chunk: a redirect's body is thrown away, a chunk for which there is no
room is refused, and libcurl pauses. -/
inductive BodyResult where
  | discarded
  | stored
  | refused
  deriving DecidableEq, Repr

/-- A call of one of the transport's callbacks, with the memory behind the pointer. -/
inductive CurlCallback where
  | header (ptr : Mem) (n : Nat)
  | body (chunk : Bytes)
  deriving DecidableEq, Repr

/-- One thing that happens to the transport. -/
inductive CurlObs where
  | teardown
  | request (url : Mem) (headers : List Mem)
  | clock (t : Nat)
  | resume
  | wait (waitMs : Int)
  | perform
  | header (ptr : Mem) (n : Nat)
  | body (chunk : Bytes) (result : BodyResult)
  | done (result : Int)
  | took (bytes : Bytes)
  deriving DecidableEq, Repr

/-- Something that happened, and the context that it left behind. -/
structure CurlEntry where
  obs : CurlObs
  ctx : CurlCtx

/-- Everything that has happened, oldest first. -/
abbrev CurlLog := List CurlEntry

/-- The transport and its past. -/
structure CurlWorld where
  ctx : CurlCtx
  log : CurlLog

/-- The parts of a URL that libcurl's parser returns. -/
structure UrlParts where
  scheme : Mem
  host : Mem
  port : Mem
  deriving DecidableEq, Repr

/-- libcurl and the wall clock. Every answer may depend on the whole past; only the URL parser is a
function of the URL. -/
structure CurlEnv where
  easyInit : CurlLog → Bool
  multiInit : CurlLog → Bool
  /-- Whether the header at an index is appended to the list. -/
  slistAppend : CurlLog → Nat → Bool
  /-- True time in milliseconds, of which `sse_now_ms_posix` shows the low 32 bits. -/
  time : CurlLog → Nat
  /-- More rounds of a wait than this exceed the wall-clock budget that starts now. -/
  patience : CurlLog → Nat
  /-- The callbacks made from inside `curl_easy_pause`. -/
  resumed : CurlLog → List CurlCallback
  waitOk : CurlLog → Bool
  /-- The callbacks made from inside `curl_multi_perform`. -/
  performed : CurlLog → List CurlCallback
  performOk : CurlLog → Bool
  /-- What `curl_multi_info_read` returns: the result of a `CURLMSG_DONE`, or another message. -/
  messages : CurlLog → List (Option Int)
  redirectUrl : CurlLog → Option Mem
  effectiveUrl : CurlLog → Option Mem
  responseCode : CurlLog → Int
  contentType : CurlLog → Option Mem
  /-- Whether `curl_url` has memory for its handles. -/
  urlHandles : CurlLog → Bool
  parseUrl : Mem → Option UrlParts

/-! ## §3 Updates -/

/-- Record that something happens. -/
def CurlWorld.push (w : CurlWorld) (o : CurlObs) : CurlWorld :=
  { w with log := w.log ++ [⟨o, w.ctx⟩] }

/-- Change the context only. -/
def CurlWorld.update (w : CurlWorld) (f : CurlCtx → CurlCtx) : CurlWorld :=
  { w with ctx := f w.ctx }

@[simp] theorem curlPush_log (w : CurlWorld) (o : CurlObs) :
    (w.push o).log = w.log ++ [⟨o, w.ctx⟩] := rfl

@[simp] theorem curlUpdate_log (w : CurlWorld) (f : CurlCtx → CurlCtx) :
    (w.update f).log = w.log := rfl

/-! ## §4 Callbacks -/

/-- The status of a redirect. -/
def isRedirectStatus (status : Int) : Bool :=
  300 ≤ status && status < 400

/-- `on_body`. -/
def onBody (t : CurlCtx) (chunk : Bytes) : CurlCtx × BodyResult :=
  -- the body of a redirect is thrown away, so that it neither fills the ring nor pauses
  if isRedirectStatus t.headerBlockStatus then (t, .discarded)
  else
    let t := { t with bodyStarted := true }
    -- all of the chunk or nothing
    if chunk.length > ringCap - t.rLen then ({ t with paused := true }, .refused)
    else
      ({ t with
        ring := putAll t.ring (t.rHead + t.rLen) chunk
        rLen := t.rLen + chunk.length }, .stored)

/-- The number after the first space of a status line, 0 if there is none. The code counts in an `int`
and is undefined for numbers that do not fit; here they are exact. -/
def statusOfLine (line : Bytes) : Int :=
  decimal (((line.dropWhile (· ≠ space)).drop 1).takeWhile isDigit)

def httpName : Bytes := ascii "HTTP/".toList

def retryAfterName : Bytes := ascii "retry-after:".toList

/-- The value of a Retry-After line: at most `n` bytes of it are looked at for a first digit, while
`strtol` reads on as it likes. -/
def retryAfterLine (ptr : Mem) (n : Nat) (before : Int32) : Int32 :=
  let value := ptr.drop retryAfterName.length
  let spaces := ((value.take (n - retryAfterName.length)).takeWhile (· = space)).length
  if retryAfterName.length + spaces < n then readSeconds curlLongBits (value.drop spaces) before
  else before

/-- `on_header`. -/
def onHeader (t : CurlCtx) (ptr : Mem) (n : Nat) : CurlCtx :=
  if 5 < n ∧ ptr.take httpName.length = httpName then
    -- new response block (redirect chain)
    { t with
      retryAfterS := -1
      headersDone := false
      headerBlockStatus := statusOfLine (ptr.take n) }
  else if n ≤ 2 then
    -- the header block is complete; 1xx blocks never complete the open
    if 200 ≤ t.headerBlockStatus then { t with headersDone := true } else t
  else if 12 < n ∧ startsWithCase ptr retryAfterName then
    { t with retryAfterS := retryAfterLine ptr n t.retryAfterS }
  else t

/-- libcurl calls back. -/
def callBack (w : CurlWorld) : CurlCallback → CurlWorld
  | .header ptr n => (w.update fun t => onHeader t ptr n).push (.header ptr n)
  | .body chunk =>
    let r := onBody w.ctx chunk
    (w.update fun _ => r.1).push (.body chunk r.2)

/-! ## §5 Running libcurl -/

/-- `sse_now_ms_posix()`. -/
def nowMsPosix (env : CurlEnv) (w : CurlWorld) : UInt32 × CurlWorld :=
  (.ofNat (env.time w.log), w.push (.clock (env.time w.log)))

/-- `t->paused = 0` and `curl_easy_pause(t->easy, CURLPAUSE_CONT)`, which may call back at once. -/
def resume (env : CurlEnv) (w : CurlWorld) : CurlWorld :=
  let w := (w.update fun t => { t with paused := false }).push .resume
  (env.resumed w.log).foldl callBack w

/-- A paused transfer is resumed once less than half of the ring is used. -/
def resumeIfRoom (env : CurlEnv) (w : CurlWorld) : CurlWorld :=
  if w.ctx.paused && w.ctx.rLen < ringCap / 2 then resume env w else w

/-- A message of the multi handle. -/
def harvest (w : CurlWorld) : Option Int → CurlWorld
  | some r => (w.update fun t => { t with transferDone := true, transferResult := r }).push (.done r)
  | none => w

/-- `pump`: `false` if it returns -1. -/
def pump (env : CurlEnv) (w : CurlWorld) (waitMs : Int) : Bool × CurlWorld :=
  let w := (resumeIfRoom env w).push (.wait waitMs)
  if !env.waitOk w.log then (false, w)
  else
    let w := w.push .perform
    let w := (env.performed w.log).foldl callBack w
    if !env.performOk w.log then (false, w)
    else (true, (env.messages w.log).foldl harvest w)

/-! ## §6 Opening -/

/-- `curl_easy_cleanup` and the other releases do not call back; the context is zeroed. -/
def emptyCtx : CurlCtx where
  multi := false
  easy := false
  hdrs := []
  ring := Vector.replicate ringCap 0
  rHead := 0
  rLen := 0
  bodyStarted := false
  headersDone := false
  headerBlockStatus := 0
  transferDone := false
  transferResult := 0
  paused := false
  retryAfterS := -1

def teardown (w : CurlWorld) : CurlWorld :=
  (w.update fun _ => emptyCtx).push .teardown

/-- `same_origin`. -/
def sameOrigin (env : CurlEnv) (log : CurlLog) (a b : Mem) : Bool :=
  env.urlHandles log &&
    match env.parseUrl a, env.parseUrl b with
    | some pa, some pb =>
      strcaseEq pa.scheme pb.scheme && strcaseEq pa.host pb.host && cstr pa.port = cstr pb.port
    | _, _ => false

/-- The loop over the request's headers: `false` when one cannot be appended. -/
def appendHeaders (env : CurlEnv) (w : CurlWorld) : List Mem → Bool × CurlWorld
  | [] => (true, w)
  | h :: hs =>
    if env.slistAppend w.log w.ctx.hdrs.length then
      appendHeaders env (w.update fun t => { t with hdrs := t.hdrs ++ [h] }) hs
    -- the old list is kept when an append fails
    else (false, w)

/-- One of the waiting loops of `curl_open_fn`, which ends when `stop` holds, when the budget since
`start` is used up, or when `pump` fails. -/
def waitLoop (env : CurlEnv) (stop : CurlCtx → Bool) (start : UInt32) :
    Nat → CurlWorld → Bool × CurlWorld
  | 0, w => (true, w)
  | rounds + 1, w =>
    if stop w.ctx then (true, w)
    else
      let now := nowMsPosix env w
      if now.1 - start < openTimeoutMs then
        let r := pump env now.2 100
        if r.1 then waitLoop env stop start rounds r.2 else (false, r.2)
      else (true, now.2)

/-- A wait with a budget that starts now. -/
def waitFor (env : CurlEnv) (stop : CurlCtx → Bool) (w : CurlWorld) : Bool × CurlWorld :=
  let start := nowMsPosix env w
  waitLoop env stop start.1 (env.patience w.log) start.2

/-- Something came of the request: its final header block, its body or its end. -/
def answered (t : CurlCtx) : Bool :=
  t.headersDone || t.bodyStarted || t.transferDone

/-- A transfer that failed before its final headers has no usable response. -/
def failedEarly (t : CurlCtx) : Bool :=
  t.transferDone && t.transferResult ≠ curleOk && !t.headersDone && !t.bodyStarted

/-- The first half of a turn of the hop loop, up to a usable response. -/
def awaitResponse (env : CurlEnv) (w : CurlWorld) : Bool × CurlWorld :=
  let r := waitFor env answered w
  if !r.1 || !answered r.2.ctx || failedEarly r.2.ctx then (false, r.2) else (true, r.2)

/-- The discarded body of a redirect is drained to completion first. -/
def drain (env : CurlEnv) (w : CurlWorld) : Bool × CurlWorld :=
  let r := waitFor env (fun t => t.transferDone) w
  (r.1 && r.2.ctx.transferDone, r.2)

/-- Where a redirect leads that will be followed. -/
def redirectTarget (env : CurlEnv) (w : CurlWorld) : Option Mem :=
  match env.redirectUrl w.log, env.effectiveUrl w.log with
  | some redir, some current => if sameOrigin env w.log current redir then some redir else none
  -- without either URL nothing can be compared
  | _, _ => none

/-- `curl_multi_add_handle`: the transfer of the URL begins. -/
def addHandle (w : CurlWorld) (url : Mem) : CurlWorld :=
  w.push (.request url w.ctx.hdrs)

/-- The flags of the previous request are cleared and the next one begins. -/
def reissue (w : CurlWorld) (redir : Mem) : CurlWorld :=
  addHandle (w.update fun t =>
    { t with
      rHead := 0
      rLen := 0
      bodyStarted := false
      headersDone := false
      transferDone := false
      transferResult := curleOk
      paused := false
      headerBlockStatus := 0
      retryAfterS := -1 }) redir

/-- The hop loop, with the number of hops that are left: `false` when the open fails. -/
def hopLoop (env : CurlEnv) : Nat → CurlWorld → Bool × CurlWorld
  | left, w =>
    let r := awaitResponse env w
    if !r.1 then (false, r.2)
    else if !isRedirectStatus r.2.ctx.headerBlockStatus then (true, r.2)
    else
      let d := drain env r.2
      if !d.1 then (false, d.2)
      else
        match left with
        -- no hop is left: the redirect itself is reported
        | 0 => (true, d.2)
        | left + 1 =>
          match redirectTarget env d.2 with
          -- it may leave the origin: likewise
          | none => (true, d.2)
          | some redir => hopLoop env left (reissue d.2 redir)

/-- The out parameter of a successful open. -/
def fillInfo (env : CurlEnv) (w : CurlWorld) (out : SseResponseInfo) : SseResponseInfo :=
  { statusCode := env.responseCode w.log
    contentType := snprintf out.contentType 64 (cstr ((env.contentType w.log).getD [0]))
    retryAfterS := w.ctx.retryAfterS }

/-- The handles and the header list of a new connection: `false` when memory runs out. -/
def setUp (env : CurlEnv) (w : CurlWorld) (headers : List Mem) : Bool × CurlWorld :=
  let w := teardown w
  let w := w.update fun t => { t with easy := env.easyInit w.log, multi := env.multiInit w.log }
  if !w.ctx.easy || !w.ctx.multi then (false, w) else appendHeaders env w headers

/-- `curl_open_fn`: what it returns and what it leaves in the out parameter. -/
def curlOpenFn (env : CurlEnv) (w : CurlWorld) (req : SseRequest) (out : SseResponseInfo) :
    Int × SseResponseInfo × CurlWorld :=
  let s := setUp env w req.headers
  if !s.1 then (-1, out, teardown s.2)
  else
    let r := hopLoop env maxRedirectHops (addHandle s.2 req.url)
    if !r.1 then (-1, out, teardown r.2)
    else (0, fillInfo env r.2 out, r.2)

/-! ## §7 Reading and Closing -/

/-- The result of a read from a transfer that is done. -/
def endOfTransfer (t : CurlCtx) : Int :=
  if t.transferResult = curleOk then readEof else readError

/-- The second half of `curl_read_fn`. -/
def takeBytes (env : CurlEnv) (w : CurlWorld) (len : Nat) : Int × Bytes × CurlWorld :=
  let n := if w.ctx.rLen < len then w.ctx.rLen else len
  let bytes := contents w.ctx.ring w.ctx.rHead n
  let w := w.update fun t =>
    { t with
      rHead := (t.rHead + n) % ringCap
      rLen := t.rLen - n }
  (n, bytes, resumeIfRoom env (w.push (.took bytes)))

/-- `curl_read_fn`: what it returns and what it writes to the buffer. -/
def curlReadFn (env : CurlEnv) (w : CurlWorld) (len : Nat) (timeoutMs : UInt32) :
    Int × Bytes × CurlWorld :=
  if w.ctx.rLen = 0 then
    if w.ctx.transferDone then (endOfTransfer w.ctx, [], w)
    else
      let r := pump env w timeoutMs.toInt32.toInt
      if !r.1 then (readError, [], r.2)
      else if r.2.ctx.rLen = 0 then
        if r.2.ctx.transferDone then (endOfTransfer r.2.ctx, [], r.2)
        else (readTimeout, [], r.2)
      else takeBytes env r.2 len
  else takeBytes env w len

def curlCloseFn (w : CurlWorld) : CurlWorld :=
  teardown w

/-! ## §8 Runs -/

/-- A call of the transport by the client. -/
inductive TransportCall where
  | openFn (req : SseRequest) (out : SseResponseInfo)
  | readFn (len : Nat) (timeoutMs : UInt32)
  | closeFn
  deriving DecidableEq, Repr

def runTransport (env : CurlEnv) (w : CurlWorld) : TransportCall → CurlWorld
  | .openFn req out => (curlOpenFn env w req out).2.2
  | .readFn len timeoutMs => (curlReadFn env w len timeoutMs).2.2
  | .closeFn => curlCloseFn w

/-- A transport that `sse_transport_curl_new` returns. -/
def curlNew : CurlWorld := ⟨emptyCtx, []⟩

/-- The transport after some calls. -/
def CurlReachable (env : CurlEnv) (w : CurlWorld) : Prop :=
  ∃ calls : List TransportCall, w = calls.foldl (runTransport env) curlNew

end EventSource.Port
