import EventSource.Parser.Machine

/-!
# The Client's State and Its Surroundings

The data of `sse_client.h` and `sse_transport.h`, and the world the client runs in. Whatever the
client does not decide itself (the transport, the clock, the application's callbacks, other tasks)
is an `Env`: arbitrary functions of everything that has happened so far. What happens is written to
a log, each entry with the client as it was at that moment.
-/

namespace EventSource.Client

open EventSource.CMemory
open EventSource.Parser

/-! ## §1 Public Types -/

/-- `SSE_CLIENT_ID_MAX`. -/
def idMax : Nat := 128

/-- `SSE_CLIENT_MAX_HEADERS`. -/
def maxHeaders : Nat := 16

/-- `sse_client_state_t`. -/
inductive ClientState where
  | idle
  | connecting
  | opened
  | waitingRetry
  | closed
  deriving DecidableEq, Repr

/-- `sse_error_reason_t`. -/
inductive ErrorReason where
  | transport
  | httpStatus
  | badContentType
  | serverStop
  | idleTimeout
  | messageTooLarge
  | eventTypeInvalid
  deriving DecidableEq, Repr

/-- `sse_message_t`: the memory behind each pointer. -/
structure SseMessage where
  event : Mem
  data : Mem
  dataLen : Nat
  lastEventId : Mem
  deriving DecidableEq, Repr

/-- `sse_error_t`. -/
structure SseError where
  reason : ErrorReason
  httpStatus : Int
  willRetry : Bool
  retryInMs : UInt32
  deriving DecidableEq, Repr

/-- `sse_client_callbacks_t`: which of the function pointers are set. -/
structure SseClientCallbacks where
  onOpen : Bool
  onMessage : Bool
  onError : Bool
  onClosed : Bool
  deriving DecidableEq, Repr

/-- `sse_transport_t`: which of the function pointers are set. -/
structure SseTransport where
  openFn : Bool
  readFn : Bool
  closeFn : Bool
  deriving DecidableEq, Repr

/-- `sse_request_t`. -/
structure SseRequest where
  url : Mem
  headers : List Mem
  deriving DecidableEq, Repr

/-- `sse_response_info_t`. -/
structure SseResponseInfo where
  statusCode : Int
  contentType : Mem
  retryAfterS : Int32
  deriving DecidableEq, Repr

/-- `SSE_READ_TIMEOUT`. -/
def readTimeout : Int := 0

/-- `sse_client_config_t`: a pointer is the memory behind it, `none` for a null pointer, and a
`_len` field is the length of its buffer. `extraHeaders` are the strings found before the
terminator when the configuration is read. -/
structure SseClientConfig where
  url : Option Mem
  extraHeaders : Option (List Mem)
  defaultRetryMs : UInt32
  maxRetryMs : UInt32
  jitterPct : UInt8
  idleTimeoutMs : UInt32
  readTimeoutMs : UInt32
  skipContentTypeCheck : Bool
  dataBuf : Option Mem
  idBuf : Option Mem
  eventBuf : Option Mem
  rxBuf : Option Mem
  transport : Option SseTransport
  nowMs : Bool
  callbacks : SseClientCallbacks
  reconnectPolicy : Bool
  deriving DecidableEq, Repr

/-- `sse_client_t`. `rxBuf` is the memory that `cfg.rx_buf` points to. `oob` is not a field of the
source: it records that a store of the client left its array. -/
structure SseClient where
  cfg : SseClientConfig
  parser : SseParser
  state : ClientState
  stopRequested : Bool
  transportOpen : Bool
  attempts : UInt32
  extraHeaderCount : Nat
  baseRetryMs : UInt32
  retryDeadline : UInt32
  lastRxMs : UInt32
  prng : UInt32
  lastEventId : Mem
  lastEventIdLen : Nat
  idHeader : Mem
  headers : List (Option Mem)
  rxBuf : Mem
  oob : Bool
  deriving DecidableEq, Repr

/-! ## §2 What Happens -/

/-- A call of the public interface by the application. -/
inductive ApiCall where
  | poll
  | close
  | requestStop
  deriving DecidableEq, Repr

/-- One thing that happens: a call of the client's interface, a call the client makes, or a byte or
callback of its parser. A clock reading is recorded in true time, of which `now_ms` returns the low
32 bits. -/
inductive Obs where
  | call (c : ApiCall)
  | clock (t : Nat)
  | transportOpen (url : Mem) (headers : List (Option Mem)) (result : Int)
  | transportRead (len : Nat) (timeoutMs : UInt32) (result : Int)
  | transportClose
  | byte (b : UInt8)
  | parser (c : Callback)
  | onOpen (reconnectCount : UInt32)
  | onMessage (m : SseMessage)
  | onError (e : SseError)
  | onClosed
  | reconnectPolicy (e : SseError)
  deriving DecidableEq, Repr

/-- Something that happened, and the client at that moment. -/
structure Entry where
  obs : Obs
  client : SseClient
  deriving DecidableEq, Repr

/-- Everything that has happened, oldest first. -/
abbrev Log := List Entry

/-- The client and its past. -/
structure World where
  client : SseClient
  log : Log
  deriving DecidableEq, Repr

/-! ## §3 What the Client Does Not Decide -/

/-- What a callback may do to the client that called it. -/
inductive Reentry where
  | close
  | requestStop
  deriving DecidableEq, Repr

/-- What `open` returns and writes to its out parameter, and whether another task requests a stop
meanwhile. -/
structure OpenReply where
  result : Int
  fill : SseResponseInfo → SseResponseInfo
  stop : Bool

/-- What `read` returns and writes to the buffer, and whether another task requests a stop
meanwhile. -/
structure ReadReply where
  result : Int
  bytes : Mem
  stop : Bool
  deriving DecidableEq, Repr

/-- The surroundings. Every answer may depend on the whole past. -/
structure Env where
  openReply : Log → OpenReply
  readReply : Log → ReadReply
  /-- True time in milliseconds, of which `now_ms` shows the low 32 bits. -/
  time : Log → Nat
  /-- What the callback recorded last does to the client. -/
  reentry : Log → List Reentry
  /-- What `reconnect_policy` returns. -/
  policy : Log → Bool
  /-- The strings found in the borrowed `extra_headers` array when it is read again. -/
  extraHeaders : Log → List Mem

/-! ## §4 Updates -/

/-- Record that something happens. -/
def World.push (w : World) (o : Obs) : World :=
  { w with log := w.log ++ [⟨o, w.client⟩] }

/-- Change the client only. -/
def World.update (w : World) (f : SseClient → SseClient) : World :=
  { w with client := f w.client }

@[simp] theorem push_client (w : World) (o : Obs) : (w.push o).client = w.client := rfl

@[simp] theorem push_log (w : World) (o : Obs) : (w.push o).log = w.log ++ [⟨o, w.client⟩] := rfl

@[simp] theorem update_client (w : World) (f : SseClient → SseClient) :
    (w.update f).client = f w.client := rfl

@[simp] theorem update_log (w : World) (f : SseClient → SseClient) :
    (w.update f).log = w.log := rfl

end EventSource.Client
