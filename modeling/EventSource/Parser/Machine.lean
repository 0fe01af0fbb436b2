import EventSource.Lib.CMemory
import EventSource.Lib.Transducer

/-!
# The Incremental Parser

The per-byte event-stream parser of `sse_parser.c`: a line state machine that writes field values
straight into the caller's buffers and fires its callbacks as it goes.

A callback never reaches back into the parser, so a step is a function from the state and a byte to
the next state and the callbacks fired, in order. Each callback carries the memory behind the
pointers it was handed.
-/

namespace EventSource.Parser

open EventSource.CMemory
open EventSource.Transducer

/-! ## §1 Types -/

/-- `sse_parse_error_t`. -/
inductive ParseError where
  | dataTooLarge
  | idInvalid
  | eventTypeTooLarge
  | invalidRetry
  | unknownField
  | eventTypeInvalid
  deriving DecidableEq, Repr

/-- The line state, `PS_BOM` to `PS_SKIP_LINE`. -/
inductive LineState where
  | bom
  | lineStart
  | fieldName
  | afterColon
  | value
  | skipLine
  deriving DecidableEq, Repr

/-- The field being read, `F_NONE` to `F_RETRY`. -/
inductive Field where
  | none
  | data
  | event
  | id
  | retry
  deriving DecidableEq, Repr

/-- `sse_parser_event_t`: the memory behind each pointer, `none` for a null pointer. -/
structure ParserEvent where
  event : Option Mem
  id : Option Mem
  data : Mem
  dataLen : Nat
  deriving DecidableEq, Repr

/-- One invocation of a parser callback. -/
inductive Callback where
  | onEvent (ev : ParserEvent)
  | onId (id : Mem) (len : Nat)
  | onRetry (ms : UInt32)
  | onError (err : ParseError)
  deriving DecidableEq, Repr

/-- `sse_parser_callbacks_t`: which of the function pointers are set. -/
structure ParserCallbacks where
  onEvent : Bool
  onId : Bool
  onRetry : Bool
  onError : Bool
  deriving DecidableEq, Repr

/-- Whether the pointer that callback `c` goes through is set. -/
def ParserCallbacks.has (cb : ParserCallbacks) : Callback → Bool
  | .onEvent _ => cb.onEvent
  | .onId _ _ => cb.onId
  | .onRetry _ => cb.onRetry
  | .onError _ => cb.onError

/-- `sse_parser_buffers_t`: the caller's buffers, each with all of its bytes; a `_len` field is the
length of its buffer. -/
structure ParserBuffers where
  dataBuf : Mem
  idBuf : Mem
  eventBuf : Mem
  deriving DecidableEq, Repr

/-- `sse_parser_t`. `oob` is not a field of the source: it records that a store left its array or
that `data_len - 1` underflowed, after which the C program would be undefined. -/
structure SseParser where
  cb : ParserCallbacks
  buf : ParserBuffers
  state : LineState
  field : Field
  swallowLf : Bool
  bomN : Nat
  name : Mem
  nameLen : Nat
  dataLen : Nat
  dataLines : Nat
  blockDiscarded : Bool
  eventLen : Nat
  hasEvent : Bool
  idLen : Nat
  hasId : Bool
  idInvalid : Bool
  retryAcc : UInt32
  retrySeenDigit : Bool
  retryInvalid : Bool
  oob : Bool
  deriving DecidableEq, Repr

/-! ## §2 Bytes and Stores -/

def lf : UInt8 := 0x0A
def cr : UInt8 := 0x0D
def colon : UInt8 := 0x3A
def space : UInt8 := 0x20

/-- The ASCII bytes of a text. -/
def ascii (cs : List Char) : List UInt8 :=
  cs.map Char.toUInt8

def isDigit (b : UInt8) : Bool :=
  0x30 ≤ b && b ≤ 0x39

/-- `SSE_BOM`. -/
def sseBom : List UInt8 := [0xEF, 0xBB, 0xBF]

/-- The name a field goes by on the wire. -/
def Field.wireName : Field → List UInt8
  | .none => []
  | .data => ascii ['d', 'a', 't', 'a']
  | .event => ascii ['e', 'v', 'e', 'n', 't']
  | .id => ascii ['i', 'd']
  | .retry => ascii ['r', 'e', 't', 'r', 'y']

def storeData (p : SseParser) (i : Nat) (b : UInt8) : SseParser :=
  { p with
    buf := { p.buf with dataBuf := p.buf.dataBuf.set i b }
    oob := p.oob || p.buf.dataBuf.length ≤ i }

def storeId (p : SseParser) (i : Nat) (b : UInt8) : SseParser :=
  { p with
    buf := { p.buf with idBuf := p.buf.idBuf.set i b }
    oob := p.oob || p.buf.idBuf.length ≤ i }

def storeEvent (p : SseParser) (i : Nat) (b : UInt8) : SseParser :=
  { p with
    buf := { p.buf with eventBuf := p.buf.eventBuf.set i b }
    oob := p.oob || p.buf.eventBuf.length ≤ i }

def storeName (p : SseParser) (i : Nat) (b : UInt8) : SseParser :=
  { p with
    name := p.name.set i b
    oob := p.oob || p.name.length ≤ i }

/-- Fire a callback if its pointer is set. -/
def fire (p : SseParser) (c : Callback) : List Callback :=
  if p.cb.has c then [c] else []

def emitPerr (p : SseParser) (err : ParseError) : List Callback :=
  fire p (.onError err)

/-! ## §3 Block Dispatch -/

/-- The id half of `dispatch_block`: it commits even when the block was discarded. -/
def dispatchId (p : SseParser) : SseParser × List Callback :=
  if p.hasId then
    let p := storeId p p.idLen 0
    (p, fire p (.onId p.buf.idBuf p.idLen))
  else (p, [])

/-- The event half of `dispatch_block`. -/
def dispatchEvent (p : SseParser) : SseParser × List Callback :=
  if !p.blockDiscarded && 0 < p.dataLines && p.cb.onEvent then
    -- strip the trailing newline
    let n := p.dataLen - 1
    let p := { p with oob := p.oob || p.dataLen = 0 }
    let p := storeData p n 0
    let p := if p.hasEvent then storeEvent p p.eventLen 0 else p
    let ev : ParserEvent :=
      { event := if p.hasEvent then some p.buf.eventBuf else none
        id := if p.hasId then some p.buf.idBuf else none
        data := p.buf.dataBuf
        dataLen := n }
    (p, fire p (.onEvent ev))
  else (p, [])

/-- The resets at the end of `dispatch_block`. -/
def clearBlock (p : SseParser) : SseParser :=
  { p with
    dataLen := 0
    dataLines := 0
    blockDiscarded := false
    eventLen := 0
    hasEvent := false
    idLen := 0
    hasId := false
    idInvalid := false }

def dispatchBlock (p : SseParser) : SseParser × List Callback :=
  andThen (andThen (dispatchId p) dispatchEvent) fun p => (clearBlock p, [])

/-! ## §4 Field Values -/

def startValue (p : SseParser) : SseParser :=
  match p.field with
  | .event => { p with eventLen := 0 }
  | .id => { p with idLen := 0, idInvalid := false }
  | .retry => { p with retryAcc := 0, retrySeenDigit := false, retryInvalid := false }
  -- data appends; its separator is stored when the line is committed
  | _ => p

/-- Marks the current block discarded; the error fires once per block, the first cause wins. -/
def discardBlock (p : SseParser) (err : ParseError) : SseParser × List Callback :=
  if p.blockDiscarded then (p, [])
  else ({ p with blockDiscarded := true }, emitPerr p err)

/-- One more digit of a retry value, clamped at `UINT32_MAX`. -/
def retryDigit (acc : UInt32) (b : UInt8) : UInt32 :=
  let d := (b - 0x30).toUInt32
  if acc > (0xFFFFFFFF - d) / 10 then 0xFFFFFFFF else acc * 10 + d

def valueByte (p : SseParser) (b : UInt8) : SseParser × List Callback :=
  match p.field with
  | .data =>
    if p.blockDiscarded then (p, [])
    else if p.dataLen = p.buf.dataBuf.length then discardBlock p .dataTooLarge
    else ({ storeData p p.dataLen b with dataLen := p.dataLen + 1 }, [])
  | .event =>
    if p.blockDiscarded then (p, [])
    -- a type is handed over as a C string, and could not be told past a NUL
    else if b = 0 then discardBlock p .eventTypeInvalid
    -- the last byte is kept for the terminator
    else if p.eventLen + 1 ≥ p.buf.eventBuf.length then discardBlock p .eventTypeTooLarge
    else ({ storeEvent p p.eventLen b with eventLen := p.eventLen + 1 }, [])
  | .id =>
    if p.idInvalid then (p, [])
    else if b = 0 ∨ p.idLen + 1 ≥ p.buf.idBuf.length then
      ({ p with idInvalid := true }, emitPerr p .idInvalid)
    else ({ storeId p p.idLen b with idLen := p.idLen + 1 }, [])
  | .retry =>
    if p.retryInvalid then (p, [])
    -- reported once, when the line is committed
    else if !isDigit b then ({ p with retryInvalid := true }, [])
    else ({ p with retrySeenDigit := true, retryAcc := retryDigit p.retryAcc b }, [])
  | .none => (p, [])

/-- The switch of `commit_value`. -/
def commitField (p : SseParser) : SseParser × List Callback :=
  match p.field with
  | .data =>
    if p.blockDiscarded then (p, [])
    else if p.dataLen = p.buf.dataBuf.length then discardBlock p .dataTooLarge
    else
      ({ storeData p p.dataLen lf with
          dataLen := p.dataLen + 1
          dataLines := p.dataLines + 1 }, [])
  -- an empty type resets to none
  | .event => ({ p with hasEvent := 0 < p.eventLen }, [])
  | .id =>
    if p.idInvalid then ({ p with idLen := 0, hasId := false }, [])
    -- an empty id is valid and means ""
    else ({ p with hasId := true }, [])
  | .retry =>
    if p.retryInvalid || !p.retrySeenDigit then (p, emitPerr p .invalidRetry)
    else (p, fire p (.onRetry p.retryAcc))
  | .none => (p, [])

def commitValue (p : SseParser) : SseParser × List Callback :=
  andThen (commitField p) fun p => ({ p with field := .none }, [])

/-! ## §5 Lines -/

/-- `n == strlen(s) && memcmp(p->name, s, strlen(s)) == 0`. -/
def nameIs (p : SseParser) (f : Field) : Bool :=
  p.nameLen = f.wireName.length && p.name.take f.wireName.length = f.wireName

def lookupField (p : SseParser) : Field :=
  if nameIs p .data then .data
  else if nameIs p .event then .event
  else if nameIs p .id then .id
  else if nameIs p .retry then .retry
  else .none

def resolveFieldName (p : SseParser) : SseParser × List Callback :=
  let p := { p with field := lookupField p }
  if p.field = .none then
    ({ p with state := .skipLine }, emitPerr p .unknownField)
  else ({ startValue p with state := .afterColon }, [])

/-- The switch of `line_end`. A line without a colon is a field name with an empty value. -/
def finishLine (p : SseParser) : SseParser × List Callback :=
  match p.state with
  -- a blank line
  | .lineStart => dispatchBlock p
  | .fieldName =>
    andThen (resolveFieldName p) fun p =>
      if p.state = .afterColon then commitValue p else (p, [])
  | .afterColon | .value => commitValue p
  | _ => (p, [])

def lineEnd (p : SseParser) : SseParser × List Callback :=
  andThen (finishLine p) fun p => ({ p with state := .lineStart }, [])

/-- The `PS_FIELD_NAME` case of `process_byte`. -/
def nameByte (p : SseParser) (b : UInt8) : SseParser × List Callback :=
  if b = colon then resolveFieldName p
  else
    let p :=
      if p.nameLen < p.name.length then
        { storeName p p.nameLen b with nameLen := p.nameLen + 1 }
      else p
    -- longer than any known field name
    if 5 < p.nameLen then ({ p with state := .skipLine }, emitPerr p .unknownField)
    else (p, [])

/-- The part of `process_byte` below the byte-order-mark block. -/
def lineByte (p : SseParser) (b : UInt8) : SseParser × List Callback :=
  if b = cr then andThen (lineEnd p) fun p => ({ p with swallowLf := true }, [])
  else if b = lf then lineEnd p
  else
    match p.state with
    | .lineStart =>
      -- a comment
      if b = colon then ({ p with state := .skipLine }, [])
      else nameByte { p with state := .fieldName, nameLen := 0 } b
    | .fieldName => nameByte p b
    | .afterColon =>
      let p := { p with state := .value }
      -- a single leading space is stripped
      if b = space then (p, []) else valueByte p b
    | .value => valueByte p b
    | _ => (p, [])

/-- The byte-order-mark block of `process_byte`, then the rest of it. The matched prefix is
replayed with `lineByte`: no replayed byte is a terminator, so `swallow_lf` stays clear and the
recursive calls of the source reach this part only (`processByte_of_line`). -/
def bomByte (p : SseParser) (b : UInt8) : SseParser × List Callback :=
  if p.state = .bom then
    if p.bomN < 3 ∧ sseBom[p.bomN]? = some b then
      if p.bomN + 1 = 3 then ({ p with state := .lineStart, bomN := 0 }, [])
      else ({ p with bomN := p.bomN + 1 }, [])
    else
      let replayed := run lineByte { p with bomN := 0, state := .lineStart } (sseBom.take p.bomN)
      andThen replayed fun p => lineByte p b
  else lineByte p b

def processByte (p : SseParser) (b : UInt8) : SseParser × List Callback :=
  -- second half of a CRLF pair
  if p.swallowLf && b = lf then ({ p with swallowLf := false }, [])
  else bomByte { p with swallowLf := false } b

/-! ## §6 Entry Points -/

def sseParserInit (cb : ParserCallbacks) (buf : ParserBuffers) : SseParser :=
  { cb := cb
    buf := buf
    state := .bom
    field := .none
    swallowLf := false
    bomN := 0
    name := List.replicate 8 0
    nameLen := 0
    dataLen := 0
    dataLines := 0
    blockDiscarded := false
    eventLen := 0
    hasEvent := false
    idLen := 0
    hasId := false
    idInvalid := false
    retryAcc := 0
    retrySeenDigit := false
    retryInvalid := false
    oob := false }

/-- `sse_parser_feed`, with the callbacks it fires. -/
def sseParserFeed (p : SseParser) (chunk : List UInt8) : SseParser × List Callback :=
  run processByte p chunk

/-- `sse_parser_reset`: the buffers keep whatever bytes they hold. -/
def sseParserReset (p : SseParser) : SseParser :=
  sseParserInit p.cb p.buf

/-- Any number of feeds, one after the other. -/
def feedChunks (p : SseParser) (chunks : List (List UInt8)) : SseParser × List Callback :=
  runChunks processByte p chunks

theorem feedChunks_eq (p : SseParser) (chunks : List (List UInt8)) :
    feedChunks p chunks = sseParserFeed p chunks.flatten :=
  runChunks_eq processByte p chunks

/-- Past the byte-order mark and without a pending LF, `process_byte` is its last part: what the
source's recursive calls run. -/
theorem processByte_of_line (p : SseParser) (b : UInt8) (hs : p.state ≠ .bom)
    (hl : p.swallowLf = false) : processByte p b = lineByte p b := by
  have hp : { p with swallowLf := false } = p := by rw [← hl]
  simp [processByte, bomByte, hl, hp, hs]

end EventSource.Parser
