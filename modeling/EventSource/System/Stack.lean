import EventSource.Client.PollParts
import EventSource.Client.TransportCalls
import EventSource.Lib.Contract
import EventSource.Port.CurlTransport

/-!
# The Client over a Transport

`sse_transport_t` as a component: three functions over a state. The client is put on top of it: what
`open` and `read` answer is what the component answers in the state that the calls before have left
it in. Of the surroundings the clock, the application and other tasks remain arbitrary.
-/

namespace EventSource.System

open EventSource.CMemory
open EventSource.Client
open EventSource.Contract
open EventSource.Parser
open EventSource.Trace

variable {σ : Type*}

/-! ## §1 Transports -/

/-- `sse_transport_t`: its functions, over the state behind `ctx`, and that state at the start. -/
structure Transport (σ : Type*) where
  new : σ
  openFn : σ → SseRequest → SseResponseInfo → Int × SseResponseInfo × σ
  readFn : σ → Nat → UInt32 → Int × Bytes × σ
  closeFn : σ → σ

/-- What a call returns; `close` returns nothing. -/
def Transport.result (T : Transport σ) (s : σ) : Port.TransportCall → Int
  | .openFn req out => (T.openFn s req out).1
  | .readFn len timeoutMs => (T.readFn s len timeoutMs).1
  | .closeFn => 0

/-- What a call makes of the state. -/
def Transport.next (T : Transport σ) (s : σ) : Port.TransportCall → σ
  | .openFn req out => (T.openFn s req out).2.2
  | .readFn len timeoutMs => (T.readFn s len timeoutMs).2.2
  | .closeFn => T.closeFn s

def Transport.component (T : Transport σ) : Component Port.TransportCall Int σ :=
  ⟨T.new, T.result, T.next⟩

/-! ## §2 The Calls in a Log -/

/-- The strings of an array that ends with a null pointer. -/
def stringsOf (headers : List (Option Mem)) : List Mem :=
  (headers.takeWhile Option.isSome).filterMap id

/-- `info` as `do_connect` hands it to `open`. -/
def blankInfo : SseResponseInfo := ⟨0, [0], -1⟩

/-- A call of the transport, as the client makes it, and what it returned. -/
def vtableCall : Obs → Option (Port.TransportCall × Int)
  | .transportOpen url headers result => some (.openFn ⟨url, stringsOf headers⟩ blankInfo, result)
  | .transportRead len timeoutMs result => some (.readFn len timeoutMs, result)
  | .transportClose => some (.closeFn, 0)
  | _ => none

/-- The calls of the transport in a log, with what they returned. -/
def history (log : Log) : List (Port.TransportCall × Int) :=
  log.filterMap fun e => vtableCall e.obs

/-- The transport after the calls of a log. -/
def Transport.stateOf (T : Transport σ) (log : Log) : σ :=
  T.component.after (history log)

theorem history_snoc (log : Log) (e : Entry) :
    history (log ++ [e]) = history log ++ (vtableCall e.obs).toList := by
  unfold history
  rw [List.filterMap_append]
  cases h : vtableCall e.obs <;> simp [h]

theorem history_snoc_none (log : Log) {e : Entry} (h : vtableCall e.obs = none) :
    history (log ++ [e]) = history log := by
  rw [history_snoc, h, Option.toList_none, List.append_nil]

theorem history_snoc_some (log : Log) {e : Entry} {x : Port.TransportCall × Int}
    (h : vtableCall e.obs = some x) : history (log ++ [e]) = history log ++ [x] := by
  rw [history_snoc, h, Option.toList_some]

/-! ## §3 The Stack -/

/-- The request of the attempt that a poll of `c` makes. -/
def attemptRequest (c : SseClient) (extra : List Mem) : SseRequest :=
  let c := buildHeaders { c with state := .connecting } extra
  ⟨c.cfg.url.getD [], stringsOf c.headers⟩

/-- `open` answers as the transport does. The call of the interface comes last in the log, with the
client that is about to connect. -/
def Transport.openReply (T : Transport σ) (base : Env) (log : Log) : OpenReply :=
  match log.getLast? with
  | none => base.openReply log
  | some e =>
    let req := attemptRequest e.client (base.extraHeaders log)
    { result := (T.openFn (T.stateOf log) req blankInfo).1
      fill := fun out => (T.openFn (T.stateOf log) req out).2.1
      stop := (base.openReply log).stop }

/-- And so does `read`. -/
def Transport.readReply (T : Transport σ) (base : Env) (log : Log) : ReadReply :=
  match log.getLast? with
  | none => base.readReply log
  | some e =>
    let r := T.readFn (T.stateOf log) e.client.rxBuf.length e.client.cfg.readTimeoutMs
    { result := r.1
      bytes := r.2.1
      stop := (base.readReply log).stop }

/-- The surroundings `base`, with `T` as the transport. -/
def Transport.under (T : Transport σ) (base : Env) : Env :=
  { base with
    openReply := T.openReply base
    readReply := T.readReply base }

/-! ## §4 Every Answer Is the Transport's -/

/-- What holds of a call of the transport, given the entries before it: it is made as the
configuration says, and answered by the transport. -/
structure Answered (T : Transport σ) (cfg : SseClientConfig) (pre : Log) (e : Entry) : Prop where
  opened : ∀ url headers r, e.obs = .transportOpen url headers r →
    r = (T.openFn (T.stateOf pre) ⟨url, stringsOf headers⟩ blankInfo).1
  read : ∀ len timeoutMs r, e.obs = .transportRead len timeoutMs r →
    len = (cfg.rxBuf.getD []).length ∧ timeoutMs = (withDefaults cfg).readTimeoutMs ∧
      r = (T.readFn (T.stateOf pre) len timeoutMs).1

theorem Answered.of_passive {T : Transport σ} {cfg : SseClientConfig} (pre : Log) (e : Entry)
    (h : e.obs.passive = true) : Answered T cfg pre e := by
  constructor
  · intro url headers r heq
    rw [heq] at h
    exact absurd h Bool.false_ne_true
  · intro len timeoutMs r heq
    rw [heq] at h
    exact absurd h Bool.false_ne_true

/-- A call of the interface changes nothing by itself. -/
theorem stateOf_call (T : Transport σ) (w : World) (c : ApiCall) :
    T.stateOf (w.push (.call c)).log = T.stateOf w.log := by
  unfold Transport.stateOf
  rw [push_log, history_snoc_none _ rfl]

theorem over_answered {T : Transport σ} {base : Env} {cfg : SseClientConfig} {w : World}
    (h : Reachable (T.under base) cfg w) : Always (Answered T cfg) w.log := by
  refine reachable_questions Answered.of_passive ?_ ?_ h
  · intro v hv hs
    -- the component looks at the last entry, which is the question
    have hlast : (v.push (.call .poll)).log.getLast? = some ⟨.call .poll, v.client⟩ :=
      List.getLast?_concat
    constructor
    · rintro url headers r ⟨⟩
      show (T.openReply base (v.push (.call .poll)).log).result = _
      unfold Transport.openReply
      rw [hlast]
      rfl
    · intro len timeoutMs r heq
      cases heq
  · intro v hv hs
    have hlast : (v.push (.call .poll)).log.getLast? = some ⟨.call .poll, v.client⟩ :=
      List.getLast?_concat
    have hcfg := (reachable_life hv).config
    constructor
    · intro url headers r heq
      cases heq
    · rintro len timeoutMs r ⟨⟩
      refine ⟨(reachable_calls hv).buffer, congrArg SseClientConfig.readTimeoutMs hcfg, ?_⟩
      show (T.readReply base (v.push (.call .poll)).log).result = _
      unfold Transport.readReply
      rw [hlast]

/-- The answers in the history are those of the component. -/
theorem genuine_of_answered {T : Transport σ} {cfg : SseClientConfig} {log : Log}
    (h : Always (Answered T cfg) log) : T.component.Genuine (history log) := by
  induction log using List.reverseRecOn with
  | nil => exact always_nil _
  | append_singleton log e ih =>
    obtain ⟨hlog, he⟩ := always_snoc.mp h
    obtain ⟨o, c⟩ := e
    cases o with
    | transportOpen url headers r =>
      rw [history_snoc_some log rfl]
      exact always_snoc.mpr ⟨ih hlog, he.opened url headers r rfl⟩
    | transportRead len timeoutMs r =>
      rw [history_snoc_some log rfl]
      exact always_snoc.mpr ⟨ih hlog, (he.read len timeoutMs r rfl).2.2⟩
    | transportClose =>
      rw [history_snoc_some log rfl]
      exact always_snoc.mpr ⟨ih hlog, rfl⟩
    | _ =>
      rw [history_snoc_none log rfl]
      exact ih hlog

/-! ## §5 Sessions -/

/-- How a transport may be called: down until an `open` succeeds, and then up until `close`. A read
offers `n` bytes and waits for the given time at most. -/
def discipline (n : Nat) (timeoutMs : UInt32) : Typestate Port.TransportCall Int Bool where
  start := false
  next
    | false, .openFn _ _, r => some (decide (r = 0))
    | true, .readFn len t, _ => if len = n ∧ t = timeoutMs then some true else none
    | true, .closeFn, _ => some false
    | _, _, _ => none

/-- The same without the arguments of the calls. -/
def sessionNext : Bool → Client.TransportCall → Option Bool
  | false, .openFailed => some false
  | false, .openOk => some true
  | true, .read => some true
  | true, .close => some false
  | _, _ => none

theorem sessionNext_reads (reads : Nat) :
    (List.replicate reads Client.TransportCall.read).foldlM sessionNext true = some true := by
  induction reads with
  | zero => rfl
  | succ reads ih => exact ih

theorem sessionNext_session {calls : List Client.TransportCall} (h : calls ∈ session) :
    calls.foldlM sessionNext false = some false := by
  rcases h with h | ⟨_, ⟨_, hopen, _, hreads, rfl⟩, _, hclose, rfl⟩
  · obtain rfl := Set.mem_singleton_iff.mp h
    rfl
  · obtain rfl := Set.mem_singleton_iff.mp hopen
    obtain rfl := Set.mem_singleton_iff.mp hclose
    obtain ⟨parts, rfl, hparts⟩ := Language.mem_kstar.mp hreads
    clear hreads
    -- any number of reads in between
    have hall : parts.flatten.foldlM sessionNext true = some true := by
      induction parts with
      | nil => rfl
      | cons part parts ih =>
        obtain rfl := Set.mem_singleton_iff.mp (hparts part List.mem_cons_self)
        exact ih fun y hy => hparts y (List.mem_cons_of_mem _ hy)
    rw [List.foldlM_append, List.foldlM_append]
    show ((parts.flatten.foldlM sessionNext true).bind _) = _
    rw [hall]
    rfl

theorem sessionNext_sessions {isOpen : Bool} {calls : List Client.TransportCall}
    (h : Sessions isOpen calls) : calls.foldlM sessionNext false = some isOpen := by
  -- finished sessions lead back to where they began
  have hdone : ∀ done, done ∈ KStar.kstar session →
      List.foldlM sessionNext false done = some false := by
    intro done hmem
    obtain ⟨parts, rfl, hparts⟩ := Language.mem_kstar.mp hmem
    clear hmem
    induction parts with
    | nil => rfl
    | cons part parts ih =>
      rw [List.flatten_cons, List.foldlM_append,
        sessionNext_session (hparts part List.mem_cons_self)]
      exact ih fun y hy => hparts y (List.mem_cons_of_mem _ hy)
  cases isOpen with
  | false => exact hdone calls h
  | true =>
    obtain ⟨done, reads, hmem, rfl⟩ := h
    rw [List.foldlM_append, hdone done hmem]
    exact sessionNext_reads reads

/-- With the right arguments the two agree. -/
theorem discipline_after {T : Transport σ} {cfg : SseClientConfig} {log : Log}
    (h : Always (Answered T cfg) log) :
    (discipline (cfg.rxBuf.getD []).length (withDefaults cfg).readTimeoutMs).after (history log) =
      (transportCalls log).foldlM sessionNext false := by
  induction log using List.reverseRecOn with
  | nil => rfl
  | append_singleton log e ih =>
    obtain ⟨hlog, he⟩ := always_snoc.mp h
    have hlog' := ih hlog
    obtain ⟨o, c⟩ := e
    -- one more call leads to the same state from the same state
    have hcall : ∀ (x : Port.TransportCall × Int) (y : Client.TransportCall),
        vtableCall o = some x → o.transportCall = some y →
        (∀ q, (discipline (cfg.rxBuf.getD []).length (withDefaults cfg).readTimeoutMs).next
          q x.1 x.2 = sessionNext q y) →
        (discipline (cfg.rxBuf.getD []).length (withDefaults cfg).readTimeoutMs).after
            (history (log ++ [⟨o, c⟩])) =
          (transportCalls (log ++ [⟨o, c⟩])).foldlM sessionNext false := by
      intro x y hx hy hnext
      rw [history_snoc_some log hx, Typestate.after_snoc, hlog', transportCalls_snoc, hy,
        Option.toList_some, List.foldlM_append]
      show Option.bind _ _ = Option.bind _ _
      congr 1
      funext q
      rw [hnext q]
      show sessionNext q y = (sessionNext q y).bind pure
      cases sessionNext q y <;> rfl
    cases o with
    | transportOpen url headers r =>
      apply hcall _ _ rfl rfl
      intro q
      by_cases hr : r = 0
      · cases q <;> simp [discipline, sessionNext, hr]
      · cases q <;> simp [discipline, sessionNext, hr]
    | transportRead len timeoutMs r =>
      apply hcall _ _ rfl rfl
      obtain ⟨hlen, ht, -⟩ := he.read len timeoutMs r rfl
      intro q
      cases q with
      | false => rfl
      | true => exact if_pos ⟨hlen, ht⟩
    | transportClose =>
      apply hcall _ _ rfl rfl
      intro q
      cases q <;> rfl
    | _ =>
      rw [history_snoc_none log rfl, transportCalls_snoc_none log rfl]
      exact hlog'

/-- **Assume and guarantee.** In every reachable world over a transport: its calls obey the
discipline, its answers are its own, and whatever it keeps under the discipline holds of it, now and
at every call. -/
theorem over_keeps {T : Transport σ} {base : Env} {cfg : SseClientConfig} {w : World}
    {I : Bool → σ → Prop}
    (hkeeps : Keeps T.component
      (discipline (cfg.rxBuf.getD []).length (withDefaults cfg).readTimeoutMs) I)
    (h : Reachable (T.under base) cfg w) :
    T.component.Genuine (history w.log) ∧
      I w.client.transportOpen (T.stateOf w.log) ∧
      Always (fun pre x => ∃ q q', (discipline (cfg.rxBuf.getD []).length
          (withDefaults cfg).readTimeoutMs).next q x.1 x.2 = some q' ∧ I q (T.component.after pre))
        (history w.log) := by
  have hall := over_answered h
  have hgenuine := genuine_of_answered hall
  have hobeys := (discipline_after hall).trans (sessionNext_sessions (reachable_calls h).sessions)
  exact ⟨hgenuine, hkeeps.after hgenuine hobeys, hkeeps.before hgenuine hobeys⟩

end EventSource.System
