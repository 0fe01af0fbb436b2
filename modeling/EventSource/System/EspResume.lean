import EventSource.Port.Redirects
import EventSource.System.EspStack
import EventSource.System.Resume

/-!
# Every Event Exactly Once, over ESP-IDF

The ESP-IDF transport takes the client's headers apart into names and values, and leaves some of them
out. The server reads the same resume position as it would from the headers themselves, so here too
every event is told once. Of `esp_http_client` it is assumed that its reads take up where the last
one ended.
-/

namespace EventSource.System

open EventSource.CMemory
open EventSource.Client
open EventSource.Contract
open EventSource.Cut
open EventSource.Parser
open EventSource.Port

variable {E : EspEnv} {R : EspReadEnv} {base : Env} {cfg : SseClientConfig} {w : World}
  {lim : Limits} {S : Server lim}

/-! ## §1 Names and Values -/

theorem rstrip_append_cons (p v : Bytes) {b : UInt8} (hb : isBlank b = false) :
    rstrip (p ++ b :: v) = p ++ b :: rstrip v := by
  unfold rstrip List.rdropWhile
  rw [List.reverse_append, List.reverse_cons, List.append_assoc, List.dropWhile_append]
  split
  · next hall =>
    rw [List.isEmpty_iff.mp hall, List.singleton_append, List.dropWhile_cons_of_neg (by simp [hb])]
    simp
  · simp

theorem strip_cons_blank (v : Bytes) {b : UInt8} (hb : isBlank b = true) :
    strip (b :: v) = strip v := by
  have hright : rstrip (b :: v) = if rstrip v = [] then [] else b :: rstrip v := by
    unfold rstrip List.rdropWhile
    rw [List.reverse_cons, List.dropWhile_append]
    by_cases hall : v.reverse.dropWhile isBlank = []
    · rw [hall]
      simp [hb]
    · rw [if_neg (by simpa using hall), if_neg (by simpa using hall)]
      simp
  unfold strip
  rw [hright]
  split
  · next hall => rw [hall]
  · rw [List.dropWhile_cons_of_pos hb]

/-- The spaces that the transport skips do not count. -/
theorem strip_skipSpaces (v : Bytes) : strip (v.dropWhile (· = space)) = strip v := by
  induction v with
  | nil => rfl
  | cons b v ih =>
    by_cases hb : b = space
    · rw [List.dropWhile_cons_of_pos (by simpa using hb), ih, strip_cons_blank v (by rw [hb]; rfl)]
    · rw [List.dropWhile_cons_of_neg (by simpa using hb)]

/-- The name that `Handler.handle` looks for. -/
def lastEventIdKey : Bytes := ascii "last-event-id".toList

/-- A header goes by its name, whatever its value. -/
theorem namesLastEventId_iff {name : Bytes} (hname : ∀ b ∈ name, isColon b = false) (v : Bytes) :
    namesLastEventId (name ++ colon :: v) = true ↔ name.map asciiLower = lastEventIdKey := by
  have hsplit : lastEventIdName = lastEventIdKey ++ [colon] := by decide
  have hkey : ∀ b ∈ lastEventIdKey, isColon b = false := by decide +kernel
  unfold namesLastEventId startsWithCase
  rw [rstrip_append_cons name v (by decide), decide_eq_true_eq]
  constructor
  · intro h
    have hlower : ∀ b ∈ name.map asciiLower, isColon b = false := by
      intro b hb
      obtain ⟨c, hc, rfl⟩ := List.mem_map.mp hb
      refine decide_eq_false fun heq => ?_
      exact absurd (hname c hc) (by simp [isColon, of_asciiLower (by decide) heq])
    -- both sides end their name at the first colon
    have hwhole : name.map asciiLower ++ colon :: (rstrip v).map asciiLower =
        lastEventIdKey ++ colon :: ((name ++ colon :: rstrip v).drop 14).map asciiLower := by
      calc name.map asciiLower ++ colon :: (rstrip v).map asciiLower
          = (name ++ colon :: rstrip v).map asciiLower := by simp [colon, asciiLower]
        _ = ((name ++ colon :: rstrip v).take 14).map asciiLower ++
              ((name ++ colon :: rstrip v).drop 14).map asciiLower := by
            rw [← List.map_append, List.take_append_drop]
        _ = _ := by
            rw [show (14 : Nat) = lastEventIdName.length from rfl, h, hsplit, List.append_assoc]
            rfl
    have hbegins : ∀ x : Bytes, Begins isColon (colon :: x) := fun x a ha => by
      obtain rfl := Option.mem_some.mp ha
      rfl
    rw [← (cut_append hlower (hbegins _)).1, hwhole]
    exact (cut_append hkey (hbegins _)).1
  · intro h
    have hlen : name.length = 13 := by
      rw [← List.length_map asciiLower, h]
      rfl
    have htake : (name ++ colon :: rstrip v).take lastEventIdName.length = name ++ [colon] := by
      rw [← List.singleton_append, ← List.append_assoc]
      exact List.take_left' (by simp [hlen]; rfl)
    rw [htake, List.map_append, h, hsplit]
    rfl

theorem headerValue_cons {name : Bytes} (hname : ∀ b ∈ name, isColon b = false) (v : Bytes) :
    headerValue (name ++ colon :: v) = strip v := by
  have hkeep : ∀ b ∈ name, decide (b ≠ colon) = true := by
    intro b hb
    have hb' := hname b hb
    unfold isColon at hb'
    simpa using hb'
  unfold headerValue
  rw [rstrip_append_cons name v (by decide), List.dropWhile_append_of_pos hkeep,
    List.dropWhile_cons_of_neg (by simp)]
  show strip (rstrip v) = strip v
  unfold strip rstrip
  rw [List.rdropWhile_idempotent]

/-- The line that a name and a value make. -/
def headerLine (name value : Mem) : Mem :=
  name ++ colon :: space :: value

/-- A header with this name is read alike whether it is sent as it is or taken apart. -/
theorem headerLine_read {name : Bytes} (hname : ∀ b ∈ name, isColon b = false) (value : Bytes) :
    namesLastEventId (headerLine name (value.dropWhile (· = space))) =
        namesLastEventId (name ++ colon :: value) ∧
      headerValue (headerLine name (value.dropWhile (· = space))) =
        headerValue (name ++ colon :: value) := by
  constructor
  · rw [Bool.eq_iff_iff]
    exact (namesLastEventId_iff hname _).trans (namesLastEventId_iff hname _).symm
  · unfold headerLine
    rw [headerValue_cons hname, headerValue_cons hname, strip_cons_blank _ (by decide),
      strip_skipSpaces]

theorem colon_mem_of_named {line : Bytes} (h : namesLastEventId line = true) : colon ∈ line := by
  have hmem : colon ∈ ((rstrip line).take lastEventIdName.length).map asciiLower := by
    rw [of_decide_eq_true h]
    decide
  obtain ⟨b, hb, hlower⟩ := List.mem_map.mp hmem
  obtain rfl : b = colon := of_asciiLower (by decide) hlower
  exact (List.rdropWhile_prefix _ _).subset (List.mem_of_mem_take hb)

theorem nul_not_mem_headerLine {h name value : Mem} (hsplit : cstr h = name ++ colon :: value) :
    (0 : UInt8) ∉ headerLine name (value.dropWhile (· = space)) := by
  have hplain := not_mem_cstr h
  rw [hsplit, List.mem_append, List.mem_cons] at hplain
  unfold headerLine
  rw [List.mem_append, List.mem_cons, List.mem_cons]
  rintro (hname | hcolon | hspace | hvalue)
  · exact hplain (.inl hname)
  · exact absurd hcolon (by decide)
  · exact absurd hspace (by decide)
  · exact hplain (.inr (.inr ((List.dropWhile_suffix _).subset hvalue)))

/-- A header is left out, which is none that the server looks for, or it is set with its name and its
value. -/
theorem setHeader_cases (v : EspWorld) (h : Mem) :
    (setHeader v h = v ∧ namesLastEventId (cstr h) = false) ∨
      ∃ name value, cstr h = name ++ colon :: value ∧ (∀ b ∈ name, isColon b = false) ∧
        setHeader v h = v.push (.setHeader name (value.dropWhile (· = space))) := by
  have hname : ∀ b ∈ before isColon (cstr h), isColon b = false := fun b => stop_before
  have hwhole := before_append_fromFirst isColon (cstr h)
  have hbegins := begins_fromFirst isColon (cstr h)
  unfold setHeader
  cases hrest : fromFirst isColon (cstr h) with
  | nil =>
    refine .inl ⟨rfl, Bool.not_eq_true _ ▸ fun hnamed => ?_⟩
    -- the name ends with a colon, and there is none
    rw [hrest, List.append_nil] at hwhole
    rw [hwhole] at hname
    exact absurd (hname colon (colon_mem_of_named hnamed)) (by decide)
  | cons b value =>
    rw [hrest] at hwhole hbegins
    obtain rfl : b = colon := of_decide_eq_true (hbegins b rfl)
    simp only
    split
    · next hlong =>
      refine .inl ⟨rfl, Bool.not_eq_true _ ▸ fun hnamed => ?_⟩
      rw [← hwhole, namesLastEventId_iff hname] at hnamed
      have hlen := congrArg List.length hnamed
      rw [List.length_map] at hlen
      exact absurd hlong (by rw [hlen]; decide)
    · exact .inr ⟨_, value, hwhole.symm, hname, rfl⟩

/-- The header lines that have been set on the handle, while there is one. A name that is set again
only replaces a line that the server, which heeds the last, would not heed anyway. -/
def handleLines (log : EspLog) : Option (List Mem) :=
  log.foldl (fun lines e =>
    match e.obs with
    | .cleanup => none
    | .request _ => some []
    | .setHeader name value => lines.map (· ++ [headerLine name value])
    | _ => lines) none

theorem handleLines_snoc (log : EspLog) (e : EspEntry) :
    handleLines (log ++ [e]) =
      match e.obs with
      | .cleanup => none
      | .request _ => some []
      | .setHeader name value => (handleLines log).map (· ++ [headerLine name value])
      | _ => handleLines log := by
  unfold handleLines
  rw [List.foldl_append]
  rfl

/-- The server reads the same resume position in the lines on the handle as in `headers`. -/
def SetFor (headers : List Mem) (log : EspLog) : Prop :=
  ∃ lines, handleLines log = some lines ∧
    lastEventIdOf (lines.map cstr) = lastEventIdOf (headers.map cstr)

theorem lastEventIdOf_snoc (lines : List Bytes) (line : Bytes) :
    lastEventIdOf (lines ++ [line]) =
      if namesLastEventId line then headerValue line else lastEventIdOf lines := by
  unfold lastEventIdOf
  rw [List.foldl_append]
  rfl

theorem SetFor.setHeader {headers : List Mem} {v : EspWorld} (hv : SetFor headers v.log) (h : Mem) :
    SetFor (headers ++ [h]) (setHeader v h).log := by
  obtain ⟨lines, hlines, hid⟩ := hv
  rcases setHeader_cases v h with ⟨hsame, hother⟩ | ⟨name, value, hsplit, hname, hset⟩
  · rw [hsame]
    refine ⟨lines, hlines, ?_⟩
    rw [List.map_append, List.map_singleton, lastEventIdOf_snoc, hother]
    exact hid
  · obtain ⟨hnames, hvalue⟩ := headerLine_read hname value
    have hplain : cstr (headerLine name (value.dropWhile (· = space))) =
        headerLine name (value.dropWhile (· = space)) :=
      cstr_of_not_mem (nul_not_mem_headerLine hsplit)
    refine ⟨lines ++ [headerLine name (value.dropWhile (· = space))], ?_, ?_⟩
    · rw [hset]
      show handleLines (v.log ++ [_]) = _
      rw [handleLines_snoc, hlines]
      rfl
    · rw [List.map_append, List.map_append, List.map_singleton, List.map_singleton,
        lastEventIdOf_snoc, lastEventIdOf_snoc, hplain, hsplit, hnames, hvalue, hid]

/-! ## §2 The Handle of a Connection -/

theorem SetFor.setHeaders {headers : List Mem} (more : List Mem) {v : EspWorld}
    (hv : SetFor headers v.log) : SetFor (headers ++ more) (more.foldl Port.setHeader v).log := by
  induction more generalizing headers v with
  | nil =>
    rw [List.append_nil]
    exact hv
  | cons h more ih =>
    rw [← List.singleton_append, ← List.append_assoc]
    exact ih (hv.setHeader h)

/-- What changes no line of the handle. -/
theorem SetFor.quiet {headers : List Mem} {log : EspLog} {e : EspEntry} (h : SetFor headers log)
    (hquiet : handleLines (log ++ [e]) = handleLines log) : SetFor headers (log ++ [e]) := by
  obtain ⟨lines, hlines, hid⟩ := h
  exact ⟨lines, hquiet.trans hlines, hid⟩

theorem SetFor.handleEvents {headers : List Mem} (es : List EspEvent) {v : EspWorld}
    (hv : SetFor headers v.log) : SetFor headers (es.foldl handleEvent v).log :=
  List.foldlRecOn (motive := fun u : EspWorld => SetFor headers u.log) es handleEvent hv
    fun _ hu _ _ => hu.quiet (handleLines_snoc _ _)

theorem SetFor.sendRequest {headers : List Mem} {v : EspWorld} (hv : SetFor headers v.log) :
    SetFor headers (sendRequest E v).2.log := by
  apply sendRequest_keep fun u => SetFor headers u.log
  · exact hv.quiet (handleLines_snoc _ _)
  · exact fun u hu => hu.quiet (handleLines_snoc _ _)
  · exact fun u e _ hu => hu.quiet (handleLines_snoc _ _)

/-- The headers stay on the handle from hop to hop. -/
theorem SetFor.hops {headers : List Mem} {left : Nat} {r : Option Int} {u v : EspWorld}
    (h : EspHopRun E left u r v) (hu : SetFor headers u.log) : SetFor headers v.log := by
  induction h with
  | failed left u => exact hu.sendRequest
  | surfaced left u status => exact hu.sendRequest
  | refused left u status hcheck => exact hu.sendRequest
  | followed hcheck h ih =>
    apply ih
    exact hu.sendRequest.quiet (handleLines_snoc _ _)

/-- **An open asks the server for what the client wants.** -/
theorem espOpenFn_setFor (E : EspEnv) (v : EspWorld) (req : SseRequest) (out : SseResponseInfo)
    (hr : (espOpenFn E v req out).1 = 0) : SetFor req.headers (espOpenFn E v req out).2.2.log := by
  have hfresh : SetFor [] (((espStart v req.url).update fun t => { t with hc := true }).push
      (.request req.url)).log := ⟨[], handleLines_snoc _ _, rfl⟩
  have hset : SetFor req.headers (espRequested v req).log := hfresh.setHeaders req.headers
  have hfail : (-1 : Int) ≠ 0 := by decide
  rcases espOpenFn_cases E v req out with heq | heq | ⟨status, heq⟩
  · rw [heq] at hr
    exact absurd hr hfail
  · rw [heq] at hr
    exact absurd hr hfail
  · rw [heq]
    exact SetFor.hops (espHopLoop_run E espMaxRedirectHops (espRequested v req)) hset

/-! ## §3 What the Reads Return -/

/-- What has been read on the handle. -/
def bodyRead (handle : List HandleEntry) : Bytes :=
  handle.foldl (fun bytes e =>
    match e.obs with
    | .fresh => []
    | .read _ reply => bytes ++ reply.bytes
    | .setTimeout _ => bytes) []

theorem bodyRead_snoc (handle : List HandleEntry) (e : HandleEntry) :
    bodyRead (handle ++ [e]) =
      match e.obs with
      | .fresh => []
      | .read _ reply => bodyRead handle ++ reply.bytes
      | .setTimeout _ => bodyRead handle := by
  unfold bodyRead
  rw [List.foldl_append]
  rfl

/-- `esp_http_client_read` continues the server's answer to the lines on the handle. -/
structure ReadsOn (R : EspReadEnv) (S : Server lim) : Prop where
  continues : ∀ s want, ∀ lines ∈ handleLines s.world.log,
    bodyRead s.handle <+: S.answer lines →
      bodyRead s.handle ++ (R.read s want).bytes <+: S.answer lines

/-- On an open connection: the handle is set for the request, and what has been returned is what has
been read on it, a beginning of the answer. -/
structure EspServes (S : Server lim) (req : SseRequest) (s : EspState) (bytes : Bytes) : Prop where
  lines : SetFor req.headers s.world.log
  live : s.world.ctx.hc = true
  body : bodyRead s.handle = bytes
  part : bytes <+: S.answer req.headers

theorem SetFor.answer {headers : List Mem} {log : EspLog} (h : SetFor headers log)
    (S : Server lim) : ∃ lines ∈ handleLines log, S.answer lines = S.answer headers := by
  obtain ⟨lines, hlines, hid⟩ := h
  refine ⟨lines, hlines, ?_⟩
  unfold Server.answer Server.place
  rw [hid]

theorem EspServes.setReadTimeout {req : SseRequest} {s : EspState} {bytes : Bytes}
    (h : EspServes S req s bytes) (timeoutMs : UInt32) :
    EspServes S req (setReadTimeout s timeoutMs) bytes := by
  unfold Port.setReadTimeout
  split
  · exact ⟨h.lines, h.live, (bodyRead_snoc _ _).trans h.body, h.part⟩
  · exact h

/-- A read returns the next bytes of the answer. -/
theorem EspServes.read {req : SseRequest} {s : EspState} {bytes : Bytes} (hon : ReadsOn R S)
    (h : EspServes S req s bytes) (len : Nat) (timeoutMs : UInt32) :
    EspServes S req (espReadFn R s len timeoutMs).2.2
      (bytes ++ (espReadFn R s len timeoutMs).2.1) := by
  let u := Port.setReadTimeout s timeoutMs
  let reply := R.read u (min len intMax)
  have hu : EspServes S req u bytes := h.setReadTimeout timeoutMs
  have hread : (espReadFn R s len timeoutMs).2 =
      (reply.bytes, { u.push (.read (min len intMax) reply) with
        world := reply.events.foldl handleEvent u.world }) := by
    have hlive : (!s.world.ctx.hc) = false := by rw [h.live]; rfl
    unfold espReadFn
    simp only [hlive, Bool.false_eq_true, if_false]
    split <;> rfl
  obtain ⟨lines, hmem, hsame⟩ := hu.lines.answer S
  -- the component continues what it has returned so far
  have hnext : bodyRead u.handle ++ reply.bytes <+: S.answer lines := by
    apply hon.continues u (min len intMax) lines hmem
    rw [hu.body, hsame]
    exact hu.part
  rw [hu.body, hsame] at hnext
  rw [hread]
  refine ⟨hu.lines.handleEvents reply.events, (handleEvents_hc _ _).trans hu.live, ?_, hnext⟩
  show bodyRead (u.handle ++ [_]) = _
  rw [bodyRead_snoc]
  exact congrArg (· ++ reply.bytes) hu.body

theorem espTransport_serves (hon : ReadsOn R S) :
    (espTransport E R).Serves S (fun _ => True) (EspServes S) where
  before _ _ := id
  opened s req out hr := by
    have hok : (espOpenFn E s.world req out).1 = 0 := hr
    have hopen : (espOpen E s req out).2.2 =
        { (EspState.push { s with world := (espOpenFn E s.world req out).2.2 } .fresh) with
          configuredTimeoutMs := 0 } := if_pos hok
    show EspServes S req (espOpen E s req out).2.2 []
    rw [hopen]
    exact ⟨espOpenFn_setFor E s.world req out hok, espOpenFn_hc E s.world req out hok,
      bodyRead_snoc _ _, List.nil_prefix⟩
  read _ _ _ len t h := h.read hon len t
  part _ _ _ _ _ h := h.part

/-! ## §4 From the Server to the Application -/

/-- **Every event exactly once, over ESP-IDF.** If `esp_http_client` reads nothing but the server's
answers to the header lines that were set on its handle, broken off wherever, then the application
has been told the first `m` events, each once and in order, and the next connection asks for the one
behind them. While the client is OPEN, all that has been read completely is among them. -/
theorem esp_resumes_exactly_once {S : Server (clientLimits cfg)} (hR : ReadsHonestly R)
    (hon : ReadsOn R S) (hm : cfg.callbacks.onMessage = true)
    (hplain : ∀ log, ∀ x ∈ sentExtras cfg (base.extraHeaders log),
      namesLastEventId (cstr x) = false)
    (h : Reachable ((espTransport E R).under base) cfg w) :
    ∃ m, ToldFirst S w m ∧
      (w.client.state = .opened →
        NoneMissing S w (bodyRead ((espTransport E R).stateOf w.log).handle) m) := by
  have hsound := espTransport_sound (E := E) hR
  have hserves : (espTransport E R).Serves S (fun _ => True) (EspServes S) :=
    espTransport_serves hon
  obtain ⟨m, htold, hmissing⟩ :=
    exists_toldFirst hsound (hserves.history h trivial) hm hplain h
  refine ⟨m, htold, fun hopen => ?_⟩
  have hobeys := history_obeys h
  rw [(transportOpen_iff h).mpr hopen] at hobeys
  obtain ⟨req, -, hup⟩ := hserves.up (genuine_of_answered (over_answered h)) hobeys
  have hbody : bodyRead ((espTransport E R).stateOf w.log).handle =
      (espTransport E R).returned w.log := hup.body
  rw [hbody, ← received_open hsound h hopen]
  exact hmissing

/-- Every connection breaks off after 24 bytes of the answer. -/
def brokenReads : EspReadEnv where
  read s want :=
    let answer := twoTicks.answer ((handleLines s.world.log).getD [])
    let bytes := ((answer.take 24).drop (bodyRead s.handle).length).take want
    ⟨if bytes = [] then -1 else bytes.length, bytes, .other, []⟩
  complete _ := false
  eagain := 28679

theorem brokenReads_honest : ReadsHonestly brokenReads where
  count s want := by
    show List.length _ = Int.toNat (if _ then -1 else (List.length _ : Int))
    split
    · next hnil => exact congrArg List.length hnil
    · rfl
  fits _ _ := List.length_take_le _ _

theorem brokenReads_on : ReadsOn brokenReads twoTicks where
  continues s want lines hlines hpart := by
    show _ ++ (((twoTicks.answer ((handleLines s.world.log).getD [])).take 24).drop _).take want <+: _
    rw [Option.mem_def.mp hlines, Option.getD_some]
    obtain ⟨rest, hrest⟩ := hpart
    rw [← hrest, List.drop_take, List.drop_left, List.take_take]
    exact (List.prefix_append_right_inj _).mpr (List.take_prefix _ _)

def brokenEspClient : World :=
  runCalls ((espTransport silentEspEnv brokenReads).under patientEnv) ⟨initClient tickConfig 0, []⟩
    (List.replicate 8 .poll)

theorem brokenEspClient_reachable :
    Reachable ((espTransport silentEspEnv brokenReads).under patientEnv) tickConfig brokenEspClient :=
  ⟨⟨initClient tickConfig 0, []⟩, List.replicate 8 .poll, rfl, rfl⟩

theorem esp_resumes_exactly_once_of_two :
    signals brokenEspClient.log =
        [.message defaultType (ascii "lim 1".toList), .message defaultType (ascii "lim 2".toList)] ∧
      ∃ m, ToldFirst twoTicks brokenEspClient m := by
  obtain ⟨m, htold, -⟩ := esp_resumes_exactly_once brokenReads_honest brokenReads_on rfl
    (fun _ x hx => absurd hx List.not_mem_nil) brokenEspClient_reachable
  exact ⟨by decide +kernel, m, htold⟩

end EventSource.System
