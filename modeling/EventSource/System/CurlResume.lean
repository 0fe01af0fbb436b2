import EventSource.System.CurlStack
import EventSource.System.Resume

/-!
# Every Event Exactly Once, over curl

The whole way from a server to the application: libcurl, the transport's ring, the client and its
parser. Of libcurl it is assumed that it delivers what the server answers, in order and as far as it
gets: a chunk that is not part of a redirect takes up where the accepted bytes end, so that one that
was refused comes again.
-/

namespace EventSource.System

open EventSource.CMemory
open EventSource.Client
open EventSource.Contract
open EventSource.Parser
open EventSource.Port
open EventSource.Trace

variable {C : CurlEnv} {base : Env} {cfg : SseClientConfig} {w : World} {v u : CurlWorld}
  {lim : Limits} {S : Server lim} {log : CurlLog}

/-! ## §1 What libcurl Delivers -/

/-- The headers of the request whose transfer is running. -/
def transferHeaders (log : CurlLog) : Option (List Mem) :=
  log.foldl (fun hs e =>
    match e.obs with
    | .teardown => none
    | .request _ headers => some headers
    | _ => hs) none

/-- The chunk that `on_body` is called with. -/
def chunkOf : CurlObs → Option Bytes
  | .body chunk _ => some chunk
  | _ => none

/-- A chunk belongs to a redirect, or it continues the answer to the request. -/
def Continues (S : Server lim) (pre : CurlLog) (e : CurlEntry) : Prop :=
  ∀ chunk ∈ chunkOf e.obs, isRedirectStatus e.ctx.headerBlockStatus = true ∨
    ∃ headers ∈ transferHeaders pre, (ledger pre).accepted ++ chunk <+: S.answer headers

instance (S : Server lim) (pre : CurlLog) (e : CurlEntry) : Decidable (Continues S pre e) :=
  inferInstanceAs (Decidable (∀ chunk ∈ chunkOf e.obs, _))

/-- libcurl has delivered nothing but the server's answers. -/
def DeliversAnswers (S : Server lim) (log : CurlLog) : Prop :=
  Always (Continues S) log

instance (S : Server lim) (log : CurlLog) : Decidable (DeliversAnswers S log) :=
  inferInstanceAs (Decidable (Always _ _))

theorem transferHeaders_snoc (log : CurlLog) (e : CurlEntry) :
    transferHeaders (log ++ [e]) =
      match e.obs with
      | .teardown => none
      | .request _ headers => some headers
      | _ => transferHeaders log := by
  unfold transferHeaders
  rw [List.foldl_append]
  rfl

/-- **What has been accepted is the beginning of the answer.** -/
theorem accepted_part (hspares : Always (fun _ e => SparesResponses e) log)
    (hdelivers : DeliversAnswers S log) {headers : List Mem}
    (hreq : transferHeaders log = some headers) : (ledger log).accepted <+: S.answer headers := by
  induction log using List.reverseRecOn with
  | nil => cases hreq
  | append_singleton log e ih =>
    obtain ⟨hpre, he⟩ := always_snoc.mp hspares
    obtain ⟨hdone, hnew⟩ := always_snoc.mp hdelivers
    obtain ⟨o, t⟩ := e
    rw [transferHeaders_snoc] at hreq
    rw [ledger_snoc]
    cases o with
    | teardown => cases hreq
    | request url hs => exact List.nil_prefix
    | body chunk result =>
      cases result with
      | stored =>
        -- the only callback that accepts bytes
        rcases hnew chunk rfl with hredirect | ⟨hs, hmem, hpart⟩
        · cases (he chunk .stored rfl).mpr hredirect
        · obtain rfl : hs = headers := Option.some.inj (hmem.symm.trans hreq)
          exact hpart
      | _ => exact ih hpre hdone hreq
    | _ => exact ih hpre hdone hreq

/-! ## §2 The Request of a Transfer -/

/-- The transfer that is running has been asked for with `headers`, and so will be the next. -/
def Asked (headers : List Mem) (v : CurlWorld) : Prop :=
  transferHeaders v.log = some headers ∧ v.ctx.hdrs = headers

theorem onHeader_hdrs (t : CurlCtx) (ptr : Mem) (n : Nat) : (onHeader t ptr n).hdrs = t.hdrs := by
  unfold onHeader
  split
  · rfl
  · split
    · split <;> rfl
    · split <;> rfl

theorem onBody_hdrs (t : CurlCtx) (chunk : Bytes) : (onBody t chunk).1.hdrs = t.hdrs := by
  rcases onBody_cases t chunk with ⟨-, heq⟩ | ⟨-, -, heq⟩ | ⟨-, -, heq⟩ <;> rw [heq]

/-- Running libcurl begins no transfer. -/
theorem pumpStep_asked {headers : List Mem} (h : PumpStep u v) (hu : Asked headers u) :
    Asked headers v := by
  have hquiet : ∀ o, v.log = u.log ++ [⟨o, v.ctx⟩] → v.ctx.hdrs = u.ctx.hdrs →
      transferHeaders (u.log ++ [⟨o, v.ctx⟩]) = transferHeaders u.log → Asked headers v := by
    intro o hlog hhdrs hsame
    refine ⟨?_, hhdrs.trans hu.2⟩
    rw [hlog, hsame]
    exact hu.1
  cases h with
  | callBack c =>
    cases c with
    | header ptr n => exact hquiet _ rfl (onHeader_hdrs _ _ _) (transferHeaders_snoc _ _)
    | body chunk => exact hquiet _ rfl (onBody_hdrs _ _) (transferHeaders_snoc _ _)
  | _ => exact hquiet _ rfl rfl (transferHeaders_snoc _ _)

theorem pumpSteps_asked {headers : List Mem} (h : PumpSteps u v) (hu : Asked headers u) :
    Asked headers v :=
  invariant_of_steps (I := Asked headers) (fun _ _ hst => pumpStep_asked hst) h hu

/-- All the headers are in the list, or the open fails. -/
theorem appendHeaders_hdrs (C : CurlEnv) (v : CurlWorld) (headers : List Mem)
    (hok : (appendHeaders C v headers).1 = true) :
    (appendHeaders C v headers).2.ctx.hdrs = v.ctx.hdrs ++ headers := by
  induction headers generalizing v with
  | nil => exact (List.append_nil _).symm
  | cons h hs ih =>
    unfold appendHeaders at hok ⊢
    split at hok
    · next hmem =>
      rw [if_pos hmem, ih _ hok]
      exact List.append_assoc _ [h] hs
    · cases hok

theorem setUp_hdrs (C : CurlEnv) (v : CurlWorld) (headers : List Mem)
    (hok : (setUp C v headers).1 = true) : (setUp C v headers).2.ctx.hdrs = headers := by
  unfold setUp at hok ⊢
  simp only at hok ⊢
  split at hok
  · cases hok
  · next hhandles =>
    rw [if_neg hhandles]
    exact appendHeaders_hdrs C _ headers hok

/-- **A connection is asked for with the headers of the call,** and so is every hop. Nothing has been
returned of it. -/
theorem curlOpenFn_asked (C : CurlEnv) (v : CurlWorld) (req : SseRequest) (out : SseResponseInfo)
    (hr : (curlOpenFn C v req out).1 = 0) :
    Asked req.headers (curlOpenFn C v req out).2.2 ∧
      (ledger (curlOpenFn C v req out).2.2.log).returned = [] := by
  -- each request of an open, the first one and those of the hops, is of this kind
  have hrequest : ∀ x url, x.ctx.hdrs = req.headers →
      Asked req.headers (addHandle x url) ∧ (ledger (addHandle x url).log).returned = [] := by
    intro x url hx
    refine ⟨⟨?_, hx⟩, ?_⟩
    · show transferHeaders (x.log ++ [⟨.request url x.ctx.hdrs, x.ctx⟩]) = _
      rw [transferHeaders_snoc, hx]
    · show (ledger (x.log ++ [_])).returned = []
      rw [ledger_snoc]
      rfl
  have hfail : (-1 : Int) ≠ 0 := by decide
  unfold curlOpenFn at hr ⊢
  simp only at hr ⊢
  split at hr
  · exact absurd hr hfail
  · next hset =>
    rw [if_neg hset]
    have hhdrs := setUp_hdrs C v req.headers (by simpa using hset)
    have hloop := hopLoop_keeps
      (P := fun u => Asked req.headers u ∧ (ledger u.log).returned = [])
      (fun _ _ hst hu => ⟨pumpSteps_asked hst hu.1, (PumpSteps.returned hst).trans hu.2⟩)
      (fun x redir hx => hrequest (x.update _) redir hx.1.2) C maxRedirectHops
      (hrequest _ req.url hhdrs)
    split at hr
    · exact absurd hr hfail
    · next hhops =>
      rw [if_neg hhops]
      exact hloop

theorem takeBytes_asked {headers : List Mem} (C : CurlEnv) (len : Nat) (h : Asked headers v) :
    Asked headers (takeBytes C v len).2.2 := by
  unfold takeBytes
  simp only
  apply pumpSteps_asked (resumeIfRoom_steps C _)
  refine ⟨?_, h.2⟩
  rw [curlPush_log, transferHeaders_snoc]
  exact h.1

theorem curlReadFn_asked {headers : List Mem} (C : CurlEnv) (len : Nat) (timeoutMs : UInt32)
    (h : Asked headers v) : Asked headers (curlReadFn C v len timeoutMs).2.2 := by
  have hpump := pumpSteps_asked (pump_steps C v timeoutMs.toInt32.toInt) h
  unfold curlReadFn
  simp only
  split
  · split
    · exact h
    · split
      · exact hpump
      · split
        · split <;> exact hpump
        · exact takeBytes_asked C len hpump
  · exact takeBytes_asked C len h

/-! ## §3 The Transport Carries What libcurl Delivers -/

theorem DeliversAnswers.before {a b : CurlLog} (h : DeliversAnswers S b) (hab : a <+: b) :
    DeliversAnswers S a := by
  obtain ⟨rest, rfl⟩ := hab
  exact h.of_append

/-- The transport serves as libcurl delivers: returned, accepted, sent, each is a beginning of the
next. -/
theorem curlTransport_serves (C : CurlEnv) (S : Server lim) :
    (curlTransport C).Serves S (fun v => DeliversAnswers S v.log)
      fun req v bytes => Asked req.headers v ∧ (ledger v.log).returned = bytes where
  before v call hdelivers := by
    have hstep : (curlTransport C).next v call = runTransport C v call := by
      cases call <;> rfl
    rw [hstep] at hdelivers
    exact hdelivers.before (runTransport_steps C v call).log
  opened v req out hr := curlOpenFn_asked C v req out hr
  read v req bytes len t h := by
    refine ⟨curlReadFn_asked C len t h.1, ?_⟩
    show (ledger (curlReadFn C v len t).2.2.log).returned = bytes ++ (curlReadFn C v len t).2.1
    rw [curlReadFn_returned, h.2]
  part := by
    rintro _ req _ ⟨calls, rfl⟩ hdelivers ⟨hasked, rfl⟩
    have hreach : CurlSteps curlNew ((curlTransport C).component.after calls) :=
      (after_curlReachable C calls).steps
    have haccepted := accepted_part hreach.sparesResponses hdelivers hasked.1
    rw [hreach.ringOk.1.fifo] at haccepted
    exact (List.prefix_append _ _).trans haccepted

/-! ## §4 From the Server to the Application -/

/-- **Every event exactly once, over curl.** If libcurl has delivered nothing but the server's answers,
broken off wherever, then the application has been told the first `m` events, each once and in
order, and the next connection asks for the one behind them. While the client is OPEN, all that has
been read from the ring completely is among them. -/
theorem curl_resumes_exactly_once {S : Server (clientLimits cfg)}
    (hm : cfg.callbacks.onMessage = true)
    (hplain : ∀ log, ∀ x ∈ sentExtras cfg (base.extraHeaders log),
      namesLastEventId (cstr x) = false)
    (h : Reachable ((curlTransport C).under base) cfg w)
    (hdelivers : DeliversAnswers S ((curlTransport C).stateOf w.log).log) :
    ∃ m, ToldFirst S w m ∧
      (w.client.state = .opened →
        NoneMissing S w (ledger ((curlTransport C).stateOf w.log).log).returned m) := by
  have hcarried := (curlTransport_serves C S).history h hdelivers
  obtain ⟨m, htold, hmissing⟩ := exists_toldFirst (curlTransport_sound C) hcarried hm hplain h
  refine ⟨m, htold, fun hopen => ?_⟩
  rw [← received_returned h hopen]
  exact hmissing

/-- libcurl delivers the first 24 bytes of every answer, and then the transfer is done. -/
def brokenEnv : CurlEnv :=
  { twoByteEnv with
    performed := fun log =>
      [.header (ascii "HTTP/1.1 200 OK\r\n".toList) 17, .header (ascii "\r\n".toList) 2,
        .body ((twoTicks.answer ((transferHeaders log).getD [])).take 24)]
    messages := fun _ => [some 0]
    contentType := fun _ => some (eventStreamType ++ [0]) }

def brokenClient : World :=
  runCalls ((curlTransport brokenEnv).under patientEnv) ⟨initClient tickConfig 0, []⟩
    (List.replicate 8 .poll)

theorem brokenClient_reachable :
    Reachable ((curlTransport brokenEnv).under patientEnv) tickConfig brokenClient :=
  ⟨⟨initClient tickConfig 0, []⟩, List.replicate 8 .poll, rfl, rfl⟩

theorem curl_resumes_exactly_once_of_two :
    signals brokenClient.log =
        [.message defaultType (ascii "lim 1".toList), .message defaultType (ascii "lim 2".toList)] ∧
      ∃ m, ToldFirst twoTicks brokenClient m := by
  obtain ⟨m, htold, -⟩ := curl_resumes_exactly_once (S := twoTicks) rfl
    (fun _ x hx => absurd hx List.not_mem_nil) brokenClient_reachable (by decide +kernel)
  exact ⟨by decide +kernel, m, htold⟩

end EventSource.System
