import EventSource.Client.Backoff
import EventSource.Client.Hints

/-!
# The Outcome of a Connection Attempt

What a poll that calls `open` makes of the answer, against the policy that the documentation gives
for each answer. The two differ for statuses outside 400 to 599.
-/

namespace EventSource.Client

open EventSource.CMemory
open EventSource.Parser

variable {env : Env} {cfg : SseClientConfig} {w : World}

/-! ## §1 Media Types -/

/-- The text before the first parameter or space. -/
def essence (ct : Mem) : Bytes :=
  (cstr ct).takeWhile fun b => b ≠ 0x3B && b ≠ space

/-- The content type is `text/event-stream` in any case, with or without parameters. -/
def IsEventStream (ct : Mem) : Prop :=
  (essence ct).map asciiLower = eventStreamType

instance (ct : Mem) : Decidable (IsEventStream ct) :=
  inferInstanceAs (Decidable (_ = _))

theorem essence_eq (ct : Mem) : essence ct = ct.takeWhile fun b => !endsMediaType b := by
  unfold essence cstr
  rw [List.takeWhile_takeWhile]
  congr 1
  funext b
  unfold endsMediaType
  by_cases h0 : b = 0 <;> by_cases h1 : b = 0x3B <;> by_cases h2 : b = space <;> simp [h0, h1, h2]

/-- A text up to a stop, against the same number of bytes and a stop behind them. -/
theorem map_takeWhile_iff {α β : Type} (f : α → β) (stops : α → Bool) (d : α) (hd : stops d = true)
    {text : List β} (htext : ∀ a, stops a = true → f a ∉ text) (l : List α) :
    (l.takeWhile fun a => !stops a).map f = text ↔
      (l.take text.length).map f = text ∧ stops (l[text.length]?.getD d) = true := by
  induction text generalizing l with
  | nil =>
    cases l with
    | nil => simpa using hd
    | cons a l => cases ha : stops a <;> simp [ha]
  | cons b text ih =>
    cases l with
    | nil => simp
    | cons a l =>
      have hrest := ih (fun x hx hmem => htext x hx (List.mem_cons_of_mem _ hmem)) l
      cases ha : stops a with
      | true =>
        have hne : f a ≠ b := fun heq => htext a ha (by simp [heq])
        simp [ha, hne]
      | false => simp [ha, hrest, and_assoc]

/-- **The hand-written comparison recognises the media type.** -/
theorem ctIsEventStream_iff (ct : Mem) : ctIsEventStream ct = true ↔ IsEventStream ct := by
  have htext : ∀ b, endsMediaType b = true → asciiLower b ∉ eventStreamType := by
    intro b hb
    unfold endsMediaType at hb
    simp only [Bool.or_eq_true, decide_eq_true_eq] at hb
    rcases hb with (rfl | rfl) | rfl <;> decide
  unfold IsEventStream ctIsEventStream
  rw [essence_eq, map_takeWhile_iff asciiLower endsMediaType 0 (by decide) htext, Bool.and_eq_true,
    decide_eq_true_eq]

/-! ## §2 The Documented Policy -/

/-- How an attempt ends. -/
inductive Outcome where
  | opens
  | fails (reason : ErrorReason) (retry : Bool)
  deriving DecidableEq, Repr

/-- A 5xx, a 429, or a 4xx with a Retry-After. -/
def documentedRetry (status : Int) (retryAfterS : Int32) : Bool :=
  (500 ≤ status && status ≤ 599) || status = 429 ||
    (400 ≤ status && status ≤ 499 && 0 ≤ retryAfterS)

/-- The outcome of an attempt, given what decides about other statuses than 200 and 204. -/
def outcome (retry : Int → Int32 → Bool) (cfg : SseClientConfig) (result : Int)
    (info : SseResponseInfo) : Outcome :=
  if result ≠ 0 then .fails .transport true
  else if info.statusCode = 204 then .fails .serverStop false
  else if info.statusCode = 200 then
    if cfg.skipContentTypeCheck = false ∧ ¬ IsEventStream info.contentType then
      .fails .badContentType true
    else .opens
  else .fails .httpStatus (retry info.statusCode info.retryAfterS)

/-- What is reported of a failure: its reason and whether there will be a retry. -/
def Obs.failure : Obs → Option (ErrorReason × Bool)
  | .onError e => some (e.reason, e.willRetry)
  | _ => none

def failures (log : Log) : List (ErrorReason × Bool) :=
  log.filterMap fun e => e.obs.failure

/-- An attempt ends in the state of its outcome, and a failure is reported exactly once. -/
def EndsIn (cfg : SseClientConfig) (w v : World) : Outcome → Prop
  | .opens => v.client.state = .opened ∧ failures v.log = failures w.log
  | .fails reason retry =>
    v.client.state = (if retry then .waitingRetry else .closed) ∧
      failures v.log = failures w.log ++
        if cfg.callbacks.onError then [(reason, retry)] else []

theorem failures_snoc (log : Log) (e : Entry) :
    failures (log ++ [e]) = failures log ++ e.obs.failure.toList := by
  unfold failures
  rw [List.filterMap_append]
  cases h : e.obs.failure <;> simp [h]

/-! ## §3 Failures -/

/-- Callbacks that do not close the client can only request a stop. -/
theorem acts_no_close (acts : List Reentry) (hno : .close ∉ acts) (w : World) :
    ∃ stop, acts.foldl (act env) w = w.update fun c => { c with stopRequested := stop } := by
  induction acts generalizing w with
  | nil => exact ⟨w.client.stopRequested, rfl⟩
  | cons a acts ih =>
    rw [List.mem_cons, not_or] at hno
    cases a with
    | close => exact absurd rfl hno.1
    | requestStop =>
      obtain ⟨stop, heq⟩ := ih hno.2 (sseClientRequestStop w)
      exact ⟨stop, heq⟩

/-- A call of the application is recorded, and nothing else happens in it. -/
theorem callUser_no_close (hno : ∀ log, .close ∉ env.reentry log) (w : World) (o : Obs) :
    (callUser env w o).client.state = w.client.state ∧
      failures (callUser env w o).log = failures w.log ++ o.failure.toList := by
  obtain ⟨stop, heq⟩ := acts_no_close (env.reentry (w.push o).log) (hno _) (w.push o)
  have hcall : callUser env w o = (w.push o).update fun c => { c with stopRequested := stop } := heq
  rw [hcall]
  exact ⟨rfl, failures_snoc _ _⟩

theorem failures_clock (log : Log) (t : Nat) (c : SseClient) :
    failures (log ++ [⟨.clock t, c⟩]) = failures log :=
  (failures_snoc _ _).trans (List.append_nil _)

theorem survives_failures (fs : List (ErrorReason × Bool)) :
    SurvivesClosing fun v => failures v.log = fs where
  transport := fun _ h => ((failures_snoc _ _).trans (List.append_nil _)).trans h
  closed := fun _ h => h
  onClosed := fun _ h => ((failures_snoc _ _).trans (List.append_nil _)).trans h

theorem failures_toClosed (env : Env) (w : World) : failures (toClosed env w).log = failures w.log :=
  (survives_failures _).act (fun _ h => h) env rfl .close

/-- A failure is reported once, with the decision that the client then follows. -/
theorem decideRetry_ends (hno : ∀ log, .close ∉ env.reentry log) (w : World) (e : SseError)
    (retryAfterS : Int32) (retry : Bool) :
    EndsIn w.client.cfg w (decideRetry env w e retryAfterS retry) (.fails e.reason retry) := by
  cases retry with
  | false =>
    -- `on_error` comes before the close, and the close reports nothing
    refine ⟨refuseRetry_state env w e, ?_⟩
    show failures (refuseRetry env w e).log = _
    unfold refuseRetry
    simp only
    rw [failures_toClosed]
    split
    · exact (callUser_no_close hno w (.onError { e with willRetry := false })).2
    · exact (List.append_nil _).symm
  | true =>
    -- the delay only moves the generator on
    obtain ⟨x, hframe⟩ := retryDelay_frame w.client retryAfterS
    have hcfg : (retryDelay w.client retryAfterS).2.cfg = w.client.cfg := by rw [hframe]
    show EndsIn w.client.cfg w (scheduleRetry env w e retryAfterS) (.fails e.reason true)
    unfold scheduleRetry nowMs
    simp only [update_client, push_client, update_log, hcfg]
    split
    · -- `on_error` cannot close the client, since the application makes no such call
      next hcb =>
      obtain ⟨hstate, hfailures⟩ := callUser_no_close hno (⟨_, _⟩ : World) (.onError { e with
        willRetry := true
        retryInMs := (retryDelay w.client retryAfterS).1 })
      refine ⟨hstate, ?_⟩
      rw [if_pos hcb]
      exact hfailures.trans (congrArg (· ++ [(e.reason, true)]) (failures_clock _ _ _))
    · next hcb =>
      refine ⟨rfl, ?_⟩
      rw [if_neg hcb, List.append_nil]
      exact failures_clock _ _ _

/-- **A failure ends as decided.** Without a hook, the default decision is final. -/
theorem failConn_ends (hno : ∀ log, .close ∉ env.reentry log) (w : World)
    (hpolicy : w.client.cfg.reconnectPolicy = false) (reason : ErrorReason) (status : Int)
    (retryAfterS : Int32) :
    EndsIn w.client.cfg w (failConn env w reason status retryAfterS)
      (.fails reason (defaultShouldRetry reason status retryAfterS)) := by
  have hcfg : (closeTransport w).client.cfg = w.client.cfg := by
    rcases closeTransport_cases w with ⟨-, heq⟩ | ⟨-, heq⟩
    · rw [heq]
    · rw [heq]
      rfl
  have hpolicy' : (closeTransport w).client.cfg.reconnectPolicy = false := by
    rw [hcfg]
    exact hpolicy
  have hends := decideRetry_ends hno (closeTransport w)
    ⟨reason, status, defaultShouldRetry reason status retryAfterS, 0⟩ retryAfterS
    (defaultShouldRetry reason status retryAfterS)
  unfold EndsIn at hends ⊢
  rw [hcfg, (survives_failures _).closeTransport rfl] at hends
  unfold failConn
  simp only [hpolicy', Bool.false_eq_true, if_false]
  exact hends

/-- Nothing is reported as failed when the response is accepted. -/
theorem acceptResponse_ends (hno : ∀ log, .close ∉ env.reentry log) (w : World) :
    EndsIn w.client.cfg w (acceptResponse env w) .opens := by
  let u := (nowMs env (w.update fun c => { c with parser := sseParserReset c.parser })).2
  let v := u.update fun c => { c with lastRxMs := .ofNat (env.time w.log), state := .opened }
  have hv : failures v.log = failures w.log := failures_clock _ _ _
  have haccept : acceptResponse env w =
      if w.client.cfg.callbacks.onOpen then callUser env v (.onOpen w.client.attempts) else v := rfl
  by_cases hcb : w.client.cfg.callbacks.onOpen = true
  · obtain ⟨hstate, hfailures⟩ := callUser_no_close hno v (.onOpen w.client.attempts)
    rw [haccept, if_pos hcb]
    exact ⟨hstate, hfailures.trans ((List.append_nil _).trans hv)⟩
  · rw [haccept, if_neg hcb]
    exact ⟨rfl, hv⟩

/-- The response of a successful `open` is judged. -/
theorem judgeResponse_ends (hno : ∀ log, .close ∉ env.reentry log) (w : World)
    (hpolicy : w.client.cfg.reconnectPolicy = false) (info : SseResponseInfo) :
    EndsIn w.client.cfg w (judgeResponse env w info)
      (outcome (defaultShouldRetry .httpStatus) w.client.cfg 0 info) := by
  unfold judgeResponse outcome
  rw [if_neg (by simp : ¬ (0 : Int) ≠ 0)]
  by_cases h204 : info.statusCode = 204
  · rw [if_pos h204, if_pos h204]
    exact failConn_ends hno w hpolicy .serverStop 204 (-1)
  · rw [if_neg h204, if_neg h204]
    by_cases h200 : info.statusCode = 200
    · rw [if_neg (not_not_intro h200), if_pos h200]
      -- the media type is compared byte by byte
      have hcheck : (!w.client.cfg.skipContentTypeCheck && !ctIsEventStream info.contentType) =
          true ↔ w.client.cfg.skipContentTypeCheck = false ∧ ¬ IsEventStream info.contentType := by
        rw [← ctIsEventStream_iff]
        simp
      by_cases hct : w.client.cfg.skipContentTypeCheck = false ∧ ¬ IsEventStream info.contentType
      · rw [if_pos (hcheck.mpr hct), if_pos hct]
        exact failConn_ends hno w hpolicy .badContentType info.statusCode (-1)
      · rw [if_neg (fun h => hct (hcheck.mp h)), if_neg hct]
        exact acceptResponse_ends hno w
    · rw [if_pos h200, if_neg h200]
      exact failConn_ends hno w hpolicy .httpStatus info.statusCode info.retryAfterS

/-! ## §4 The Attempt of a Poll -/

/-- A poll of a client that has no connection makes one. -/
theorem poll_connects (env : Env) (hs : w.client.state = .idle ∨ w.client.state = .connecting)
    (hstop : w.client.stopRequested = false) :
    apply env w .poll = doConnect env (w.push (.call .poll)) := by
  show (sseClientPoll env (w.push (.call .poll))).2 = _
  unfold sseClientPoll
  simp only [push_client, hstop, Bool.false_and, Bool.false_eq_true, if_false]
  rcases hs with hs | hs <;> rw [hs] <;> rfl

theorem attempt_cfg (w : World) (extra : List Mem) (result : Int) (stop : Bool) :
    (attempt w extra result stop).client.cfg = w.client.cfg := by
  obtain ⟨line, hs, oob, hframe⟩ := buildHeaders_frame { w.client with state := .connecting } extra
  show (buildHeaders _ _).cfg = _
  rw [hframe]

/-- The poll that calls `open`. -/
theorem connect_ends (hno : ∀ log, .close ∉ env.reentry log)
    (hpolicy : w.client.cfg.reconnectPolicy = false)
    (hs : w.client.state = .idle ∨ w.client.state = .connecting)
    (hstop : w.client.stopRequested = false) :
    let reply := env.openReply (w.push (.call .poll)).log
    EndsIn w.client.cfg w (apply env w .poll)
      (outcome (defaultShouldRetry .httpStatus) w.client.cfg reply.result
        (reply.fill ⟨0, [0], -1⟩)) := by
  let u := w.push (.call .poll)
  let reply := env.openReply u.log
  let v := attempt u (env.extraHeaders u.log) reply.result reply.stop
  have hpoll : apply env w .poll = doConnect env u := poll_connects env hs hstop
  have hcfg : v.client.cfg = w.client.cfg := attempt_cfg u _ _ _
  have hv : failures v.log = failures w.log := by
    show failures ((w.log ++ [_]) ++ [_]) = _
    rw [failures_snoc, failures_snoc]
    exact (List.append_nil _).trans (List.append_nil _)
  -- nothing is reported before `open` has returned
  have hmove : ∀ {u' v' : World} {o : Outcome}, failures u'.log = failures w.log →
      EndsIn w.client.cfg u' v' o → EndsIn w.client.cfg w v' o := by
    intro u' v' o hu h
    unfold EndsIn at h ⊢
    rw [hu] at h
    exact h
  show EndsIn w.client.cfg w (apply env w .poll)
    (outcome (defaultShouldRetry .httpStatus) w.client.cfg reply.result (reply.fill ⟨0, [0], -1⟩))
  rw [hpoll]
  unfold doConnect
  by_cases hr : reply.result = 0
  · have hends := judgeResponse_ends hno (v.update fun c => { c with transportOpen := true })
      (by rw [update_client]; exact hcfg ▸ hpolicy) (reply.fill ⟨0, [0], -1⟩)
    have hcfg' : (v.update fun c => { c with transportOpen := true }).client.cfg = w.client.cfg := hcfg
    rw [hcfg'] at hends
    have hsame : (if reply.result ≠ 0 then failConn env v .transport 0 (-1)
        else judgeResponse env (v.update fun c => { c with transportOpen := true })
          (reply.fill ⟨0, [0], -1⟩)) = judgeResponse env
            (v.update fun c => { c with transportOpen := true }) (reply.fill ⟨0, [0], -1⟩) :=
      if_neg (not_not_intro hr)
    show EndsIn w.client.cfg w (if reply.result ≠ 0 then failConn env v .transport 0 (-1)
      else judgeResponse env (v.update fun c => { c with transportOpen := true })
        (reply.fill ⟨0, [0], -1⟩)) _
    rw [hsame, hr]
    exact hmove hv hends
  · -- `open` has failed: the application is not asked, the default decides
    have hends := failConn_ends hno v (by rw [hcfg]; exact hpolicy) .transport 0 (-1)
    rw [hcfg] at hends
    have hfails : outcome (defaultShouldRetry .httpStatus) w.client.cfg reply.result
        (reply.fill ⟨0, [0], -1⟩) = .fails .transport true := if_pos hr
    rw [hfails]
    show EndsIn w.client.cfg w (if reply.result ≠ 0 then failConn env v .transport 0 (-1)
      else _) _
    rw [if_pos hr]
    exact hmove hv hends

/-! ## §5 Against the Documented Policy -/

/-- The default policy retries every status from 500 on, and with a Retry-After every other one. -/
theorem defaultShouldRetry_httpStatus (status : Int) (retryAfterS : Int32) :
    defaultShouldRetry .httpStatus status retryAfterS = true ↔
      500 ≤ status ∨ status = 429 ∨ 0 ≤ retryAfterS := by
  unfold defaultShouldRetry
  by_cases h5 : 500 ≤ status
  · simp [h5]
  · by_cases h429 : status = 429
    · simp [h429]
    · simp [h5, h429]

theorem documentedRetry_iff (status : Int) (retryAfterS : Int32) :
    documentedRetry status retryAfterS = true ↔
      (500 ≤ status ∧ status ≤ 599) ∨ status = 429 ∨
        (400 ≤ status ∧ status ≤ 499 ∧ 0 ≤ retryAfterS) := by
  simp only [documentedRetry, Bool.or_eq_true, Bool.and_eq_true, decide_eq_true_eq, or_assoc,
    and_assoc]

/-- A response that the default policy retries, though the documentation says it does not. -/
def Overlooked (result : Int) (info : SseResponseInfo) : Prop :=
  result = 0 ∧ info.statusCode ≠ 200 ∧ info.statusCode ≠ 204 ∧
    (600 ≤ info.statusCode ∨ (info.statusCode < 400 ∧ 0 ≤ info.retryAfterS))

instance (result : Int) (info : SseResponseInfo) : Decidable (Overlooked result info) :=
  inferInstanceAs (Decidable (_ ∧ _))

theorem retry_agrees_iff (status : Int) (retryAfterS : Int32) :
    documentedRetry status retryAfterS = defaultShouldRetry .httpStatus status retryAfterS ↔
      ¬ (600 ≤ status ∨ (status < 400 ∧ 0 ≤ retryAfterS)) := by
  rw [Bool.eq_iff_iff, documentedRetry_iff, defaultShouldRetry_httpStatus]
  by_cases hra : 0 ≤ retryAfterS
  · simp only [hra, and_true, or_true, iff_true]
    omega
  · simp only [hra, and_false, or_false]
    omega

/-- The two policies give one outcome but for the overlooked responses. -/
theorem outcome_agrees_iff (cfg : SseClientConfig) (result : Int) (info : SseResponseInfo) :
    outcome documentedRetry cfg result info =
      outcome (defaultShouldRetry .httpStatus) cfg result info ↔ ¬ Overlooked result info := by
  unfold outcome Overlooked
  by_cases hr : result = 0
  · rw [if_neg (not_not_intro hr), if_neg (not_not_intro hr)]
    by_cases h204 : info.statusCode = 204
    · simp [h204]
    · rw [if_neg h204, if_neg h204]
      by_cases h200 : info.statusCode = 200
      · simp [h200]
      · rw [if_neg h200, if_neg h200, Outcome.fails.injEq, retry_agrees_iff]
        simp [hr, h200, h204]
  · simp [hr]

/-- An attempt has one outcome: the state tells whether there will be a retry. -/
theorem outcome_unique {cfg : SseClientConfig} {w v : World} {retry retry' : Int → Int32 → Bool}
    {result : Int} {info : SseResponseInfo} (h : EndsIn cfg w v (outcome retry cfg result info))
    (h' : EndsIn cfg w v (outcome retry' cfg result info)) :
    outcome retry cfg result info = outcome retry' cfg result info := by
  unfold outcome at h h' ⊢
  by_cases hr : result ≠ 0
  · rw [if_pos hr, if_pos hr]
  · rw [if_neg hr] at h h' ⊢
    rw [if_neg hr]
    by_cases h204 : info.statusCode = 204
    · rw [if_pos h204, if_pos h204]
    · rw [if_neg h204] at h h' ⊢
      rw [if_neg h204]
      by_cases h200 : info.statusCode = 200
      · rw [if_pos h200, if_pos h200]
      · rw [if_neg h200] at h h' ⊢
        rw [if_neg h200]
        -- only the decision about a failed status is left to differ
        have hstate := h.1.symm.trans h'.1
        cases hb : retry info.statusCode info.retryAfterS <;>
          cases hb' : retry' info.statusCode info.retryAfterS
        · rfl
        · rw [hb, hb'] at hstate
          cases hstate
        · rw [hb, hb'] at hstate
          cases hstate
        · rfl

/-- **Connection outcomes.** Without a reconnect policy, and with callbacks that do not close the
client, a poll that calls `open` ends as documented unless the response is overlooked. -/
theorem outcome_documented_iff {env : Env} {w : World} (hno : ∀ log, .close ∉ env.reentry log)
    (hpolicy : w.client.cfg.reconnectPolicy = false)
    (hs : w.client.state = .idle ∨ w.client.state = .connecting)
    (hstop : w.client.stopRequested = false) :
    let reply := env.openReply (w.push (.call .poll)).log
    let info := reply.fill ⟨0, [0], -1⟩
    EndsIn w.client.cfg w (apply env w .poll)
        (outcome documentedRetry w.client.cfg reply.result info) ↔
      ¬ Overlooked reply.result info := by
  intro reply info
  have hends : EndsIn w.client.cfg w (apply env w .poll)
      (outcome (defaultShouldRetry .httpStatus) w.client.cfg reply.result info) :=
    connect_ends hno hpolicy hs hstop
  rw [← outcome_agrees_iff w.client.cfg]
  constructor
  · intro hdoc
    exact outcome_unique hdoc hends
  · intro heq
    rw [heq]
    exact hends

/-- A server that answers each request with this response. -/
def answeringEnv (info : SseResponseInfo) : Env :=
  { quietEnv with openReply := fun _ => ⟨0, fun _ => info, false⟩ }

/-- A redirect with a Retry-After is retried. -/
theorem redirect_retried :
    let env := answeringEnv ⟨302, [0], 5⟩
    let cfg := smallClient.client.cfg
    Reachable env smallConfig smallClient ∧
      (apply env smallClient .poll).client.state = .waitingRetry ∧
      ¬ EndsIn cfg smallClient (apply env smallClient .poll)
        (outcome documentedRetry cfg 0 ⟨302, [0], 5⟩) := by
  refine ⟨⟨smallClient, [], rfl, rfl⟩, by decide, ?_⟩
  intro hends
  exact absurd hends.1 (by decide)

/-- A missing page ends the attempts for good. -/
theorem outcome_documented_iff_of_missing :
    let env := answeringEnv ⟨404, [0], -1⟩
    let cfg := smallClient.client.cfg
    EndsIn cfg smallClient (apply env smallClient .poll)
      (outcome documentedRetry cfg 0 ⟨404, [0], -1⟩) := by
  have hiff := @outcome_documented_iff (answeringEnv ⟨404, [0], -1⟩) smallClient
    (fun _ => List.not_mem_nil) rfl (.inl rfl) rfl
  exact hiff.mpr (by decide)

end EventSource.Client
