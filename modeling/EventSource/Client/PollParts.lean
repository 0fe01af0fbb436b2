import EventSource.Client.Delivery

/-!
# The Parts of a Poll

A poll asks the transport at most once, right at its start: it opens a connection, or it reads from
one, or it does neither. What it does with the answer adds only entries of other kinds to the log.
-/

namespace EventSource.Client

open EventSource.CMemory
open EventSource.Parser
open EventSource.Trace

variable {env : Env} {w : World} {p : Obs → Bool} {R : ErrorReason → Bool} {a b c : Log}

/-! ## §1 Call by Call -/

theorem apply_reachable {cfg : SseClientConfig} (h : Reachable env cfg w) (call : ApiCall) :
    Reachable env cfg (apply env w call) := by
  obtain ⟨w₀, calls, hinit, rfl⟩ := h
  refine ⟨w₀, calls ++ [call], hinit, ?_⟩
  unfold runCalls
  rw [List.foldl_append]
  rfl

/-- What `sse_client_init` leaves and every call of the interface keeps holds of every reachable
world. -/
theorem reachable_induction {cfg : SseClientConfig} {P : World → Prop}
    (hinit : ∀ w, sseClientInit env cfg = some w → P w)
    (happly : ∀ w call, Reachable env cfg w → P w → P (apply env w call))
    (h : Reachable env cfg w) : P w := by
  obtain ⟨w₀, calls, hw₀, rfl⟩ := h
  induction calls using List.reverseRecOn with
  | nil => exact hinit w₀ hw₀
  | append_singleton calls call ih =>
    have hstep := happly _ call ⟨w₀, calls, hw₀, rfl⟩ ih
    unfold runCalls at hstep ⊢
    rw [List.foldl_append]
    exact hstep

theorem init_idle {cfg : SseClientConfig} (h : sseClientInit env cfg = some w) :
    w.client.state = .idle := by
  unfold sseClientInit at h
  split at h
  · cases h
    rfl
  · cases h

/-- Between two calls the transport is open exactly in state OPEN. -/
theorem transportOpen_iff {cfg : SseClientConfig} (h : Reachable env cfg w) :
    w.client.transportOpen = true ↔ w.client.state = .opened :=
  (reachable_invariant (I := fun _ => True) (fun _ _ => trivial) (fun _ _ _ _ _ => trivial) h).1

/-! ## §2 What Is Added -/

/-- Only entries of the kind `p` are added to the log. -/
def Adds (p : Obs → Bool) (a b : Log) : Prop :=
  ∃ es, b = a ++ es ∧ ∀ e ∈ es, p e.obs = true

theorem Adds.refl (p : Obs → Bool) (a : Log) : Adds p a a :=
  ⟨[], (List.append_nil a).symm, by simp⟩

theorem Adds.trans (h₁ : Adds p a b) (h₂ : Adds p b c) : Adds p a c := by
  obtain ⟨es, rfl, hes⟩ := h₁
  obtain ⟨fs, rfl, hfs⟩ := h₂
  refine ⟨es ++ fs, List.append_assoc .., ?_⟩
  intro e he
  rcases List.mem_append.mp he with he | he
  · exact hes e he
  · exact hfs e he

theorem Adds.one (a : Log) {e : Entry} (he : p e.obs = true) : Adds p a (a ++ [e]) :=
  ⟨[e], rfl, by simpa using he⟩

theorem Adds.mono {q : Obs → Bool} (h : Adds p a b) (hpq : ∀ o, p o = true → q o = true) :
    Adds q a b := by
  obtain ⟨es, heq, hes⟩ := h
  exact ⟨es, heq, fun e he => hpq _ (hes e he)⟩

/-- A property of every entry and its past survives entries of a kind that always has it. -/
theorem Adds.always {P : Log → Entry → Prop} (h : Adds p a b)
    (hp : ∀ pre e, p e.obs = true → P pre e) (ha : Always P a) : Always P b := by
  obtain ⟨es, rfl, hes⟩ := h
  exact ha.append fun e he pre => hp pre e (hes e he)

/-- Likewise a property that they have behind `a`. -/
theorem Adds.always_from {P : Log → Entry → Prop} (h : Adds p a b)
    (hp : ∀ pre e, Adds p a pre → p e.obs = true → P pre e) (ha : Always P a) : Always P b := by
  obtain ⟨es, rfl, hes⟩ := h
  -- entry by entry, each behind what has been added before it
  induction es using List.reverseRecOn with
  | nil =>
    rw [List.append_nil]
    exact ha
  | append_singleton es e ih =>
    have hpre : ∀ x ∈ es, p x.obs = true := fun x hx => hes x (List.mem_append_left _ hx)
    rw [← List.append_assoc]
    exact always_snoc.mpr ⟨ih hpre, hp _ e ⟨es, rfl, hpre⟩ (hes e (by simp))⟩

/-- The kind contains what closing a connection records. -/
structure PermitsClosing (p : Obs → Bool) : Prop where
  close : p .transportClose = true
  closed : p .onClosed = true

theorem PermitsClosing.survives (hp : PermitsClosing p) (log : Log) :
    SurvivesClosing fun v => Adds p log v.log where
  transport := fun _ h => h.trans (.one _ hp.close)
  closed := fun _ h => h
  onClosed := fun _ h => h.trans (.one _ hp.closed)

theorem PermitsClosing.acts (hp : PermitsClosing p) (env : Env) (w : World) (acts : List Reentry) :
    Adds p w.log (acts.foldl (act env) w).log :=
  (hp.survives w.log).acts (fun _ h => h) env acts (.refl _ _)

theorem PermitsClosing.callUser (hp : PermitsClosing p) (env : Env) (w : World) {o : Obs}
    (ho : p o = true) : Adds p w.log (callUser env w o).log :=
  (Adds.one w.log ho).trans (hp.acts env (w.push o) _)

theorem PermitsClosing.toClosed (hp : PermitsClosing p) (env : Env) (w : World) :
    Adds p w.log (toClosed env w).log :=
  (hp.survives w.log).act (fun _ h => h) env (.refl _ _) .close

theorem PermitsClosing.closeTransport (hp : PermitsClosing p) (w : World) :
    Adds p w.log (closeTransport w).log :=
  (hp.survives w.log).closeTransport (.refl _ _)

/-- It contains what accepting a connection records too, and failures for the reasons `R`. -/
structure Permits (p : Obs → Bool) (R : ErrorReason → Bool) : Prop extends PermitsClosing p where
  clock : ∀ t, p (.clock t) = true
  opened : ∀ n, p (.onOpen n) = true
  policy : ∀ e : SseError, R e.reason = true → p (.reconnectPolicy e) = true
  failed : ∀ e : SseError, R e.reason = true → p (.onError e) = true

/-! ## §3 Failures and Responses -/

theorem Permits.scheduleRetry (hp : Permits p R) (env : Env) (w : World) {e : SseError}
    (he : R e.reason = true) (retryAfterS : Int32) :
    Adds p w.log (scheduleRetry env w e retryAfterS).log := by
  have hclock : ∀ (log : Log) t c, Adds p log (log ++ [⟨.clock t, c⟩]) :=
    fun log t _ => .one log (hp.clock t)
  unfold Client.scheduleRetry nowMs
  simp only
  split
  · refine (hclock _ _ _).trans (hp.callUser env _ ?_)
    exact hp.failed _ he
  · exact hclock _ _ _

theorem Permits.decideRetry (hp : Permits p R) (env : Env) (w : World) {e : SseError}
    (he : R e.reason = true) (retryAfterS : Int32) (retry : Bool) :
    Adds p w.log (decideRetry env w e retryAfterS retry).log := by
  cases retry with
  | true => exact hp.scheduleRetry env w he retryAfterS
  | false =>
    show Adds p w.log (refuseRetry env w e).log
    unfold refuseRetry
    simp only
    split
    · refine (hp.callUser env w ?_).trans (hp.toClosed env _)
      exact hp.failed _ he
    · exact hp.toClosed env w

theorem Permits.failConn (hp : Permits p R) (env : Env) (w : World) {reason : ErrorReason}
    (hr : R reason = true) (status : Int) (retryAfterS : Int32) :
    Adds p w.log (failConn env w reason status retryAfterS).log := by
  have hdown := hp.closeTransport w
  unfold Client.failConn
  simp only
  split
  · have hhook := hdown.trans (hp.callUser env (Client.closeTransport w)
      (hp.policy ⟨reason, status, defaultShouldRetry reason status retryAfterS, 0⟩ hr))
    split
    · exact hhook
    · exact hhook.trans (hp.decideRetry env _ hr retryAfterS _)
  · exact hdown.trans (hp.decideRetry env _ hr retryAfterS _)

/-- Why a connection attempt fails. -/
def ErrorReason.ofOpen : ErrorReason → Bool
  | .transport | .httpStatus | .serverStop | .badContentType => true
  | _ => false

theorem Permits.judgeResponse (hp : Permits p ErrorReason.ofOpen) (env : Env) (w : World) (info : SseResponseInfo) :
    Adds p w.log (judgeResponse env w info).log := by
  unfold Client.judgeResponse
  split
  · exact hp.failConn env w rfl _ _
  · split
    · exact hp.failConn env w rfl _ _
    · split
      · exact hp.failConn env w rfl _ _
      · have hclock : ∀ (log : Log) t c, Adds p log (log ++ [⟨.clock t, c⟩]) :=
          fun log t _ => .one log (hp.clock t)
        unfold acceptResponse nowMs
        simp only
        split
        · exact (hclock _ _ _).trans (hp.callUser env _ (hp.opened _))
        · exact hclock _ _ _

theorem Permits.pollTimeout (hp : Permits p R) (hR : R .idleTimeout = true) (env : Env) (w : World) :
    Adds p w.log (pollTimeout env w).2.log := by
  have hclock : Adds p w.log (w.push (.clock (env.time w.log))).log := .one _ (hp.clock _)
  unfold Client.pollTimeout
  simp only
  split
  · split
    · exact hclock.trans (hp.failConn env _ hR _ _)
    · exact hclock
  · exact .refl _ _

theorem Permits.pollWaiting (hp : Permits p R) (env : Env) (w : World) :
    Adds p w.log (pollWaiting env w).2.log := by
  have hclock : Adds p w.log (w.push (.clock (env.time w.log))).log := .one _ (hp.clock _)
  unfold Client.pollWaiting nowMs
  simp only
  split <;> exact hclock

/-! ## §4 Feeding -/

/-- The call asks the transport for something. -/
def Obs.asks : Obs → Bool
  | .transportOpen _ _ _ | .transportRead _ _ _ => true
  | _ => false

/-- Everything else. -/
def Obs.passive (o : Obs) : Bool :=
  !o.asks

/-- Neither a new connection nor a byte. -/
def Obs.mute : Obs → Bool
  | .transportOpen _ _ _ | .byte _ => false
  | _ => true

theorem permits_passive (R : ErrorReason → Bool) : Permits Obs.passive R where
  close := rfl
  closed := rfl
  clock := fun _ => rfl
  opened := fun _ => rfl
  policy := fun _ _ => rfl
  failed := fun _ _ => rfl

theorem permits_mute (R : ErrorReason → Bool) : Permits Obs.mute R where
  close := rfl
  closed := rfl
  clock := fun _ => rfl
  opened := fun _ => rfl
  policy := fun _ _ => rfl
  failed := fun _ _ => rfl

/-- Something that begins no connection. -/
def Obs.stays (o : Obs) : Bool :=
  !o.opens

theorem Obs.stays_of_mute {o : Obs} (h : o.mute = true) : o.stays = true := by
  cases o <;> first | rfl | exact absurd h Bool.false_ne_true

theorem Obs.stays_of_passive {o : Obs} (h : o.passive = true) : o.stays = true := by
  cases o <;> first | rfl | exact absurd h Bool.false_ne_true

theorem Obs.ne_open_of_stays {o : Obs} (h : o.stays = true) :
    ∀ url hs r, o ≠ .transportOpen url hs r := by
  rintro url hs r rfl
  exact absurd h Bool.false_ne_true

/-- The kind contains what reading bytes records. -/
structure PermitsFeeding (p : Obs → Bool) : Prop extends PermitsClosing p where
  byte : ∀ b, p (.byte b) = true
  parser : ∀ c, p (.parser c) = true
  message : ∀ m, p (.onMessage m) = true
  lost : ∀ e : SseError, e.reason.isLoss = true → p (.onError e) = true

theorem PermitsFeeding.bridged (hp : PermitsFeeding p) (w : World) (c : Callback) :
    Adds p w.log (bridged w c).log := by
  rcases bridged_cases w c with heq | ⟨-, ⟨_, _, heq⟩ | ⟨_, heq⟩ | heq | ⟨_, heq⟩ |
    ⟨reason, hreason, heq⟩⟩
  · rw [heq]
    exact .refl _ _
  · rw [heq]
    exact .refl _ _
  · rw [heq]
    exact .refl _ _
  · rw [heq]
    exact .refl _ _
  · rw [heq]
    exact .one _ (hp.message _)
  · have hloss : reason.isLoss = true := by
      rcases hreason with hreason | hreason <;> rw [hreason] <;> rfl
    rw [heq]
    exact .one _ (hp.lost _ hloss)

theorem PermitsFeeding.deliver (hp : PermitsFeeding p) (env : Env) (w : World) (c : Callback) :
    Adds p w.log (deliver env w c).log := by
  have hparser : Adds p w.log (w.push (.parser c)).log := .one _ (hp.parser c)
  rw [deliver_eq]
  exact (hparser.trans (hp.bridged _ c)).trans (hp.acts env _ _)

/-- What every byte and every report of the parser keeps is kept by a feed. -/
theorem clientFeed_keeps {P : World → Prop} (hbyte : ∀ v b, P v → P (parseByte v b))
    (hdeliver : ∀ v c, P v → P (deliver env v c)) (h : P w) (bytes : List UInt8) :
    P (clientFeed env w bytes) := by
  unfold clientFeed
  refine List.foldlRecOn bytes (feedByte env) h fun v hv b _ => ?_
  unfold feedByte
  exact List.foldlRecOn _ (deliver env) (hbyte v b hv) fun u hu c _ => hdeliver u c hu

theorem PermitsFeeding.clientFeed (hp : PermitsFeeding p) (env : Env) (w : World)
    (bytes : List UInt8) : Adds p w.log (clientFeed env w bytes).log := by
  apply clientFeed_keeps (P := fun v => Adds p w.log v.log)
  · exact fun v b hv => hv.trans (.one _ (hp.byte b))
  · exact fun v c hv => hv.trans (hp.deliver env v c)
  · exact .refl _ _

theorem permitsFeeding_passive : PermitsFeeding Obs.passive where
  close := rfl
  closed := rfl
  byte := fun _ => rfl
  parser := fun _ => rfl
  message := fun _ => rfl
  lost := fun _ _ => rfl

theorem pollRead_passive (env : Env) (w : World) (r : Int) :
    Adds Obs.passive w.log (pollRead env w r).2.log := by
  have hp := permits_passive fun _ => true
  unfold pollRead
  split
  · exact hp.toClosed env w
  · split
    · split
      · exact hp.failConn env w rfl _ _
      · have hclock : Adds Obs.passive w.log (receive w (env.time w.log)).log := .one _ rfl
        exact hclock.trans (permitsFeeding_passive.clientFeed env _ _)
    · split
      · exact hp.pollTimeout rfl env w
      · exact hp.failConn env w rfl _ _

/-! ## §5 One Question -/

/-- What a poll does: it closes the client if that has been requested, and does what the state asks for
otherwise. -/
inductive PollCase (env : Env) (w : World) : Prop where
  | stopped (hstop : w.client.stopRequested = true)
      (heq : (sseClientPoll env w).2 = toClosed env w)
  | closed (hs : w.client.state = .closed) (heq : (sseClientPoll env w).2 = w)
  | connect (hs : w.client.state = .idle ∨ w.client.state = .connecting)
      (heq : (sseClientPoll env w).2 = doConnect env w)
  | waiting (hs : w.client.state = .waitingRetry)
      (heq : (sseClientPoll env w).2 = (pollWaiting env w).2)
  | opened (hs : w.client.state = .opened) (heq : (sseClientPoll env w).2 = (pollOpen env w).2)

theorem pollCase (env : Env) (w : World) : PollCase env w := by
  by_cases hstop : (w.client.stopRequested && decide (w.client.state ≠ .closed)) = true
  -- the poll closes the client, and then reports it CLOSED
  · have hrequested : w.client.stopRequested = true := by
      rw [Bool.and_eq_true] at hstop
      exact hstop.1
    apply PollCase.stopped hrequested
    unfold sseClientPoll
    simp only [hstop, if_true, toClosed_state]
  · -- otherwise the state decides
    cases hs : w.client.state with
    | closed =>
      apply PollCase.closed hs
      unfold sseClientPoll
      simp only [if_neg hstop]
      rw [hs]
    | idle =>
      apply PollCase.connect (.inl hs)
      unfold sseClientPoll
      simp only [if_neg hstop]
      rw [hs]
      rfl
    | connecting =>
      apply PollCase.connect (.inr hs)
      unfold sseClientPoll
      simp only [if_neg hstop]
      rw [hs]
      rfl
    | waitingRetry =>
      apply PollCase.waiting hs
      unfold sseClientPoll
      simp only [if_neg hstop]
      rw [hs]
    | opened =>
      apply PollCase.opened hs
      unfold sseClientPoll
      simp only [if_neg hstop]
      rw [hs]

/-- A poll that asks nothing, one that opens a connection and one that reads. -/
inductive PollPart (env : Env) (w : World) : Prop where
  | quiet
      (hstate : (apply env w .poll).client.state ≠ .opened)
      (hadds : ∀ p, Permits p (fun _ => false) →
        Adds p (w.push (.call .poll)).log (apply env w .poll).log)
  | connect (reply : OpenReply)
      (hreply : reply = env.openReply (w.push (.call .poll)).log)
      (hs : w.client.state = .idle ∨ w.client.state = .connecting)
      (hadds : ∀ p, Permits p ErrorReason.ofOpen → Adds p
        (attempt (w.push (.call .poll)) (env.extraHeaders (w.push (.call .poll)).log) reply.result
          reply.stop).log (apply env w .poll).log)
  | read (reply : ReadReply)
      (hreply : reply = env.readReply (w.push (.call .poll)).log)
      (hs : w.client.state = .opened)
      (heq : apply env w .poll = (pollRead env
        (readOnce (w.push (.call .poll)) reply.result reply.bytes reply.stop) reply.result).2)

/-- **A poll asks the transport at most once.** -/
theorem pollPart (env : Env) (w : World) : PollPart env w := by
  let v := w.push (.call .poll)
  -- a connection attempt, whatever comes of it
  have hconnect : ∀ p, Permits p ErrorReason.ofOpen → Adds p
      (attempt v (env.extraHeaders v.log) (env.openReply v.log).result
        (env.openReply v.log).stop).log (doConnect env v).log := by
    intro p hp
    unfold doConnect
    simp only
    split
    · exact hp.failConn env _ rfl _ _
    · exact hp.judgeResponse env _ _
  cases pollCase env v with
  | stopped hstop heq =>
    have hpoll : apply env w .poll = toClosed env v := heq
    refine .quiet ?_ ?_
    · rw [hpoll, toClosed_state]
      simp
    · intro p hp
      rw [hpoll]
      exact hp.toClosed env v
  | closed hs heq =>
    have hpoll : apply env w .poll = v := heq
    refine .quiet ?_ ?_
    · rw [hpoll, hs]
      simp
    · intro p _
      rw [hpoll]
      exact .refl _ _
  | connect hs heq =>
    have hpoll : apply env w .poll = doConnect env v := heq
    refine .connect _ rfl hs ?_
    rw [hpoll]
    exact hconnect
  | waiting hs heq =>
    have hpoll : apply env w .poll = (pollWaiting env v).2 := heq
    refine .quiet ?_ ?_
    · rw [hpoll]
      unfold pollWaiting nowMs
      simp only
      split
      · -- the delay is over, and the next poll will connect
        simp
      · show v.client.state ≠ .opened
        rw [hs]
        simp
    · intro p hp
      rw [hpoll]
      exact hp.pollWaiting env v
  | opened hs heq => exact .read _ rfl hs heq

/-- The calls other than a poll ask the transport for nothing. -/
theorem apply_passive (env : Env) (w : World) {call : ApiCall} (hcall : call ≠ .poll) :
    Adds Obs.passive w.log (apply env w call).log := by
  have hpush : Adds Obs.passive w.log (w.push (.call call)).log := .one _ rfl
  cases call with
  | poll => exact absurd rfl hcall
  | close => exact hpush.trans (permitsFeeding_passive.toClosed env _)
  | requestStop => exact hpush

/-- **The questions of a run.** A property of the entries and their past holds all along a run if it
holds of the passive ones, and of what a poll asks: a connection attempt or a read, which comes right
after the call. -/
theorem reachable_questions {cfg : SseClientConfig} {P : Log → Entry → Prop}
    (hpassive : ∀ pre e, e.obs.passive = true → P pre e)
    (hopen : ∀ v, Reachable env cfg v →
      (v.client.state = .idle ∨ v.client.state = .connecting) →
        let past := (v.push (.call .poll)).log
        let c := buildHeaders { v.client with state := .connecting } (env.extraHeaders past)
        P past ⟨.transportOpen (c.cfg.url.getD []) c.headers (env.openReply past).result, c⟩)
    (hread : ∀ v, Reachable env cfg v → v.client.state = .opened →
      let past := (v.push (.call .poll)).log
      P past ⟨.transportRead v.client.rxBuf.length v.client.cfg.readTimeoutMs
        (env.readReply past).result, v.client⟩)
    (h : Reachable env cfg w) : Always P w.log := by
  refine reachable_induction (P := fun v => Always P v.log) ?_ ?_ h
  · intro w₀ hw₀
    show Always P w₀.log
    rw [init_log hw₀]
    exact always_nil _
  · intro v call hv hall
    by_cases hcall : call = .poll
    · subst hcall
      -- the call itself comes first, and is passive
      have hpoll : Always P (v.push (.call .poll)).log := always_snoc.mpr ⟨hall, hpassive _ _ rfl⟩
      cases pollPart env v with
      | quiet hstate hadds => exact (hadds _ (permits_passive _)).always hpassive hpoll
      | connect reply hreply hs hadds =>
        refine (hadds _ (permits_passive _)).always hpassive (always_snoc.mpr ⟨hpoll, ?_⟩)
        rw [hreply]
        exact hopen v hv hs
      | read reply hreply hs heq =>
        rw [heq]
        refine (pollRead_passive env _ _).always hpassive (always_snoc.mpr ⟨hpoll, ?_⟩)
        rw [hreply]
        exact hread v hv hs
    -- the other calls ask nothing
    · exact (apply_passive env v hcall).always hpassive hall

end EventSource.Client
