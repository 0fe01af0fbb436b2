import EventSource.Port.CurlDelivery

/-!
# Opening with curl

An open makes a bounded number of requests, all to one origin, and it succeeds only once enough has
been heard of the answer to the last of them. If that answer is heard as it was sent, the open reports
its final header block and nothing older.
-/

namespace EventSource.Port

open EventSource.CMemory
open EventSource.Parser
open EventSource.Client
open EventSource.RingBuffer
open EventSource.Trace

variable {env : CurlEnv} {w v : CurlWorld} {served : Nat → Answer}

/-! ## §1 Origins -/

/-- The scheme and host in lower case, and the port. -/
def UrlParts.origin (p : UrlParts) : Bytes × Bytes × Bytes :=
  ((cstr p.scheme).map asciiLower, (cstr p.host).map asciiLower, cstr p.port)

/-- The origin of a URL, if libcurl's parser accepts the URL. -/
def curlOrigin (env : CurlEnv) (url : Mem) : Option (Bytes × Bytes × Bytes) :=
  (env.parseUrl url).map UrlParts.origin

theorem sameOrigin_origin {log : CurlLog} {a b : Mem} (h : sameOrigin env log a b = true) :
    curlOrigin env a = curlOrigin env b := by
  unfold sameOrigin at h
  rw [Bool.and_eq_true] at h
  unfold curlOrigin
  cases ha : env.parseUrl a with
  | none => simp [ha] at h
  | some pa =>
    cases hb : env.parseUrl b with
    | none => simp [ha, hb] at h
    | some pb =>
      simp only [ha, hb, strcaseEq, Bool.and_eq_true, decide_eq_true_eq] at h
      obtain ⟨-, ⟨hscheme, hhost⟩, hport⟩ := h
      simp [UrlParts.origin, hscheme, hhost, hport]

/-- The URL that `CURLINFO_EFFECTIVE_URL` gives is that of the last request, up to its writing. -/
def EffectiveIsRequested (env : CurlEnv) : Prop :=
  ∀ log url current, (requests log).getLast? = some url → env.effectiveUrl log = some current →
    curlOrigin env current = curlOrigin env url

theorem redirectTarget_origin (henv : EffectiveIsRequested env) {url redir : Mem}
    (hurl : (requests w.log).getLast? = some url) (h : redirectTarget env w = some redir) :
    curlOrigin env redir = curlOrigin env url := by
  unfold redirectTarget at h
  cases hredir : env.redirectUrl w.log with
  | none => simp [hredir] at h
  | some target =>
    cases hcurrent : env.effectiveUrl w.log with
    | none => simp [hredir, hcurrent] at h
    | some current =>
      simp only [hredir, hcurrent] at h
      split at h
      · next hsame =>
        obtain rfl := Option.some.inj h
        rw [← sameOrigin_origin hsame]
        exact henv w.log url current hurl hcurrent
      · cases h

/-! ## §2 The Hop Loop -/

/-- The ways in which the hop loop can go, with what it returns. -/
inductive HopRun (env : CurlEnv) : Nat → CurlWorld → Bool → CurlWorld → Prop where
  | noResponse (left : Nat) (w : CurlWorld) (h : (awaitResponse env w).1 = false) :
      HopRun env left w false (awaitResponse env w).2
  | answered (left : Nat) (w : CurlWorld) (h : (awaitResponse env w).1 = true) :
      HopRun env left w true (awaitResponse env w).2
  | stalled (left : Nat) (w : CurlWorld) :
      HopRun env left w false (drain env (awaitResponse env w).2).2
  | surfaced (left : Nat) (w : CurlWorld) (h : (awaitResponse env w).1 = true) :
      HopRun env left w true (drain env (awaitResponse env w).2).2
  | followed {left : Nat} {w v : CurlWorld} {ok : Bool} {redir : Mem}
      (hredir : redirectTarget env (drain env (awaitResponse env w).2).2 = some redir)
      (h : HopRun env left (reissue (drain env (awaitResponse env w).2).2 redir) ok v) :
      HopRun env (left + 1) w ok v

theorem hopLoop_run (env : CurlEnv) (left : Nat) (w : CurlWorld) :
    HopRun env left w (hopLoop env left w).1 (hopLoop env left w).2 := by
  induction left generalizing w with
  -- no hop is left: a redirect that would be followed is surfaced
  | zero =>
    unfold hopLoop
    simp only
    cases ha : (awaitResponse env w).1 with
    | false => exact .noResponse _ _ ha
    | true =>
      simp only [Bool.not_true, Bool.false_eq_true, if_false]
      split
      · exact .answered _ _ ha
      · split
        · exact .stalled _ _
        · exact .surfaced _ _ ha
  | succ left ih =>
    unfold hopLoop
    simp only
    cases ha : (awaitResponse env w).1 with
    | false => exact .noResponse _ _ ha
    | true =>
      simp only [Bool.not_true, Bool.false_eq_true, if_false]
      split
      -- the status is not one of a redirect that is followed
      · exact .answered _ _ ha
      · split
        · exact .stalled _ _
        · split
          · exact .surfaced _ _ ha
          · next redir hredir => exact .followed hredir (ih _)

/-- The waits of a turn. -/
theorem turn_steps (env : CurlEnv) (w : CurlWorld) :
    PumpSteps w (drain env (awaitResponse env w).2).2 :=
  (awaitResponse_steps env w).trans (drain_steps env _)

/-- **No more requests than hops, and all to one origin.** -/
theorem HopRun.requests (henv : EffectiveIsRequested env) {o : Option (Bytes × Bytes × Bytes)}
    {left : Nat} {ok : Bool} (h : HopRun env left w ok v) {url : Mem}
    (hurl : (requests w.log).getLast? = some url) (ho : curlOrigin env url = o) :
    ∃ urls, requests v.log = requests w.log ++ urls ∧ urls.length ≤ left ∧
      ∀ u ∈ urls, curlOrigin env u = o := by
  -- a run that ends here has requested nothing more
  have hnone : ∀ {left : Nat} {w v : CurlWorld}, PumpSteps w v →
      ∃ urls, Port.requests v.log = Port.requests w.log ++ urls ∧ urls.length ≤ left ∧
        ∀ u ∈ urls, curlOrigin env u = o := by
    intro left w v hsteps
    refine ⟨[], ?_, Nat.zero_le _, by simp⟩
    rw [List.append_nil]
    exact hsteps.spares.1
  induction h generalizing url with
  | noResponse left w h => exact hnone (awaitResponse_steps env w)
  | answered left w h => exact hnone (awaitResponse_steps env w)
  | stalled left w => exact hnone (turn_steps env w)
  | surfaced left w h => exact hnone (turn_steps env w)
  | @followed left w v ok redir hredir h ih =>
    have hsame := (turn_steps env w).spares.1
    have hturn : (Port.requests (drain env (awaitResponse env w).2).2.log).getLast? = some url := by
      rw [hsame]
      exact hurl
    have horigin : curlOrigin env redir = o := (redirectTarget_origin henv hturn hredir).trans ho
    have hnext : Port.requests (reissue (drain env (awaitResponse env w).2).2 redir).log =
        Port.requests w.log ++ [redir] := by
      show Port.requests (_ ++ [_]) = _
      rw [requests_snoc]
      exact congrArg (· ++ [redir]) hsame
    -- the redirect is the last request now, and of the same origin
    have hlast : (Port.requests (reissue (drain env (awaitResponse env w).2).2 redir).log).getLast? =
        some redir := by
      rw [hnext, List.getLast?_append]
      rfl
    obtain ⟨urls, hurls, hlen, hall⟩ := ih hlast horigin
    refine ⟨redir :: urls, ?_, Nat.succ_le_succ hlen, ?_⟩
    · rw [hurls, hnext, List.append_assoc]
      rfl
    · intro u hu
      rcases List.mem_cons.mp hu with rfl | hu
      · exact horigin
      · exact hall u hu

/-- Enough has been heard of an answer for an open to go on: its lines seem complete, or they are. -/
def HeardEnough (a : Answer) (ls : List HeaderLine) : Prop :=
  ls <+: a.lines ∧ (Completes ls ∨ ls = a.lines)

/-- **A response counts only once enough has been heard of it.** -/
theorem awaitResponse_heard (hw : CurlSteps curlNew w)
    (hdelivers : Delivers served (awaitResponse env w).2.log) (h : (awaitResponse env w).1 = true) :
    HeardEnough (served (requests (awaitResponse env w).2.log).length)
      (deliveryOf (awaitResponse env w).2.log).lines := by
  have hreach : CurlSteps curlNew (awaitResponse env w).2 :=
    hw.trans (awaitResponse_steps env w).steps
  have howes := hreach.openOk hdelivers
  -- a wait that succeeds has passed both checks behind it
  have hchecks : answered (awaitResponse env w).2.ctx = true ∧
      failedEarly (awaitResponse env w).2.ctx = false := by
    rw [awaitResponse_snd]
    unfold awaitResponse at h
    simp only at h
    split at h
    · cases h
    · next hfail =>
      simp only [Bool.or_eq_true, Bool.not_eq_true', not_or, Bool.not_eq_false] at hfail
      exact ⟨hfail.1.2, Bool.eq_false_iff.mpr hfail.2⟩
  obtain ⟨hanswered, hearly⟩ := hchecks
  refine ⟨howes.part, ?_⟩
  -- one of three signs ended the wait
  by_cases hdone : (awaitResponse env w).2.ctx.headersDone = true
  · have hheard : (hear (deliveryOf (awaitResponse env w).2.log).lines).done = true := by
      rw [← howes.heard]
      exact hdone
    exact .inl ((hear_done_iff howes.part).mp hheard)
  · by_cases hbody : (awaitResponse env w).2.ctx.bodyStarted = true
    · exact .inr (howes.started (.inl hbody))
    · -- then the transfer is done, and it has not failed
      simp only [Bool.not_eq_true] at hdone hbody
      simp only [answered, hdone, hbody, Bool.false_or] at hanswered
      simp only [failedEarly, hanswered, hdone, hbody, Bool.true_and, Bool.not_false, Bool.and_true,
        decide_eq_false_iff_not, not_not] at hearly
      exact .inr (howes.ended hanswered hearly)

/-- **The hop loop succeeds only when enough has been heard of its last answer.** -/
theorem HopRun.heard {left : Nat} {ok : Bool} (h : HopRun env left w ok v) (hw : CurlSteps curlNew w)
    (hdelivers : Delivers served v.log) (hok : ok = true) :
    ∃ ls, ls <+: (deliveryOf v.log).lines ∧
      HeardEnough (served (Port.requests v.log).length) ls := by
  induction h with
  | noResponse left w h => cases hok
  | stalled left w => cases hok
  | answered left w h => exact ⟨_, List.prefix_rfl, awaitResponse_heard hw hdelivers h⟩
  | surfaced left w h =>
    have hdrain := drain_steps env (awaitResponse env w).2
    have hheard := awaitResponse_heard hw (hdelivers.earlier hdrain.steps.log) h
    obtain ⟨hrequests, hlines⟩ := hdrain.spares
    rw [← hrequests] at hheard
    exact ⟨_, hlines, hheard⟩
  | @followed left w v ok redir hredir h ih =>
    exact ih ((hw.trans (turn_steps env w).steps).tail (.again _ redir)) hdelivers hok

/-- The client has read nothing yet. -/
theorem HopRun.returned {left : Nat} {ok : Bool} (h : HopRun env left w ok v)
    (hw : (ledger w.log).returned = []) : (ledger v.log).returned = [] := by
  induction h with
  | noResponse left w h => exact (awaitResponse_steps env w).returned.trans hw
  | stalled left w => exact (turn_steps env w).returned.trans hw
  | answered left w h => exact (awaitResponse_steps env w).returned.trans hw
  | surfaced left w h => exact (turn_steps env w).returned.trans hw
  | @followed left w v ok redir hredir h ih =>
    apply ih
    show (ledger (_ ++ [_])).returned = []
    rw [ledger_snoc]
    rfl

/-! ## §3 The Open -/

theorem appendHeaders_log (env : CurlEnv) (w : CurlWorld) (headers : List Mem) :
    (appendHeaders env w headers).2.log = w.log := by
  induction headers generalizing w with
  | nil => rfl
  | cons h headers ih =>
    unfold appendHeaders
    split
    · exact ih _
    · rfl

/-- Nothing is requested before the handles are set up. -/
theorem setUp_log (env : CurlEnv) (w : CurlWorld) (headers : List Mem) :
    (setUp env w headers).2.log = (teardown w).log := by
  unfold setUp
  simp only
  split
  · rfl
  · exact appendHeaders_log env _ headers

theorem requests_teardown (w : CurlWorld) : requests (teardown w).log = requests w.log :=
  (requests_snoc _ _).trans (List.append_nil _)

/-- An open either fails before its first request, or is a run of the hop loop. -/
theorem curlOpenFn_cases (env : CurlEnv) (w : CurlWorld) (req : SseRequest) (out : SseResponseInfo) :
    let u := addHandle (setUp env w req.headers).2 req.url
    curlOpenFn env w req out = (-1, out, teardown (setUp env w req.headers).2) ∨
    (∃ v, HopRun env maxRedirectHops u false v ∧ curlOpenFn env w req out = (-1, out, teardown v)) ∨
    (∃ v, HopRun env maxRedirectHops u true v ∧
      curlOpenFn env w req out = (0, fillInfo env v out, v)) := by
  intro u
  have hrun := hopLoop_run env maxRedirectHops u
  -- each of the two branches of the source that fail tears the transfer down
  cases hset : (setUp env w req.headers).1 with
  | false =>
    refine .inl ?_
    unfold curlOpenFn
    simp only [hset, Bool.not_false, if_true]
  | true =>
    cases hok : (hopLoop env maxRedirectHops u).1 with
    | false =>
      rw [hok] at hrun
      refine .inr (.inl ⟨_, hrun, ?_⟩)
      unfold curlOpenFn
      simp only [u, hset, hok, Bool.not_true, Bool.not_false, Bool.false_eq_true, if_false, if_true]
    | true =>
      rw [hok] at hrun
      refine .inr (.inr ⟨_, hrun, ?_⟩)
      unfold curlOpenFn
      simp only [u, hset, hok, Bool.not_true, Bool.false_eq_true, if_false]

/-- No more than six requests, all to the origin of the first, and nothing but success or failure. -/
theorem curlOpenFn_requests (henv : EffectiveIsRequested env) (w : CurlWorld) (req : SseRequest)
    (out : SseResponseInfo) :
    (∃ urls, requests (curlOpenFn env w req out).2.2.log = requests w.log ++ urls ∧ urls.length ≤ 6 ∧
      ∀ u ∈ urls, curlOrigin env u = curlOrigin env req.url) ∧
    ((curlOpenFn env w req out).1 = 0 ∨ (curlOpenFn env w req out).1 = -1) := by
  let s := setUp env w req.headers
  let u := addHandle s.2 req.url
  have hbefore : requests s.2.log = requests w.log := by
    rw [setUp_log]
    exact requests_teardown w
  have hfirst : requests u.log = requests w.log ++ [req.url] := by
    show requests (s.2.log ++ [_]) = _
    rw [requests_snoc, hbefore]
    rfl
  have hlast : (requests u.log).getLast? = some req.url := by
    rw [hfirst, List.getLast?_append]
    rfl
  -- the first request and those of the hops after it
  have hloop : ∀ {ok : Bool} {v : CurlWorld}, HopRun env maxRedirectHops u ok v →
      ∃ urls, requests v.log = requests w.log ++ urls ∧ urls.length ≤ 6 ∧
        ∀ x ∈ urls, curlOrigin env x = curlOrigin env req.url := by
    intro ok v hrun
    obtain ⟨urls, hurls, hlen, hall⟩ := hrun.requests henv hlast rfl
    refine ⟨req.url :: urls, ?_, Nat.succ_le_succ hlen, ?_⟩
    · rw [hurls, hfirst, List.append_assoc]
      rfl
    · intro x hx
      rcases List.mem_cons.mp hx with rfl | hx
      · rfl
      · exact hall x hx
  rcases curlOpenFn_cases env w req out with hr | ⟨v, hrun, hr⟩ | ⟨v, hrun, hr⟩
  · rw [hr]
    refine ⟨⟨[], ?_, Nat.zero_le _, by simp⟩, .inr rfl⟩
    rw [List.append_nil]
    exact (requests_teardown s.2).trans hbefore
  · rw [hr]
    refine ⟨?_, .inr rfl⟩
    rw [requests_teardown]
    exact hloop hrun
  · rw [hr]
    exact ⟨hloop hrun, .inl rfl⟩

/-- What the out parameter and the ring hold after a successful open: the header lines of the answer
are complete, the Retry-After is that of its final header block, and the ring has all of its body so
far, or nothing if it is a redirect. -/
structure Reports (v : CurlWorld) (info : SseResponseInfo) (a : Answer) : Prop where
  lines : (deliveryOf v.log).lines = a.lines
  retryAfter : info.retryAfterS = a.final.retryAfter
  ring : v.ctx.ringContents =
    if isRedirectStatus a.final.status then [] else (deliveryOf v.log).body

/-- What a successful open leaves, if libcurl has delivered the answers: the context owes to what has
been delivered of the last one, which is enough; the ring has what has been accepted, and the out
parameter has the Retry-After of the lines heard. -/
structure Hears (r : Int × SseResponseInfo × CurlWorld) (a : Answer) : Prop where
  part : (deliveryOf r.2.2.log).lines <+: a.lines
  enough : ∃ ls, ls <+: (deliveryOf r.2.2.log).lines ∧ HeardEnough a ls
  retryAfter : r.2.1.retryAfterS = (hear (deliveryOf r.2.2.log).lines).retryAfter
  ring : r.2.2.ctx.ringContents =
    if isRedirectStatus (hear (deliveryOf r.2.2.log).lines).status then []
    else (deliveryOf r.2.2.log).body

/-- **A successful open has heard of its last answer.** -/
theorem curlOpenFn_hears (h : CurlReachable env w) {req : SseRequest} {out : SseResponseInfo}
    (hzero : (curlOpenFn env w req out).1 = 0)
    (hdelivers : Delivers served (curlOpenFn env w req out).2.2.log) :
    Hears (curlOpenFn env w req out)
      (served (requests (curlOpenFn env w req out).2.2.log).length) := by
  obtain ⟨hset, easy, multi, hdrs, hctx⟩ := setUp_spec env w req.headers
  let u := addHandle (setUp env w req.headers).2 req.url
  have hu : CurlSteps curlNew u := (h.steps.trans hset).tail (.first _ req.url hctx)
  have hv : CurlSteps curlNew (curlOpenFn env w req out).2.2 :=
    h.steps.trans (curlOpenFn_steps env w req out)
  have hfail : ¬ (-1 : Int) = 0 := by decide
  rcases curlOpenFn_cases env w req out with hr | ⟨v, -, hr⟩ | ⟨v, hrun, hr⟩
  · rw [hr] at hzero
    exact absurd hzero hfail
  · rw [hr] at hzero
    exact absurd hzero hfail
  · rw [hr] at hv hdelivers ⊢
    have howes : OpenOk served v := CurlSteps.openOk hv hdelivers
    -- an open reads nothing: all that the ring has taken is still in it
    have hreturned : (ledger v.log).returned = [] := by
      apply hrun.returned
      show (ledger (_ ++ [_])).returned = []
      rw [ledger_snoc]
      rfl
    have hring : v.ctx.ringContents = (ledger v.log).accepted := by
      rw [(CurlSteps.ringOk hv).1.fifo, hreturned]
      rfl
    refine ⟨howes.part, hrun.heard hu hdelivers rfl, congrArg Heard.retryAfter howes.heard, ?_⟩
    rw [← howes.heard]
    exact hring.trans howes.accepted

/-- **An open reports the final response of the last request**, if the answer is heard as it was
sent. -/
theorem Hears.reports {r : Int × SseResponseInfo × CurlWorld} {a : Answer} (h : Hears r a)
    (ha : a.Plain) : Reports r.2.2 r.2.1 a := by
  obtain ⟨ls, hls, hpart, henough⟩ := h.enough
  have hall : ls = a.lines := henough.elim (ha.whole ls hpart) id
  have hlines : (deliveryOf r.2.2.log).lines = a.lines := by
    rw [hall] at hls
    exact h.part.eq_of_length_le hls.length_le
  obtain ⟨hstatus, hseconds⟩ := hear_lines a
  refine ⟨hlines, ?_, ?_⟩
  · rw [h.retryAfter, hlines, hseconds, ha.retryAfter]
  · rw [h.ring, hlines, hstatus, ha.status]

end EventSource.Port
