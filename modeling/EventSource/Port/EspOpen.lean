import EventSource.Port.UrlCopies

/-!
# Redirects on ESP-IDF

The check of a redirect works on copies that are cut at 511 bytes, the hop on the whole Location
value. No hop leaves the origin of the request as long as no URL is a trap for such copies, and every
trap catches some request.
-/

namespace EventSource.Port

open EventSource.CMemory
open EventSource.Parser
open EventSource.Client
open EventSource.Cut

variable {env : EspEnv} {w v : EspWorld} {o : Origin}

/-! ## §1 The Handle and the Copies -/

/-- What `esp_http_client_set_redirection` does: an absolute value becomes the URL as it was
received, an absolute path is resolved against the current host. -/
structure Retargets (env : EspEnv) : Prop where
  absolute : ∀ current value, isAbsolute value = true → env.retarget current value = value
  absolutePath : ∀ current value o, isAbsolutePath value = true → HasOrigin current o →
    HasOrigin (env.retarget current value) o

/-- The handle points at the origin `o`, the tracked URL shows no other one, and the captured
Location is a copy of the received one. -/
structure Tracks (w : EspWorld) (o : Origin) : Prop where
  url : ∀ p, originOf w.ctx.url 8 256 = some p → p = o
  target : HasOrigin (targetOf w.log) o
  location : cstr w.ctx.location = copyOf ((receivedLocation w.log).getD [0])

theorem targetOf_snoc (log : EspLog) (e : EspEntry) :
    targetOf (log ++ [e]) =
      match e.obs with
      | .request u => u
      | .redirect _ u => u
      | _ => targetOf log := by
  unfold targetOf
  rw [List.foldl_append]
  rfl

theorem receivedLocation_snoc (log : EspLog) (e : EspEntry) :
    receivedLocation (log ++ [e]) =
      match e.obs with
      | .request _ => none
      | .redirect _ _ => none
      | .event (.onHeader key v) => if isKey key locationName then some v else receivedLocation log
      | _ => receivedLocation log := by
  unfold receivedLocation
  rw [List.foldl_append]
  rfl

/-- Something that neither moves the handle nor is a header. -/
theorem Tracks.quiet (h : Tracks w o) {u : EspWorld} {e : EspEntry} (hlog : u.log = w.log ++ [e])
    (hurl : u.ctx.url = w.ctx.url) (hlocation : u.ctx.location = w.ctx.location)
    (htarget : targetOf (w.log ++ [e]) = targetOf w.log)
    (hreceived : receivedLocation (w.log ++ [e]) = receivedLocation w.log) : Tracks u o where
  url := by
    rw [hurl]
    exact h.url
  target := by
    rw [hlog, htarget]
    exact h.target
  location := by
    rw [hlog, hlocation, hreceived]
    exact h.location

theorem handleEvent_tracks (h : Tracks w o) (e : EspEvent) : Tracks (handleEvent w e) o := by
  cases e with
  | other => exact h.quiet rfl rfl rfl (targetOf_snoc _ _) (receivedLocation_snoc _ _)
  | onHeader key value =>
    have hlog : (handleEvent w (.onHeader key value)).log =
        w.log ++ [⟨.event (.onHeader key value), onHttpEvent w.ctx (.onHeader key value)⟩] := rfl
    -- the handler compares Content-Type first, then Location, then Retry-After
    by_cases htype : isKey key contentTypeName = true
    · have hkey : isKey key locationName = false := by
        rw [isKey, decide_eq_true_eq] at htype
        rw [isKey, htype]
        rfl
      have hctx : onHttpEvent w.ctx (.onHeader key value) =
          { w.ctx with contentType := snprintf w.ctx.contentType 64 (cstr value) } := if_pos htype
      refine h.quiet hlog ?_ ?_ (targetOf_snoc _ _) ?_
      · show (onHttpEvent w.ctx (.onHeader key value)).url = _
        rw [hctx]
      · show (onHttpEvent w.ctx (.onHeader key value)).location = _
        rw [hctx]
      · rw [receivedLocation_snoc]
        show (if isKey key locationName then some value else receivedLocation w.log) = _
        rw [hkey]
        rfl
    · by_cases hkey : isKey key locationName = true
      · have hctx : onHttpEvent w.ctx (.onHeader key value) =
            { w.ctx with location := snprintf w.ctx.location urlSize (cstr value) } :=
          (if_neg htype).trans (if_pos hkey)
        have hreceived : receivedLocation (handleEvent w (.onHeader key value)).log = some value := by
          rw [hlog, receivedLocation_snoc]
          exact if_pos hkey
        refine ⟨?_, ?_, ?_⟩
        · show ∀ p, originOf (onHttpEvent w.ctx (.onHeader key value)).url 8 256 = some p → _
          rw [hctx]
          exact h.url
        · rw [hlog, targetOf_snoc]
          exact h.target
        · show cstr (onHttpEvent w.ctx (.onHeader key value)).location = _
          rw [hctx, hreceived]
          exact cstr_snprintf_copy _ _
      · have hctx : (onHttpEvent w.ctx (.onHeader key value)).url = w.ctx.url ∧
            (onHttpEvent w.ctx (.onHeader key value)).location = w.ctx.location := by
          have hrest : onHttpEvent w.ctx (.onHeader key value) =
              if isKey key retryAfterKey then
                { w.ctx with
                  retryAfterS := readSeconds espLongBits ((cstr value).dropWhile (· = space))
                    w.ctx.retryAfterS }
              else w.ctx := (if_neg htype).trans (if_neg hkey)
          rw [hrest]
          split <;> exact ⟨rfl, rfl⟩
        refine h.quiet hlog hctx.1 hctx.2 (targetOf_snoc _ _) ?_
        rw [receivedLocation_snoc]
        exact if_neg hkey

/-- **A request** keeps what its two entries keep, and the events that the server can send. -/
theorem sendRequest_keep (P : EspWorld → Prop) (hopened : P (w.push .opened))
    (hfetch : ∀ v, P v → P (v.push .fetchHeaders))
    (hevent : ∀ v e, (∃ log, e ∈ env.openEvents log ∨ e ∈ env.fetchEvents log) → P v →
      P (handleEvent v e)) : P (sendRequest env w).2 := by
  have hfirst : P ((env.openEvents (w.push .opened).log).foldl handleEvent (w.push .opened)) :=
    List.foldlRecOn (motive := P) _ _ hopened fun v hv e he => hevent v e ⟨_, .inl he⟩ hv
  unfold sendRequest
  simp only
  split
  · exact hfirst
  · exact List.foldlRecOn (motive := P) _ _ (hfetch _ hfirst) fun v hv e he =>
      hevent v e ⟨_, .inr he⟩ hv

theorem sendRequest_tracks (env : EspEnv) (h : Tracks w o) : Tracks (sendRequest env w).2 o := by
  apply sendRequest_keep fun v => Tracks v o
  · exact h.quiet rfl rfl rfl (targetOf_snoc _ _) (receivedLocation_snoc _ _)
  · exact fun v hv => hv.quiet rfl rfl rfl (targetOf_snoc _ _) (receivedLocation_snoc _ _)
  · exact fun v e _ hv => handleEvent_tracks hv e

/-! ## §2 One Hop -/

/-- The value is no trap: it is not absolute, or its copy tells its origin. -/
def Tells (location : Mem) : Prop :=
  isAbsolute location = true → TellsOrigin location

/-- The redirects that were followed: each Location value as received, and the new URL. -/
def hopsOf (log : EspLog) : List (Mem × Mem) :=
  log.filterMap fun e =>
    match e.obs with
    | .redirect location url => some (location, url)
    | _ => none

theorem hopsOf_snoc (log : EspLog) (e : EspEntry) :
    hopsOf (log ++ [e]) = hopsOf log ++ hopsOf [e] := by
  unfold hopsOf
  rw [List.filterMap_append]

/-- An entry that is no redirect. -/
theorem hopsOf_quiet {log : EspLog} {e : EspEntry} (h : hopsOf [e] = []) :
    hopsOf (log ++ [e]) = hopsOf log := by
  rw [hopsOf_snoc, h, List.append_nil]

/-- The hop that `followRedirect` makes. -/
def nextHop (env : EspEnv) (w : EspWorld) : Mem × Mem :=
  ((receivedLocation w.log).getD [0],
    env.retarget (targetOf w.log) ((receivedLocation w.log).getD [0]))

theorem cstr_set_zero (m : Mem) : cstr (m.set 0 0) = [] := by
  cases m with
  | nil => rfl
  | cons b m => rfl

/-- After a hop, the tracked URL still shows no other origin, if the hop stayed at `o`. -/
theorem followRedirect_tracks {u : EspWorld} (hurl : ∀ p, originOf u.ctx.url 8 256 = some p → p = o)
    (htarget : HasOrigin (nextHop env u).2 o) : Tracks (followRedirect env u) o where
  url := hurl
  target := by
    show HasOrigin (targetOf (u.log ++ [_])) o
    rw [targetOf_snoc]
    exact htarget
  location := by
    show cstr (u.ctx.location.set 0 0) = copyOf ((receivedLocation (u.log ++ [_])).getD [0])
    rw [receivedLocation_snoc]
    exact cstr_set_zero _

/-- **A hop stays at its origin exactly if its Location value is no trap.** -/
theorem hop_stays_iff (henv : Retargets env) (h : Tracks w o) {t : EspCtx}
    (hcheck : checkRedirect w.ctx = some t) :
    (HasOrigin (nextHop env w).2 o ↔ Tells (nextHop env w).1) ∧
      ∀ p, originOf t.url 8 256 = some p → p = o := by
  let value := (receivedLocation w.log).getD [0]
  have hcopy : cstr w.ctx.location = copyOf value := h.location
  unfold checkRedirect at hcheck
  split at hcheck
  · cases hcheck
  · split at hcheck
    · next hpath =>
      obtain rfl := Option.some.inj hcheck
      rw [isAbsolutePath_congr hcopy] at hpath
      -- a path keeps the server, whatever the copy lost
      refine ⟨⟨fun _ => ?_, fun _ => henv.absolutePath _ _ _ hpath h.target⟩, h.url⟩
      intro habsolute
      rw [show isAbsolute (nextHop env w).1 = false from isAbsolute_of_path hpath] at habsolute
      cases habsolute
    · split at hcheck
      · next hsame =>
        obtain rfl := Option.some.inj hcheck
        rw [Bool.and_eq_true] at hsame
        have habsolute : isAbsolute value = true := by
          rw [← isAbsolute_congr hcopy]
          exact hsame.1
        -- an absolute value is compared through the copies, and followed as it came
        obtain ⟨p, hp, hlocation⟩ := sameOriginUrls_iff.mp hsame.2
        obtain rfl := h.url p hp
        have hread : originOf (copyOf value) 8 256 = some p := by
          rw [← originOf_congr (hcopy.trans (cstr_copyOf value).symm)]
          exact hlocation
        have htarget : (nextHop env w).2 = value := henv.absolute _ _ habsolute
        refine ⟨?_, ?_⟩
        · rw [htarget]
          constructor
          · intro hstays _
            refine (tellsOrigin_iff habsolute).mpr fun q hq => ?_
            obtain rfl := Option.some.inj (hread.symm.trans hq)
            exact hstays
          · exact fun htells => (tellsOrigin_iff habsolute).mp (htells habsolute) p hread
        · intro q hq
          -- the tracked URL is a copy of the copy
          have htracked : cstr (snprintf w.ctx.url urlSize (cstr w.ctx.location)) =
              cstr (copyOf value) := by
            rw [cstr_snprintf_copy, cstr_copyOf, copyOf, hcopy, copyOf, List.take_take, Nat.min_self]
          have hq' : originOf (copyOf value) 8 256 = some q := by
            rw [← originOf_congr htracked]
            exact hq
          exact (Option.some.inj (hread.symm.trans hq')).symm
      · cases hcheck

/-! ## §3 The Hop Loop -/

/-- The ways in which the hop loop can go. -/
inductive EspHopRun (env : EspEnv) : Nat → EspWorld → Option Int → EspWorld → Prop where
  | failed (left : Nat) (w : EspWorld) : EspHopRun env left w none (sendRequest env w).2
  | surfaced (left : Nat) (w : EspWorld) (status : Int) :
      EspHopRun env left w (some status) (sendRequest env w).2
  | refused (left : Nat) (w : EspWorld) (status : Int) {t : EspCtx}
      (hcheck : checkRedirect (sendRequest env w).2.ctx = some t) :
      EspHopRun env left w (some status) ((sendRequest env w).2.update fun _ => t)
  | followed {left : Nat} {w v : EspWorld} {r : Option Int} {t : EspCtx}
      (hcheck : checkRedirect (sendRequest env w).2.ctx = some t)
      (h : EspHopRun env left (followRedirect env ((sendRequest env w).2.update fun _ => t)) r v) :
      EspHopRun env (left + 1) w r v

theorem espHopLoop_run (env : EspEnv) (left : Nat) (w : EspWorld) :
    EspHopRun env left w (espHopLoop env left w).1 (espHopLoop env left w).2 := by
  induction left generalizing w with
  -- no hop is left, and the redirect is surfaced unread
  | zero =>
    unfold espHopLoop
    simp only
    split
    · exact .failed _ _
    · split <;> exact .surfaced _ _ _
  | succ left ih =>
    unfold espHopLoop
    simp only
    split
    · exact .failed _ _
    · split
      · exact .surfaced _ _ _
      · split
        · exact .surfaced _ _ _
        · next t hcheck =>
          split
          · exact .refused _ _ _ hcheck
          · exact .followed hcheck (ih _)

/-- A request follows nothing by itself. -/
theorem sendRequest_hops (env : EspEnv) (w : EspWorld) :
    hopsOf (sendRequest env w).2.log = hopsOf w.log := by
  apply sendRequest_keep fun v => hopsOf v.log = hopsOf w.log
  · exact hopsOf_quiet rfl
  · exact fun v hv => (hopsOf_quiet rfl).trans hv
  · exact fun v e _ hv => (hopsOf_quiet rfl).trans hv

/-- A followed redirect is one hop. -/
theorem followRedirect_hops (env : EspEnv) (w : EspWorld) (t : EspCtx) :
    hopsOf (followRedirect env ((sendRequest env w).2.update fun _ => t)).log =
      hopsOf w.log ++ [nextHop env (sendRequest env w).2] :=
  (hopsOf_snoc _ _).trans
    (congrArg (· ++ [nextHop env (sendRequest env w).2]) (sendRequest_hops env w))

/-- **The hops of an open.** There are no more than are left, and they stay at their origin exactly
if no followed Location value is a trap. -/
theorem EspHopRun.hops (henv : Retargets env) {left : Nat} {r : Option Int}
    (h : EspHopRun env left w r v) :
    ∃ hops, hopsOf v.log = hopsOf w.log ++ hops ∧ hops.length ≤ left ∧
      ∀ o, Tracks w o → ((∀ x ∈ hops, HasOrigin x.2 o) ↔ ∀ x ∈ hops, Tells x.1) := by
  have hnone : ∀ {left : Nat} {w v : EspWorld}, hopsOf v.log = hopsOf w.log →
      ∃ hops, hopsOf v.log = hopsOf w.log ++ hops ∧ hops.length ≤ left ∧
        ∀ o, Tracks w o → ((∀ x ∈ hops, HasOrigin x.2 o) ↔ ∀ x ∈ hops, Tells x.1) := by
    intro left w v hsame
    refine ⟨[], ?_, Nat.zero_le _, fun o _ => by simp⟩
    rw [List.append_nil]
    exact hsame
  induction h with
  | failed left w => exact hnone (sendRequest_hops env w)
  | surfaced left w status => exact hnone (sendRequest_hops env w)
  | refused left w status hcheck => exact hnone (sendRequest_hops env w)
  | @followed left w v r t hcheck h ih =>
    let u := (sendRequest env w).2.update fun _ => t
    obtain ⟨hops, hhops, hlen, hiff⟩ := ih
    have hnext : hopsOf (followRedirect env u).log = hopsOf w.log ++ [nextHop env u] :=
      followRedirect_hops env w t
    refine ⟨nextHop env u :: hops, ?_, Nat.succ_le_succ hlen, ?_⟩
    · rw [hhops, hnext, List.append_assoc]
      rfl
    · intro o htracks
      obtain ⟨hstays, hurl⟩ := hop_stays_iff henv (sendRequest_tracks env htracks) hcheck
      have hstays' : HasOrigin (nextHop env u).2 o ↔ Tells (nextHop env u).1 := hstays
      rw [List.forall_mem_cons, List.forall_mem_cons]
      -- the later hops are only settled once this one has stayed
      constructor
      · rintro ⟨hfirst, hrest⟩
        exact ⟨hstays'.mp hfirst, (hiff o (followRedirect_tracks hurl hfirst)).mp hrest⟩
      · rintro ⟨hfirst, hrest⟩
        have htarget := hstays'.mpr hfirst
        exact ⟨htarget, (hiff o (followRedirect_tracks hurl htarget)).mpr hrest⟩

/-! ## §4 Received Locations -/

/-- Every Location value that the server sends has the property. -/
def SendsOnly (env : EspEnv) (P : Mem → Prop) : Prop :=
  ∀ log key value,
    (.onHeader key value ∈ env.openEvents log ∨ .onHeader key value ∈ env.fetchEvents log) →
    isKey key locationName = true → P value

/-- The Location value of the current response has it, if there is one. -/
def Received (P : Mem → Prop) (w : EspWorld) : Prop :=
  ∀ value, receivedLocation w.log = some value → P value

theorem handleEvent_received {P : Mem → Prop} (h : Received P w) {e : EspEvent}
    (hsends : ∀ key value, e = .onHeader key value → isKey key locationName = true → P value) :
    Received P (handleEvent w e) := by
  intro value hvalue
  have hsnoc := (receivedLocation_snoc w.log ⟨.event e, onHttpEvent w.ctx e⟩).symm.trans hvalue
  cases e with
  | other => exact h value hsnoc
  | onHeader key received =>
    have hcase : (if isKey key locationName then some received else receivedLocation w.log) =
        some value := hsnoc
    split at hcase
    · next hkey =>
      obtain rfl := Option.some.inj hcase
      exact hsends key _ rfl hkey
    · exact h value hcase

theorem sendRequest_received {P : Mem → Prop} (hsends : SendsOnly env P) (h : Received P w) :
    Received P (sendRequest env w).2 := by
  apply sendRequest_keep (Received P)
  · exact fun value hvalue => h value ((receivedLocation_snoc _ _).symm.trans hvalue)
  · exact fun v hv value hvalue => hv value ((receivedLocation_snoc _ _).symm.trans hvalue)
  · rintro v e ⟨log, hmem⟩ hv
    apply handleEvent_received hv
    rintro key value rfl hkey
    exact hsends log key value hmem hkey

/-- **What is followed has been received.** -/
theorem EspHopRun.followed_sent {P : Mem → Prop} (hsends : SendsOnly env P) (hempty : P [0])
    {left : Nat} {r : Option Int} (h : EspHopRun env left w r v) (hw : Received P w) :
    ∃ hops, hopsOf v.log = hopsOf w.log ++ hops ∧ ∀ x ∈ hops, P x.1 := by
  induction h with
  | failed left w => exact ⟨[], (sendRequest_hops env w).trans (List.append_nil _).symm, by simp⟩
  | surfaced left w status =>
    exact ⟨[], (sendRequest_hops env w).trans (List.append_nil _).symm, by simp⟩
  | refused left w status hcheck =>
    exact ⟨[], (sendRequest_hops env w).trans (List.append_nil _).symm, by simp⟩
  | @followed left w v r t hcheck h ih =>
    let u := (sendRequest env w).2.update fun _ => t
    have hreceived : Received P u := sendRequest_received hsends hw
    -- the new request starts without a Location
    have hnone : Received P (followRedirect env u) := by
      intro value hvalue
      have hsnoc := (receivedLocation_snoc _ _).symm.trans hvalue
      cases hsnoc
    obtain ⟨hops, hhops, hall⟩ := ih hnone
    -- no Location at all reads as the empty text
    have hfirst : P (nextHop env u).1 := by
      show P ((receivedLocation u.log).getD [0])
      cases hvalue : receivedLocation u.log with
      | none => exact hempty
      | some value => exact hreceived value hvalue
    refine ⟨nextHop env u :: hops, ?_, List.forall_mem_cons.mpr ⟨hfirst, hall⟩⟩
    rw [hhops, followRedirect_hops, List.append_assoc]
    rfl

/-! ## §5 An Answered Redirect -/

/-- The request of this turn is answered by a redirect with this Location value. -/
structure EspRedirected (env : EspEnv) (w : EspWorld) (loc : Mem) : Prop where
  sent : (sendRequest env w).1 = true
  status : isFollowedStatus (env.statusCode (sendRequest env w).2.log) = true
  location : receivedLocation (sendRequest env w).2.log = some loc
  redirection : ∀ log, env.redirectionOk log = true

/-- An event changes neither the tracked URL nor the handle. -/
theorem onHttpEvent_spares (t : EspCtx) (e : EspEvent) :
    (onHttpEvent t e).url = t.url ∧ (onHttpEvent t e).hc = t.hc := by
  cases e with
  | other => exact ⟨rfl, rfl⟩
  | onHeader key value =>
    unfold onHttpEvent
    simp only
    split
    · exact ⟨rfl, rfl⟩
    · split
      · exact ⟨rfl, rfl⟩
      · split <;> exact ⟨rfl, rfl⟩

/-- A request leaves the tracked URL alone. -/
theorem sendRequest_url (env : EspEnv) (w : EspWorld) :
    (sendRequest env w).2.ctx.url = w.ctx.url := by
  apply sendRequest_keep fun v => v.ctx.url = w.ctx.url
  · rfl
  · exact fun v hv => hv
  · exact fun v e _ hv => (onHttpEvent_spares v.ctx e).1.trans hv

/-- The check changes neither the handle nor the Retry-After. -/
theorem checkRedirect_spares {t u : EspCtx} (h : checkRedirect t = some u) :
    u.hc = t.hc ∧ u.retryAfterS = t.retryAfterS := by
  unfold checkRedirect at h
  split at h
  · cases h
  · split at h
    · rw [← Option.some.inj h]
      exact ⟨rfl, rfl⟩
    · split at h
      · rw [← Option.some.inj h]
        exact ⟨rfl, rfl⟩
      · cases h

/-- What passes the check. -/
theorem checkRedirect_iff (t : EspCtx) :
    (∃ u, checkRedirect t = some u) ↔
      isAbsolutePath t.location = true ∨
        (isAbsolute t.location = true ∧ sameOriginUrls t.url t.location = true) := by
  unfold checkRedirect
  by_cases hnil : cstr t.location = []
  · rw [if_pos hnil]
    -- an empty Location is neither a path nor absolute
    have hpath : isAbsolutePath t.location = false := by
      unfold isAbsolutePath
      rw [hnil]
      rfl
    have habsolute : isAbsolute t.location = false := by
      unfold isAbsolute
      rw [Bool.or_eq_false_iff, ← Bool.not_eq_true, ← Bool.not_eq_true,
        startsWithCase_iff (by decide), startsWithCase_iff (by decide), hnil]
      decide
    simp [hpath, habsolute]
  · rw [if_neg hnil]
    by_cases hpath : isAbsolutePath t.location = true
    · simp [hpath]
    -- the source spells the test for a scheme out
    · have hfold : (startsWithCase t.location httpStart || startsWithCase t.location httpsStart) =
          isAbsolute t.location := rfl
      rw [if_neg hpath, hfold]
      by_cases hsame : isAbsolute t.location = true ∧ sameOriginUrls t.url t.location = true
      · rw [if_pos ((Bool.and_eq_true ..).mpr hsame)]
        simp [hsame]
      · rw [if_neg (fun h => hsame ((Bool.and_eq_true ..).mp h))]
        simp [hpath, hsame]

theorem espHopLoop_refused {loc : Mem} (h : EspRedirected env w loc)
    (hcheck : checkRedirect (sendRequest env w).2.ctx = none) (left : Nat) :
    espHopLoop env (left + 1) w =
      (some (env.statusCode (sendRequest env w).2.log), (sendRequest env w).2) := by
  simp [espHopLoop, h.sent, h.status, hcheck]

/-- What passes the check is followed, and the loop goes on. -/
theorem espHopLoop_followed (henv : Retargets env) {loc : Mem} (h : EspRedirected env w loc)
    {t : EspCtx} (hcheck : checkRedirect (sendRequest env w).2.ctx = some t) (left : Nat) :
    ∃ hops, hopsOf (espHopLoop env (left + 1) w).2.log =
      hopsOf w.log ++ (loc, env.retarget (targetOf (sendRequest env w).2.log) loc) :: hops := by
  have hloop : espHopLoop env (left + 1) w = espHopLoop env left
      (followRedirect env ((sendRequest env w).2.update fun _ => t)) := by
    simp [espHopLoop, h.sent, h.status, h.redirection, hcheck]
  have hnext : nextHop env (sendRequest env w).2 =
      (loc, env.retarget (targetOf (sendRequest env w).2.log) loc) := by
    unfold nextHop
    rw [h.location]
    rfl
  obtain ⟨hops, hhops, -, -⟩ := (espHopLoop_run env left
    (followRedirect env ((sendRequest env w).2.update fun _ => t))).hops henv
  refine ⟨hops, ?_⟩
  rw [hloop, hhops, followRedirect_hops, hnext, List.append_assoc]
  rfl

/-! ## §6 The Open -/

/-- **Setting the request's headers** keeps what each entry of it keeps. -/
theorem setHeaders_keep (P : EspWorld → Prop)
    (hpush : ∀ v name value, P v → P (v.push (.setHeader name value))) (hs : List Mem) (h : P w) :
    P (hs.foldl setHeader w) := by
  refine List.foldlRecOn (motive := P) hs setHeader h ?_
  intro v hv header _
  unfold setHeader
  simp only
  split
  · exact hv
  · split
    · exact hv
    · exact hpush _ _ _ hv

theorem espTeardown_hops (w : EspWorld) : hopsOf (espTeardown w).log = hopsOf w.log := by
  unfold espTeardown
  split
  · exact hopsOf_quiet rfl
  · rfl

/-- The world before the hop loop. -/
def espRequested (w : EspWorld) (req : SseRequest) : EspWorld :=
  req.headers.foldl setHeader
    (((espStart w req.url).update fun t => { t with hc := true }).push (.request req.url))

theorem espRequested_spec (w : EspWorld) (req : SseRequest) :
    hopsOf (espRequested w req).log = hopsOf w.log ∧
      ∀ o, HasOrigin req.url o → TellsOrigin req.url → Tracks (espRequested w req) o := by
  constructor
  · refine setHeaders_keep (fun v => hopsOf v.log = hopsOf w.log) ?_ req.headers ?_
    · exact fun v _ _ hv => (hopsOf_quiet rfl).trans hv
    · exact (hopsOf_quiet rfl).trans (espTeardown_hops w)
  intro o ho htells
  refine setHeaders_keep (fun v => Tracks v o) ?_ req.headers ⟨?_, ?_, ?_⟩
  · exact fun v _ _ hv => hv.quiet rfl rfl rfl (targetOf_snoc _ _) (receivedLocation_snoc _ _)
  · intro p hp
    have hread : originOf (copyOf req.url) 8 256 = some p := by
      rw [← originOf_congr ((cstr_snprintf_copy _ _).trans (cstr_copyOf req.url).symm)]
      exact hp
    exact ((tellsOrigin_iff ho.isAbsolute).mp htells p hread).unique ho
  · show HasOrigin (targetOf (_ ++ [_])) o
    rw [targetOf_snoc]
    exact ho
  · show cstr _ = copyOf ((receivedLocation (_ ++ [_])).getD [0])
    rw [receivedLocation_snoc]
    exact cstr_set_zero _

theorem espRequested_received {P : Mem → Prop} (w : EspWorld) (req : SseRequest) :
    Received P (espRequested w req) := by
  have hnone : receivedLocation (espRequested w req).log = none :=
    setHeaders_keep (fun v => receivedLocation v.log = none)
      (fun v _ _ hv => (receivedLocation_snoc _ _).trans hv) req.headers (receivedLocation_snoc _ _)
  intro value hvalue
  rw [hnone] at hvalue
  cases hvalue

/-- An open fails at once, or ends with the hop loop. -/
theorem espOpenFn_cases (env : EspEnv) (w : EspWorld) (req : SseRequest) (out : SseResponseInfo) :
    let v := (espHopLoop env espMaxRedirectHops (espRequested w req)).2
    espOpenFn env w req out = (-1, out, espStart w req.url) ∨
      espOpenFn env w req out = (-1, out, espTeardown v) ∨
      ∃ status, espOpenFn env w req out =
        (0,
          { statusCode := status
            contentType := snprintf out.contentType 64 (cstr v.ctx.contentType)
            retryAfterS := v.ctx.retryAfterS }, v) := by
  intro v
  unfold espOpenFn
  simp only
  split
  · exact .inl rfl
  · refine .inr ?_
    split
    · exact .inl rfl
    · exact .inr ⟨_, rfl⟩

theorem espRequested_reads (w : EspWorld) (req : SseRequest) :
    originOf (espRequested w req).ctx.url 8 256 = originOf (copyOf req.url) 8 256 := by
  have hstart : (espRequested w req).ctx.url =
      snprintf (espTeardown w).ctx.url urlSize (cstr req.url) :=
    setHeaders_keep (fun v => v.ctx.url = _) (fun _ _ _ hv => hv) req.headers rfl
  rw [hstart]
  exact originOf_congr ((cstr_snprintf_copy _ _).trans (cstr_copyOf req.url).symm) 8 256

theorem espOpenFn_hops (env : EspEnv) (w : EspWorld) (req : SseRequest) (out : SseResponseInfo) :
    hopsOf (espOpenFn env w req out).2.2.log =
      if env.initOk (espStart w req.url).log then
        hopsOf (espHopLoop env espMaxRedirectHops (espRequested w req)).2.log
      else hopsOf w.log := by
  unfold espOpenFn
  simp only
  cases env.initOk (espStart w req.url).log with
  | false => exact espTeardown_hops w
  | true =>
    simp only [Bool.not_true, Bool.false_eq_true, if_false, if_true]
    split
    · exact espTeardown_hops _
    · rfl

/-- All redirects of an open lead to the origin of the request, and there are at most five. -/
def StaysAtOrigin (env : EspEnv) (w : EspWorld) (req : SseRequest) (out : SseResponseInfo) : Prop :=
  ∃ hops, hopsOf (espOpenFn env w req out).2.2.log = hopsOf w.log ++ hops ∧ hops.length ≤ 5 ∧
    ∀ o, HasOrigin req.url o → ∀ x ∈ hops, HasOrigin x.2 o

/-- **No trap, no escape.** -/
theorem staysAtOrigin_of_tells (henv : Retargets env) (hsends : SendsOnly env Tells)
    (w : EspWorld) {req : SseRequest} (hreq : Tells req.url) (out : SseResponseInfo) :
    StaysAtOrigin env w req out := by
  obtain ⟨hbefore, htracks⟩ := espRequested_spec w req
  have hrun := espHopLoop_run env espMaxRedirectHops (espRequested w req)
  obtain ⟨hops, hhops, hlen, hiff⟩ := hrun.hops henv
  have htells : ∀ x ∈ hops, Tells x.1 := by
    have hempty : Tells [0] := fun habsolute => absurd habsolute (by decide)
    obtain ⟨hops', hhops', hall⟩ := hrun.followed_sent hsends hempty (espRequested_received w req)
    obtain rfl := List.append_cancel_left (hhops.symm.trans hhops')
    exact hall
  unfold StaysAtOrigin
  rw [espOpenFn_hops]
  cases env.initOk (espStart w req.url).log with
  | false => exact ⟨[], (List.append_nil _).symm, Nat.zero_le _, by simp⟩
  | true =>
    refine ⟨hops, hbefore ▸ hhops, hlen, ?_⟩
    intro o ho
    exact (hiff o (htracks o ho (hreq ho.isAbsolute))).mpr htells

/-! ## §7 One Redirect -/

/-- The scheme and authority of a URL. -/
def serverPart (url : Mem) : Bytes :=
  match splitOn schemeSep (cstr url) with
  | some (scheme, rest) => scheme ++ schemeSep ++ before endsAuthority rest
  | none => []

/-- `esp_http_client_set_redirection`. -/
def joinTarget (current value : Mem) : Mem :=
  if isAbsolutePath value then serverPart current ++ cstr value ++ [0] else value

theorem joinTarget_path {current value : Mem} (hpath : isAbsolutePath value = true)
    (h : HasOrigin current o) : HasOrigin (joinTarget current value) o := by
  obtain ⟨u, hu, -⟩ := id h
  have hslash : Begins endsAuthority (cstr value) := by
    unfold isAbsolutePath at hpath
    rw [Bool.and_eq_true, decide_eq_true_eq] at hpath
    intro b hb
    obtain rfl := Option.some.inj (hpath.1.symm.trans (Option.mem_def.mp hb))
    rfl
  have hcurrent : cstr current = u.scheme ++ schemeSep ++
      (u.userinfo ++ (u.host ++ portText u.port) ++ u.rest) := hu
  -- the path replaces all behind the authority
  have hserver : serverPart current =
      u.scheme ++ schemeSep ++ (u.userinfo ++ (u.host ++ portText u.port)) := by
    unfold serverPart
    rw [hu, u.splitOn_text]
    show u.scheme ++ schemeSep ++ before endsAuthority _ = _
    rw [(cut_append u.authority u.isRest).1]
  have hnul : (0 : UInt8) ∉ serverPart current ++ cstr value := by
    intro h0
    rcases List.mem_append.mp h0 with h0 | h0
    · apply not_mem_cstr current
      rw [hcurrent, ← List.append_assoc, ← hserver]
      exact List.mem_append_left _ h0
    · exact not_mem_cstr value h0
  refine h.of_server u.isHttp.no_colon u.authority hcurrent u.isRest ?_ hslash
  unfold joinTarget
  rw [if_pos hpath, cstr_append_nul _ _ hnul, hserver, List.append_assoc]

/-- A server that redirects once, to this Location. -/
def redirectingEnv (location : Mem) : EspEnv where
  initOk _ := true
  openEvents _ := []
  openOk _ := true
  fetchEvents log := if hopsOf log = [] then [.onHeader (cText "Location") location] else []
  fetchOk _ := true
  statusCode log := if hopsOf log = [] then 302 else 200
  redirectionOk _ := true
  retarget := joinTarget

theorem redirectingEnv_retargets (location : Mem) : Retargets (redirectingEnv location) where
  absolute current value h := by
    show joinTarget current value = value
    unfold joinTarget
    rw [if_neg]
    intro hpath
    rw [isAbsolute_of_path hpath] at h
    cases h
  absolutePath current value o hpath h := joinTarget_path hpath h

/-- A transport that `sse_transport_esp_http_client` returns. -/
def espNew : EspWorld :=
  ⟨⟨false, List.replicate 64 0, List.replicate urlSize 0, List.replicate urlSize 0, -1⟩, []⟩

/-- It is asked once. -/
theorem redirectingEnv_redirects {location : Mem} (hnone : hopsOf w.log = []) :
    EspRedirected (redirectingEnv location) w location := by
  let v := (w.push .opened).push .fetchHeaders
  have hv : hopsOf v.log = [] := by
    show hopsOf ((w.log ++ [_]) ++ [_]) = []
    rw [hopsOf_quiet rfl, hopsOf_quiet rfl, hnone]
  have hsent : sendRequest (redirectingEnv location) w =
      (true, handleEvent v (.onHeader (cText "Location") location)) := by
    show (true, List.foldl handleEvent v (if hopsOf v.log = [] then _ else _)) = _
    rw [if_pos hv]
    rfl
  -- the answer itself follows nothing, so the status is still the redirect
  have hhops : hopsOf (handleEvent v (.onHeader (cText "Location") location)).log = [] :=
    (hopsOf_quiet rfl).trans hv
  refine ⟨by rw [hsent], ?_, ?_, fun _ => rfl⟩
  · rw [hsent]
    show isFollowedStatus (if hopsOf _ = [] then 302 else 200) = true
    rw [if_pos hhops]
    rfl
  · rw [hsent]
    refine (receivedLocation_snoc _ _).trans ?_
    exact if_pos (by decide +kernel)

/-- It sends this Location only. -/
theorem redirectingEnv_sends {location key value : Mem} {log : EspLog}
    (h : .onHeader key value ∈ (redirectingEnv location).openEvents log ∨
      .onHeader key value ∈ (redirectingEnv location).fetchEvents log) : value = location := by
  rcases h with h | h
  · cases h
  · change EspEvent.onHeader key value ∈ (if hopsOf log = [] then _ else _) at h
    split at h
    · exact (EspEvent.onHeader.inj (List.mem_singleton.mp h)).2
    · cases h

/-! ## §8 Traps -/

/-- An http(s) URL of at most 511 bytes. -/
def Short (url : Mem) : Prop :=
  (cstr url).length < urlSize ∧ ∃ o, HasOrigin url o

theorem authorityFits_of_short {url : Mem} (h : (cstr url).length < urlSize) : AuthorityFits url := by
  intro scheme rest hsplit
  have hbefore : (before endsAuthority rest).length ≤ rest.length :=
    (List.takeWhile_prefix _).length_le
  rw [append_of_splitOn hsplit, List.length_append, List.length_append] at h
  omega

theorem copyOf_of_short {url : Mem} (h : (cstr url).length < urlSize) : copyOf url = cstr url :=
  List.take_of_length_le (by omega)

/-- **An origin that is shown has a short URL.** -/
theorem Shows.page {url : Mem} (h : Shows url o) (hlen : (cstr url).length < urlSize) :
    ∃ page, Short page ∧ HasOrigin page o ∧ originOf (copyOf page) 8 256 = some o := by
  have hread : ∀ {page : Mem}, (cstr page).length < urlSize → HasOrigin page o →
      originOf page 8 256 = some o →
      Short page ∧ HasOrigin page o ∧ originOf (copyOf page) 8 256 = some o := by
    intro page hshort horigin hpage
    refine ⟨⟨hshort, o, horigin⟩, horigin, ?_⟩
    rw [originOf_congr ((cstr_copyOf page).trans (copyOf_of_short hshort))]
    exact hpage
  cases h with
  | @url u htext hhost hport =>
    have horigin : HasOrigin url u.origin := ⟨u, htext, rfl⟩
    exact ⟨url, hread hlen horigin
      ((originOf_iff_shows horigin.isAbsolute).mpr (.url htext hhost hport))⟩
  | @literal scheme rest host junk hsplit hhttp hhost hlt hjunk htext =>
    -- the page of the literal alone
    let page : Mem := scheme ++ schemeSep ++ host ++ [0]
    have hwhole : cstr url = scheme ++ schemeSep ++ rest := append_of_splitOn hsplit
    have hbefore : before endsAuthority rest =
        uptoLast isAt (before endsAuthority rest) ++ (host ++ junk) := by
      rw [← htext]
      exact (uptoLast_append_afterLast isAt _).symm
    have hmem : ∀ b ∈ host, b ∈ before endsAuthority rest := by
      intro b hb
      rw [hbefore]
      exact List.mem_append_right _ (List.mem_append_left _ hb)
    have hpage : cstr page = scheme ++ schemeSep ++ host := by
      apply cstr_append_nul
      intro h0
      apply not_mem_cstr url
      rw [hwhole]
      rcases List.mem_append.mp h0 with h0 | h0
      · exact List.mem_append_left _ h0
      · exact List.mem_append_right _ ((List.takeWhile_prefix _).subset (hmem _ h0))
    have hshort : (cstr page).length < urlSize := by
      have hle : (before endsAuthority rest).length ≤ rest.length :=
        (List.takeWhile_prefix _).length_le
      rw [hbefore, List.length_append, List.length_append] at hle
      rw [hwhole, List.length_append] at hlen
      rw [hpage, List.length_append]
      omega
    have hsplit' : splitOn schemeSep (cstr page) = some (scheme, host) := by
      rw [hpage]
      exact splitOn_append hhttp.no_colon host
    have hhostport : hostportOf host = host ++ portText none := by
      have hcut := (cut_append (fun b hb => stop_before (hmem b hb)) (begins_nil endsAuthority)).1
      have hno : ∀ b ∈ host, isAt b = false := by
        intro b hb
        apply @stop_afterLast _ isAt (before endsAuthority rest)
        show b ∈ hostportOf rest
        rw [htext]
        exact List.mem_append_left _ hb
      rw [List.append_nil] at hcut
      unfold hostportOf
      rw [hcut]
      exact (afterLast_append (ends_uptoLast isAt []) hno).trans (List.append_nil _).symm
    have hport : resolvePort (scheme.map asciiLower) none = some (defaultPort scheme) :=
      resolvePort_eq_some.mpr (.inr ⟨rfl, hhttp, rfl⟩)
    refine ⟨page, hread hshort (hasOrigin_of_parts hsplit' hhttp (.inl hhost) hhostport hport) ?_⟩
    refine originOf_eq_some.mpr ⟨_, _, _, none, _, hsplit', hhttp.ne_nil, hhttp.length_lt, ?_,
      hhost.ne_nil, hlt, hport, rfl⟩
    rw [hhostport]
    exact splitHost_host (.inl hhost) none

/-- **Every trap catches a request.** -/
theorem trap_leaves {url : Mem} (habsolute : isAbsolute url = true) (htrap : ¬ TellsOrigin url) :
    ∃ page, Short page ∧
      ¬ StaysAtOrigin (redirectingEnv url) espNew ⟨page, []⟩ ⟨0, [0], -1⟩ := by
  have hcopy : isAbsolute (copyOf url) = true := (isAbsolute_copyOf url).trans habsolute
  obtain ⟨o, hread, hleaves⟩ : ∃ o, originOf (copyOf url) 8 256 = some o ∧ ¬ HasOrigin url o := by
    by_contra hnone
    refine htrap ((tellsOrigin_iff habsolute).mpr fun o ho => ?_)
    exact by_contra fun hleaves => hnone ⟨o, ho, hleaves⟩
  have hlen : (cstr (copyOf url)).length < urlSize := by
    rw [cstr_copyOf]
    exact Nat.lt_of_le_of_lt (List.length_take_le _ _) (by decide)
  -- a request to the origin that the copy shows
  obtain ⟨page, hshort, horigin, hpage⟩ := ((originOf_iff_shows hcopy).mp hread).page hlen
  refine ⟨page, hshort, ?_⟩
  rintro ⟨hops, hhops, -, hstays⟩
  let env := redirectingEnv url
  let w := espRequested espNew ⟨page, []⟩
  have henv : Retargets env := redirectingEnv_retargets url
  have hnone : hopsOf w.log = [] := (espRequested_spec espNew ⟨page, []⟩).1
  have hredirected : EspRedirected env w url := redirectingEnv_redirects hnone
  have hlocation : cstr (sendRequest env w).2.ctx.location = copyOf url := by
    have htells := horigin.tellsOrigin (authorityFits_of_short hshort.1)
    have htracks := (espRequested_spec espNew ⟨page, []⟩).2 o horigin htells
    have hcaptured := (sendRequest_tracks env htracks).location
    rw [hredirected.location] at hcaptured
    exact hcaptured
  -- both copies show it, so the check is passed
  obtain ⟨t, hcheck⟩ : ∃ t, checkRedirect (sendRequest env w).2.ctx = some t := by
    refine (checkRedirect_iff _).mpr (.inr ⟨(isAbsolute_congr hlocation).trans habsolute, ?_⟩)
    refine sameOriginUrls_iff.mpr ⟨o, ?_, ?_⟩
    · rw [sendRequest_url, espRequested_reads]
      exact hpage
    · rw [originOf_congr (hlocation.trans (cstr_copyOf url).symm)]
      exact hread
  obtain ⟨later, hlater⟩ := espHopLoop_followed henv hredirected hcheck 4
  have hopen : hopsOf (espHopLoop env (4 + 1) w).2.log = hops :=
    (espOpenFn_hops env espNew ⟨page, []⟩ ⟨0, [0], -1⟩).symm.trans hhops
  rw [hlater, hnone, henv.absolute _ _ habsolute] at hopen
  exact hleaves (hstays o horigin (url, url) (hopen ▸ List.mem_cons_self ..))

/-- The URLs of a kind, and the short ones. -/
def Allowed (S : Mem → Prop) (url : Mem) : Prop :=
  S url ∨ Short url

/-- **Redirects stay at the origin of the request.** No open follows more than five redirects. All
opens of the URLs of a kind, with Location values of the same kind, only follow redirects to the
origin of the request, exactly if none of these URLs is a trap. Short ones never are. -/
theorem esp_same_origin_iff (S : Mem → Prop) :
    (∀ env w req out, Retargets env → Allowed S req.url →
        SendsOnly env (fun value => isAbsolute value = true → Allowed S value) →
        StaysAtOrigin env w req out) ↔
      ∀ url, S url → isAbsolute url = true → TellsOrigin url := by
  constructor
  · intro hstays url hurl habsolute
    -- a trap as the Location of some short page leaves the origin
    by_contra htrap
    obtain ⟨page, hshort, hleaves⟩ := trap_leaves habsolute htrap
    apply hleaves
    refine hstays _ _ _ _ (redirectingEnv_retargets url) (.inr hshort) ?_
    intro log key value hmem _ _
    obtain rfl := redirectingEnv_sends hmem
    exact .inl hurl
  · intro hgood env w req out henv hreq hsends
    have htells : ∀ url, Allowed S url → Tells url := by
      rintro url (hurl | ⟨hlen, o, ho⟩) habsolute
      · exact hgood url hurl habsolute
      · exact ho.tellsOrigin (authorityFits_of_short hlen)
    refine staysAtOrigin_of_tells henv ?_ w (htells _ hreq) out
    exact fun log key value hmem hkey habsolute =>
      htells value (hsends log key value hmem hkey habsolute) habsolute

/-- 502 bytes of userinfo, so that the copy ends after the first byte of the host. -/
def longLocation : Mem :=
  httpStart ++ List.replicate 502 0x75 ++ ascii "@a.example/".toList ++ [0]

/-- The credentials for `a` go to `a.example`. -/
theorem long_location_leaves :
    let req : SseRequest := ⟨cText "http://a/", []⟩
    let run := espOpenFn (redirectingEnv longLocation) espNew req ⟨0, [0], -1⟩
    let other : Origin := ⟨httpScheme, ascii "a.example".toList, 80⟩
    Retargets (redirectingEnv longLocation) ∧
      HasOrigin req.url ⟨httpScheme, ascii "a".toList, 80⟩ ∧
      hopsOf run.2.2.log = [(longLocation, longLocation)] ∧ HasOrigin longLocation other ∧
      ¬ HasOrigin longLocation ⟨httpScheme, ascii "a".toList, 80⟩ := by
  intro req run other
  have hreq : HasOrigin req.url ⟨httpScheme, ascii "a".toList, 80⟩ :=
    @hasOrigin_of_parts _ httpScheme (ascii "a/".toList) (ascii "a".toList) none 80
      (by decide +kernel) (.inl rfl) (.inr (by decide +kernel)) (by decide +kernel) (by decide)
  have hother : HasOrigin longLocation other :=
    @hasOrigin_of_parts _ httpScheme
      (List.replicate 502 0x75 ++ ascii "@a.example/".toList) (ascii "a.example".toList) none 80
      (by decide +kernel) (.inl rfl) (.inr (by decide +kernel)) (by decide +kernel) (by decide)
  have hhops : hopsOf run.2.2.log = [(longLocation, longLocation)] := by decide +kernel
  have hleaves : ¬ HasOrigin longLocation ⟨httpScheme, ascii "a".toList, 80⟩ := fun hsame =>
    absurd (hother.unique hsame) (by decide)
  exact ⟨redirectingEnv_retargets _, hreq, hhops, hother, hleaves⟩

/-- The caller's stream on the server `a`. -/
def streamReq : SseRequest := ⟨cText "http://a/", []⟩

/-- Another page of the same server. -/
def otherPage : Mem := cText "http://a/b"

theorem streamReq_origin : HasOrigin streamReq.url ⟨httpScheme, ascii "a".toList, 80⟩ :=
  @hasOrigin_of_parts _ httpScheme (ascii "a/".toList) (ascii "a".toList) none 80 (by decide +kernel)
    (.inl rfl) (.inr (by decide +kernel)) (by decide +kernel) (by decide)

theorem esp_same_origin_iff_of_page :
    StaysAtOrigin (redirectingEnv otherPage) espNew streamReq ⟨0, [0], -1⟩ ∧
      hopsOf (espOpenFn (redirectingEnv otherPage) espNew streamReq ⟨0, [0], -1⟩).2.2.log =
        [(otherPage, otherPage)] := by
  have hpage : HasOrigin otherPage ⟨httpScheme, ascii "a".toList, 80⟩ :=
    @hasOrigin_of_parts _ httpScheme (ascii "a/b".toList) (ascii "a".toList) none 80
      (by decide +kernel) (.inl rfl) (.inr (by decide +kernel)) (by decide +kernel) (by decide)
  have hgood : ∀ url, url = otherPage → isAbsolute url = true → TellsOrigin url := by
    rintro _ rfl -
    exact hpage.tellsOrigin (authorityFits_of_short (by decide +kernel))
  have hreq : Allowed (· = otherPage) streamReq.url :=
    .inr ⟨by decide +kernel, _, streamReq_origin⟩
  have hsends : SendsOnly (redirectingEnv otherPage)
      (fun value => isAbsolute value = true → Allowed (· = otherPage) value) := by
    intro log key value hmem _ _
    exact .inl (redirectingEnv_sends hmem)
  exact ⟨(esp_same_origin_iff (· = otherPage)).mpr hgood _ _ _ _ (redirectingEnv_retargets _) hreq
    hsends, by decide +kernel⟩

end EventSource.Port
