import EventSource.Lib.UriReference
import EventSource.Port.EspOpen
import EventSource.Port.FinalResponse

/-!
# Which Redirects Are Followed

Both transports look at a redirect by themselves: one has the URL that libcurl has resolved, the
other the Location value as it was received. The first follows what stays at the current origin, the
second only what stays there and is an absolute path or an absolute http(s) URL.
-/

namespace EventSource.Port

open EventSource.CMemory
open EventSource.Parser
open EventSource.Client
open EventSource.Cut
open EventSource.UriReference (stopsAuthority stopsPath stopsScheme resolveText parse_server
  parse_rooted resolve_relative resolve_absolute)

/-! ## §1 The Server of a URL -/

theorem stopsAuthority_eq : stopsAuthority = endsAuthority := by
  funext b
  unfold stopsAuthority stopsPath endsAuthority
  rw [← Bool.or_assoc]
  rfl

theorem IsHttp.no_stop {scheme : Bytes} (h : IsHttp scheme) : ∀ b ∈ scheme, stopsScheme b = false := by
  intro b hb
  rw [← Bool.not_eq_true]
  intro hstop
  unfold stopsScheme stopsAuthority stopsPath at hstop
  simp only [Bool.or_eq_true, decide_eq_true_eq] at hstop
  have hnot : ∀ c ∈ [UriReference.colon, UriReference.slash, UriReference.question, UriReference.hash],
      asciiLower c ∉ httpsScheme := by decide +kernel
  refine h.not_mem (hnot b ?_) hb
  rcases hstop with rfl | rfl | rfl | rfl <;> decide

/-- The server of an http(s) URL, as its text is cut by RFC 3986. -/
theorem server_of_text {url : Mem} {scheme rest : Bytes} (hhttp : IsHttp scheme)
    (htext : cstr url = scheme ++ schemeSep ++ rest) :
    (UriReference.parse (cstr url)).Server scheme (before endsAuthority rest) := by
  rw [htext, ← stopsAuthority_eq]
  exact parse_server hhttp.ne_nil hhttp.no_stop rest

/-- The text of a resolved reference that names a server. -/
theorem resolved_text {current loc target : Mem} {scheme authority : Bytes}
    (htarget : cstr target = resolveText (cstr current) (cstr loc))
    (hserver : (UriReference.resolve (UriReference.parse (cstr current))
      (UriReference.parse (cstr loc))).Server scheme authority) :
    ∃ rest, cstr target = scheme ++ schemeSep ++ (authority ++ rest) ∧ Begins endsAuthority rest := by
  obtain ⟨rest, htext, hrest⟩ := hserver.text
  rw [stopsAuthority_eq] at hrest
  exact ⟨rest, htarget.trans htext, hrest⟩

/-- **An absolute path stays at the origin.** -/
theorem target_of_path {current loc target : Mem} {o : Origin}
    (htarget : cstr target = resolveText (cstr current) (cstr loc)) (hcurrent : HasOrigin current o)
    (hpath : isAbsolutePath loc = true) : HasOrigin target o := by
  obtain ⟨u, hu, -⟩ := id hcurrent
  have htext : cstr current = u.scheme ++ schemeSep ++
      (u.userinfo ++ (u.host ++ portText u.port) ++ u.rest) := hu
  have hserver := server_of_text u.isHttp htext
  rw [(cut_append u.authority u.isRest).1] at hserver
  unfold isAbsolutePath at hpath
  rw [Bool.and_eq_true, decide_eq_true_eq, decide_eq_true_eq] at hpath
  obtain ⟨hscheme, hauthority⟩ := parse_rooted hpath.1 hpath.2
  obtain ⟨rest, hresolved, hrest⟩ := resolved_text htarget (resolve_relative hserver hscheme hauthority)
  exact hcurrent.of_server u.isHttp.no_colon u.authority htext u.isRest hresolved hrest

/-- **An absolute value keeps its origin.** -/
theorem target_of_absolute {current loc target : Mem}
    (htarget : cstr target = resolveText (cstr current) (cstr loc)) (h : isAbsolute loc = true)
    (o : Origin) : HasOrigin target o ↔ HasOrigin loc o := by
  obtain ⟨scheme, rest, hhttp, htext⟩ := text_of_absolute h
  have hserver := server_of_text hhttp htext
  obtain ⟨rest', hresolved, hrest'⟩ := resolved_text htarget (resolve_absolute hserver _)
  rw [← before_append_fromFirst endsAuthority rest] at htext
  have hauthority : ∀ b ∈ before endsAuthority rest, endsAuthority b = false :=
    fun b hb => stop_before hb
  have hrest := begins_fromFirst endsAuthority rest
  constructor
  · intro ho
    exact ho.of_server hhttp.no_colon hauthority hresolved hrest' htext hrest
  · intro ho
    exact ho.of_server hhttp.no_colon hauthority htext hrest hresolved hrest'

/-- An http(s) URL, or a URL of another scheme. -/
def IsUrl (url : Mem) : Prop :=
  (∃ o, HasOrigin url o) ∨
    ∃ scheme, (UriReference.parse (cstr url)).scheme = some scheme ∧ ¬ IsHttp scheme

/-- An absolute value that resolves to a URL is one. -/
theorem origin_of_absolute {current loc target : Mem}
    (htarget : cstr target = resolveText (cstr current) (cstr loc)) (h : isAbsolute loc = true)
    (hurl : IsUrl target) : ∃ o, HasOrigin loc o := by
  rcases hurl with ⟨o, ho⟩ | ⟨scheme, hscheme, hnot⟩
  · exact ⟨o, (target_of_absolute htarget h o).mp ho⟩
  · obtain ⟨s, rest, hhttp, htext⟩ := text_of_absolute h
    obtain ⟨rest', hresolved, -⟩ :=
      resolved_text htarget (resolve_absolute (server_of_text hhttp htext) _)
    rw [(server_of_text hhttp hresolved).scheme] at hscheme
    obtain rfl := Option.some.inj hscheme
    exact absurd hhttp hnot

/-! ## §2 Through curl -/

/-- The numeral of a port. -/
def portDigits (port : Nat) : Bytes :=
  ascii (Nat.toDigits 10 port)

/-- libcurl's URL parser takes this URL as it is written: an http(s) URL has the scheme, the host and
the port of its origin, and a URL of another scheme is not taken for one. The parser normalises some
hosts, such as `127.1`, and rejects others; those are not parsed so. -/
structure ParsesAs (env : CurlEnv) (url : Mem) : Prop where
  origin : ∀ o, HasOrigin url o → ∃ p, env.parseUrl url = some p ∧
    (cstr p.scheme).map asciiLower = o.scheme ∧ (cstr p.host).map asciiLower = o.host ∧
    cstr p.port = portDigits o.port
  foreign : ∀ scheme p, (UriReference.parse (cstr url)).scheme = some scheme → ¬ IsHttp scheme →
    env.parseUrl url = some p → ¬ IsHttp (cstr p.scheme)

theorem toUInt8_of_isDigit {c : Char} (h : c.isDigit = true) :
    c.toUInt8.toNat = c.toNat ∧ 48 ≤ c.toNat := by
  unfold Char.isDigit at h
  rw [Bool.and_eq_true, decide_eq_true_eq, decide_eq_true_eq] at h
  have hle : c.toNat ≤ 57 := UInt32.le_iff_toNat_le.mp h.2
  refine ⟨?_, UInt32.le_iff_toNat_le.mp h.1⟩
  show c.val.toUInt8.toNat = _
  rw [UInt32.toNat_toUInt8]
  exact Nat.mod_eq_of_lt (Nat.lt_of_le_of_lt hle (by decide))

/-- The value of a numeral's text. -/
theorem decimal_portDigits (port : Nat) : decimal (portDigits port) = port := by
  have hfold : ∀ (cs : List Char) (n : Nat), (∀ c ∈ cs, c.isDigit = true) →
      (ascii cs).foldl (fun n b => n * 10 + (b.toNat - 0x30)) n = Nat.ofDigitChars 10 cs n := by
    intro cs
    induction cs with
    | nil => exact fun n _ => rfl
    | cons c cs ih =>
      intro n hcs
      obtain ⟨hbyte, -⟩ := toUInt8_of_isDigit (hcs c (List.mem_cons_self ..))
      rw [Nat.ofDigitChars_cons, ← ih _ fun d hd => hcs d (List.mem_cons_of_mem _ hd), ← hbyte,
        Nat.mul_comm]
      rfl
  exact (hfold _ 0 fun c hc => Nat.isDigit_of_mem_toDigits (by decide) (by decide) hc).trans
    Nat.ofDigitChars_ten_toDigits

/-- **The comparison is that of the origins.** -/
theorem sameOrigin_iff {env : CurlEnv} {log : CurlLog} (hhandles : env.urlHandles log = true)
    {current target : Mem} {o : Origin} (hcurrent : HasOrigin current o) (htarget : IsUrl target)
    (hparse : ParsesAs env current) (hparse' : ParsesAs env target) :
    sameOrigin env log current target = true ↔ HasOrigin target o := by
  obtain ⟨p, hp, hscheme, hhost, hport⟩ := hparse.origin o hcurrent
  unfold sameOrigin
  rw [hhandles, hp, Bool.true_and]
  rcases htarget with ⟨q, hq⟩ | ⟨scheme, hforeign, hnot⟩
  · obtain ⟨p', hp', hscheme', hhost', hport'⟩ := hparse'.origin q hq
    simp only [hp', strcaseEq, Bool.and_eq_true, decide_eq_true_eq, hscheme, hhost, hport, hscheme',
      hhost', hport']
    constructor
    · rintro ⟨⟨hs, hh⟩, hport⟩
      -- ports are compared as digits
      have hsame : o.port = q.port := by
        rw [← decimal_portDigits o.port, hport, decimal_portDigits]
      obtain rfl : o = q := by
        cases o
        cases q
        exact (Origin.mk.injEq ..).mpr ⟨hs, hh, hsame⟩
      exact hq
    · intro ho
      obtain rfl := hq.unique ho
      exact ⟨⟨rfl, rfl⟩, rfl⟩
  · -- another scheme is no http(s), while the scheme of the request is
    obtain ⟨u, hu, rfl⟩ := hcurrent
    have hdiffers : ∀ p', env.parseUrl target = some p' → ¬ IsHttp (cstr p'.scheme) :=
      fun p' hp' => hparse'.foreign scheme p' hforeign hnot hp'
    constructor
    · intro hsame
      cases hp' : env.parseUrl target with
      | none => simp [hp'] at hsame
      | some p' =>
        simp only [hp', strcaseEq, Bool.and_eq_true, decide_eq_true_eq, hscheme] at hsame
        refine absurd ?_ (hdiffers p' hp')
        unfold IsHttp
        rw [← hsame.1.1]
        exact u.isHttp
    · rintro ⟨v, hv, -⟩
      have hserver := server_of_text v.isHttp hv
      rw [hserver.scheme] at hforeign
      obtain rfl := Option.some.inj hforeign
      exact absurd v.isHttp hnot

/-- The world in which a redirect is judged, after its body has been drained. -/
def drained (env : CurlEnv) (w : CurlWorld) : CurlWorld :=
  (drain env (awaitResponse env w).2).2

/-- The request of this turn is answered by a redirect, for which libcurl has this target. -/
structure CurlRedirected (env : CurlEnv) (w : CurlWorld) (current target : Mem) : Prop where
  answered : (awaitResponse env w).1 = true
  status : isFollowedStatus (awaitResponse env w).2.ctx.headerBlockStatus = true
  complete : (drain env (awaitResponse env w).2).1 = true
  handles : env.urlHandles (drained env w).log = true
  effective : env.effectiveUrl (drained env w).log = some current
  redirect : env.redirectUrl (drained env w).log = some target

/-- Something else is requested after this turn. -/
def CurlFollows (env : CurlEnv) (left : Nat) (w : CurlWorld) : Prop :=
  requests (hopLoop env left w).2.log ≠ requests w.log

theorem isRedirectStatus_of_followed {status : Int} (h : isFollowedStatus status = true) :
    isRedirectStatus status = true := by
  unfold isFollowedStatus at h
  simp only [Bool.or_eq_true, decide_eq_true_eq] at h
  unfold isRedirectStatus
  rw [Bool.and_eq_true, decide_eq_true_eq, decide_eq_true_eq]
  omega

/-- **Through curl a redirect is followed exactly if it stays at the origin.** -/
theorem curl_follows_iff {env : CurlEnv} {w : CurlWorld} {current target : Mem} {o : Origin}
    (h : CurlRedirected env w current target) (hcurrent : HasOrigin current o)
    (htarget : IsUrl target) (hparse : ParsesAs env current) (hparse' : ParsesAs env target)
    (left : Nat) :
    CurlFollows env (left + 1) w ↔ HasOrigin target o := by
  have hturn : requests (drained env w).log = requests w.log := (turn_steps env w).spares.1
  have hjudged : redirectTarget env (drain env (awaitResponse env w).2).2 =
      if sameOrigin env (drained env w).log current target then some target else none := by
    show redirectTarget env (drained env w) = _
    unfold redirectTarget
    rw [h.redirect, h.effective]
  rw [← sameOrigin_iff h.handles hcurrent htarget hparse hparse']
  unfold CurlFollows
  cases hsame : sameOrigin env (drained env w).log current target with
  | false =>
    have hloop : hopLoop env (left + 1) w = (true, (drain env (awaitResponse env w).2).2) := by
      rw [hopLoop]
      simp [h.answered, isRedirectStatus_of_followed h.status, h.complete, hjudged, hsame]
    rw [hloop]
    refine iff_of_false (fun hne => hne ?_) Bool.false_ne_true
    exact hturn
  | true =>
    have hloop : hopLoop env (left + 1) w =
        hopLoop env left (reissue (drain env (awaitResponse env w).2).2 target) := by
      rw [hopLoop]
      simp [h.answered, isRedirectStatus_of_followed h.status, h.complete, hjudged, hsame]
    rw [hloop]
    refine iff_of_true ?_ rfl
    have hnext : requests (reissue (drained env w) target).log = requests w.log ++ [target] := by
      show requests (_ ++ [_]) = _
      rw [requests_snoc]
      exact congrArg (· ++ [target]) hturn
    -- the log only grows, so the new request is still in it at the end
    obtain ⟨es, hes⟩ := (hopLoop_steps env left (reissue (drained env w) target)).log
    intro heq
    have hlength : (requests (hopLoop env left (reissue (drained env w) target)).2.log).length =
        (requests w.log).length := congrArg List.length heq
    rw [← hes, requests, List.filterMap_append, ← requests, hnext] at hlength
    simp at hlength

/-! ## §3 Through `esp_http_client` -/

/-- The redirect of this turn is followed. -/
def EspFollows (env : EspEnv) (left : Nat) (w : EspWorld) : Prop :=
  hopsOf (espHopLoop env left w).2.log ≠ hopsOf w.log

/-- A turn of the hop loop, with the number of hops that are left, behind hops that are no traps. -/
inductive EspTurn (env : EspEnv) (start : EspWorld) : Nat → EspWorld → Prop where
  | first : EspTurn env start espMaxRedirectHops start
  | next {left : Nat} {w : EspWorld} {t : EspCtx} (h : EspTurn env start (left + 1) w)
      (hcheck : checkRedirect (sendRequest env w).2.ctx = some t)
      (htells : Tells (nextHop env (sendRequest env w).2).1) :
      EspTurn env start left (followRedirect env ((sendRequest env w).2.update fun _ => t))

/-- A redirect is followed exactly if it passes its check. -/
theorem espFollows_iff_check {env : EspEnv} (henv : Retargets env) {w : EspWorld} {loc : Mem}
    (h : EspRedirected env w loc) (left : Nat) :
    EspFollows env (left + 1) w ↔ ∃ t, checkRedirect (sendRequest env w).2.ctx = some t := by
  unfold EspFollows
  cases hcheck : checkRedirect (sendRequest env w).2.ctx with
  | none =>
    rw [espHopLoop_refused h hcheck]
    exact iff_of_false (not_not_intro (sendRequest_hops env w)) (by simp)
  | some t =>
    obtain ⟨hops, hhops⟩ := espHopLoop_followed henv h hcheck left
    refine iff_of_true ?_ ⟨t, rfl⟩
    -- the log holds one more hop
    rw [hhops]
    simp

/-- The tracked URL always reads like the request's. -/
theorem checkRedirect_reads {t u : EspCtx} {value : Mem} (hcopy : cstr t.location = copyOf value)
    (h : checkRedirect t = some u) : originOf u.url 8 256 = originOf t.url 8 256 := by
  unfold checkRedirect at h
  split at h
  · cases h
  · split at h
    · rw [← Option.some.inj h]
    · split at h
      · next hsame =>
        rw [← Option.some.inj h]
        rw [Bool.and_eq_true] at hsame
        obtain ⟨p, hp, hlocation⟩ := sameOriginUrls_iff.mp hsame.2
        have htracked : cstr (snprintf t.url urlSize (cstr t.location)) = cstr t.location := by
          rw [cstr_snprintf_copy, copyOf, hcopy, copyOf, List.take_take, Nat.min_self]
        exact (originOf_congr htracked 8 256).trans (hlocation.trans hp.symm)
      · cases h

/-- **What every turn knows.** -/
theorem EspTurn.tracks {env : EspEnv} (henv : Retargets env) {w₀ w : EspWorld} {req : SseRequest}
    {left : Nat} {o : Origin} (h : EspTurn env (espRequested w₀ req) left w)
    (hreq : HasOrigin req.url o) (htells : TellsOrigin req.url) :
    Tracks w o ∧ originOf w.ctx.url 8 256 = originOf (copyOf req.url) 8 256 := by
  induction h with
  | first => exact ⟨(espRequested_spec w₀ req).2 o hreq htells, espRequested_reads w₀ req⟩
  | @next left w t h hcheck hno ih =>
    have hsent := sendRequest_tracks env ih.1
    obtain ⟨hstays, hurl⟩ := hop_stays_iff henv hsent hcheck
    refine ⟨@followRedirect_tracks env o ((sendRequest env w).2.update fun _ => t) hurl
      (hstays.mpr hno), ?_⟩
    refine (checkRedirect_reads hsent.location hcheck).trans ?_
    rw [sendRequest_url]
    exact ih.2

/-! ## §4 Both Ports -/

/-- A Location value that the ESP-IDF transport follows within an origin: an absolute path, or an
absolute http(s) URL, as long as its origin and that of the request can be read. -/
def Followable (url loc : Mem) : Prop :=
  isAbsolutePath loc = true ∨ (isAbsolute loc = true ∧ Legible url ∧ Legible loc)

/-- **Through `esp_http_client` a redirect is followed exactly if it stays at the origin and has a
form that is looked at.** -/
theorem esp_follows_iff {env : EspEnv} (henv : Retargets env) {w₀ w : EspWorld} {req : SseRequest}
    {left : Nat} {loc target : Mem} {o p : Origin} (hreq : HasOrigin req.url p)
    (hfits : AuthorityFits req.url) (hturn : EspTurn env (espRequested w₀ req) (left + 1) w)
    (h : EspRedirected env w loc) (hcurrent : HasOrigin (targetOf w.log) o)
    (htarget : cstr target = resolveText (cstr (targetOf w.log)) (cstr loc)) (hurl : IsUrl target)
    (hfits' : isAbsolute loc = true → AuthorityFits loc) :
    EspFollows env (left + 1) w ↔ HasOrigin target o ∧ Followable req.url loc := by
  have htrue : ∀ {url : Mem} {a q : Origin}, HasOrigin url a → AuthorityFits url →
      originOf (copyOf url) 8 256 = some q → q = a := by
    intro url a q ha hfit hq
    exact ((tellsOrigin_iff ha.isAbsolute).mp (ha.tellsOrigin hfit) q hq).unique ha
  obtain ⟨htracks, hreads⟩ := hturn.tracks henv hreq (hreq.tellsOrigin hfits)
  obtain rfl := htracks.target.unique hcurrent
  have hcopy : cstr (sendRequest env w).2.ctx.location = copyOf loc := by
    have hlocation := (sendRequest_tracks env htracks).location
    rw [h.location] at hlocation
    exact hlocation
  have hread : originOf (sendRequest env w).2.ctx.location 8 256 = originOf (copyOf loc) 8 256 :=
    originOf_congr (hcopy.trans (cstr_copyOf loc).symm) 8 256
  rw [espFollows_iff_check henv h, checkRedirect_iff, isAbsolutePath_congr hcopy,
    isAbsolute_congr hcopy, sameOriginUrls_iff, sendRequest_url, hreads, hread]
  unfold Followable
  constructor
  · rintro (hpath | ⟨habsolute, q, hq, hq'⟩)
    · exact ⟨target_of_path htarget hcurrent hpath, .inl hpath⟩
    · -- the copies of both URLs show their true origins
      obtain rfl := htrue hreq hfits hq
      obtain ⟨r, hr⟩ := origin_of_absolute htarget habsolute hurl
      have hloc := htrue hr (hfits' habsolute) hq' ▸ hr
      exact ⟨(target_of_absolute htarget habsolute _).mpr hloc, .inr ⟨habsolute,
        (legible_iff hreq hfits).mpr ⟨_, hq⟩, (legible_iff hr (hfits' habsolute)).mpr ⟨_, hq'⟩⟩⟩
  · rintro ⟨htarget', hpath | ⟨habsolute, hlegible, hlegible'⟩⟩
    · exact .inl hpath
    · have hloc := (target_of_absolute htarget habsolute _).mp htarget'
      obtain ⟨q, hq⟩ := (legible_iff hreq hfits).mp hlegible
      obtain ⟨q', hq'⟩ := (legible_iff hloc (hfits' habsolute)).mp hlegible'
      -- both copies show the one origin
      obtain rfl := htrue hreq hfits hq
      obtain rfl := htrue hloc (hfits' habsolute) hq'
      exact .inr ⟨habsolute, _, hq, hq'⟩

/-- A URL parser. -/
def urlParts (url : Mem) : Option UrlParts :=
  match splitOn schemeSep (cstr url) with
  | none => none
  | some (scheme, rest) =>
    (splitHost (hostportOf rest)).map fun h =>
      ⟨scheme, h.1, portDigits
        (match h.2 with
          | some (b :: bs) => decimal (b :: bs)
          | _ => defaultPort scheme)⟩

theorem parsesAs_urlParts {env : CurlEnv} (henv : env.parseUrl = urlParts) (url : Mem) :
    ParsesAs env url := by
  -- no part of a C string has a NUL
  have hscheme : ∀ {url : Mem} {scheme rest : Bytes},
      splitOn schemeSep (cstr url) = some (scheme, rest) → cstr scheme = scheme := by
    intro url scheme rest hsplit
    apply cstr_of_not_mem
    intro h0
    apply not_mem_cstr url
    rw [append_of_splitOn hsplit, List.append_assoc]
    exact List.mem_append_left _ h0
  have hdigits : ∀ n, cstr (portDigits n) = portDigits n := by
    intro n
    apply cstr_of_not_mem
    intro h0
    obtain ⟨c, hc, hzero⟩ := List.mem_map.mp h0
    obtain ⟨hbyte, hlarge⟩ := toUInt8_of_isDigit
      (Nat.isDigit_of_mem_toDigits (by decide) (by decide) hc)
    rw [hzero] at hbyte
    rw [← hbyte] at hlarge
    exact absurd hlarge (by decide)
  constructor
  · rintro o ⟨u, hu, rfl⟩
    have hsplit : splitOn schemeSep (cstr url) =
        some (u.scheme, u.userinfo ++ (u.host ++ portText u.port) ++ u.rest) := by
      rw [hu]
      exact u.splitOn_text
    have hhost := u.splitHost_text
    have hname : cstr u.host = u.host := by
      apply cstr_of_not_mem
      intro h0
      apply not_mem_cstr url
      rw [hu]
      unfold HttpUrl.text
      simp [h0]
    refine ⟨⟨u.scheme, u.host, portDigits u.origin.port⟩, ?_, ?_, ?_, ?_⟩
    · rw [henv]
      unfold urlParts
      simp only [hsplit, hhost, Option.map_some]
      rfl
    · exact congrArg (List.map asciiLower) (hscheme hsplit)
    · exact congrArg (List.map asciiLower) hname
    · exact hdigits _
  · intro scheme p hforeign hnot hparts hhttp
    rw [henv] at hparts
    unfold urlParts at hparts
    split at hparts
    · cases hparts
    · next s rest hsplit =>
      obtain ⟨h, -, rfl⟩ := Option.map_eq_some_iff.mp hparts
      -- what reads as http(s) has that scheme in the text
      have hhttp' : IsHttp s := by
        rw [← hscheme hsplit]
        exact hhttp
      rw [(server_of_text hhttp' (append_of_splitOn hsplit)).scheme] at hforeign
      obtain rfl := Option.some.inj hforeign
      exact hnot hhttp'

/-- libcurl at a server that redirects once, to this URL. -/
def redirectingCurl (target : Mem) : CurlEnv :=
  { movedEnv with
    redirectUrl := fun _ => some target
    effectiveUrl := fun _ => some streamReq.url
    parseUrl := urlParts }

/-- The transport when the stream has just been requested. -/
def curlRequested : CurlWorld :=
  addHandle curlNew streamReq.url

end EventSource.Port
