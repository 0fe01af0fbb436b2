import EventSource.Port.EspTransport

/-!
# Copies of URLs

The ESP-IDF transport judges a URL by a copy of at most 511 bytes. Which origin such a copy shows, and
of which URLs it is the true one, are conditions on the texts.
-/

namespace EventSource.Port

open EventSource.CMemory
open EventSource.Parser
open EventSource.Client
open EventSource.Cut

/-! ## §1 Copies -/

/-- What a copy in `t->url` or `t->location` keeps of a text. -/
def copyOf (url : Mem) : Mem :=
  (cstr url).take (urlSize - 1)

theorem cstr_copyOf (url : Mem) : cstr (copyOf url) = copyOf url :=
  cstr_of_not_mem fun h => not_mem_cstr url (List.mem_of_mem_take h)

theorem cstr_snprintf_copy (dst url : Mem) :
    cstr (snprintf dst urlSize (cstr url)) = copyOf url :=
  cstr_snprintf_take dst urlSize _ (not_mem_cstr url)

/-- `origin_of` reads a C string. -/
theorem originOf_congr {a b : Mem} (h : cstr a = cstr b) (schemeCap hostCap : Nat) :
    originOf a schemeCap hostCap = originOf b schemeCap hostCap := by
  unfold originOf
  rw [h]

theorem sameOriginUrls_iff {a b : Mem} :
    sameOriginUrls a b = true ↔ ∃ o, originOf a 8 256 = some o ∧ originOf b 8 256 = some o := by
  unfold sameOriginUrls
  cases ha : originOf a 8 256 with
  | none => simp
  | some oa =>
    cases hb : originOf b 8 256 with
    | none => simp
    | some ob =>
      simp only [decide_eq_true_eq, Option.some.injEq]
      constructor
      · rintro rfl
        exact ⟨oa, rfl, rfl⟩
      · rintro ⟨o, rfl, rfl⟩
        rfl

/-- A Location value that starts with one of the two schemes. -/
def isAbsolute (location : Mem) : Bool :=
  startsWithCase location httpStart || startsWithCase location httpsStart

/-- The comparison looks at no more than the C string. -/
theorem startsWithCase_iff {p : Mem} {text : Bytes} (h0 : (0 : UInt8) ∉ text) :
    startsWithCase p text = true ↔ ((cstr p).take text.length).map asciiLower = text := by
  have hlower : asciiLower 0 = 0 := rfl
  unfold startsWithCase
  rw [decide_eq_true_eq]
  constructor
  · intro h
    rw [take_cstr]
    · exact h
    -- a NUL among the bytes would be one in the text
    · intro hmem
      have hmapped := List.mem_map_of_mem (f := asciiLower) hmem
      rw [h, hlower] at hmapped
      exact h0 hmapped
  · intro h
    have hlen : ((cstr p).take text.length).length = text.length := by
      rw [← List.length_map asciiLower, h]
    have hpre : (cstr p).take text.length <+: p.take text.length :=
      List.prefix_take_iff.mpr
        ⟨(List.take_prefix _ _).trans (List.takeWhile_prefix _), Nat.le_of_eq hlen⟩
    rw [← List.IsPrefix.eq_of_length_le hpre]
    · exact h
    · rw [hlen]
      exact List.length_take_le _ _

/-- Two texts with the same copy start alike. -/
theorem startsWithCase_congr {a b : Mem} {text : Bytes} (h0 : (0 : UInt8) ∉ text)
    (hlen : text.length < urlSize) (h : cstr a = copyOf b) :
    startsWithCase a text = startsWithCase b text := by
  rw [Bool.eq_iff_iff, startsWithCase_iff h0, startsWithCase_iff h0, h, copyOf, List.take_take,
    Nat.min_eq_left (by omega)]

theorem isAbsolute_congr {a b : Mem} (h : cstr a = copyOf b) : isAbsolute a = isAbsolute b := by
  unfold isAbsolute
  rw [startsWithCase_congr (by decide) (by decide) h, startsWithCase_congr (by decide) (by decide) h]

theorem isAbsolutePath_congr {a b : Mem} (h : cstr a = copyOf b) :
    isAbsolutePath a = isAbsolutePath b := by
  unfold isAbsolutePath
  rw [h, copyOf, List.head?_take, List.getElem?_take]
  simp [urlSize]

/-- No value has both forms. -/
theorem isAbsolute_of_path {location : Mem} (h : isAbsolutePath location = true) :
    isAbsolute location = false := by
  unfold isAbsolutePath at h
  rw [Bool.and_eq_true, decide_eq_true_eq] at h
  have hnot : ∀ text : Bytes, (0 : UInt8) ∉ text → text.head? = some 0x68 →
      startsWithCase location text = false := by
    intro text h0 hhead
    rw [← Bool.not_eq_true, startsWithCase_iff h0]
    intro htext
    have hfirst := congrArg List.head? htext
    have hlen : text.length ≠ 0 := by
      rintro hzero
      rw [List.length_eq_zero_iff.mp hzero] at hhead
      cases hhead
    rw [List.head?_map, List.head?_take, if_neg hlen, h.1, hhead] at hfirst
    exact absurd hfirst (by decide)
  unfold isAbsolute
  rw [hnot httpStart (by decide) rfl, hnot httpsStart (by decide) rfl]
  rfl

/-! ## §2 Absolute URLs -/

/-- Below the letters nothing has a lower case. -/
theorem of_asciiLower {b c : UInt8} (hc : c < 0x61) (h : asciiLower b = c) : b = c := by
  unfold asciiLower at h
  split at h
  · next hletter =>
    simp only [Bool.and_eq_true, decide_eq_true_eq] at hletter
    have hle : 0x61 ≤ c := by grind
    exact absurd hc (UInt8.not_lt.mpr hle)
  · exact h

/-- A text that starts with a scheme in any case and the separator. -/
theorem text_of_startsWith {loc : Mem} {scheme : Bytes} (h0 : (0 : UInt8) ∉ scheme ++ schemeSep)
    (h : startsWithCase loc (scheme ++ schemeSep) = true) :
    ∃ s rest, s.map asciiLower = scheme ∧ cstr loc = s ++ schemeSep ++ rest := by
  rw [startsWithCase_iff h0] at h
  obtain ⟨s, sep, htake, hs, hsep⟩ := List.map_eq_append_iff.mp h
  have hsame : sep = schemeSep := by
    have hlow : ∀ c ∈ schemeSep, c < 0x61 := by decide +kernel
    rw [← hsep]
    have hfixed : sep.map asciiLower = sep := by
      conv_rhs => rw [← List.map_id sep]
      apply List.map_congr_left
      intro b hb
      apply Eq.symm
      apply of_asciiLower (hlow _ ?_) rfl
      rw [← hsep]
      exact List.mem_map_of_mem hb
    exact hfixed.symm
  refine ⟨s, (cstr loc).drop (scheme ++ schemeSep).length, hs, ?_⟩
  rw [← hsame, ← htake, hsame, List.take_append_drop]

/-- An absolute value names its server behind its scheme. -/
theorem text_of_absolute {loc : Mem} (h : isAbsolute loc = true) :
    ∃ scheme rest, IsHttp scheme ∧ cstr loc = scheme ++ schemeSep ++ rest := by
  unfold isAbsolute at h
  rw [Bool.or_eq_true] at h
  rcases h with h | h
  · obtain ⟨s, rest, hs, htext⟩ := @text_of_startsWith loc httpScheme (by decide) h
    exact ⟨s, rest, .inl hs, htext⟩
  · obtain ⟨s, rest, hs, htext⟩ := @text_of_startsWith loc httpsScheme (by decide) h
    exact ⟨s, rest, .inr hs, htext⟩

/-- An http(s) URL starts with one of the two schemes. -/
theorem HasOrigin.isAbsolute {url : Mem} {o : Origin} (h : HasOrigin url o) :
    isAbsolute url = true := by
  obtain ⟨u, hu, -⟩ := h
  have hstarts : ∀ {scheme : Bytes}, (0 : UInt8) ∉ scheme ++ schemeSep →
      u.scheme.map asciiLower = scheme → startsWithCase url (scheme ++ schemeSep) = true := by
    intro scheme h0 hscheme
    rw [startsWithCase_iff h0, hu, HttpUrl.text, List.take_left' (by simp [← hscheme]),
      List.map_append, hscheme]
    rfl
  unfold EventSource.Port.isAbsolute
  rw [Bool.or_eq_true]
  rcases u.isHttp with hscheme | hscheme
  · exact .inl (hstarts (by decide) hscheme)
  · exact .inr (hstarts (by decide) hscheme)

theorem isAbsolute_copyOf (url : Mem) : isAbsolute (copyOf url) = isAbsolute url :=
  isAbsolute_congr (cstr_copyOf url)

/-! ## §3 Legible URLs -/

theorem IsHttp.length_lt {scheme : Bytes} (h : IsHttp scheme) : scheme.length < 8 := by
  rw [← List.length_map asciiLower]
  rcases h with h | h <;> rw [h] <;> decide

/-- An http(s) URL that `origin_of` can read: the host fits, and a colon is followed by a port. -/
def Legible (url : Mem) : Prop :=
  ∃ u : HttpUrl, cstr url = u.text ∧ u.host.length < 256 ∧ u.port ≠ some []

theorem originOf_text {url : Mem} {u : HttpUrl} (hu : cstr url = u.text) :
    (∃ p, originOf url 8 256 = some p) ↔ u.host.length < 256 ∧ u.port ≠ some [] := by
  have hsplit : splitOn schemeSep (cstr url) =
      some (u.scheme, u.userinfo ++ (u.host ++ portText u.port) ++ u.rest) := by
    rw [hu]
    exact u.splitOn_text
  have hhost := u.splitHost_text
  constructor
  · rintro ⟨p, hp⟩
    obtain ⟨scheme, rest, host, port, n, hsplit', -, -, hhost', -, hlt, hport, -⟩ :=
      originOf_eq_some.mp hp
    obtain ⟨rfl, rfl⟩ := Prod.mk.inj (Option.some.inj (hsplit.symm.trans hsplit'))
    obtain ⟨rfl, rfl⟩ := Prod.mk.inj (Option.some.inj (hhost.symm.trans hhost'))
    refine ⟨hlt, ?_⟩
    intro hempty
    rcases resolvePort_eq_some.mp hport with ⟨text, htext, hne, -⟩ | ⟨hnone, -⟩
    · exact hne (Option.some.inj (htext.symm.trans hempty))
    · rw [hempty] at hnone
      cases hnone
  · rintro ⟨hlt, hport⟩
    -- a port with digits is in range, as the grammar has it
    have hresolved : ∃ n, resolvePort (u.scheme.map asciiLower) u.port = some n := by
      cases hp : u.port with
      | none => exact ⟨_, resolvePort_eq_some.mpr (.inr ⟨rfl, u.isHttp, rfl⟩)⟩
      | some text =>
        obtain ⟨hdigits, hle⟩ := u.isPort text hp
        have hne : text ≠ [] := fun hnil => hport (by rw [hp, hnil])
        exact ⟨_, resolvePort_eq_some.mpr (.inl ⟨text, rfl, hne, hdigits, rfl, hle⟩)⟩
    obtain ⟨n, hn⟩ := hresolved
    exact ⟨_, originOf_eq_some.mpr ⟨u.scheme, _, u.host, u.port, n, hsplit, u.isHttp.ne_nil,
      u.isHttp.length_lt, hhost, u.isHost.ne_nil, hlt, hn, rfl⟩⟩

/-- The origins that a text shows, if what follows an IP literal is overlooked: that of a legible URL,
or that of a literal in front of other text. -/
inductive Shows (url : Mem) : Origin → Prop where
  | url {u : HttpUrl} (htext : cstr url = u.text) (hhost : u.host.length < 256)
      (hport : u.port ≠ some []) : Shows url u.origin
  | literal {scheme rest host junk : Bytes}
      (hsplit : splitOn schemeSep (cstr url) = some (scheme, rest)) (hhttp : IsHttp scheme)
      (hhost : Bracketed host) (hlen : host.length < 256) (hjunk : IsJunk junk)
      (htext : hostportOf rest = host ++ junk) :
      Shows url ⟨scheme.map asciiLower, host.map asciiLower, defaultPort scheme⟩

/-- In an absolute URL, `origin_of` finds what the text shows. -/
theorem originOf_iff_shows {url : Mem} (habsolute : isAbsolute url = true) {o : Origin} :
    originOf url 8 256 = some o ↔ Shows url o := by
  constructor
  · intro h
    obtain ⟨scheme, rest, host, port, p, hsplit, -, -, hhost, hne, hlt, hp, rfl⟩ :=
      originOf_eq_some.mp h
    -- the scheme of an absolute URL is one of the two
    have hhttp : IsHttp scheme := by
      obtain ⟨s, rest', hs, htext⟩ := text_of_absolute habsolute
      have hcut : splitOn schemeSep (s ++ schemeSep ++ rest') = some (s, rest') :=
        splitOn_append hs.no_colon _
      rw [htext, hcut] at hsplit
      obtain ⟨rfl, -⟩ := Prod.mk.inj (Option.some.inj hsplit)
      exact hs
    rcases of_splitHost hne hhost with ⟨hishost, htext⟩ | ⟨hbracketed, rfl, junk, hjunk, htext⟩
    · obtain ⟨u, hu, hu'⟩ := hasOrigin_of_parts hsplit hhttp hishost htext hp
      obtain ⟨hlen, hport⟩ := (originOf_text hu).mp ⟨_, h⟩
      rw [← hu']
      exact .url hu hlen hport
    · rcases resolvePort_eq_some.mp hp with ⟨text, htext', -⟩ | ⟨-, -, rfl⟩
      · cases htext'
      · exact .literal hsplit hhttp hbracketed hlt hjunk htext
  · rintro (⟨hu, hlen, hport⟩ | ⟨hsplit, hhttp, hbracketed, hlen, hjunk, htext⟩)
    · obtain ⟨p, hp⟩ := (originOf_text hu).mpr ⟨hlen, hport⟩
      -- what is read of a URL is its origin, for it is not misjudged
      have hgood := (originOf_sound hp).resolve_right fun hbad => hbad.no_origin _ ⟨_, hu, rfl⟩
      rw [hp, hgood.unique ⟨_, hu, rfl⟩]
    · refine originOf_eq_some.mpr ⟨_, _, _, none, _, hsplit, hhttp.ne_nil, hhttp.length_lt, ?_,
        hbracketed.ne_nil, hlen, resolvePort_eq_some.mpr (.inr ⟨rfl, hhttp, rfl⟩), rfl⟩
      rw [htext, splitHost_bracketed hbracketed, if_neg hjunk.2]

/-! ## §4 Copies That Tell -/

/-- The authority ends within the copy. -/
def AuthorityFits (url : Mem) : Prop :=
  ∀ scheme rest, splitOn schemeSep (cstr url) = some (scheme, rest) →
    scheme.length + schemeSep.length + (before endsAuthority rest).length < urlSize

/-- A copy with the whole authority reads like the whole. -/
theorem originOf_copyOf {url : Mem} (hfits : AuthorityFits url) {o : Origin}
    (h : originOf (copyOf url) 8 256 = some o) : originOf url 8 256 = some o := by
  obtain ⟨scheme, rest, host, port, p, hsplit, hrest⟩ := originOf_eq_some.mp h
  rw [cstr_copyOf] at hsplit
  have hcopy : copyOf url = scheme ++ schemeSep ++ rest := append_of_splitOn hsplit
  have hwhole : cstr url = scheme ++ schemeSep ++ (rest ++ (cstr url).drop (urlSize - 1)) := by
    rw [← List.append_assoc, ← hcopy, copyOf, List.take_append_drop]
  have hsplit' : splitOn schemeSep (cstr url) =
      some (scheme, rest ++ (cstr url).drop (urlSize - 1)) := by
    rw [hcopy] at hsplit
    have hextended := splitOn_extend hsplit (List.cons_ne_nil _ _)
      (rest ++ (cstr url).drop (urlSize - 1))
    rwa [← hwhole] at hextended
  have hbefore : before endsAuthority (rest ++ (cstr url).drop (urlSize - 1)) =
      before endsAuthority rest := by
    -- a copy that is cut still has the whole authority
    by_cases hlong : urlSize - 1 ≤ (cstr url).length
    · have hlen : scheme.length + schemeSep.length + rest.length = urlSize - 1 := by
        rw [← List.length_append, ← List.length_append, ← hcopy, copyOf, List.length_take]
        exact Nat.min_eq_left hlong
      have hfit := hfits _ _ hsplit'
      exact before_append (by omega)
    · rw [List.drop_eq_nil_of_le (by omega), List.append_nil]
  apply originOf_eq_some.mpr
  refine ⟨scheme, _, host, port, p, hsplit', ?_⟩
  unfold hostportOf at hrest ⊢
  rw [hbefore]
  exact hrest

/-- A copy with the whole authority is a URL with the same authority. -/
theorem copyOf_text {url : Mem} {u : HttpUrl} (hu : cstr url = u.text) (hfits : AuthorityFits url) :
    ∃ v : HttpUrl, cstr (copyOf url) = v.text ∧ v.host = u.host ∧ v.port = u.port := by
  let server := u.scheme ++ schemeSep ++ (u.userinfo ++ (u.host ++ portText u.port))
  have htext : cstr url = server ++ u.rest := by
    rw [hu, HttpUrl.text, ← List.append_assoc]
  have hshort : server.length < urlSize := by
    have hfit := hfits u.scheme _ (by rw [hu]; exact u.splitOn_text)
    rw [(cut_append u.authority u.isRest).1] at hfit
    show (u.scheme ++ schemeSep ++ (u.userinfo ++ (u.host ++ portText u.port))).length < urlSize
    rw [List.length_append, List.length_append]
    exact hfit
  let rest := u.rest.take (urlSize - 1 - server.length)
  have hrest : Begins endsAuthority rest := by
    apply @Begins.of_append _ _ _ (u.rest.drop (urlSize - 1 - server.length))
    rw [List.take_append_drop]
    exact u.isRest
  refine ⟨{ u with rest := rest, isRest := hrest }, ?_, rfl, rfl⟩
  rw [cstr_copyOf, copyOf, htext, List.take_append, List.take_of_length_le (by omega)]
  show server ++ rest = _
  exact List.append_assoc ..

theorem legible_iff {url : Mem} {o : Origin} (ho : HasOrigin url o) (hfits : AuthorityFits url) :
    Legible url ↔ ∃ p, originOf (copyOf url) 8 256 = some p := by
  constructor
  · rintro ⟨u, hu, hlegible⟩
    obtain ⟨v, hv, hhost, hport⟩ := copyOf_text hu hfits
    rw [originOf_text hv, hhost, hport]
    exact hlegible
  · intro hread
    obtain ⟨u, hu, -⟩ := ho
    obtain ⟨v, hv, hhost, hport⟩ := copyOf_text hu hfits
    rw [originOf_text hv, hhost, hport] at hread
    exact ⟨u, hu, hread⟩

/-- The whole reads like a copy with the whole authority. -/
theorem copyOf_originOf {url : Mem} (hfits : AuthorityFits url) {o : Origin}
    (h : originOf url 8 256 = some o) : originOf (copyOf url) 8 256 = some o := by
  obtain ⟨scheme, rest, host, port, p, hsplit, hrest⟩ := originOf_eq_some.mp h
  have hwhole : cstr url = scheme ++ schemeSep ++ rest := append_of_splitOn hsplit
  have hfit := hfits _ _ hsplit
  let room := urlSize - 1 - (scheme ++ schemeSep).length
  have hcopy : copyOf url = scheme ++ schemeSep ++ rest.take room := by
    rw [copyOf, hwhole, List.take_append, List.take_of_length_le]
    rw [List.length_append]
    omega
  have hsplit' : splitOn schemeSep (cstr (copyOf url)) = some (scheme, rest.take room) := by
    rw [cstr_copyOf, hcopy]
    rw [hwhole] at hsplit
    exact splitOn_extend hsplit (List.cons_ne_nil _ _) _
  -- the cut comes behind the authority
  have hbefore : before endsAuthority (rest.take room) = before endsAuthority rest := by
    have hlen : (before endsAuthority rest).length ≤ room := by
      show _ ≤ urlSize - 1 - (scheme ++ schemeSep).length
      rw [List.length_append]
      omega
    have hkept : before endsAuthority (rest.take room ++ rest.drop room) =
        before endsAuthority (rest.take room) := by
      apply before_append
      rw [List.take_append_drop, List.length_take]
      exact le_min hlen (List.takeWhile_prefix _).length_le
    rw [List.take_append_drop] at hkept
    exact hkept.symm
  apply originOf_eq_some.mpr
  refine ⟨scheme, _, host, port, p, hsplit', ?_⟩
  unfold hostportOf at hrest ⊢
  rw [hbefore]
  exact hrest

/-- **A URL whose copy is no trap.** Either the authority ends within the copy, and nothing but a port
follows an IP literal. Or the authority is cut, and what is left of it shows no other origin. -/
def TellsOrigin (url : Mem) : Prop :=
  (AuthorityFits url ∧ ¬ Misjudged url 8 256) ∨
    (¬ AuthorityFits url ∧ ∀ o, Shows (copyOf url) o → HasOrigin url o)

/-- The origin that is found in the copy is that of the whole exactly if the text is no trap. -/
theorem tellsOrigin_iff {url : Mem} (habsolute : isAbsolute url = true) :
    TellsOrigin url ↔ ∀ o, originOf (copyOf url) 8 256 = some o → HasOrigin url o := by
  have hcopy : isAbsolute (copyOf url) = true := (isAbsolute_copyOf url).trans habsolute
  unfold TellsOrigin
  by_cases hfits : AuthorityFits url
  · have hiff : ¬ Misjudged url 8 256 ↔ ∀ o, originOf (copyOf url) 8 256 = some o →
        HasOrigin url o := by
      constructor
      · exact fun hgood o ho => (originOf_sound (originOf_copyOf hfits ho)).resolve_right hgood
      · intro hreads hbad
        -- what is misjudged is accepted, and its copy with it
        obtain ⟨o, ho⟩ := hbad.accepted
        exact hbad.no_origin o (hreads o (copyOf_originOf hfits ho))
    simpa [hfits] using hiff
  · have hiff : (∀ o, Shows (copyOf url) o → HasOrigin url o) ↔
        ∀ o, originOf (copyOf url) 8 256 = some o → HasOrigin url o :=
      forall_congr' fun o => by rw [originOf_iff_shows hcopy]
    simpa [hfits] using hiff

/-- The copy of an http(s) URL with a short authority is never wrong. -/
theorem HasOrigin.tellsOrigin {url : Mem} {o : Origin} (h : HasOrigin url o)
    (hfits : AuthorityFits url) : TellsOrigin url :=
  .inl ⟨hfits, fun hbad => hbad.no_origin o h⟩

end EventSource.Port
