import EventSource.Lib.Cut
import EventSource.Port.HttpText

/-!
# Origins

`origin_of` and `same_origin_urls` of the ESP-IDF transport, against the origin that RFC 3986 gives
to an http(s) URL. The texts are compared at the level of their delimiters: which characters a name
may otherwise contain is left open.
-/

namespace EventSource.Port

open EventSource.CMemory
open EventSource.Parser
open EventSource.Client
open EventSource.Cut

/-! ## §1 The Code -/

/-- A scheme, a host and a port, as `origin_of` leaves them in its out parameters. -/
structure Origin where
  scheme : Bytes
  host : Bytes
  port : Nat
  deriving DecidableEq, Repr

/-- `"://"`. -/
def schemeSep : Bytes := [0x3A, 0x2F, 0x2F]

def httpScheme : Bytes := ascii "http".toList
def httpsScheme : Bytes := ascii "https".toList

/-- `'/'`, `'?'` and `'#'`. -/
def endsAuthority (b : UInt8) : Bool :=
  b = 0x2F || b = 0x3F || b = 0x23

/-- `'@'`. -/
def isAt (b : UInt8) : Bool :=
  b = 0x40

/-- `':'`. -/
def isColon (b : UInt8) : Bool :=
  b = colon

/-- `'['`. -/
def openBracket : UInt8 := 0x5B

/-- `']'`. -/
def isClose (b : UInt8) : Bool :=
  b = 0x5D

/-- The host and the text of the port, if there is one. After a closing bracket only `':'` is looked
for. -/
def splitHost (h : Bytes) : Option (Bytes × Option Bytes) :=
  if h.head? = some openBracket then
    match fromFirst isClose h with
    | [] => none
    | b :: rest =>
      some (before isClose h ++ [b], if rest.head? = some colon then some rest.tail else none)
  else
    match fromFirst isColon h with
    | [] => some (h, none)
    | _ :: port => some (before isColon h, some port)

/-- The loop over the digits of a port. -/
def readPort (p : Nat) : Bytes → Option Nat
  | [] => some p
  | b :: bs =>
    if !isDigit b then none
    else
      let p := p * 10 + (b.toNat - 0x30)
      if p > 65535 then none else readPort p bs

/-- The port, or the one of the scheme. -/
def resolvePort (scheme : Bytes) : Option Bytes → Option Nat
  | some text => if text = [] then none else readPort 0 text
  | none =>
    if scheme = httpScheme then some 80
    else if scheme = httpsScheme then some 443
    else none

/-- `origin_of`, with the capacities of its two arrays. -/
def originOf (url : Mem) (schemeCap hostCap : Nat) : Option Origin :=
  match splitOn schemeSep (cstr url) with
  | none => none
  | some (scheme, rest) =>
    if scheme.length = 0 ∨ schemeCap ≤ scheme.length then none
    else
      let h := afterLast isAt (before endsAuthority rest)
      if h = [] then none
      else
        match splitHost h with
        | none => none
        | some (host, port) =>
          if host.length = 0 ∨ hostCap ≤ host.length then none
          else
            (resolvePort (scheme.map asciiLower) port).map fun p =>
              ⟨scheme.map asciiLower, host.map asciiLower, p⟩

/-- `same_origin_urls`. -/
def sameOriginUrls (a b : Mem) : Bool :=
  match originOf a 8 256, originOf b 8 256 with
  | some oa, some ob => oa = ob
  | _, _ => false

/-! ## §2 RFC 3986 -/

/-- The scheme is http or https, in any case. -/
def IsHttp (scheme : Bytes) : Prop :=
  scheme.map asciiLower = httpScheme ∨ scheme.map asciiLower = httpsScheme

instance (scheme : Bytes) : Decidable (IsHttp scheme) :=
  inferInstanceAs (Decidable (_ ∨ _))

/-- An IP literal, by its brackets: whatever stands between them. -/
def Bracketed (host : Bytes) : Prop :=
  ∃ inner, host = openBracket :: inner ++ [0x5D] ∧ ∀ b ∈ inner, isClose b = false

/-- An IP literal or a name. -/
def IsHost (host : Bytes) : Prop :=
  Bracketed host ∨
    (host ≠ [] ∧ host.head? ≠ some openBracket ∧ ∀ b ∈ host, isColon b = false)

/-- A port with the colon before it, or nothing. -/
def portText : Option Bytes → Bytes
  | some port => colon :: port
  | none => []

/-- An http(s) URL: `scheme://[userinfo@]host[:port]` and the rest. `userinfo` includes its `'@'`. -/
structure HttpUrl where
  scheme : Bytes
  userinfo : Bytes
  host : Bytes
  port : Option Bytes
  rest : Bytes
  isHttp : IsHttp scheme
  authority : ∀ b ∈ userinfo ++ (host ++ portText port), endsAuthority b = false
  isUserinfo : Ends isAt userinfo
  isHost : IsHost host
  isHostport : ∀ b ∈ host ++ portText port, isAt b = false
  isPort : ∀ p ∈ port, (∀ b ∈ p, isDigit b = true) ∧ decimal p ≤ 65535
  isRest : Begins endsAuthority rest

def HttpUrl.text (u : HttpUrl) : Bytes :=
  u.scheme ++ schemeSep ++ (u.userinfo ++ (u.host ++ portText u.port) ++ u.rest)

/-- The port of a scheme. -/
def defaultPort (scheme : Bytes) : Nat :=
  if scheme.map asciiLower = httpScheme then 80 else 443

/-- The origin, with the port of the scheme where none is given or it is empty. -/
def HttpUrl.origin (u : HttpUrl) : Origin where
  scheme := u.scheme.map asciiLower
  host := u.host.map asciiLower
  port :=
    match u.port with
    | some (b :: bs) => decimal (b :: bs)
    | _ => defaultPort u.scheme

/-! ## §3 Hosts and Ports -/

/-- The letters of a scheme are those of https. -/
theorem IsHttp.not_mem {scheme : Bytes} (h : IsHttp scheme) {b : UInt8}
    (hb : asciiLower b ∉ httpsScheme) : b ∉ scheme := by
  have hletters : ∀ c ∈ httpScheme, c ∈ httpsScheme := by decide +kernel
  intro hmem
  apply hb
  have hlower := List.mem_map_of_mem (f := asciiLower) hmem
  rcases h with h | h
  · rw [h] at hlower
    exact hletters _ hlower
  · rw [h] at hlower
    exact hlower

theorem IsHttp.no_colon {scheme : Bytes} (h : IsHttp scheme) : colon ∉ scheme :=
  h.not_mem (by decide)

theorem begins_portText (port : Option Bytes) : Begins isColon (portText port) := by
  cases port with
  | none => exact fun a ha => absurd ha (by simp [portText])
  | some p =>
    intro a ha
    obtain rfl : colon = a := Option.some.inj ha
    rfl

theorem Bracketed.ne_nil {host : Bytes} (h : Bracketed host) : host ≠ [] := by
  obtain ⟨inner, rfl, -⟩ := h
  exact List.cons_ne_nil _ _

theorem IsHost.ne_nil {host : Bytes} (h : IsHost host) : host ≠ [] := by
  rcases h with h | h
  · exact h.ne_nil
  · exact h.1

/-- Whatever follows an IP literal. -/
theorem splitHost_bracketed {host : Bytes} (h : Bracketed host) (junk : Bytes) :
    splitHost (host ++ junk) =
      some (host, if junk.head? = some colon then some junk.tail else none) := by
  obtain ⟨inner, rfl, hinner⟩ := h
  have hopen : ∀ b ∈ openBracket :: inner, isClose b = false := by
    intro b hb
    rcases List.mem_cons.mp hb with rfl | hb
    · rfl
    · exact hinner b hb
  have htext : openBracket :: inner ++ [0x5D] ++ junk = openBracket :: inner ++ 0x5D :: junk := by
    rw [List.append_assoc]
    rfl
  have hcut := cut_append (y := 0x5D :: junk) hopen (by
    intro a ha
    obtain rfl : (0x5D : UInt8) = a := Option.some.inj ha
    rfl)
  have hhead : (openBracket :: inner ++ 0x5D :: junk).head? = some openBracket := rfl
  unfold splitHost
  rw [htext, if_pos hhead, hcut.1, hcut.2]

theorem splitHost_plain {host : Bytes} (hopen : host.head? ≠ some openBracket) (hne : host ≠ [])
    (hcolon : ∀ b ∈ host, isColon b = false) (port : Option Bytes) :
    splitHost (host ++ portText port) = some (host, port) := by
  have hcut := cut_append hcolon (begins_portText port)
  have hhead : (host ++ portText port).head? ≠ some openBracket := by
    obtain ⟨b, bs, rfl⟩ := List.exists_cons_of_ne_nil hne
    exact hopen
  unfold splitHost
  rw [if_neg hhead, hcut.1, hcut.2]
  cases port with
  | none =>
    show some (host ++ [], none) = _
    rw [List.append_nil]
  | some p => rfl

/-- A host and its port are told apart. -/
theorem splitHost_host {host : Bytes} (h : IsHost host) (port : Option Bytes) :
    splitHost (host ++ portText port) = some (host, port) := by
  rcases h with h | ⟨hne, hopen, hcolon⟩
  · rw [splitHost_bracketed h]
    cases port <;> rfl
  · exact splitHost_plain hopen hne hcolon port

/-- Text behind an IP literal that is no port. -/
def IsJunk (junk : Bytes) : Prop :=
  junk ≠ [] ∧ junk.head? ≠ some colon

/-- What `splitHost` accepts. -/
theorem of_splitHost {h host : Bytes} {port : Option Bytes} (hne : host ≠ [])
    (hsplit : splitHost h = some (host, port)) :
    (IsHost host ∧ h = host ++ portText port) ∨
      (Bracketed host ∧ port = none ∧ ∃ junk, IsJunk junk ∧ h = host ++ junk) := by
  unfold splitHost at hsplit
  split at hsplit
  · next hopen =>
    -- an IPv6 literal ends at its bracket
    cases hfrom : fromFirst isClose h with
    | nil =>
      rw [hfrom] at hsplit
      cases hsplit
    | cons b rest =>
      rw [hfrom] at hsplit
      obtain ⟨rfl, rfl⟩ := Prod.mk.inj (Option.some.inj hsplit)
      have hb : isClose b = true := begins_fromFirst isClose h b (by rw [hfrom]; rfl)
      obtain rfl : b = 0x5D := of_decide_eq_true hb
      have htext : h = before isClose h ++ [0x5D] ++ rest := by
        rw [List.append_assoc, List.singleton_append, ← hfrom, before_append_fromFirst]
      have hbracketed : Bracketed (before isClose h ++ [0x5D]) := by
        cases hbefore : before isClose h with
        | nil =>
          rw [htext, hbefore] at hopen
          have hhead : (0x5D : UInt8) = openBracket := Option.some.inj hopen
          exact absurd hhead (by decide)
        | cons a inner =>
          rw [htext, hbefore] at hopen
          obtain rfl : a = openBracket := Option.some.inj hopen
          refine ⟨inner, rfl, ?_⟩
          intro c hc
          apply @stop_before _ isClose h
          rw [hbefore]
          exact List.mem_cons_of_mem _ hc
      by_cases hport : rest.head? = some colon
      · rw [if_pos hport]
        obtain ⟨p, rfl⟩ : ∃ p, rest = colon :: p := by
          cases rest with
          | nil => cases hport
          | cons c p => exact ⟨p, congrArg (· :: p) (Option.some.inj hport)⟩
        exact .inl ⟨.inl hbracketed, htext⟩
      · rw [if_neg hport]
        by_cases hrest : rest = []
        · subst hrest
          exact .inl ⟨.inl hbracketed, htext⟩
        · exact .inr ⟨hbracketed, rfl, rest, ⟨hrest, hport⟩, htext⟩
  · next hopen =>
    -- a name ends at the first colon
    have happend := before_append_fromFirst isColon h
    have hcolon : ∀ b ∈ before isColon h, isColon b = false := fun b hb => stop_before hb
    have hhead : ∀ {x y : Bytes}, x ++ y = h → x ≠ [] → x.head? ≠ some openBracket := by
      rintro x y rfl hx
      obtain ⟨b, bs, rfl⟩ := List.exists_cons_of_ne_nil hx
      exact hopen
    cases hfrom : fromFirst isColon h with
    | nil =>
      rw [hfrom] at hsplit happend
      obtain ⟨rfl, rfl⟩ := Prod.mk.inj (Option.some.inj hsplit)
      rw [List.append_nil] at happend
      rw [happend] at hcolon
      exact .inl ⟨.inr ⟨hne, hopen, hcolon⟩, (List.append_nil h).symm⟩
    | cons b p =>
      rw [hfrom] at hsplit happend
      obtain ⟨rfl, rfl⟩ := Prod.mk.inj (Option.some.inj hsplit)
      have hb : isColon b = true := begins_fromFirst isColon h b (by rw [hfrom]; rfl)
      obtain rfl : b = colon := of_decide_eq_true hb
      exact .inl ⟨.inr ⟨hne, hhead happend hne, hcolon⟩, happend.symm⟩

/-- Digits only add to a number. -/
theorem le_decimalFrom (bs : Bytes) (p : Nat) :
    p ≤ bs.foldl (fun n b => n * 10 + (b.toNat - 0x30)) p := by
  induction bs generalizing p with
  | nil => exact Nat.le_refl p
  | cons b bs ih =>
    have hstep := ih (p * 10 + (b.toNat - 0x30))
    exact Nat.le_trans (by omega) hstep

/-- The loop reads a number of at most 65535, and nothing else. -/
theorem readPort_iff {p : Nat} (hp : p ≤ 65535) (bs : Bytes) (n : Nat) :
    readPort p bs = some n ↔
      (∀ b ∈ bs, isDigit b = true) ∧ bs.foldl (fun n b => n * 10 + (b.toNat - 0x30)) p = n ∧
        n ≤ 65535 := by
  induction bs generalizing p with
  | nil =>
    constructor
    · intro h
      obtain rfl := Option.some.inj h
      exact ⟨by simp, rfl, hp⟩
    · rintro ⟨-, rfl, -⟩
      rfl
  | cons b bs ih =>
    unfold readPort
    cases hb : isDigit b with
    | false => simp [hb]
    | true =>
      simp only [Bool.not_true, Bool.false_eq_true, if_false]
      by_cases hbig : p * 10 + (b.toNat - 0x30) > 65535
      · rw [if_pos hbig]
        constructor
        · exact fun h => absurd h (by simp)
        · rintro ⟨-, rfl, hle⟩
          -- more digits only make the number larger
          have hmono := le_decimalFrom bs (p * 10 + (b.toNat - 0x30))
          rw [List.foldl_cons] at hle
          omega
      · rw [if_neg hbig, ih (by omega), List.foldl_cons]
        simp [hb]

theorem readPort_zero_iff (bs : Bytes) (n : Nat) :
    readPort 0 bs = some n ↔ (∀ b ∈ bs, isDigit b = true) ∧ decimal bs = n ∧ n ≤ 65535 :=
  readPort_iff (by omega) bs n

/-! ## §4 URLs -/

theorem IsHttp.ne_nil {scheme : Bytes} (h : IsHttp scheme) : scheme ≠ [] := by
  rintro rfl
  exact absurd h (by decide)

/-- A URL is cut into its parts again. -/
theorem HttpUrl.splitOn_text (u : HttpUrl) :
    splitOn schemeSep u.text =
      some (u.scheme, u.userinfo ++ (u.host ++ portText u.port) ++ u.rest) :=
  splitOn_append u.isHttp.no_colon _

theorem HttpUrl.hostport_text (u : HttpUrl) :
    afterLast isAt
        (before endsAuthority (u.userinfo ++ (u.host ++ portText u.port) ++ u.rest)) =
      u.host ++ portText u.port := by
  rw [(cut_append u.authority u.isRest).1]
  exact afterLast_append u.isUserinfo u.isHostport

/-- Two ways to cut a text give the same scheme, host and port. -/
theorem HttpUrl.parts_unique {u v : HttpUrl} (h : u.text = v.text) :
    u.scheme = v.scheme ∧ u.host = v.host ∧ u.port = v.port := by
  have hsplit := u.splitOn_text
  rw [h, v.splitOn_text] at hsplit
  obtain ⟨hscheme, hrest⟩ := Prod.mk.inj (Option.some.inj hsplit)
  have hhostport := u.hostport_text
  rw [← hrest, v.hostport_text] at hhostport
  have hhost := splitHost_host u.isHost u.port
  rw [← hhostport, splitHost_host v.isHost v.port] at hhost
  obtain ⟨hhost, hport⟩ := Prod.mk.inj (Option.some.inj hhost)
  exact ⟨hscheme.symm, hhost.symm, hport.symm⟩

/-- **The origin of a URL is a property of its text.** -/
theorem HttpUrl.origin_unique {u v : HttpUrl} (h : u.text = v.text) : u.origin = v.origin := by
  obtain ⟨hscheme, hhost, hport⟩ := HttpUrl.parts_unique h
  unfold HttpUrl.origin
  rw [hscheme, hhost, hport]

/-- The text of the authority without its userinfo. -/
def hostportOf (rest : Bytes) : Bytes :=
  afterLast isAt (before endsAuthority rest)

theorem HttpUrl.splitHost_text (u : HttpUrl) :
    splitHost (hostportOf (u.userinfo ++ (u.host ++ portText u.port) ++ u.rest)) =
      some (u.host, u.port) := by
  unfold hostportOf
  rw [u.hostport_text]
  exact splitHost_host u.isHost u.port

/-- What `origin_of` accepts, and what it answers. -/
theorem originOf_eq_some {url : Mem} {schemeCap hostCap : Nat} {o : Origin} :
    originOf url schemeCap hostCap = some o ↔
      ∃ scheme rest host port p, splitOn schemeSep (cstr url) = some (scheme, rest) ∧
        scheme ≠ [] ∧ scheme.length < schemeCap ∧ splitHost (hostportOf rest) = some (host, port) ∧
        host ≠ [] ∧ host.length < hostCap ∧ resolvePort (scheme.map asciiLower) port = some p ∧
        o = ⟨scheme.map asciiLower, host.map asciiLower, p⟩ := by
  -- a text that is neither empty nor too long
  have hcap : ∀ {l : Bytes} {cap : Nat}, (l.length = 0 ∨ cap ≤ l.length) ↔
      ¬ (l ≠ [] ∧ l.length < cap) := by
    intro l cap
    rw [← List.length_pos_iff]
    omega
  unfold originOf
  constructor
  · intro h
    split at h
    · cases h
    · next scheme rest hsplit =>
      split at h
      · cases h
      · next hscheme =>
        obtain ⟨hne, hlt⟩ := not_not.mp (mt hcap.mpr hscheme)
        simp only at h
        split at h
        · cases h
        · split at h
          · cases h
          · next host port hhost =>
            split at h
            · cases h
            · next hlen =>
              obtain ⟨hne', hlt'⟩ := not_not.mp (mt hcap.mpr hlen)
              obtain ⟨p, hp, ho⟩ := Option.map_eq_some_iff.mp h
              exact ⟨scheme, rest, host, port, p, hsplit, hne, hlt, hhost, hne', hlt', hp, ho.symm⟩
  · rintro ⟨scheme, rest, host, port, p, hsplit, hne, hlt, hhost, hne', hlt', hp, rfl⟩
    -- the source tests for an empty authority first, which names no host
    have hnonempty : hostportOf rest ≠ [] := by
      intro hnil
      rw [hnil] at hhost
      obtain ⟨rfl, -⟩ := Prod.mk.inj (Option.some.inj hhost)
      exact hne' rfl
    unfold hostportOf at hhost hnonempty
    simp only [hsplit]
    rw [if_neg fun hbad => hcap.mp hbad ⟨hne, hlt⟩, if_neg hnonempty]
    simp only [hhost]
    rw [if_neg fun hbad => hcap.mp hbad ⟨hne', hlt'⟩, hp]
    rfl

theorem resolvePort_none (scheme : Bytes) :
    resolvePort (scheme.map asciiLower) none =
      if IsHttp scheme then some (defaultPort scheme) else none := by
  show (if scheme.map asciiLower = httpScheme then some 80
    else if scheme.map asciiLower = httpsScheme then some 443 else none) = _
  unfold defaultPort
  by_cases hhttp : scheme.map asciiLower = httpScheme
  · rw [if_pos hhttp, if_pos (.inl hhttp), if_pos hhttp]
  · by_cases hhttps : scheme.map asciiLower = httpsScheme
    · rw [if_neg hhttp, if_pos hhttps, if_pos (.inr hhttps), if_neg hhttp]
    · rw [if_neg hhttp, if_neg hhttps, if_neg fun h => h.elim hhttp hhttps]

/-- A port is the one that is written, or that of the scheme. -/
theorem resolvePort_eq_some {scheme : Bytes} {port : Option Bytes} {p : Nat} :
    resolvePort (scheme.map asciiLower) port = some p ↔
      (∃ text, port = some text ∧ text ≠ [] ∧ (∀ b ∈ text, isDigit b = true) ∧ decimal text = p ∧
        p ≤ 65535) ∨
      (port = none ∧ IsHttp scheme ∧ p = defaultPort scheme) := by
  cases port with
  | some text =>
    show (if text = [] then none else readPort 0 text) = some p ↔ _
    by_cases hnil : text = []
    · simp [hnil]
    · rw [if_neg hnil, readPort_zero_iff]
      simp [hnil]
  | none =>
    -- no port is written, and the scheme decides
    rw [resolvePort_none]
    by_cases hhttp : IsHttp scheme
    · rw [if_pos hhttp]
      constructor
      · intro h
        exact .inr ⟨rfl, hhttp, (Option.some.inj h).symm⟩
      · rintro (⟨text, htext, -⟩ | ⟨-, -, rfl⟩)
        · cases htext
        · rfl
    · rw [if_neg hhttp]
      constructor
      · intro h
        cases h
      · rintro (⟨text, htext, -⟩ | ⟨-, hhttp', -⟩)
        · cases htext
        · exact absurd hhttp' hhttp

/-! ## §5 What `origin_of` Accepts -/

/-- An IP literal with junk behind it, or a port that hides a foreign scheme, in a URL that fits. -/
def Misjudged (url : Mem) (schemeCap hostCap : Nat) : Prop :=
  ∃ scheme rest host, splitOn schemeSep (cstr url) = some (scheme, rest) ∧ scheme ≠ [] ∧
    scheme.length < schemeCap ∧ host.length < hostCap ∧
    ((IsHttp scheme ∧ Bracketed host ∧ ∃ junk, IsJunk junk ∧ hostportOf rest = host ++ junk) ∨
      (¬ IsHttp scheme ∧ IsHost host ∧ ∃ port, hostportOf rest = host ++ colon :: port ∧
        port ≠ [] ∧ (∀ b ∈ port, isDigit b = true) ∧ decimal port ≤ 65535))

/-- The text is that of an http(s) URL with this origin. -/
def HasOrigin (url : Mem) (o : Origin) : Prop :=
  ∃ u : HttpUrl, cstr url = u.text ∧ u.origin = o

theorem HasOrigin.unique {url : Mem} {o p : Origin} (ho : HasOrigin url o) (hp : HasOrigin url p) :
    o = p := by
  obtain ⟨u, hu, rfl⟩ := ho
  obtain ⟨v, hv, rfl⟩ := hp
  exact HttpUrl.origin_unique (hu.symm.trans hv)

/-- What follows the authority does not matter to the origin. -/
theorem HasOrigin.of_server {a b : Mem} {o : Origin} (h : HasOrigin a o)
    {scheme authority rest rest' : Bytes} (hcolon : colon ∉ scheme)
    (hauthority : ∀ c ∈ authority, endsAuthority c = false)
    (ha : cstr a = scheme ++ schemeSep ++ (authority ++ rest)) (hrest : Begins endsAuthority rest)
    (hb : cstr b = scheme ++ schemeSep ++ (authority ++ rest'))
    (hrest' : Begins endsAuthority rest') : HasOrigin b o := by
  obtain ⟨u, hu, rfl⟩ := h
  have hsplit : splitOn schemeSep (scheme ++ schemeSep ++ (authority ++ rest)) =
      some (scheme, authority ++ rest) := splitOn_append hcolon _
  rw [← ha, hu, u.splitOn_text] at hsplit
  obtain ⟨hscheme, htext⟩ := Prod.mk.inj (Option.some.inj hsplit.symm)
  have hsame : authority = u.userinfo ++ (u.host ++ portText u.port) := by
    rw [← (cut_append hauthority hrest).1, htext, (cut_append u.authority u.isRest).1]
  refine ⟨{ u with rest := rest', isRest := hrest' }, ?_, rfl⟩
  rw [hb, hscheme, hsame]
  rfl

/-- The text before the first `"://"`, and a host and port that fill the authority. -/
theorem hasOrigin_of_parts {url : Mem} {scheme rest host : Bytes} {port : Option Bytes} {p : Nat}
    (hsplit : splitOn schemeSep (cstr url) = some (scheme, rest)) (hhttp : IsHttp scheme)
    (hhost : IsHost host) (hhostport : hostportOf rest = host ++ portText port)
    (hport : resolvePort (scheme.map asciiLower) port = some p) :
    HasOrigin url ⟨scheme.map asciiLower, host.map asciiLower, p⟩ := by
  have hauthority : uptoLast isAt (before endsAuthority rest) ++ (host ++ portText port) =
      before endsAuthority rest := by
    rw [← hhostport]
    exact uptoLast_append_afterLast isAt _
  -- what stands before the last `@` is the userinfo
  let u : HttpUrl :=
    { scheme := scheme
      userinfo := uptoLast isAt (before endsAuthority rest)
      host := host
      port := port
      rest := fromFirst endsAuthority rest
      isHttp := hhttp
      authority := by
        rw [hauthority]
        exact fun b hb => stop_before hb
      isUserinfo := ends_uptoLast isAt _
      isHost := hhost
      isHostport := by
        rw [← hhostport]
        exact fun b hb => stop_afterLast hb
      isPort := by
        intro text htext
        rcases resolvePort_eq_some.mp hport with ⟨text', htext', -, hdigits, rfl, hle⟩ | ⟨hnone, -⟩
        · obtain rfl := Option.some.inj ((Option.mem_def.mp htext).symm.trans htext')
          exact ⟨hdigits, hle⟩
        · rw [hnone] at htext
          cases htext
      isRest := begins_fromFirst endsAuthority rest }
  refine ⟨u, ?_, ?_⟩
  · show cstr url = scheme ++ schemeSep ++ (uptoLast isAt (before endsAuthority rest) ++
      (host ++ portText port) ++ fromFirst endsAuthority rest)
    rw [hauthority, before_append_fromFirst]
    exact append_of_splitOn hsplit
  -- an empty port is refused, so a port that is found has digits
  · have hresolved : u.origin.port = p := by
      rcases resolvePort_eq_some.mp hport with ⟨text, htext, hne, -, hp, -⟩ | ⟨hnone, -, hp⟩
      · obtain ⟨b, bs, rfl⟩ := List.exists_cons_of_ne_nil hne
        subst htext
        exact hp
      · subst hnone
        exact hp.symm
    show Origin.mk _ _ u.origin.port = _
    rw [hresolved]

/-- What is accepted is an http(s) URL with the origin that is returned, or is misjudged. -/
theorem originOf_sound {url : Mem} {schemeCap hostCap : Nat} {o : Origin}
    (h : originOf url schemeCap hostCap = some o) :
    HasOrigin url o ∨ Misjudged url schemeCap hostCap := by
  obtain ⟨scheme, rest, host, port, p, hsplit, hne, hlt, hhost, hne', hlt', hp, rfl⟩ :=
    originOf_eq_some.mp h
  rcases of_splitHost hne' hhost with ⟨hishost, htext⟩ | ⟨hbracketed, rfl, junk, hjunk, htext⟩
  · by_cases hhttp : IsHttp scheme
    · exact .inl (hasOrigin_of_parts hsplit hhttp hishost htext hp)
    · rcases resolvePort_eq_some.mp hp with ⟨text, rfl, hne'', hdigits, rfl, hle⟩ | ⟨-, hhttp', -⟩
      · exact .inr ⟨scheme, rest, host, hsplit, hne, hlt, hlt',
          .inr ⟨hhttp, hishost, text, htext, hne'', hdigits, hle⟩⟩
      · exact absurd hhttp' hhttp
  · rcases resolvePort_eq_some.mp hp with ⟨text, htext', -⟩ | ⟨-, hhttp, -⟩
    · cases htext'
    · exact .inr ⟨scheme, rest, host, hsplit, hne, hlt, hlt', .inl ⟨hhttp, hbracketed, junk, hjunk, htext⟩⟩

/-- A misjudged URL is accepted. -/
theorem Misjudged.accepted {url : Mem} {schemeCap hostCap : Nat}
    (h : Misjudged url schemeCap hostCap) : ∃ o, originOf url schemeCap hostCap = some o := by
  obtain ⟨scheme, rest, host, hsplit, hne, hlt, hlt', hkind⟩ := h
  rcases hkind with ⟨hhttp, hbracketed, junk, hjunk, htext⟩ |
    ⟨-, hishost, port, htext, hne', hdigits, hle⟩
  · have hhost : splitHost (hostportOf rest) = some (host, none) := by
      rw [htext, splitHost_bracketed hbracketed, if_neg hjunk.2]
    exact ⟨_, originOf_eq_some.mpr ⟨scheme, rest, host, none, _, hsplit, hne, hlt, hhost,
      hbracketed.ne_nil, hlt', resolvePort_eq_some.mpr (.inr ⟨rfl, hhttp, rfl⟩), rfl⟩⟩
  · have hhost : splitHost (hostportOf rest) = some (host, some port) := by
      rw [htext]
      exact splitHost_host hishost (some port)
    exact ⟨_, originOf_eq_some.mpr ⟨scheme, rest, host, some port, _, hsplit, hne, hlt, hhost,
      hishost.ne_nil, hlt', resolvePort_eq_some.mpr (.inl ⟨port, rfl, hne', hdigits, rfl, hle⟩), rfl⟩⟩

/-- But it is no http(s) URL. -/
theorem Misjudged.no_origin {url : Mem} {schemeCap hostCap : Nat}
    (h : Misjudged url schemeCap hostCap) (o : Origin) : ¬ HasOrigin url o := by
  obtain ⟨scheme, rest, host, hsplit, -, -, -, hkind⟩ := h
  rintro ⟨u, htext, -⟩
  rw [htext, u.splitOn_text] at hsplit
  obtain ⟨rfl, rfl⟩ := Prod.mk.inj (Option.some.inj hsplit)
  rcases hkind with ⟨-, hbracketed, junk, hjunk, hhostport⟩ | ⟨hhttp, -⟩
  · have hu := u.splitHost_text
    have hjunked := splitHost_bracketed hbracketed junk
    rw [if_neg hjunk.2, ← hhostport, hu] at hjunked
    obtain ⟨hhost, hport⟩ := Prod.mk.inj (Option.some.inj hjunked)
    -- the whole text is the literal, which leaves nothing for the junk
    unfold hostportOf at hhostport
    rw [u.hostport_text, hhost, hport] at hhostport
    exact hjunk.1 (List.append_cancel_left hhostport).symm
  · exact hhttp u.isHttp

/-- **When `origin_of` is right.** What it accepts is an http(s) URL with the origin that it returns,
unless the URL is misjudged; and two URLs that are not misjudged only count as same-origin if they
are http(s) URLs with equal origins. -/
theorem origin_right_iff (url : Mem) (schemeCap hostCap : Nat) :
    ((∀ o, originOf url schemeCap hostCap = some o → HasOrigin url o) ↔
      ¬ Misjudged url schemeCap hostCap) ∧
    ∀ other, ¬ Misjudged url 8 256 → ¬ Misjudged other 8 256 → sameOriginUrls url other = true →
      ∃ o, HasOrigin url o ∧ HasOrigin other o := by
  refine ⟨⟨?_, ?_⟩, ?_⟩
  · intro hright hbad
    obtain ⟨o, ho⟩ := hbad.accepted
    exact hbad.no_origin o (hright o ho)
  · intro hgood o ho
    exact (originOf_sound ho).resolve_right hgood
  · intro other hurl hother hsame
    unfold sameOriginUrls at hsame
    split at hsame
    · next oa ob ha hb =>
      obtain rfl := of_decide_eq_true hsame
      exact ⟨oa, (originOf_sound ha).resolve_right hurl, (originOf_sound hb).resolve_right hother⟩
    · cases hsame

/-- A C string. -/
def cText (s : String) : Mem :=
  ascii s.toList ++ [0]

/-- The text behind an IP literal is ignored, so another host passes for the same origin. -/
theorem junk_ignored :
    let url := cText "http://[::1]evil.example/"
    let o : Origin := ⟨httpScheme, ascii "[::1]".toList, 80⟩
    originOf url 8 256 = some o ∧ ¬ HasOrigin url o ∧
      sameOriginUrls (cText "http://[::1]/") url = true ∧ ¬ ∃ p, HasOrigin url p := by
  intro url o
  have hbad : Misjudged url 8 256 :=
    ⟨httpScheme, ascii "[::1]evil.example/".toList, ascii "[::1]".toList, by decide +kernel,
      by decide, by decide, by decide, .inl ⟨.inl rfl,
        ⟨ascii "::1".toList, by decide, by decide +kernel⟩,
        ascii "evil.example".toList, ⟨by decide, by decide⟩, by decide +kernel⟩⟩
  exact ⟨by decide +kernel, hbad.no_origin o, by decide +kernel,
    fun ⟨p, hp⟩ => hbad.no_origin p hp⟩

/-- A plain host is judged right. -/
theorem origin_right_iff_of_plain :
    let url := cText "http://a/x"
    HasOrigin url ⟨httpScheme, ascii "a".toList, 80⟩ ∧ ¬ Misjudged url 8 256 := by
  intro url
  -- there is one scheme and one authority to look at
  have hrest : ∀ {scheme rest}, splitOn schemeSep (cstr url) = some (scheme, rest) →
      scheme = httpScheme ∧ hostportOf rest = ascii "a".toList := by
    intro scheme rest hsplit
    have heval : splitOn schemeSep (cstr url) = some (httpScheme, ascii "a/x".toList) := by
      decide +kernel
    rw [heval] at hsplit
    obtain ⟨rfl, rfl⟩ := Prod.mk.inj (Option.some.inj hsplit)
    exact ⟨rfl, by decide +kernel⟩
  have hgood : ¬ Misjudged url 8 256 := by
    rintro ⟨scheme, rest, host, hsplit, -, -, -, hkind⟩
    obtain ⟨rfl, hhostport⟩ := hrest hsplit
    rcases hkind with ⟨-, ⟨inner, rfl, -⟩, junk, -, htext⟩ | ⟨hhttp, -⟩
    · have hhead : (ascii "a".toList).head? = some openBracket := by
        rw [← hhostport, htext]
        rfl
      exact absurd hhead (by decide)
    · exact hhttp (.inl rfl)
  exact ⟨(origin_right_iff url 8 256).1.mpr hgood _ (by decide +kernel), hgood⟩

end EventSource.Port
