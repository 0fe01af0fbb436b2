import EventSource.Client.Delivery

/-!
# The Resume Position

`last_event_id` at every call of `open` and of `on_message`: the id of the last block that was
completed while the client was OPEN and that left a valid id. The header that sends it holds nothing
but the id behind its prefix, and the header list stays inside its array.
-/

namespace EventSource.Client

open EventSource.CMemory
open EventSource.Parser
open EventSource.Trace

variable {env : Env} {cfg : SseClientConfig} {lim : Limits} {w : World} {c : SseClient}

/-! ## §1 Positions -/

/-- The ids that the parser has committed to the OPEN client, oldest first. -/
def committed (log : Log) : List Bytes :=
  committedIds (heard log)

/-- The ids of the blocks that were completed while the client was OPEN, of those that left one. -/
def blockIds (lim : Limits) (log : Log) : List Bytes :=
  (connections log).flatMap fun piece => (completeBlocks (received piece)).filterMap (lastId lim)

/-- The last id, empty if there is none. -/
def position (ids : List Bytes) : Bytes :=
  ids.getLastD []

/-- The extra headers that are sent: those found in the borrowed array, up to the number of them that
`sse_client_init` found. -/
def sentExtras (cfg : SseClientConfig) (found : List Mem) : List Mem :=
  if cfg.extraHeaders.isSome then found.take (cfg.extraHeaders.getD []).length else []

/-- The header list that is sent with resume position `id`: inside its array, the two fixed headers,
the line with `id` if there is one, the extra headers and the terminator. -/
structure SendsHeaders (id : Bytes) (extras : List Mem) (hs : List (Option Mem)) : Prop where
  size : hs.length = maxHeaders + 1
  list : ∃ idLine : List Mem,
    idLine.map cstr = (if id = [] then [] else [idHeaderPrefix ++ id]) ∧
      hs.take ((acceptHeader :: cacheHeader :: idLine ++ extras).length + 1) =
        (acceptHeader :: cacheHeader :: idLine ++ extras).map some ++ [none]

theorem committed_snoc (log : Log) (e : Entry) :
    committed (log ++ [e]) = committed log ++ committedIds e.heard.toList := by
  unfold committed
  rw [heard_snoc, committedIds_append]

theorem committed_append (a b : Log) : committed (a ++ b) = committed a ++ committed b := by
  have hheard : heard (a ++ b) = heard a ++ heard b := List.filterMap_append ..
  unfold committed
  rw [hheard, committedIds_append]

theorem committed_incidental {a b : Log} (h : AddsIncidental a b) : committed b = committed a := by
  obtain ⟨es, rfl, hes⟩ := h
  have hnone : heard es = [] :=
    List.filterMap_eq_nil_iff.mpr fun e he => (incidental_cases (hes e he)).2.1 e.client
  rw [committed_append]
  unfold committed
  rw [hnone]
  exact List.append_nil _

/-- Where all was heard, the ids committed are those of the completed blocks. -/
theorem committed_eq_blockIds {log : Log} (h : AllHeard lim log) :
    committed log = blockIds lim log := by
  have hpieces : ∀ pieces : List Log, (∀ p ∈ pieces, heard p = readingWithTail lim (received p)) →
      committedIds (pieces.flatMap heard) =
        pieces.flatMap fun p => (completeBlocks (received p)).filterMap (lastId lim) := by
    intro pieces hp
    induction pieces with
    | nil => rfl
    | cons p pieces ih =>
      rw [List.flatMap_cons, List.flatMap_cons, committedIds_append,
        ih fun q hq => hp q (List.mem_cons_of_mem _ hq), hp p List.mem_cons_self,
        committedIds_readingWithTail]
  unfold committed blockIds
  rw [← hpieces _ h, ← heard_flatten, connections_flatten]

/-! ## §2 The Header List -/

/-- The first entries of the header array are `l`. -/
def Filled (c : SseClient) (l : List Mem) : Prop :=
  c.headers.take l.length = l.map some

theorem putHeader_filled {l : List Mem} (h : Filled c l) (hroom : l.length < c.headers.length)
    (m : Mem) :
    Filled (putHeader c l.length (some m)) (l ++ [m]) ∧
      (putHeader c l.length (some m)).oob = c.oob := by
  refine ⟨?_, ?_⟩
  · unfold Filled putHeader at *
    rw [List.length_append, List.length_singleton, take_succ_set _ _ _ hroom, h, List.map_append]
    rfl
  · show (c.oob || decide (c.headers.length ≤ l.length)) = c.oob
    rw [decide_eq_false (by omega), Bool.or_false]

theorem putHeader_length (c : SseClient) (n : Nat) (h : Option Mem) :
    (putHeader c n h).headers.length = c.headers.length :=
  List.length_set

/-- The loop appends its headers, as long as they fit the array. -/
theorem putExtraHeaders_filled (hs : List Mem) {l : List Mem} (h : Filled c l)
    (hroom : l.length + hs.length < c.headers.length) :
    Filled (putExtraHeaders c l.length hs).1 (l ++ hs) ∧
      (putExtraHeaders c l.length hs).2 = (l ++ hs).length ∧
      (putExtraHeaders c l.length hs).1.oob = c.oob ∧
      (putExtraHeaders c l.length hs).1.headers.length = c.headers.length := by
  induction hs generalizing c l with
  | nil =>
    rw [List.append_nil]
    exact ⟨h, rfl, rfl, rfl⟩
  | cons m hs ih =>
    rw [List.length_cons] at hroom
    obtain ⟨hput, hoob⟩ := putHeader_filled h (by omega) m
    have hsize := putHeader_length c l.length (some m)
    have hnext : l.length + 1 = (l ++ [m]).length := by simp
    obtain ⟨hfilled, hcount, hbounds, hlen⟩ := ih hput (by rw [hsize, ← hnext]; omega)
    have hsplit : l ++ m :: hs = l ++ [m] ++ hs := by simp
    rw [hsplit]
    unfold putExtraHeaders
    rw [hnext]
    exact ⟨hfilled, hcount, hbounds.trans hoob, hlen.trans hsize⟩

/-- What `build_headers` relies on. -/
structure HeadersReady (c : SseClient) (id : Bytes) : Prop where
  text : cstr c.lastEventId = id
  len : c.lastEventIdLen = id.length
  short : id.length ≤ idMax
  lineSize : c.idHeader.length = idHeaderSize
  listSize : c.headers.length = maxHeaders + 1
  count : 3 + c.extraHeaderCount ≤ maxHeaders
  inBounds : c.oob = false

theorem length_snprintf {dst : Mem} {cap : Nat} {s : List UInt8} (hcap : 0 < cap)
    (hdst : dst.length = cap) : (snprintf dst cap s).length = cap := by
  unfold snprintf
  rw [length_memcpy, hdst]
  · simp only [List.length_append, List.length_take, List.length_singleton]
    omega
  · omega

/-- The line with the resume position. -/
theorem putIdHeader_spec {id : Bytes} (h : HeadersReady c id) {l : List Mem} (hl : l.length = 2)
    (hfilled : Filled c l) :
    ∃ idLine : List Mem, idLine.map cstr = (if id = [] then [] else [idHeaderPrefix ++ id]) ∧
      Filled (putIdHeader c 2).1 (l ++ idLine) ∧ (putIdHeader c 2).2 = (l ++ idLine).length ∧
      idLine.length ≤ 1 ∧ (putIdHeader c 2).1.oob = c.oob ∧
      (putIdHeader c 2).1.headers.length = c.headers.length ∧
      (putIdHeader c 2).1.idHeader.length = idHeaderSize := by
  unfold putIdHeader
  by_cases hid : id = []
  -- no position, no line
  · have hnone : ¬ 0 < c.lastEventIdLen := by rw [h.len, hid]; simp
    rw [if_neg hnone]
    refine ⟨[], by simp [hid], ?_, ?_, by simp, rfl, rfl, h.lineSize⟩
    · rw [List.append_nil]
      exact hfilled
    · rw [List.append_nil, hl]
  · have hsome : 0 < c.lastEventIdLen := by
      rw [h.len]
      exact List.length_pos_of_ne_nil hid
    -- the longest id and the name fit the array
    have hfit : (idHeaderPrefix ++ id).length < idHeaderSize := by
      have hprefix : idHeaderPrefix.length = 15 := by decide
      have hshort := h.short
      rw [List.length_append, hprefix]
      unfold idHeaderSize
      omega
    have hnul : (0 : UInt8) ∉ idHeaderPrefix ++ id := by
      rw [List.mem_append, not_or]
      exact ⟨by decide, h.text ▸ not_mem_cstr _⟩
    let line := snprintf c.idHeader idHeaderSize (idHeaderPrefix ++ cstr c.lastEventId)
    have hline : cstr line = idHeaderPrefix ++ id := by
      show cstr (snprintf _ _ (idHeaderPrefix ++ cstr c.lastEventId)) = _
      rw [h.text]
      exact cstr_snprintf _ _ _ hfit hnul
    have hput := putHeader_filled (c := { c with idHeader := line }) hfilled
      (by rw [hl, h.listSize]; decide) line
    rw [hl] at hput
    rw [if_pos hsome]
    refine ⟨[line], by simp [hid, hline], hput.1, by simp [hl], by simp, hput.2, ?_, ?_⟩
    · exact putHeader_length { c with idHeader := line } 2 (some line)
    · exact length_snprintf (by decide) h.lineSize

/-- **The header list.** `build_headers` writes the fixed headers, the line with the resume position
if there is one, the extra headers and the terminator, all inside its arrays. -/
theorem buildHeaders_spec {id : Bytes} (h : HeadersReady c id) {found : List Mem}
    {cfg : SseClientConfig} (hcfg : c.cfg.extraHeaders = cfg.extraHeaders)
    (hcount : c.extraHeaderCount = (cfg.extraHeaders.getD []).length) :
    SendsHeaders id (sentExtras cfg found) (buildHeaders c found).headers ∧
      (buildHeaders c found).oob = false ∧
      (buildHeaders c found).idHeader.length = idHeaderSize := by
  have hsize := h.listSize
  have hnil : Filled c [] := rfl
  obtain ⟨h₁, hoob₁⟩ := putHeader_filled hnil (by rw [hsize]; decide) acceptHeader
  have hsize₁ := putHeader_length c 0 (some acceptHeader)
  obtain ⟨h₂, hoob₂⟩ := putHeader_filled h₁ (by rw [List.length_nil, hsize₁, hsize]; decide)
    cacheHeader
  let c₂ := putHeader (putHeader c 0 (some acceptHeader)) 1 (some cacheHeader)
  have hready : HeadersReady c₂ id := by
    refine ⟨h.text, h.len, h.short, h.lineSize, ?_, h.count, ?_⟩
    · show (putHeader (putHeader c 0 _) 1 _).headers.length = _
      rw [putHeader_length, hsize₁, hsize]
    · exact hoob₂.trans (hoob₁.trans h.inBounds)
  obtain ⟨idLine, hidLine, h₃, hn₃, hone, hoob₃, hsize₃, hline₃⟩ := putIdHeader_spec hready rfl h₂
  -- the extra headers, or none
  let c₃ := (putIdHeader c₂ 2).1
  let l₃ := acceptHeader :: cacheHeader :: idLine
  have hcfg₃ : (putHeader (putHeader c 0 (some acceptHeader)) 1
      (some cacheHeader)).cfg.extraHeaders = cfg.extraHeaders := hcfg
  have hcount₃ : (putHeader (putHeader c 0 (some acceptHeader)) 1
      (some cacheHeader)).extraHeaderCount = (cfg.extraHeaders.getD []).length := hcount
  have hroom : l₃.length + (sentExtras cfg found).length < maxHeaders + 1 := by
    have hmax := h.count
    have hextras : (sentExtras cfg found).length ≤ (cfg.extraHeaders.getD []).length := by
      unfold sentExtras
      split
      · exact List.length_take_le ..
      · exact Nat.zero_le _
    have hl₃ : l₃.length = 2 + idLine.length := by
      simp only [l₃, List.length_cons]
      omega
    rw [hl₃]
    omega
  have hlen₃ : c₃.headers.length = maxHeaders + 1 := hsize₃.trans hready.listSize
  obtain ⟨h₄, hn₄, hoob₄, hsize₄⟩ := putExtraHeaders_filled (sentExtras cfg found)
    (show Filled c₃ l₃ from h₃) (by rw [hlen₃]; exact hroom)
  have hbuilt : buildHeaders c found =
      putHeader (putExtraHeaders c₃ l₃.length (sentExtras cfg found)).1
        (l₃ ++ sentExtras cfg found).length none := by
    have hn : (putIdHeader (putHeader (putHeader c 0 (some acceptHeader)) 1
        (some cacheHeader)) 2).2 = l₃.length := hn₃
    rw [← hn₄]
    unfold buildHeaders sentExtras
    simp only [hcfg₃, hcount₃, hn]
    split
    · rfl
    · rw [hn]
      rfl
  have hfinal : (putExtraHeaders c₃ l₃.length (sentExtras cfg found)).1.headers.length =
      maxHeaders + 1 := hsize₄.trans hlen₃
  have hlast : (l₃ ++ sentExtras cfg found).length < maxHeaders + 1 := by
    rw [List.length_append]
    exact hroom
  rw [hbuilt]
  refine ⟨⟨?_, idLine, hidLine, ?_⟩, ?_, ?_⟩
  · rw [putHeader_length, hfinal]
  · show ((putExtraHeaders c₃ l₃.length _).1.headers.set _ none).take
      ((l₃ ++ sentExtras cfg found).length + 1) = _
    rw [take_succ_set _ _ _ (by rw [hfinal]; exact hlast), h₄]
  · show ((putExtraHeaders c₃ l₃.length _).1.oob || decide _) = false
    rw [hoob₄, decide_eq_false (by rw [hfinal]; omega), Bool.or_false]
    exact hoob₃.trans hready.inBounds
  · have hsame : ∀ (hs : List Mem) (d : SseClient) (n : Nat),
        (putExtraHeaders d n hs).1.idHeader = d.idHeader := by
      intro hs
      induction hs with
      | nil => exact fun d n => rfl
      | cons m hs ih => exact fun d n => ih _ _
    show (putExtraHeaders c₃ l₃.length _).1.idHeader.length = _
    rw [hsame]
    exact hline₃

/-! ## §3 What a Step Does to the Position -/

/-- What the resume position and the header list depend on. -/
def SseClient.resume (c : SseClient) :=
  (c.cfg, c.extraHeaderCount, c.lastEventId, c.lastEventIdLen, c.idHeader, c.headers, c.oob)

/-- Closing touches nothing of it. -/
theorem survives_resume (w : World) : SurvivesClosing fun v => v.client.resume = w.client.resume where
  transport := fun _ h => h
  closed := fun _ h => h
  onClosed := fun _ h => h

theorem closeTransport_resume (w : World) : (closeTransport w).client.resume = w.client.resume :=
  (survives_resume w).closeTransport rfl

theorem openConnection_resume (w : World) (t : Nat) :
    (openConnection w t).client.resume = w.client.resume := by
  unfold openConnection
  simp only
  split <;> rfl

theorem schedule_resume (w : World) (e : SseError) (retryAfterS : Int32) (t : Nat) :
    (schedule w e retryAfterS t).client.resume = w.client.resume := by
  obtain ⟨x, heq⟩ := retryDelay_frame w.client retryAfterS
  have hcount : (retryDelay w.client retryAfterS).2.resume = w.client.resume := by
    rw [heq]
    rfl
  unfold schedule
  simp only
  split <;> exact hcount

theorem refusal_resume (w : World) (e : SseError) :
    (refusal w e).client.resume = w.client.resume := by
  unfold refusal
  split <;> rfl

/-- A step leaves the position and the headers alone, and adds incidental entries only, unless it
begins a connection, feeds a byte or delivers a report. -/
theorem step_resume {s t : Phase × World} (h : Step env s t) :
    (AddsIncidental s.2.log t.2.log ∧ t.2.client.resume = s.2.client.resume) ∨
      (∃ result stop,
        AddsIncidental (attempt s.2 (env.extraHeaders s.2.log) result stop).log t.2.log ∧
          t.2.client.resume =
            (attempt s.2 (env.extraHeaders s.2.log) result stop).client.resume) ∨
      (∃ b, t.2 = parseByte s.2 b) ∨
      ∃ c rest called, s.1 = .parsing (c :: rest) called ∧ t.2 = delivered s.2 c := by
  -- the position is written by reports only, the header list by attempts only
  cases h with
  | call w c => exact .inl ⟨.one _ rfl, rfl⟩
  | stop ph w => exact .inl ⟨.refl _, rfl⟩
  | close ph w hph => exact .inl ⟨closing_adds w, (survives_resume w).closing rfl⟩
  | tick w => exact .inl ⟨.one _ rfl, rfl⟩
  | connect w stop hs => exact .inr (.inl ⟨0, stop, .refl _, rfl⟩)
  | connectFail w result stop hs hr =>
    exact .inr (.inl ⟨result, stop, closeTransport_adds _, closeTransport_resume _⟩)
  | reject w => exact .inl ⟨closeTransport_adds w, closeTransport_resume w⟩
  | accept w => exact .inl ⟨openConnection_adds w _, openConnection_resume w _⟩
  | read w result bytes stop hs => exact .inl ⟨.one _ rfl, rfl⟩
  | drop w hs => exact .inl ⟨closeTransport_adds w, closeTransport_resume w⟩
  | receive w hs => exact .inl ⟨.one _ rfl, rfl⟩
  | byte w b hs hread => exact .inr (.inr (.inl ⟨b, rfl⟩))
  | deliver w c rest called => exact .inr (.inr (.inr ⟨c, rest, called, rfl, rfl⟩))
  | parsed w called => exact .inl ⟨.refl _, rfl⟩
  | consult w e hs => exact .inl ⟨.one _ rfl, rfl⟩
  | refuse w e hs hr => exact .inl ⟨refusal_adds w hr, refusal_resume w e⟩
  | retry w e retryAfterS hs hr ha => exact .inl ⟨schedule_adds w hr _ _, schedule_resume w e _ _⟩
  | abandon ph w hph hs => exact .inl ⟨.refl _, rfl⟩
  | due w hs => exact .inl ⟨.one _ rfl, rfl⟩
  | finish ph w hph => exact .inl ⟨.refl _, rfl⟩

/-! ## §4 The Position Is Exact -/

/-- The entries at which the position is told to somebody. -/
def Obs.tellsPosition : Obs → Bool
  | .transportOpen _ _ _ | .onMessage _ => true
  | _ => false

/-- What holds of an entry, given the entries before it. -/
structure ResumeEntry (env : Env) (cfg : SseClientConfig) (pre : Log) (e : Entry) : Prop where
  exact : e.obs.tellsPosition = true → cstr e.client.lastEventId = position (committed pre)
  message : ∀ m, e.obs = .onMessage m → m.lastEventId = e.client.lastEventId ∧
    ∃ L, (completeBlocks (received (currentConnection pre))).getLast? = some L ∧
      m.data.take m.dataLen = [lf].intercalate (dataValues L)
  opened : ∀ url hs r, e.obs = .transportOpen url hs r →
    SendsHeaders (position (committed pre)) (sentExtras cfg (env.extraHeaders pre)) hs
  whole : ∀ id len, e.obs = .parser (.onId id len) → e.client.state = .opened →
    len ≤ idMax ∧ id.take (len + 1) = cstr id ++ [0] ∧ (cstr id).length = len

/-- The client can send its position. -/
structure Sendable (cfg : SseClientConfig) (c : SseClient) (id : Bytes) : Prop where
  ready : HeadersReady c id
  config : c.cfg.extraHeaders = cfg.extraHeaders
  found : c.extraHeaderCount = (cfg.extraHeaders.getD []).length
  idSize : c.lastEventId.length = idMax + 1

theorem Sendable.of_resume {a b : SseClient} {id : Bytes} (h : Sendable cfg a id)
    (heq : b.resume = a.resume) : Sendable cfg b id := by
  simp only [SseClient.resume, Prod.mk.injEq] at heq
  obtain ⟨hcfg, hcount, hid, hlen, hline, hlist, hoob⟩ := heq
  -- all of it is about the fields that `resume` collects
  refine ⟨⟨?_, ?_, h.ready.short, ?_, ?_, ?_, ?_⟩, ?_, ?_, ?_⟩
  · rw [hid]
    exact h.ready.text
  · rw [hlen]
    exact h.ready.len
  · rw [hline]
    exact h.ready.lineSize
  · rw [hlist]
    exact h.ready.listSize
  · rw [hcount]
    exact h.ready.count
  · rw [hoob]
    exact h.ready.inBounds
  · rw [hcfg]
    exact h.config
  · rw [hcount]
    exact h.found
  · rw [hid]
    exact h.idSize

/-- The invariant of every step. -/
structure Resumes (env : Env) (cfg : SseClientConfig) (w : World) : Prop where
  client : Sendable cfg w.client (position (committed w.log))
  entries : Always (ResumeEntry env cfg) w.log

theorem resumeEntry_incidental {pre : Log} {e : Entry} (he : e.obs.incidental = true) :
    ResumeEntry env cfg pre e := by
  obtain ⟨o, c⟩ := e
  constructor
  · intro htells
    cases o <;> simp_all [Obs.tellsPosition, Obs.incidental]
  · rintro m rfl
    exact absurd he (by simp [Obs.incidental])
  · rintro url hs r rfl
    exact absurd he (by simp [Obs.incidental])
  · rintro id len rfl
    exact absurd he (by simp [Obs.incidental])

/-- Incidental entries change no position. -/
theorem Resumes.incidental {v : World} (h : Resumes env cfg w) (hadd : AddsIncidental w.log v.log)
    (heq : v.client.resume = w.client.resume) : Resumes env cfg v := by
  refine ⟨?_, ?_⟩
  · rw [committed_incidental hadd]
    exact h.client.of_resume heq
  · obtain ⟨es, hlog, hes⟩ := hadd
    rw [hlog]
    exact h.entries.append fun e he pre => resumeEntry_incidental (hes e he)

/-- An attempt sends the position. -/
theorem Resumes.attempt (h : Resumes env cfg w) (result : Int) (stop : Bool) :
    Resumes env cfg (attempt w (env.extraHeaders w.log) result stop) := by
  let built := buildHeaders { w.client with state := .connecting } (env.extraHeaders w.log)
  have hready : HeadersReady { w.client with state := .connecting } (position (committed w.log)) :=
    ⟨h.client.ready.text, h.client.ready.len, h.client.ready.short, h.client.ready.lineSize,
      h.client.ready.listSize, h.client.ready.count, h.client.ready.inBounds⟩
  obtain ⟨hsends, hoob, hline⟩ :=
    @buildHeaders_spec _ _ hready (env.extraHeaders w.log) _ h.client.config h.client.found
  obtain ⟨line, hs, oob, hframe⟩ :=
    buildHeaders_frame { w.client with state := .connecting } (env.extraHeaders w.log)
  have hlog : (Client.attempt w (env.extraHeaders w.log) result stop).log =
      w.log ++ [⟨.transportOpen (built.cfg.url.getD []) built.headers result, built⟩] := rfl
  have hcommitted : committed (w.log ++
      [⟨.transportOpen (built.cfg.url.getD []) built.headers result, built⟩]) =
        committed w.log := by
    rw [committed_snoc]
    exact List.append_nil _
  have hbuilt : built = { w.client with
      state := .connecting
      idHeader := line
      headers := hs
      oob := oob } := hframe
  -- building the headers writes the line and the list, and leaves the id alone
  have hid : built.lastEventId = w.client.lastEventId := by rw [hbuilt]
  have hsend : Sendable cfg built (position (committed w.log)) := by
    refine ⟨⟨?_, ?_, h.client.ready.short, hline, hsends.size, ?_, hoob⟩, ?_, ?_, ?_⟩
    · rw [hid]
      exact h.client.ready.text
    · rw [hbuilt]
      exact h.client.ready.len
    · rw [hbuilt]
      exact h.client.ready.count
    · rw [hbuilt]
      exact h.client.config
    · rw [hbuilt]
      exact h.client.found
    · rw [hid]
      exact h.client.idSize
  refine ⟨?_, ?_⟩
  · rw [hlog, hcommitted]
    exact hsend.of_resume rfl
  · rw [hlog]
    refine always_snoc.mpr ⟨h.entries, ?_, by simp, ?_, by simp⟩
    · exact fun _ => hsend.ready.text
    · rintro _ _ _ ⟨⟩
      exact hsends

/-- The position after an id is committed. -/
theorem sendable_commit {id : Mem} {len : Nat} {old : Bytes} (h : Sendable cfg c old)
    (hterm : id[len]? = some 0) (hlen : (cstr id).length = len) (hmax : len ≤ idMax) :
    Sendable cfg
      { c with
        lastEventId := memcpy c.lastEventId id (len + 1)
        lastEventIdLen := len
        oob := c.oob || c.lastEventId.length < len + 1 || id.length < len + 1 }
      (cstr id) := by
  have hin : len < id.length := (List.getElem?_eq_some_iff.mp hterm).1
  -- the id is the C string of its buffer
  have htake : id.take len = cstr id := by
    have hprefix : cstr id <+: id := List.takeWhile_prefix _
    rw [← hlen]
    exact (List.prefix_iff_eq_take.mp hprefix).symm
  -- and is copied with its terminator
  have hcopy : id.take (len + 1) = id.take len ++ [0] := by
    rw [List.take_add_one, hterm]
    rfl
  have hnul : (0 : UInt8) ∉ id.take len := htake ▸ not_mem_cstr id
  have hsize := h.idSize
  refine ⟨⟨?_, hlen.symm, hlen ▸ hmax, h.ready.lineSize, h.ready.listSize, h.ready.count, ?_⟩,
    h.config, h.found, ?_⟩
  · show cstr (memcpy c.lastEventId id (len + 1)) = cstr id
    rw [cstr_memcpy _ _ _ hcopy hnul, htake]
  · show (c.oob || decide _ || decide _) = false
    rw [h.ready.inBounds, decide_eq_false (by omega), decide_eq_false (by omega)]
    rfl
  · show (memcpy c.lastEventId id (len + 1)).length = _
    rw [length_memcpy _ _ _ (by omega) (by omega)]
    exact hsize

theorem position_snoc (ids : List Bytes) (v : Bytes) : position (ids ++ [v]) = v := by
  simp [position]

/-- The delivery of a report keeps the position exact. -/
theorem Resumes.delivered {c : Callback} {rest : List Callback} {called : Bool}
    (hlim : lim.id ≤ idMax + 1) (hh : Hearing lim (.parsing (c :: rest) called, w))
    (h : Resumes env cfg w) : Resumes env cfg (delivered w c) := by
  have hterm : c.Terminated := hh.phase.terminated _ _ rfl c List.mem_cons_self
  by_cases hs : w.client.state = .opened
  · -- what is delivered is part of the reading of the bytes received
    have hreports : heard (currentConnection w.log) ++ (c.report :: rest.map Callback.report) =
        readingWithTail lim (received (currentConnection w.log)) := by
      have hall := hh.hears.reports
      simp only [pending, hs, if_true, List.map_cons] at hall
      exact hall
    have hmem : c.report ∈ readingWithTail lim (received (currentConnection w.log)) := by
      rw [← hreports]
      simp
    have hheard : Entry.heard ⟨.parser c, w.client⟩ = some c.report := by simp [Entry.heard, hs]
    have hcommitted : committed (w.log ++ [⟨.parser c, w.client⟩]) =
        committed w.log ++ committedIds [c.report] := by
      rw [committed_snoc, hheard]
      rfl
    -- an id has no NUL, so it fits and is its text with the NUL behind it
    have hwhole : ∀ id len, c = .onId id len →
        len ≤ idMax ∧ id.take (len + 1) = cstr id ++ [0] ∧ (cstr id).length = len := by
      rintro id len rfl
      obtain ⟨hlen, hlt⟩ := length_of_mem_reading hmem
      have hprefix : cstr id <+: id := List.takeWhile_prefix _
      have htake : id.take len = cstr id := by
        rw [hlen]
        exact (List.prefix_iff_eq_take.mp hprefix).symm
      refine ⟨by omega, ?_, hlen.symm⟩
      rw [List.take_add_one, show id[len]? = some 0 from hterm, htake]
      rfl
    have hentry : Always (ResumeEntry env cfg) (w.log ++ [⟨.parser c, w.client⟩]) := by
      refine always_snoc.mpr ⟨h.entries, by simp [Obs.tellsPosition], by simp, by simp, ?_⟩
      rintro id len heq -
      exact hwhole id len (Obs.parser.inj heq)
    unfold Client.delivered
    cases c with
    | onId id len =>
      obtain ⟨hmax, -, hlen⟩ := hwhole id len rfl
      have hbridged : bridged (w.push (.parser (.onId id len))) (.onId id len) =
          (w.push (.parser (.onId id len))).update fun c =>
            { c with
              lastEventId := memcpy c.lastEventId id (len + 1)
              lastEventIdLen := len
              oob := c.oob || c.lastEventId.length < len + 1 || id.length < len + 1 } := by
        simp [bridged, bridgeOnId, hs, hmax]
      -- the id becomes the position
      rw [hbridged]
      refine ⟨?_, hentry⟩
      have hpos : position (committed (w.log ++ [⟨.parser (.onId id len), w.client⟩])) = cstr id := by
        rw [hcommitted]
        exact position_snoc _ _
      show Sendable cfg _ (position (committed (w.log ++ [_])))
      rw [hpos]
      exact sendable_commit h.client hterm hlen hmax
    | onRetry ms =>
      have hsame : committed (w.log ++ [⟨.parser (.onRetry ms), w.client⟩]) = committed w.log :=
        hcommitted.trans (List.append_nil _)
      have hbridged : bridged (w.push (.parser (.onRetry ms))) (.onRetry ms) =
          (w.push (.parser (.onRetry ms))).update fun c => { c with baseRetryMs := ms } := by
        simp [bridged, bridgeOnRetry, hs]
      rw [hbridged]
      refine ⟨?_, hentry⟩
      show Sendable cfg _ (position (committed (w.log ++ [_])))
      rw [hsame]
      exact h.client.of_resume rfl
    | onError err =>
      have hsame : committed (w.log ++ [⟨.parser (.onError err), w.client⟩]) = committed w.log :=
        hcommitted.trans (List.append_nil _)
      have hpushed : Resumes env cfg (w.push (.parser (.onError err))) := by
        refine ⟨?_, hentry⟩
        rw [push_log, hsame]
        exact h.client
      rcases bridged_error (w.push (.parser (.onError err))) err with heq | ⟨e, -, heq⟩
      · rw [heq]
        exact hpushed
      · rw [heq]
        refine ⟨?_, always_snoc.mpr ⟨hentry, by simp [Obs.tellsPosition], by simp, by simp, by simp⟩⟩
        rw [push_log, committed_snoc]
        exact (List.append_nil _).symm ▸ hpushed.client
    | onEvent ev =>
      have hsame : committed (w.log ++ [⟨.parser (.onEvent ev), w.client⟩]) = committed w.log :=
        hcommitted.trans (List.append_nil _)
      have hpushed : Resumes env cfg ((w.push (.parser (.onEvent ev))).update fun c =>
          { c with attempts := 0 }) := by
        refine ⟨?_, hentry⟩
        show Sendable cfg _ (position (committed (w.log ++ [_])))
        rw [hsame]
        exact h.client.of_resume rfl
      -- the message carries the id of the block that the byte has completed
      obtain ⟨L, hlast, hevent⟩ := hh.phase.own _ _ rfl hs ev List.mem_cons_self
      simp only [bridged, push_client, hs, ne_eq, not_true_eq_false, if_false]
      split
      · refine ⟨?_, always_snoc.mpr ⟨hentry, ?_, ?_, by simp, by simp⟩⟩
        · rw [push_log, committed_snoc]
          exact (List.append_nil _).symm ▸ hpushed.client
        · exact fun _ => hpushed.client.ready.text
        · rintro m ⟨⟩
          refine ⟨rfl, L, ?_, ?_⟩
          · show (completeBlocks (received (currentConnection (w.log ++ [_])))).getLast? = some L
            rw [received_current_report]
            exact hlast
          · exact (Report.event.inj hevent).2.2
      · exact hpushed
  · have hbridged := bridged_of_not_opened (w := w.push (.parser c)) hs c
    have hheard : Entry.heard ⟨.parser c, w.client⟩ = none := by simp [Entry.heard, hs]
    have hsame : committed (w.log ++ [⟨.parser c, w.client⟩]) = committed w.log := by
      rw [committed_snoc, hheard]
      exact List.append_nil _
    unfold Client.delivered
    rw [hbridged]
    refine ⟨?_, always_snoc.mpr ⟨h.entries, by simp [Obs.tellsPosition], by simp, by simp,
      fun _ _ _ hopen => absurd hopen hs⟩⟩
    rw [push_log, hsame]
    exact h.client

/-- **Every step keeps the position exact.** -/
theorem resumes_step (hlim : lim.id ≤ idMax + 1) {s t : Phase × World} (h : Step env s t)
    (hh : Hearing lim s) (hr : Resumes env cfg s.2) : Resumes env cfg t.2 := by
  obtain ⟨ph, w⟩ := s
  rcases step_resume h with ⟨hadd, heq⟩ | ⟨result, stop, hadd, heq⟩ | ⟨b, heq⟩ |
    ⟨c, rest, called, hph, heq⟩
  · exact hr.incidental hadd heq
  · exact (hr.attempt result stop).incidental hadd heq
  · rw [heq]
    refine ⟨?_, always_snoc.mpr ⟨hr.entries, by simp [Obs.tellsPosition], by simp, by simp, by simp⟩⟩
    have hsame : committed (w.log ++ [⟨.byte b, w.client⟩]) = committed w.log := by
      rw [committed_snoc]
      exact List.append_nil _
    show Sendable cfg _ (position (committed (w.log ++ [_])))
    rw [hsame]
    exact hr.client.of_resume rfl
  · have hph' : ph = .parsing (c :: rest) called := hph
    subst hph'
    rw [heq]
    exact hr.delivered hlim hh

theorem init_resumes (h : sseClientInit env cfg = some w) : Resumes env cfg w := by
  have hok := configOk_of_init h
  have hw : (⟨initClient cfg (.ofNat (env.time [])), []⟩ : World) = w := by
    simpa [sseClientInit, hok] using h
  have hcount : 3 + (cfg.extraHeaders.getD []).length ≤ maxHeaders := by
    unfold configOk at hok
    simp only [Bool.and_eq_true, decide_eq_true_eq] at hok
    exact hok.2
  have htext : cstr (List.replicate (idMax + 1) (0 : UInt8)) = [] := by decide
  rw [← hw]
  refine ⟨⟨⟨htext, rfl, Nat.zero_le _, ?_, ?_, hcount, rfl⟩, rfl, rfl, ?_⟩, always_nil _⟩
  · exact List.length_replicate
  · exact List.length_replicate
  · exact List.length_replicate

theorem reachable_resumes (h : Reachable env cfg w) : Resumes env cfg w := by
  obtain ⟨w₀, calls, hw₀, -⟩ := id h
  obtain ⟨hvalid, hlim⟩ := clientLimits_valid (configOk_of_init hw₀)
  let I : Phase × World → Prop := fun p => Hearing (clientLimits cfg) p ∧ Resumes env cfg p.2
  refine (reachable_invariant (I := I) (fun _ hw => ⟨init_hearing hw, init_resumes hw⟩) ?_ h).2.2
  rintro s t hst hok ⟨hh, hr⟩
  exact ⟨hearing_step hvalid hst hok hh, resumes_step hlim hst hh hr⟩

/-! ## §5 The Resume Position Is Exact and Safe to Send -/

/-- **The resume position is exact and safe to send.** Whatever the server sends and the callbacks
do: at every call of `open` and of `on_message`, `last_event_id` is the last id that the parser
committed while the client was OPEN, which is the id of the last block completed then that left a
valid one; a message's own block is the last completed one. Every id that is committed is taken
whole. The header list passed to `open` is exact and stays inside its array, and no id has CR, LF or
NUL in it. -/
theorem resume_position_exact (h : Reachable env cfg w) :
    (∀ pre e post, w.log = pre ++ e :: post → e.obs.tellsPosition = true →
      cstr e.client.lastEventId = position (committed pre) ∧
        cstr e.client.lastEventId = position (blockIds (clientLimits cfg) pre)) ∧
    (∀ pre m c post, w.log = pre ++ ⟨.onMessage m, c⟩ :: post →
      m.lastEventId = c.lastEventId ∧
        ∃ L, (completeBlocks (received (currentConnection pre))).getLast? = some L ∧
          m.data.take m.dataLen = [lf].intercalate (dataValues L)) ∧
    (∀ pre url hs r c post, w.log = pre ++ ⟨.transportOpen url hs r, c⟩ :: post →
      SendsHeaders (cstr c.lastEventId) (sentExtras cfg (env.extraHeaders pre)) hs) ∧
    (∀ pre id len c post, w.log = pre ++ ⟨.parser (.onId id len), c⟩ :: post →
      c.state = .opened →
        len ≤ idMax ∧ id.take (len + 1) = cstr id ++ [0] ∧ (cstr id).length = len) ∧
    (∀ v ∈ blockIds (clientLimits cfg) w.log, cr ∉ v ∧ lf ∉ v ∧ 0 ∉ v) ∧
    w.client.oob = false := by
  have hhears := reachable_hears h
  have hr := reachable_resumes h
  refine ⟨?_, ?_, ?_, ?_, ?_, hr.client.ready.inBounds⟩
  · intro pre e post hlog htells
    have hexact := (hr.entries pre e post hlog).exact htells
    -- everything received so far has been reported by then
    have hsettled : AllHeard (clientLimits cfg) pre := by
      refine (hhears.entries pre e post hlog).settled ?_
      intro c heq
      rw [heq] at htells
      exact absurd htells (by simp [Obs.tellsPosition])
    exact ⟨hexact, by rw [hexact, committed_eq_blockIds hsettled]⟩
  · exact fun pre m c post hlog => (hr.entries pre _ post hlog).message m rfl
  · intro pre url hs r c post hlog
    have hentry := hr.entries pre _ post hlog
    have hexact : cstr c.lastEventId = position (committed pre) := hentry.exact rfl
    rw [hexact]
    exact hentry.opened url hs r rfl
  · exact fun pre id len c post hlog => (hr.entries pre _ post hlog).whole id len rfl
  · intro v hv
    -- every id comes from a line of some block
    obtain ⟨piece, -, hv⟩ := List.mem_flatMap.mp hv
    obtain ⟨L, hL, hid⟩ := List.mem_filterMap.mp hv
    obtain ⟨hcr, hlf, hnul, -⟩ := lastId_plain hL hid
    exact ⟨hcr, hlf, hnul⟩

/-- The client of `smallConfig` after it has connected and received one event with the id `7`. -/
def oneIdClient : World :=
  runCalls (streamEnv (ascii ['i', 'd', ':', '7', '\n', 'd', 'a', 't', 'a', '\n', '\n'])) smallClient
    (List.replicate 13 .poll)

theorem oneIdClient_reachable :
    Reachable (streamEnv (ascii ['i', 'd', ':', '7', '\n', 'd', 'a', 't', 'a', '\n', '\n'])) smallConfig
      oneIdClient :=
  ⟨smallClient, List.replicate 13 .poll, rfl, rfl⟩

theorem resume_position_exact_of_one :
    blockIds (clientLimits smallConfig) oneIdClient.log = [ascii ['7']] ∧
      (∀ pre e post, oneIdClient.log = pre ++ e :: post → e.obs.tellsPosition = true →
        cstr e.client.lastEventId = position (blockIds (clientLimits smallConfig) pre)) ∧
      oneIdClient.client.oob = false := by
  obtain ⟨hexact, -, -, -, -, hoob⟩ := resume_position_exact oneIdClient_reachable
  exact ⟨by decide +kernel, fun pre e post h ht => (hexact pre e post h ht).2, hoob⟩

end EventSource.Client
