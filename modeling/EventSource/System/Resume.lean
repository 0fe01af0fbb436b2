import EventSource.Client.Reconnect
import EventSource.Client.ResumePosition
import EventSource.System.Relay
import EventSource.System.Server

/-!
# Every Event Exactly Once

The client over any transport that carries a server's answers, however often the connection is lost
and wherever it breaks off: what the application has been told at any time are the server's events
from the first on, each exactly once and in order. The id that the client keeps is that of the last
event told, so the next connection takes up right behind it.
-/

namespace EventSource.System

open EventSource.CMemory
open EventSource.Client
open EventSource.Contract
open EventSource.Parser
open EventSource.Port
open EventSource.Trace

variable {σ : Type*} {T : Transport σ} {base : Env} {cfg : SseClientConfig} {w : World}
  {lim : Limits} {log : Log}

/-! ## §1 Asking -/

theorem rstrip_append {v : Bytes} (p : Bytes) (hne : v ≠ []) (hv : rstrip v = v) :
    rstrip (p ++ v) = p ++ v := by
  unfold rstrip at hv ⊢
  rw [List.rdropWhile_eq_self_iff] at hv ⊢
  intro hpv
  rw [List.getLast_append_of_ne_nil hpv hne]
  exact hv hne

/-- A value that has nothing to strip has nothing to strip on either side. -/
theorem bare_sides {v : Bytes} (hv : strip v = v) :
    rstrip v = v ∧ v.dropWhile isBlank = v := by
  have hright : rstrip v <+: v := List.rdropWhile_prefix _ _
  have hlen : v.length ≤ (rstrip v).length := by
    have hle := (List.dropWhile_suffix (l := rstrip v) isBlank).length_le
    have heq : ((rstrip v).dropWhile isBlank).length = v.length := congrArg List.length hv
    omega
  have hsame : rstrip v = v := hright.eq_of_length (Nat.le_antisymm hright.length_le hlen)
  refine ⟨hsame, ?_⟩
  unfold strip at hv
  rwa [hsame] at hv

/-- The server reads the id in the line that the client sends. -/
theorem headerValue_id {v : Bytes} (hne : v ≠ []) (hv : strip v = v) :
    namesLastEventId (idHeaderPrefix ++ v) = true ∧ headerValue (idHeaderPrefix ++ v) = v := by
  obtain ⟨hright, hleft⟩ := bare_sides hv
  have hline := rstrip_append idHeaderPrefix hne hright
  constructor
  · unfold namesLastEventId startsWithCase
    rw [hline, List.take_append_of_le_length (by decide)]
    decide
  · have hcut : (idHeaderPrefix ++ v).dropWhile (· ≠ colon) = colon :: space :: v := rfl
    unfold headerValue
    rw [hline, hcut]
    -- the space behind the colon is stripped
    show (rstrip ([space] ++ v)).dropWhile isBlank = v
    rw [rstrip_append [space] hne hright]
    exact hleft

/-- The strings of the list that `build_headers` builds. -/
theorem stringsOf_sent {l : List Mem} {hs : List (Option Mem)}
    (h : hs.take (l.length + 1) = l.map some ++ [none]) : stringsOf hs = l := by
  have hsplit : hs = l.map some ++ none :: hs.drop (l.length + 1) := by
    conv_lhs => rw [← List.take_append_drop (l.length + 1) hs, h]
    rw [List.append_assoc]
    rfl
  have hall : ∀ x ∈ l.map some, Option.isSome x = true := by
    intro x hx
    obtain ⟨m, -, rfl⟩ := List.mem_map.mp hx
    rfl
  unfold stringsOf
  rw [hsplit, List.takeWhile_append_of_pos hall, List.takeWhile_cons_of_neg (by simp),
    List.append_nil, List.filterMap_map]
  exact List.filterMap_some

/-- Lines of other names leave the id alone. -/
theorem foldl_unnamed (id : Bytes) {lines : List Bytes}
    (h : ∀ line ∈ lines, namesLastEventId line = false) :
    lines.foldl (fun id line => if namesLastEventId line then headerValue line else id) id = id := by
  induction lines with
  | nil => rfl
  | cons line lines ih =>
    rw [List.foldl_cons, h line List.mem_cons_self]
    exact ih fun l hl => h l (List.mem_cons_of_mem _ hl)

/-- **The server is asked for what the client lacks.** It reads the resume position out of the
headers, as long as no extra header goes by the same name. -/
theorem lastEventIdOf_sent {id : Bytes} {extras : List Mem} {hs : List (Option Mem)}
    (h : SendsHeaders id extras hs) (hbare : strip id = id)
    (hextras : ∀ x ∈ extras, namesLastEventId (cstr x) = false) :
    lastEventIdOf ((stringsOf hs).map cstr) = id := by
  obtain ⟨idLine, hid, hlist⟩ := h.list
  rw [stringsOf_sent hlist]
  -- the fixed headers go by other names
  have hfixed : namesLastEventId (cstr acceptHeader) = false ∧
      namesLastEventId (cstr cacheHeader) = false := by
    constructor <;> decide
  have hrest : ∀ line ∈ extras.map cstr, namesLastEventId line = false := by
    intro line hline
    obtain ⟨x, hx, rfl⟩ := List.mem_map.mp hline
    exact hextras x hx
  unfold lastEventIdOf
  rw [List.cons_append, List.cons_append, List.map_cons, List.map_cons, List.map_append,
    List.foldl_cons, List.foldl_cons, List.foldl_append, hfixed.1, hfixed.2, hid]
  by_cases hnil : id = []
  · -- no resume position, no line
    rw [if_pos hnil, hnil]
    exact foldl_unnamed [] hrest
  · obtain ⟨hname, hvalue⟩ := headerValue_id hnil hbare
    rw [if_neg hnil, List.foldl_cons, List.foldl_nil, if_pos hname, hvalue]
    exact foldl_unnamed id hrest

/-! ## §2 Reading an Answer -/

theorem signals_items {cb : SseClientCallbacks} (hm : cb.onMessage = true)
    (items : List (Item lim)) :
    (items.flatMap Item.reports).filterMap (reportSignal cb) =
      (items.filterMap Item.toMessage).map messageSignal := by
  induction items with
  | nil => rfl
  | cons it items ih =>
    rw [List.flatMap_cons, List.filterMap_append, ih]
    cases it with
    | message m =>
      have hevent : reportSignal cb (.event (if m.type = [] then none else some m.type) m.id m.data) =
          some (messageSignal m) := by
        unfold messageSignal
        by_cases ht : m.type = []
        · simp [reportSignal, hm, ht]
        · simp [reportSignal, hm, ht]
      have hone : m.reports.filterMap (reportSignal cb) = [messageSignal m] := by
        have hid : (m.id.toList.map fun v => Report.id v v.length).filterMap (reportSignal cb) = [] := by
          cases m.id <;> rfl
        unfold Message.reports
        rw [List.filterMap_append, hid, List.nil_append, List.filterMap_cons_some hevent,
          List.filterMap_nil]
      show m.reports.filterMap (reportSignal cb) ++ _ = _
      rw [hone]
      rfl
    | comment text plain => rfl
    | retry ms => rfl

theorem committedIds_items (items : List (Item lim)) :
    committedIds (items.flatMap Item.reports) =
      (items.filterMap Item.toMessage).filterMap Message.id := by
  induction items with
  | nil => rfl
  | cons it items ih =>
    rw [List.flatMap_cons, committedIds_append, ih]
    cases it with
    | message m =>
      have hone : committedIds m.reports = m.id.toList := by
        unfold Message.reports committedIds
        cases m.id <;> rfl
      show committedIds m.reports ++ _ = (m :: items.filterMap Item.toMessage).filterMap Message.id
      rw [hone]
      cases hid : m.id with
      | none => rw [List.filterMap_cons_none hid]; rfl
      | some v => rw [List.filterMap_cons_some hid]; rfl
    | comment text plain => rfl
    | retry ms => rfl

/-- The items of some of the entries. -/
theorem toMessage_entries {entries : List (Message lim × List (Item lim))}
    (hquiet : ∀ e ∈ entries, ∀ it ∈ e.2, it.toMessage = none) :
    (itemsOf entries).filterMap Item.toMessage = entries.map Prod.fst := by
  induction entries with
  | nil => rfl
  | cons e entries ih =>
    have hnone : e.2.filterMap Item.toMessage = [] :=
      List.filterMap_eq_nil_iff.mpr (hquiet e List.mem_cons_self)
    have hrest := ih fun x hx => hquiet x (List.mem_cons_of_mem _ hx)
    unfold itemsOf at hrest ⊢
    rw [List.flatMap_cons, List.filterMap_append, hrest]
    show e.1 :: e.2.filterMap Item.toMessage ++ _ = _
    rw [hnone]
    rfl

/-- **What a broken-off answer tells.** The first of the events that were asked for, with their ids,
and all those among them that arrived completely. -/
theorem reading_answer (hlim : lim.Valid) (S : Server lim) (n : Nat) {s : Bytes}
    (hs : s <+: writeStream S.bom S.eol (itemsOf (S.entries.drop n))) {cb : SseClientCallbacks}
    (hm : cb.onMessage = true) :
    ∃ j ≤ (S.entries.drop n).length,
      committedIds (readingWithTail lim s) =
          ((S.entries.drop n).take j).filterMap (fun e => e.1.id) ∧
        (readingWithTail lim s).filterMap (reportSignal cb) =
          ((S.entries.drop n).take j).map (fun e => messageSignal e.1) ∧
        ∀ k ≤ (S.entries.drop n).length,
          writeStream S.bom S.eol (itemsOf ((S.entries.drop n).take k)) <+: s → k ≤ j := by
  have hquiet : ∀ e ∈ S.entries.drop n, ∀ it ∈ e.2, it.toMessage = none :=
    fun e he => S.quiet e (List.mem_of_mem_drop he)
  obtain ⟨i, hi, hread, hmost⟩ := reading_prefix hlim S.bom S.eol hs
  let wanted := S.entries.drop n
  -- the messages among the first items are the first messages
  obtain ⟨j, hj, htold⟩ : ∃ j ≤ wanted.length,
      ((itemsOf wanted).take i).filterMap Item.toMessage = (wanted.take j).map Prod.fst := by
    have hpre : ((itemsOf wanted).take i).filterMap Item.toMessage <+: wanted.map Prod.fst := by
      rw [← toMessage_entries hquiet]
      exact (List.take_prefix _ _).filterMap _
    have hlen := hpre.length_le
    rw [List.length_map] at hlen
    refine ⟨_, hlen, ?_⟩
    rw [List.map_take]
    exact List.prefix_iff_eq_take.mp hpre
  refine ⟨j, hj, ?_, ?_, ?_⟩
  · rw [hread, committedIds_items, htold, List.filterMap_map]
    rfl
  · rw [hread, signals_items hm, htold, List.map_map]
    rfl
  · intro k hk hwhole
    -- the first `k` entries are the first so many items
    have hitems : itemsOf (wanted.take k) <+: itemsOf wanted := by
      refine ⟨itemsOf (wanted.drop k), ?_⟩
      unfold itemsOf
      rw [← List.flatMap_append, List.take_append_drop]
    have hle := hmost _ hitems.length_le (by
      rw [← List.prefix_iff_eq_take.mp hitems]
      exact hwhole)
    have hfirst : itemsOf (wanted.take k) <+: (itemsOf wanted).take i := by
      rw [List.prefix_take_iff]
      exact ⟨hitems, hle⟩
    have hlen := (hfirst.filterMap Item.toMessage).length_le
    rw [htold, toMessage_entries fun e he => hquiet e (List.mem_of_mem_take he), List.length_map,
      List.length_map, List.length_take, List.length_take, Nat.min_eq_left hk,
      Nat.min_eq_left hj] at hlen
    exact hlen

/-! ## §3 The Connections of a Run -/

/-- The headers that a connection was asked for with. -/
def requested (piece : Log) : Option (List Mem) :=
  match piece.head? with
  | some ⟨.transportOpen _ hs _, _⟩ => some (stringsOf hs)
  | _ => none

/-- An entry that opens no connection does not change what was asked for. -/
theorem requested_snoc (piece : Log) {e : Entry} (he : ∀ url hs r, e.obs ≠ .transportOpen url hs r) :
    requested (piece ++ [e]) = requested piece := by
  cases piece with
  | cons x piece => rfl
  | nil =>
    obtain ⟨o, c⟩ := e
    cases o with
    | transportOpen url hs r => exact absurd rfl (he url hs r)
    | _ => rfl

/-- A connection delivered the beginning of the answer to its request. Before the first one nothing
is delivered. -/
def Served (S : Server lim) (piece : Log) : Prop :=
  match requested piece with
  | some headers => received piece <+: S.answer headers
  | none => received piece = []

theorem Served.answer {S : Server lim} {piece : Log} (h : Served S piece) {headers : List Mem}
    (hreq : requested piece = some headers) : received piece <+: S.answer headers := by
  unfold Served at h
  rw [hreq] at h
  exact h

theorem Served.empty {S : Server lim} {piece : Log} (h : Served S piece)
    (hreq : requested piece = none) : received piece = [] := by
  unfold Served at h
  rw [hreq] at h
  exact h

/-- Either there is no connection yet, or the last one follows a log with one connection less. -/
theorem connections_cases (log : Log) :
    (connections log = [currentConnection log] ∧ requested (currentConnection log) = none) ∨
      ∃ pre url hs r c rest, log = pre ++ ⟨.transportOpen url hs r, c⟩ :: rest ∧
        currentConnection log = ⟨.transportOpen url hs r, c⟩ :: rest ∧
        connections log = connections pre ++ [currentConnection log] := by
  induction log using List.reverseRecOn with
  | nil => exact .inl ⟨rfl, rfl⟩
  | append_singleton log e ih =>
    -- an `open` starts the next connection, and anything else adds to the last
    by_cases hopens : ∃ url hs r, e.obs = .transportOpen url hs r
    · obtain ⟨url, hs, r, heq⟩ := hopens
      obtain ⟨o, c⟩ := e
      obtain rfl : o = .transportOpen url hs r := heq
      refine .inr ⟨log, url, hs, r, c, [], rfl, ?_, ?_⟩
      · unfold currentConnection
        rw [cutConnections_open]
      · unfold connections currentConnection
        rw [cutConnections_open]
    · have he : ∀ url hs r, e.obs ≠ .transportOpen url hs r :=
        fun url hs r heq => hopens ⟨url, hs, r, heq⟩
      have hcur : currentConnection (log ++ [e]) = currentConnection log ++ [e] := by
        unfold currentConnection
        rw [cutConnections_snoc log he]
      have hpast : (cutConnections (log ++ [e])).2 = (cutConnections log).2 := by
        rw [cutConnections_snoc log he]
      have hall : connections (log ++ [e]) = (cutConnections log).2 ++ [currentConnection (log ++ [e])] := by
        unfold connections
        rw [hpast]
        rfl
      rcases ih with ⟨hone, hnone⟩ | ⟨pre, url, hs, r, c, rest, hlog, hopen, hmore⟩
      · have hnil : (cutConnections log).2 = [] := by
          unfold connections currentConnection at hone
          simpa using hone
        refine .inl ⟨by rw [hall, hnil]; rfl, ?_⟩
        rw [hcur, requested_snoc _ he, hnone]
      · have hpre : (cutConnections log).2 = connections pre :=
          List.append_inj_left' hmore rfl
        refine .inr ⟨pre, url, hs, r, c, rest ++ [e], ?_, ?_, ?_⟩
        · rw [hlog]
          simp
        · rw [hcur, hopen]
          rfl
        · rw [hall, hpre]

/-- A connection is opened with the id of the last event in the headers, and with no other of that
name. -/
def Asks (pre : Log) (e : Entry) : Prop :=
  ∀ url hs r, e.obs = .transportOpen url hs r →
    ∃ extras, SendsHeaders (position (committed pre)) extras hs ∧
      ∀ x ∈ extras, namesLastEventId (cstr x) = false

/-- Entries with their key. -/
theorem filterMap_id {S : Server lim} {es : List (Message lim × List (Item lim))}
    (hes : ∀ e ∈ es, e ∈ S.entries) :
    es.filterMap (fun e => e.1.id) = es.map fun e => e.1.key := by
  induction es with
  | nil => rfl
  | cons e es ih =>
    have hkey : e.1.id = some e.1.key := by
      have hne := (S.bare e (hes e List.mem_cons_self)).1
      unfold Message.key at hne ⊢
      cases hid : e.1.id with
      | none =>
        rw [hid] at hne
        exact absurd rfl hne
      | some v => rfl
    have hrest := ih fun x hx => hes x (List.mem_cons_of_mem _ hx)
    rw [List.filterMap_cons, List.map_cons, hrest]
    simp only [hkey]

/-- A reader that has the first `m` events is taken to want the next. -/
theorem place_of_asks (S : Server lim) {m : Nat} (hm : m ≤ S.entries.length) {pre : Log}
    (hpre : committed pre = (S.entries.take m).map fun e => e.1.key) {e : Entry} (he : Asks pre e)
    {url : Mem} {hs : List (Option Mem)} {r : Int} (hobs : e.obs = .transportOpen url hs r) :
    S.place (stringsOf hs) = m := by
  obtain ⟨extras, hsends, hextras⟩ := he url hs r hobs
  unfold Server.place
  cases m with
  | zero =>
    have hnil : position (committed pre) = [] := by
      rw [hpre]
      rfl
    rw [hnil] at hsends
    rw [lastEventIdOf_sent hsends rfl hextras]
    exact S.start_nil
  | succ n =>
    have hn : n < S.entries.length := hm
    -- the position is the id of the last event of the first `m`
    have hlast : position (committed pre) = S.entries[n].1.key := by
      unfold position
      rw [hpre, List.take_succ_eq_append_getElem hn, List.map_append]
      simp
    have hbare := S.bare _ (List.getElem_mem hn)
    rw [hlast] at hsends
    rw [lastEventIdOf_sent hsends hbare.2 hextras]
    exact S.start_key n _ (List.getElem?_eq_getElem hn)

/-- The application has been told the first `m` events, in order, and holds the id of the last. -/
structure Caught (S : Server lim) (cb : SseClientCallbacks) (log : Log) (m : Nat) : Prop where
  most : m ≤ S.entries.length
  ids : committed log = (S.entries.take m).map fun e => e.1.key
  told : (heard log).filterMap (reportSignal cb) =
    (S.entries.take m).map fun e => messageSignal e.1
  complete : ∀ headers, requested (currentConnection log) = some headers →
    ∀ k, S.place headers + k ≤ S.entries.length →
      writeStream S.bom S.eol (itemsOf ((S.entries.drop (S.place headers)).take k)) <+:
        received (currentConnection log) → S.place headers + k ≤ m

/-- **Connection by connection.** Each takes up where the one before has stopped. -/
theorem caught_of_served (hlim : lim.Valid) (S : Server lim) {cb : SseClientCallbacks}
    (hm : cb.onMessage = true) (hheard : AllHeard lim log)
    (hserved : ∀ piece ∈ connections log, Served S piece) (hasks : Always Asks log) :
    ∃ m, Caught S cb log m := by
  -- by the number of entries: the log before the last connection is shorter
  induction hn : log.length using Nat.strong_induction_on generalizing log with
  | _ n ih =>
    rcases connections_cases log with ⟨hone, hnone⟩ | ⟨pre, url, hs, r, c, rest, hlog, hopen, hmore⟩
    · have hcur : currentConnection log ∈ connections log := by
        rw [hone]
        exact List.mem_singleton_self _
      have hwhole : currentConnection log = log := by
        have hflat := connections_flatten log
        rwa [hone, List.flatten_singleton] at hflat
      have hempty : received log = [] := by
        have hserve := (hserved _ hcur).empty hnone
        rwa [hwhole] at hserve
      have hquiet : heard log = [] := by
        have hread := hheard _ hcur
        rw [hwhole, hempty] at hread
        exact hread
      refine ⟨0, Nat.zero_le _, ?_, ?_, fun headers hreq => ?_⟩
      · unfold committed
        rw [hquiet]
        rfl
      · rw [hquiet]
        rfl
      · rw [hnone] at hreq
        cases hreq
    · have hshort : pre.length < n := by
        rw [← hn, hlog, List.length_append, List.length_cons]
        omega
      have hpieces : ∀ piece ∈ connections pre, piece ∈ connections log := fun piece hp => by
        rw [hmore]
        exact List.mem_append_left _ hp
      have hpreAsks : Always Asks pre := by
        rw [hlog] at hasks
        exact hasks.of_append
      obtain ⟨m, hcaught⟩ := ih _ hshort (fun piece hp => hheard piece (hpieces piece hp))
        (fun piece hp => hserved piece (hpieces piece hp)) hpreAsks rfl
      have hreq : requested (currentConnection log) = some (stringsOf hs) := by
        rw [hopen]
        rfl
      have hplace : S.place (stringsOf hs) = m :=
        place_of_asks S hcaught.most hcaught.ids (hasks pre _ rest hlog) rfl
      have hcur : currentConnection log ∈ connections log := by
        rw [hmore]
        exact List.mem_append_right _ (List.mem_singleton_self _)
      have hdelivered : received (currentConnection log) <+:
          writeStream S.bom S.eol (itemsOf (S.entries.drop m)) := by
        have hserve := (hserved _ hcur).answer hreq
        unfold Server.answer at hserve
        rwa [hplace] at hserve
      obtain ⟨j, hj, hids, htold, hmost⟩ := reading_answer hlim S m hdelivered hm
      rw [List.length_drop] at hj hmost
      have hread := hheard _ hcur
      have hsplit : log = pre ++ currentConnection log := by rw [hopen, hlog]
      have hheardSplit : heard log = heard pre ++ heard (currentConnection log) := by
        conv_lhs => rw [hsplit]
        exact List.filterMap_append ..
      refine ⟨m + j, ?_, ?_, ?_, ?_⟩
      · have hle := hcaught.most
        omega
      · have hnew : committed (currentConnection log) =
            ((S.entries.drop m).take j).map fun e => e.1.key := by
          unfold committed
          rw [hread, hids]
          exact filterMap_id fun e he => List.mem_of_mem_drop (List.mem_of_mem_take he)
        conv_lhs => rw [hsplit]
        rw [committed_append, hcaught.ids, hnew, ← List.map_append, ← List.take_add]
      · rw [hheardSplit, List.filterMap_append, hcaught.told, hread, htold, ← List.map_append,
          ← List.take_add]
      · intro headers hreq' k hk hwhole
        rw [hreq] at hreq'
        rw [← Option.some.inj hreq', hplace] at hk hwhole ⊢
        exact Nat.add_le_add_left (hmost k (by omega) hwhole) m

/-! ## §4 Carrying -/

/-- The request of the last `open`. -/
def lastRequest (calls : List (Port.TransportCall × Int)) : Option SseRequest :=
  calls.foldl (fun q x =>
    match x.1 with
    | .openFn req _ => some req
    | _ => q) none

/-- What the transport has returned since the last `open` is the beginning of the server's answer to
the request. -/
def Transport.Carried (T : Transport σ) (S : Server lim) (calls : List (Port.TransportCall × Int)) :
    Prop :=
  ∀ req, lastRequest calls = some req →
    (T.recording.component.after calls).2 <+: S.answer req.headers

/-- So it is as long as the transport is called in order. -/
def Transport.Carries (T : Transport σ) (S : Server lim) (n : Nat) (timeoutMs : UInt32) : Prop :=
  ∀ calls, T.component.Genuine calls → ((discipline n timeoutMs).after calls).isSome →
    T.Carried S calls

theorem lastRequest_snoc (calls : List (Port.TransportCall × Int)) (x : Port.TransportCall × Int) :
    lastRequest (calls ++ [x]) =
      match x.1 with
      | .openFn req _ => some req
      | _ => lastRequest calls := by
  unfold lastRequest
  rw [List.foldl_append]
  rfl

/-- Before the first `open` nothing is in order. -/
theorem nil_of_lastRequest {n : Nat} {timeoutMs : UInt32} {calls : List (Port.TransportCall × Int)}
    (hobeys : ((discipline n timeoutMs).after calls).isSome) (hnone : lastRequest calls = none) :
    calls = [] := by
  induction calls using List.reverseRecOn with
  | nil => rfl
  | append_singleton calls x ih =>
    obtain ⟨q, hq⟩ := Option.isSome_iff_exists.mp hobeys
    obtain ⟨p, hp, hnext⟩ := Typestate.of_after_snoc hq
    obtain ⟨call, r⟩ := x
    rw [lastRequest_snoc] at hnone
    -- without an `open` there was no call before, and no call but `open` comes first
    have hother : lastRequest calls = none → False := by
      intro h
      have hnil := ih (by rw [hp]; rfl) h
      subst hnil
      obtain rfl : false = p := Option.some.inj hp
      cases call with
      | openFn req out => cases hnone
      | readFn len t => cases hnext
      | closeFn => cases hnext
    cases call with
    | openFn req out => cases hnone
    | readFn len t => exact (hother hnone).elim
    | closeFn => exact (hother hnone).elim

/-- A state that calls lead to. -/
def Transport.Reached (T : Transport σ) (s : σ) : Prop :=
  ∃ calls, T.component.after calls = s

/-- **A rule for carrying.** On an open connection, `P` relates the request of the last `open`, the
state of the transport and the bytes returned since: it holds when an `open` succeeds and after every
read. Where all that has happened is as `D` assumes, it says that the bytes are the beginning of the
answer. -/
structure Transport.Serves (T : Transport σ) (S : Server lim) (D : σ → Prop)
    (P : SseRequest → σ → Bytes → Prop) : Prop where
  before : ∀ s call, D (T.next s call) → D s
  opened : ∀ s req out, (T.openFn s req out).1 = 0 → P req (T.openFn s req out).2.2 []
  read : ∀ s req bytes len t, P req s bytes →
    P req (T.readFn s len t).2.2 (bytes ++ (T.readFn s len t).2.1)
  part : ∀ s req bytes, T.Reached s → D s → P req s bytes → bytes <+: S.answer req.headers

theorem Transport.Serves.up {S : Server lim} {D : σ → Prop} {P : SseRequest → σ → Bytes → Prop}
    (hP : T.Serves S D P) {n : Nat} {timeoutMs : UInt32}
    {calls : List (Port.TransportCall × Int)} (hgenuine : T.component.Genuine calls)
    (hobeys : (discipline n timeoutMs).after calls = some true) :
    ∃ req, lastRequest calls = some req ∧
      P req (T.component.after calls) (T.recording.component.after calls).2 := by
  induction calls using List.reverseRecOn with
  | nil => cases hobeys
  | append_singleton calls x ih =>
    obtain ⟨p, hp, hnext⟩ := Typestate.of_after_snoc hobeys
    obtain ⟨hbefore, hanswer⟩ := always_snoc.mp hgenuine
    rw [Component.after_snoc, Component.after_snoc]
    obtain ⟨call, r⟩ := x
    cases call with
    | openFn req out =>
      refine ⟨req, lastRequest_snoc _ _, ?_⟩
      apply hP.opened
      -- the discipline is up only if the `open` has succeeded
      cases p with
      | true => cases hnext
      | false =>
        have hr : r = 0 := of_decide_eq_true (Option.some.inj hnext)
        exact hanswer.symm.trans hr
    | readFn len t =>
      cases p with
      | false => cases hnext
      | true =>
        obtain ⟨req, hreq, hbytes⟩ := ih hbefore hp
        have hmore := hP.read _ req _ len t hbytes
        rw [← recording_after T calls] at hmore ⊢
        exact ⟨req, (lastRequest_snoc _ _).trans hreq, hmore⟩
    | closeFn =>
      cases p with
      | false => cases hnext
      | true => cases hnext

theorem Transport.Serves.carried {S : Server lim} {D : σ → Prop} {P : SseRequest → σ → Bytes → Prop}
    (hP : T.Serves S D P) {n : Nat} {timeoutMs : UInt32}
    {calls : List (Port.TransportCall × Int)} {q : Bool} (hgenuine : T.component.Genuine calls)
    (hobeys : (discipline n timeoutMs).after calls = some q) (hD : D (T.component.after calls)) :
    T.Carried S calls := by
  induction calls using List.reverseRecOn generalizing q with
  | nil =>
    intro req hreq
    cases hreq
  | append_singleton calls x ih =>
    intro req hreq
    obtain ⟨p, hp, hnext⟩ := Typestate.of_after_snoc hobeys
    obtain ⟨call, r⟩ := x
    cases call with
    | openFn asked out =>
      -- nothing has been returned yet
      rw [Component.after_snoc]
      exact List.nil_prefix
    | readFn len t =>
      have hup : q = true := by
        cases p with
        | false => cases hnext
        | true =>
          simp only [discipline] at hnext
          split at hnext
          · exact (Option.some.inj hnext).symm
          · cases hnext
      rw [hup] at hobeys
      obtain ⟨req', hreq', hbytes⟩ := hP.up hgenuine hobeys
      obtain rfl : req' = req := Option.some.inj (hreq'.symm.trans hreq)
      exact hP.part _ _ _ ⟨_, rfl⟩ hD hbytes
    | closeFn =>
      -- a close returns nothing
      rw [Component.after_snoc] at hD
      rw [lastRequest_snoc] at hreq
      rw [Component.after_snoc]
      exact ih (always_snoc.mp hgenuine).1 hp (hP.before _ .closeFn hD) req hreq

/-- Without an assumption it carries whatever happens. -/
theorem Transport.Serves.carries {S : Server lim} {P : SseRequest → σ → Bytes → Prop}
    (hP : T.Serves S (fun _ => True) P) (n : Nat) (timeoutMs : UInt32) :
    T.Carries S n timeoutMs := by
  intro calls hgenuine hobeys
  obtain ⟨q, hq⟩ := Option.isSome_iff_exists.mp hobeys
  exact hP.carried hgenuine hq trivial

/-- The history knows what the current connection was asked for with. -/
theorem lastRequest_history (log : Log) :
    (lastRequest (history log)).map SseRequest.headers = requested (currentConnection log) := by
  induction log using List.reverseRecOn with
  | nil => rfl
  | append_singleton log e ih =>
    obtain ⟨o, c⟩ := e
    -- an entry of another kind changes neither
    have hstay : (∀ url hs r, o ≠ .transportOpen url hs r) →
        lastRequest (history (log ++ [⟨o, c⟩])) = lastRequest (history log) →
        (lastRequest (history (log ++ [⟨o, c⟩]))).map SseRequest.headers =
          requested (currentConnection (log ++ [⟨o, c⟩])) := by
      intro ho hsame
      unfold currentConnection at ih ⊢
      rw [hsame, cutConnections_snoc log ho, requested_snoc _ ho, ih]
    cases o with
    | transportOpen url hs r =>
      unfold currentConnection
      rw [history_snoc_some log rfl, lastRequest_snoc, cutConnections_open]
      rfl
    | transportRead len timeoutMs r =>
      refine hstay (by simp) ?_
      rw [history_snoc_some log rfl, lastRequest_snoc]
    | transportClose =>
      refine hstay (by simp) ?_
      rw [history_snoc_some log rfl, lastRequest_snoc]
    | _ =>
      refine hstay (by simp) ?_
      rw [history_snoc_none log rfl]

theorem Served.snoc {S : Server lim} {piece : Log} (h : Served S piece) {e : Entry}
    (he : ∀ url hs r, e.obs ≠ .transportOpen url hs r) (hb : e.received = none) :
    Served S (piece ++ [e]) := by
  have hsame : received (piece ++ [e]) = received piece := by
    rw [received_snoc, hb]
    exact List.append_nil _
  unfold Served at h ⊢
  rw [requested_snoc piece he, hsame]
  exact h

/-- In a reachable world over a transport the history is in order. -/
theorem history_obeys (h : Reachable (T.under base) cfg w) :
    (discipline (cfg.rxBuf.getD []).length (withDefaults cfg).readTimeoutMs).after
      (history w.log) = some w.client.transportOpen :=
  (discipline_after (over_answered h)).trans (sessionNext_sessions (reachable_calls h).sessions)

/-- A transport that carries the answers has carried them at every point of the run. -/
theorem carried_history {S : Server lim}
    (hcarry : T.Carries S (cfg.rxBuf.getD []).length (withDefaults cfg).readTimeoutMs)
    (h : Reachable (T.under base) cfg w) :
    ∀ calls, calls <+: history w.log → T.Carried S calls := by
  have hobeys := history_obeys h
  have hgenuine := genuine_of_answered (over_answered h)
  rintro calls ⟨rest, hsplit⟩
  rw [← hsplit] at hobeys hgenuine
  exact hcarry calls hgenuine.of_append (Typestate.isSome_of_append hobeys)

/-- So has one that serves them, as far as what has happened is as assumed. -/
theorem Transport.Serves.history {S : Server lim} {D : σ → Prop} {P : SseRequest → σ → Bytes → Prop}
    (hP : T.Serves S D P) (h : Reachable (T.under base) cfg w) (hD : D (T.stateOf w.log)) :
    ∀ calls, calls <+: history w.log → T.Carried S calls := by
  have hobeys := history_obeys h
  have hgenuine := genuine_of_answered (over_answered h)
  rintro calls ⟨rest, hsplit⟩
  unfold Transport.stateOf at hD
  rw [← hsplit] at hobeys hgenuine hD
  have hpast : D (T.component.after calls) := by
    clear hobeys hgenuine hsplit
    induction rest using List.reverseRecOn with
    | nil => rwa [List.append_nil] at hD
    | append_singleton rest x ih =>
      rw [← List.append_assoc, Component.after_snoc] at hD
      exact ih (hP.before _ _ hD)
  obtain ⟨q, hq⟩ := Option.isSome_iff_exists.mp (Typestate.isSome_of_append hobeys)
  exact hP.carried hgenuine.of_append hq hpast

/-- What is being received is part of the answer. -/
theorem served_current (hT : T.Sound) {S : Server (clientLimits cfg)}
    (h : Reachable (T.under base) cfg w) (hcarried : T.Carried S (history w.log)) :
    Served S (currentConnection w.log) := by
  have hfed := (received_current h).1
  obtain ⟨rest, hreturned, -⟩ := over_relays hT h
  have hpart : received (currentConnection w.log) <+: T.returned w.log := by
    rw [hreturned]
    exact hfed.trans (List.prefix_append _ _)
  have hreq := lastRequest_history w.log
  unfold Served
  cases hlast : lastRequest (history w.log) with
  | none =>
    have hobeys : ((discipline (cfg.rxBuf.getD []).length (withDefaults cfg).readTimeoutMs).after
        (history w.log)).isSome := by
      rw [history_obeys h]
      rfl
    -- without a request nothing has been returned
    have hnil : T.returned w.log = [] := by
      unfold Transport.returned Transport.stateOf
      rw [nil_of_lastRequest hobeys hlast]
      rfl
    rw [hlast] at hreq
    rw [← hreq]
    rw [hnil] at hpart
    exact List.prefix_nil.mp hpart
  | some req =>
    rw [hlast] at hreq
    rw [← hreq]
    exact hpart.trans (hcarried req hlast)

/-- What begins no connection leaves the past ones as they are. -/
theorem past_stays {a b : Log} (h : Adds Obs.stays a b) :
    (cutConnections b).2 = (cutConnections a).2 := by
  obtain ⟨es, rfl, hes⟩ := h
  have hall := connections_append a fun e he => Obs.ne_open_of_stays (hes e he)
  unfold connections at hall
  exact List.append_inj_left' hall rfl

/-- **Every connection of the run delivers the beginning of its answer.** -/
theorem served_all (hT : T.Sound) {S : Server (clientLimits cfg)}
    (h : Reachable (T.under base) cfg w)
    (hcarried : ∀ calls, calls <+: history w.log → T.Carried S calls) :
    ∀ piece ∈ connections w.log, Served S piece := by
  let P : World → Prop := fun v => ∀ piece ∈ (cutConnections v.log).2, Served S piece
  have hpast : (∀ calls, calls <+: history w.log → T.Carried S calls) → P w := by
    refine reachable_induction
      (P := fun v => (∀ calls, calls <+: history v.log → T.Carried S calls) → P v) ?_ ?_ h
    · intro w₀ hw₀ _ piece hp
      rw [init_log hw₀] at hp
      exact absurd hp List.not_mem_nil
    · intro w call hw hpre hcarried
      have hgrows : history w.log <+: history (apply (T.under base) w call).log :=
        (runCalls_log (T.under base) w [call]).filterMap _
      have hpast := hpre fun calls hcalls => hcarried calls (hcalls.trans hgrows)
      have hcur := served_current hT hw (hcarried _ hgrows)
      have hsame : ∀ {v : World}, Adds Obs.stays w.log v.log → P v := by
        intro v hadds piece hp
        rw [past_stays hadds] at hp
        exact hpast piece hp
      have hcall : Adds Obs.stays w.log (w.push (.call call)).log := .one _ rfl
      by_cases hpoll : call = .poll
      · subst hpoll
        cases pollPart (T.under base) w with
        | quiet hstate hadds =>
          exact hsame (hcall.trans ((hadds _ (permits_passive _)).mono fun _ => Obs.stays_of_passive))
        | connect reply hreply hs hadds =>
          -- the connection that was current is a past one now
          intro piece hp
          rw [past_stays ((hadds _ (permits_passive _)).mono fun _ => Obs.stays_of_passive)] at hp
          have hlog : ∃ headers c, (attempt (w.push (.call .poll))
              ((T.under base).extraHeaders (w.push (.call .poll)).log) reply.result reply.stop).log =
                (w.push (.call .poll)).log ++
                  [⟨.transportOpen (c.cfg.url.getD []) headers reply.result, c⟩] := ⟨_, _, rfl⟩
          obtain ⟨headers, c, hlog⟩ := hlog
          rw [hlog, cutConnections_open] at hp
          rcases List.mem_append.mp hp with hp | hp
          · exact hsame hcall piece hp
          · rw [List.mem_singleton.mp hp]
            show Served S (cutConnections (w.log ++ [⟨.call .poll, w.client⟩])).1
            rw [cutConnections_snoc w.log (by simp)]
            exact hcur.snoc (by simp) rfl
        | read reply hreply hs heq =>
          rw [heq]
          have hread : Adds Obs.stays (w.push (.call .poll)).log
              (readOnce (w.push (.call .poll)) reply.result reply.bytes reply.stop).log := .one _ rfl
          have hrest := (pollRead_passive (T.under base)
            (readOnce (w.push (.call .poll)) reply.result reply.bytes reply.stop)
              reply.result).mono fun _ => Obs.stays_of_passive
          exact hsame (hcall.trans (hread.trans hrest))
      · exact hsame ((apply_passive _ w hpoll).mono fun _ => Obs.stays_of_passive)
  intro piece hp
  rcases List.mem_append.mp hp with hp | hp
  · exact hpast hcarried piece hp
  · rw [List.mem_singleton.mp hp]
    exact served_current hT h (hcarried _ List.prefix_rfl)

/-! ## §5 Exactly Once -/

theorem told_flatten {cb : SseClientCallbacks} {pieces : List Log}
    (h : ∀ piece ∈ pieces, Told cb piece) : Told cb pieces.flatten := by
  induction pieces with
  | nil => exact .nil cb
  | cons piece pieces ih =>
    rw [List.flatten_cons]
    exact (h piece List.mem_cons_self).append (ih fun p hp => h p (List.mem_cons_of_mem _ hp))

/-- The application has been told the first `m` events of the server, each once and in order, and
nothing else about events; the id kept is that of the last of them. -/
structure ToldFirst (S : Server lim) (w : World) (m : Nat) : Prop where
  most : m ≤ S.entries.length
  told : signals w.log = (S.entries.take m).map fun e => messageSignal e.1
  id : cstr w.client.lastEventId = position ((S.entries.take m).map fun e => e.1.key)

/-- An event among those asked for that is whole in the first `bytes` of the answer has been told. -/
def NoneMissing (S : Server lim) (w : World) (bytes : Bytes) (m : Nat) : Prop :=
  ∀ headers, requested (currentConnection w.log) = some headers →
    ∀ k, S.place headers + k ≤ S.entries.length →
      writeStream S.bom S.eol (itemsOf ((S.entries.drop (S.place headers)).take k)) <+: bytes →
        S.place headers + k ≤ m

theorem exists_toldFirst {S : Server (clientLimits cfg)} (hT : T.Sound)
    (hcarried : ∀ calls, calls <+: history w.log → T.Carried S calls)
    (hm : cfg.callbacks.onMessage = true)
    (hplain : ∀ log, ∀ x ∈ sentExtras cfg (base.extraHeaders log),
      namesLastEventId (cstr x) = false)
    (h : Reachable (T.under base) cfg w) :
    ∃ m, ToldFirst S w m ∧ NoneMissing S w (received (currentConnection w.log)) m := by
  obtain ⟨w₀, calls, hw₀, -⟩ := id h
  have hlim := (clientLimits_valid (configOk_of_init hw₀)).1
  have hresumes := reachable_resumes h
  have hasks : Always Asks w.log := by
    refine hresumes.entries.mono fun pre e he => ?_
    intro url hs r hobs
    exact ⟨_, he.opened url hs r hobs, hplain pre⟩
  obtain ⟨m, hcaught⟩ := caught_of_served hlim S hm (reachable_hears h).allHeard
    (served_all hT h hcarried) hasks
  refine ⟨m, ⟨hcaught.most, ?_, ?_⟩, hcaught.complete⟩
  · have htold := told_flatten (reachable_tells h).told
    rw [connections_flatten] at htold
    exact htold.trans hcaught.told
  · rw [← hcaught.ids]
    exact hresumes.client.ready.text

/-- **Every event exactly once.** Over any transport that carries the server's answers, whatever the
connections go through: the application has been told the first `m` events of the server, each once
and in order, and nothing else about events; the id kept is that of the last of them. An event that
has arrived completely is among them as long as the client is OPEN. -/
theorem resumes_exactly_once {S : Server (clientLimits cfg)} (hT : T.Sound)
    (hcarry : T.Carries S (cfg.rxBuf.getD []).length (withDefaults cfg).readTimeoutMs)
    (hm : cfg.callbacks.onMessage = true)
    (hplain : ∀ log, ∀ x ∈ sentExtras cfg (base.extraHeaders log),
      namesLastEventId (cstr x) = false)
    (h : Reachable (T.under base) cfg w) :
    ∃ m, ToldFirst S w m ∧
      (w.client.state = .opened → NoneMissing S w (T.returned w.log) m) := by
  obtain ⟨m, htold, hmissing⟩ := exists_toldFirst hT (carried_history hcarry h) hm hplain h
  refine ⟨m, htold, fun hopen => ?_⟩
  rw [← received_open hT h hopen]
  exact hmissing

/-! ## §6 A Wire -/

/-- What becomes of the `n`-th call of a transport: the response to an `open`, and for a `read` how
many bytes arrive at most, or its result if none do. -/
structure Network where
  connect : Nat → Int × SseResponseInfo
  deliver : Nat → Int

structure Wire where
  calls : Nat
  left : Bytes
  deriving DecidableEq, Repr

/-- A transport that leads to the server, over a network that loses connections but no bytes. -/
def wire (S : Server lim) (N : Network) : Transport Wire where
  new := ⟨0, []⟩
  openFn v req _ :=
    ((N.connect v.calls).1, (N.connect v.calls).2, ⟨v.calls + 1, S.answer req.headers⟩)
  readFn v len _ :=
    let bytes := v.left.take (min (N.deliver v.calls).toNat len)
    (if bytes = [] then min (N.deliver v.calls) 0 else bytes.length, bytes,
      ⟨v.calls + 1, v.left.drop bytes.length⟩)
  closeFn v := { v with calls := v.calls + 1 }

theorem wire_sound (S : Server lim) (N : Network) : (wire S N).Sound := by
  intro v len timeoutMs
  let bytes := v.left.take (min (N.deliver v.calls).toNat len)
  have hlen : bytes.length ≤ len :=
    (List.length_take_le _ _).trans (Nat.min_le_right _ _)
  refine ⟨?_, hlen⟩
  show bytes.length = (if bytes = [] then min (N.deliver v.calls) 0 else (bytes.length : Int)).toNat
  split
  · next hnil =>
    rw [hnil, List.length_nil]
    omega
  · rfl

/-- What has been returned and what is left make the answer. -/
theorem wire_serves (S : Server lim) (N : Network) :
    (wire S N).Serves S (fun _ => True) fun req v bytes => bytes ++ v.left = S.answer req.headers where
  before _ _ := id
  opened _ _ _ _ := rfl
  read v req bytes len t hall := by
    show (bytes ++ v.left.take _) ++ v.left.drop (v.left.take _).length = _
    rw [List.append_assoc, List.length_take, List.take_eq_take_min, List.take_append_drop]
    exact hall
  part v _ _ _ _ hall := ⟨v.left, hall⟩

/-- `smallConfig` with room for short ticks. -/
def tickConfig : SseClientConfig :=
  { smallConfig with
    dataBuf := some (List.replicate 8 0)
    idBuf := some (List.replicate 4 0)
    rxBuf := some (List.replicate 32 0) }

def twoTicks : Server (clientLimits tickConfig) :=
  tickServer (ascii "lim".toList) (by decide) (by decide) 2 (by decide +kernel)

/-- The first connection breaks off inside the second tick. -/
def lossyNetwork : Network where
  connect := fun _ => (0, ⟨200, eventStreamType ++ [0], -1⟩)
  deliver := fun n => if n = 1 then 24 else if n = 2 then -1 else 32

/-- Ten seconds pass with every entry. -/
def patientEnv : Env :=
  { quietEnv with time := fun log => 10000 * log.length }

def tickClient : World :=
  runCalls ((wire twoTicks lossyNetwork).under patientEnv) ⟨initClient tickConfig 0, []⟩
    (List.replicate 8 .poll)

theorem tickClient_reachable :
    Reachable ((wire twoTicks lossyNetwork).under patientEnv) tickConfig tickClient :=
  ⟨⟨initClient tickConfig 0, []⟩, List.replicate 8 .poll, rfl, rfl⟩

theorem resumes_exactly_once_of_ticks :
    (connections tickClient.log).length = 3 ∧
      signals tickClient.log =
        [.message defaultType (ascii "lim 1".toList), .message defaultType (ascii "lim 2".toList)] ∧
      ∃ m, ToldFirst twoTicks tickClient m := by
  obtain ⟨m, htold, -⟩ := resumes_exactly_once (wire_sound twoTicks lossyNetwork)
    ((wire_serves twoTicks lossyNetwork).carries _ _) rfl (fun _ x hx => absurd hx List.not_mem_nil)
    tickClient_reachable
  exact ⟨by decide +kernel, by decide +kernel, m, htold⟩

end EventSource.System
