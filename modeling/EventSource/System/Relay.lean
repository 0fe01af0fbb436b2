import EventSource.System.Stack

/-!
# What a Connection Relays

The bytes that a transport returns on a connection, against the bytes that the client feeds to its
parser: nothing is invented, reordered or repeated, and while the client is OPEN nothing is missing.
-/

namespace EventSource.System

open EventSource.CMemory
open EventSource.Client
open EventSource.Contract
open EventSource.Parser
open EventSource.Trace

variable {σ : Type*} {T : Transport σ} {base env : Env} {cfg : SseClientConfig} {w : World}

/-! ## §1 The Bytes of a Connection -/

/-- The transport, with the bytes that it has returned since the last `open`. -/
def Transport.recording (T : Transport σ) : Transport (σ × Bytes) where
  new := (T.new, [])
  openFn s req out :=
    let r := T.openFn s.1 req out
    (r.1, r.2.1, r.2.2, [])
  readFn s len timeoutMs :=
    let r := T.readFn s.1 len timeoutMs
    (r.1, r.2.1, r.2.2, s.2 ++ r.2.1)
  closeFn s := (T.closeFn s.1, s.2)

/-- The bytes that the transport has returned on the current connection of a log. -/
def Transport.returned (T : Transport σ) (log : Log) : Bytes :=
  (T.recording.stateOf log).2

/-- A positive result counts the bytes that are returned, and they fit the buffer. -/
def Transport.Sound (T : Transport σ) : Prop :=
  ∀ s len timeoutMs, (T.readFn s len timeoutMs).2.1.length = (T.readFn s len timeoutMs).1.toNat ∧
    (T.readFn s len timeoutMs).2.1.length ≤ len

theorem recording_next (T : Transport σ) (s : σ × Bytes) (call : Port.TransportCall) :
    (T.recording.next s call).1 = T.next s.1 call := by
  cases call <;> rfl

theorem recording_after (T : Transport σ) (calls : List (Port.TransportCall × Int)) :
    (T.recording.component.after calls).1 = T.component.after calls := by
  induction calls using List.reverseRecOn with
  | nil => rfl
  | append_singleton calls x ih =>
    rw [Component.after_snoc, Component.after_snoc, ← ih]
    exact recording_next T _ x.1

/-- Recording changes nothing. -/
theorem recording_stateOf (T : Transport σ) (log : Log) :
    (T.recording.stateOf log).1 = T.stateOf log :=
  recording_after T _

/-- The client cannot tell the two apart. -/
theorem recording_under (T : Transport σ) (base : Env) :
    T.recording.under base = T.under base := by
  have hopen : T.recording.openReply base = T.openReply base := by
    funext log
    unfold Transport.openReply
    cases log.getLast? with
    | none => rfl
    | some e => simp only [Transport.recording, ← recording_stateOf T log]
  have hread : T.recording.readReply base = T.readReply base := by
    funext log
    unfold Transport.readReply
    cases log.getLast? with
    | none => rfl
    | some e => simp only [Transport.recording, ← recording_stateOf T log]
  unfold Transport.under
  rw [hopen, hread]

/-- What asks for nothing returns nothing. -/
theorem returned_passive {a b : Log} (h : Adds Obs.passive a b) : T.returned b = T.returned a := by
  obtain ⟨es, rfl, hes⟩ := h
  induction es using List.reverseRecOn with
  | nil => rw [List.append_nil]
  | append_singleton es e ih =>
    have hrest := ih fun x hx => hes x (List.mem_append_left _ hx)
    have he := hes e (by simp)
    rw [← hrest, ← List.append_assoc]
    unfold Transport.returned Transport.stateOf
    obtain ⟨o, c⟩ := e
    cases o with
    | transportOpen url headers r => exact absurd he Bool.false_ne_true
    | transportRead len timeoutMs r => exact absurd he Bool.false_ne_true
    | transportClose =>
      rw [history_snoc_some _ rfl, Component.after_snoc]
      rfl
    | _ => rw [history_snoc_none _ rfl]

/-- A connection begins with nothing. -/
theorem returned_open (log : Log) (url : Mem) (headers : List (Option Mem)) (r : Int)
    (c : SseClient) : T.returned (log ++ [⟨.transportOpen url headers r, c⟩]) = [] := by
  unfold Transport.returned Transport.stateOf
  rw [history_snoc_some _ rfl, Component.after_snoc]
  rfl

theorem returned_read (log : Log) (len : Nat) (timeoutMs : UInt32) (r : Int) (c : SseClient) :
    T.returned (log ++ [⟨.transportRead len timeoutMs r, c⟩]) =
      T.returned log ++ (T.readFn (T.stateOf log) len timeoutMs).2.1 := by
  rw [← recording_stateOf T log]
  unfold Transport.returned Transport.stateOf
  rw [history_snoc_some _ rfl, Component.after_snoc]
  rfl

/-! ## §2 Feeding -/

/-- The bytes fed on the current connection. -/
def fedNow (log : Log) : Bytes :=
  fed (currentConnection log)

theorem fed_append (a b : Log) : fed (a ++ b) = fed a ++ fed b :=
  List.filterMap_append ..

theorem currentConnection_stays {a b : Log} (h : Adds Obs.stays a b) :
    ∃ es, b = a ++ es ∧ currentConnection b = currentConnection a ++ es := by
  obtain ⟨es, rfl, hes⟩ := h
  refine ⟨es, rfl, ?_⟩
  induction es using List.reverseRecOn with
  | nil => rw [List.append_nil, List.append_nil]
  | append_singleton es e ih =>
    have hrest := ih fun x hx => hes x (List.mem_append_left _ hx)
    have he := Obs.ne_open_of_stays (hes e (by simp))
    unfold currentConnection at hrest ⊢
    rw [← List.append_assoc, cutConnections_snoc _ he, hrest, List.append_assoc]

/-- What is added to the connection is what is added to the log. -/
theorem fedNow_of_fed {a b : Log} (h : Adds Obs.stays a b) {bytes : Bytes}
    (hfed : fed b = fed a ++ bytes) : fedNow b = fedNow a ++ bytes := by
  obtain ⟨es, rfl, hcur⟩ := currentConnection_stays h
  rw [fed_append] at hfed
  unfold fedNow
  rw [hcur, fed_append, List.append_cancel_left hfed]

theorem fed_mute {a b : Log} (h : Adds Obs.mute a b) : fed b = fed a := by
  obtain ⟨es, rfl, hes⟩ := h
  have hnone : fed es = [] := by
    apply List.filterMap_eq_nil_iff.mpr
    intro e he
    have hmute := hes e he
    split
    · next b heq =>
      rw [heq] at hmute
      exact absurd hmute Bool.false_ne_true
    · rfl
  rw [fed_append, hnone, List.append_nil]

theorem fedNow_mute {a b : Log} (h : Adds Obs.mute a b) : fedNow b = fedNow a := by
  have hsame : fed b = fed a ++ [] := (fed_mute h).trans (List.append_nil _).symm
  rw [fedNow_of_fed (h.mono fun _ => Obs.stays_of_mute) hsame, List.append_nil]

theorem fedNow_open (log : Log) (url : Mem) (headers : List (Option Mem)) (r : Int)
    (c : SseClient) : fedNow (log ++ [⟨.transportOpen url headers r, c⟩]) = [] := by
  unfold fedNow currentConnection
  rw [cutConnections_open]
  rfl

/-- What has been written to the buffer is what is taken out of it. -/
theorem take_fillBuffer {buf bytes : Mem} (h : bytes.length ≤ buf.length) :
    (fillBuffer buf bytes).take bytes.length = bytes := by
  unfold fillBuffer
  rw [List.take_take, Nat.min_eq_left h, List.take_left]

/-- The result of a read is fed whole, unless a stop was requested meanwhile, and then the client is
CLOSED. -/
theorem fed_pollRead (env : Env) (w : World) {r : Int} {bytes : Bytes}
    (hcount : bytes.length = r.toNat) (hfit : bytes.length ≤ w.client.rxBuf.length)
    (hbuf : w.client.rxBuf.take bytes.length = bytes) :
    fed (pollRead env w r).2.log = fed w.log ++ bytes ∨
      (fed (pollRead env w r).2.log = fed w.log ∧
        (pollRead env w r).2.client.state = .closed) := by
  unfold pollRead
  split
  · exact .inr ⟨fed_mute ((permits_mute fun _ => false).toClosed env w), toClosed_state env w⟩
  · split
    · have hroom : ¬ w.client.rxBuf.length < r.toNat := by omega
      rw [if_neg hroom]
      refine .inl ?_
      have hclock : Adds Obs.mute w.log (receive w (env.time w.log)).log := .one _ rfl
      show fed (clientFeed env (receive w (env.time w.log)) (w.client.rxBuf.take r.toNat)).log = _
      rw [fed_clientFeed, fed_mute hclock, ← hcount, hbuf]
    · next hneg =>
      -- nothing was returned
      have hnil : bytes = [] := List.length_eq_zero_iff.mp (by omega)
      rw [hnil, List.append_nil]
      split
      · exact .inl (fed_mute ((permits_mute fun _ => true).pollTimeout rfl env w))
      · exact .inl (fed_mute ((permits_mute fun _ => true).failConn env w rfl _ _))

/-! ## §3 Nothing Is Lost on the Way -/

/-- The client has fed the beginning of what the transport has returned, and all of it if it is
OPEN. -/
def Relayed (T : Transport σ) (w : World) : Prop :=
  ∃ rest, T.returned w.log = fedNow w.log ++ rest ∧ (w.client.state = .opened → rest = [])

theorem Relayed.quiet {v : World} (h : Relayed T w)
    (hadds : ∀ p, Permits p (fun _ => false) → Adds p w.log v.log)
    (hs : v.client.state = .opened → w.client.state = .opened) : Relayed T v := by
  obtain ⟨rest, heq, hrest⟩ := h
  refine ⟨rest, ?_, fun hopen => hrest (hs hopen)⟩
  rw [returned_passive (hadds _ (permits_passive _)), fedNow_mute (hadds _ (permits_mute _))]
  exact heq

theorem Relayed.call (h : Relayed T w) (c : ApiCall) : Relayed T (w.push (.call c)) := by
  obtain ⟨rest, heq, hrest⟩ := h
  have hpassive : Adds Obs.passive w.log (w.push (.call c)).log := .one _ rfl
  have hmute : Adds Obs.mute w.log (w.push (.call c)).log := .one _ rfl
  refine ⟨rest, ?_, hrest⟩
  rw [returned_passive hpassive, fedNow_mute hmute]
  exact heq

/-- A poll that reads relays what the read returns. -/
theorem Relayed.read (hT : T.Sound) (h : Relayed T (w.push (.call .poll)))
    (hs : w.client.state = .opened) {reply : ReadReply}
    (hreply : reply = T.readReply base (w.push (.call .poll)).log) :
    Relayed T (pollRead env
      (readOnce (w.push (.call .poll)) reply.result reply.bytes reply.stop) reply.result).2 := by
  let v := w.push (.call .poll)
  let u := readOnce v reply.result reply.bytes reply.stop
  let r := T.readFn (T.stateOf v.log) w.client.rxBuf.length w.client.cfg.readTimeoutMs
  have hanswer : reply.result = r.1 ∧ reply.bytes = r.2.1 := by
    have hlast : v.log.getLast? = some ⟨.call .poll, w.client⟩ := List.getLast?_concat
    rw [hreply]
    show (T.readReply base v.log).result = _ ∧ (T.readReply base v.log).bytes = _
    unfold Transport.readReply
    rw [hlast]
    exact ⟨rfl, rfl⟩
  -- nothing was left over, since the client is OPEN
  obtain ⟨rest, hall, hrest⟩ := h
  rw [hrest hs, List.append_nil] at hall
  have hread : T.returned u.log = fedNow v.log ++ reply.bytes := by
    rw [hanswer.2, ← hall]
    exact returned_read ..
  have hpassive := pollRead_passive env u reply.result
  have hstays : Adds Obs.stays v.log (pollRead env u reply.result).2.log :=
    (Adds.one v.log rfl).trans (hpassive.mono fun _ => Obs.stays_of_passive)
  have hsame : fed u.log = fed v.log := fed_mute (.one _ rfl)
  obtain ⟨hcount, hfit⟩ := hT (T.stateOf v.log) w.client.rxBuf.length w.client.cfg.readTimeoutMs
  rw [← hanswer.1, ← hanswer.2] at hcount
  rw [← hanswer.2] at hfit
  have hbuf : u.client.rxBuf.take reply.bytes.length = reply.bytes := take_fillBuffer hfit
  have hroom : reply.bytes.length ≤ u.client.rxBuf.length := by
    show _ ≤ (fillBuffer w.client.rxBuf reply.bytes).length
    rwa [length_fillBuffer]
  unfold Relayed
  rw [returned_passive hpassive, hread]
  rcases fed_pollRead env u hcount hroom hbuf with hfed | ⟨hfed, hclosed⟩
  · -- what was returned has been fed
    rw [hsame] at hfed
    refine ⟨[], ?_, fun _ => rfl⟩
    rw [fedNow_of_fed hstays hfed, List.append_nil]
  · -- it is left over, since a stop was requested during the read
    rw [hsame, ← List.append_nil (fed v.log)] at hfed
    refine ⟨reply.bytes, ?_, ?_⟩
    · rw [fedNow_of_fed hstays hfed, List.append_nil]
    · intro hopen
      rw [hclosed] at hopen
      cases hopen

/-- **The client relays what the transport returns.** -/
theorem over_relays (hT : T.Sound) (h : Reachable (T.under base) cfg w) : Relayed T w := by
  refine reachable_induction (P := Relayed T) ?_ ?_ h
  · intro w₀ hw₀
    refine ⟨[], ?_, fun _ => rfl⟩
    rw [init_log hw₀]
    rfl
  · intro w call hw hrel
    have hv := hrel.call call
    cases call with
    | close =>
      refine hv.quiet (fun p hp => hp.toClosed (T.under base) _) ?_
      intro hopen
      have hclosed := toClosed_state (T.under base) (w.push (.call .close))
      exact absurd (hclosed.symm.trans hopen) (by simp)
    | requestStop => exact hv.quiet (fun p _ => .refl _ _) id
    | poll =>
      cases pollPart (T.under base) w with
      | quiet hstate hadds => exact hv.quiet hadds fun hopen => absurd hopen hstate
      | connect reply hreply hs hadds =>
        -- the new connection starts with nothing on either side
        refine ⟨[], ?_, fun _ => rfl⟩
        rw [returned_passive (hadds _ (permits_passive _)), fedNow_mute (hadds _ (permits_mute _)),
          List.append_nil]
        exact (returned_open ..).trans (fedNow_open ..).symm
      | read reply hreply hs heq =>
        rw [heq]
        exact hv.read hT hs hreply

/-! ## §4 What Is Received -/

/-- A byte is fed by a client that is OPEN, or that was CLOSED while the result of its read was
being fed. -/
def FedAlive (_ : Log) (e : Entry) : Prop :=
  ∀ b, e.obs = .byte b → e.client.state = .opened ∨ e.client.state = .closed

/-- Only the parser's next byte is recorded as one. -/
theorem fedAlive_step {s t : Phase × World} (h : Step env s t) (hs : Always FedAlive s.2.log) :
    Always FedAlive t.2.log := by
  have hquiet : ∀ {log : Log}, AddsIncidental s.2.log log → Always FedAlive log := by
    rintro _ ⟨es, rfl, hes⟩
    apply hs.append
    intro e he _ b hobs
    exact absurd hobs ((incidental_cases (hes e he)).2.2.2 b)
  have hopen : ∀ {log : Log} {url : Mem} {hs : List (Option Mem)} {r : Int} {c : SseClient},
      AddsIncidental (s.2.log ++ [⟨.transportOpen url hs r, c⟩]) log → Always FedAlive log := by
    rintro _ url headers r c ⟨es, rfl, hes⟩
    have hone : Always FedAlive (s.2.log ++ [⟨.transportOpen url headers r, c⟩]) :=
      always_snoc.mpr ⟨hs, by simp [FedAlive]⟩
    apply hone.append
    intro e he _ b hobs
    exact absurd hobs ((incidental_cases (hes e he)).2.2.2 b)
  -- every other step adds entries that are no bytes
  cases id h with
  | byte w b halive hread => exact always_snoc.mpr ⟨hs, fun _ _ => halive⟩
  | deliver w c rest called =>
    obtain ⟨es, hlog, -, hes⟩ := delivered_adds w c
    show Always FedAlive (delivered w c).log
    rw [hlog]
    exact hs.append fun e he _ b hobs => absurd hobs ((hes e he).2 b)
  | call w c => exact hquiet (.one _ rfl)
  | stop ph w => exact hs
  | close ph w hph => exact hquiet (closing_adds w)
  | tick w => exact hquiet (.one _ rfl)
  | connect w stop hstate => exact hopen (.refl _)
  | connectFail w result stop hstate hr => exact hopen (closeTransport_adds (attempt w _ result stop))
  | reject w => exact hquiet (closeTransport_adds w)
  | accept w => exact hquiet (openConnection_adds w _)
  | read w result bytes stop hstate => exact hquiet (.one _ rfl)
  | drop w hstate => exact hquiet (closeTransport_adds w)
  | receive w hstate => exact hquiet (.one _ rfl)
  | parsed w called => exact hs
  | consult w e hstate => exact hquiet (.one _ rfl)
  | refuse w e hstate hr => exact hquiet (refusal_adds w hr)
  | retry w e retryAfterS hstate hr ha => exact hquiet (schedule_adds w hr _ _)
  | abandon ph w hph hstate => exact hs
  | due w hstate => exact hquiet (.one _ rfl)
  | finish ph w hph => exact hs

theorem reachable_fedAlive (h : Reachable env cfg w) : Always FedAlive w.log := by
  refine (reachable_invariant (I := fun p => Always FedAlive p.2.log) ?_
    (fun _ _ hst _ => fedAlive_step hst) h).2
  intro w₀ hw₀
  show Always FedAlive w₀.log
  rw [init_log hw₀]
  exact always_nil _

/-- Once an entry finds the client CLOSED, all later ones do: what is received is the beginning of
what is fed. -/
theorem prefix_of_received {es : Log} (halive : ∀ e ∈ es, FedAlive [] e)
    (hfinal : es.Pairwise fun e x => e.client.state = .closed → x.client.state = .closed) :
    received es <+: fed es := by
  induction es with
  | nil => exact List.prefix_rfl
  | cons e es ih =>
    obtain ⟨hlater, hrest⟩ := List.pairwise_cons.mp hfinal
    by_cases hclosed : e.client.state = .closed
    · -- from here on nothing is received
      have hnone : received (e :: es) = [] := by
        apply List.filterMap_eq_nil_iff.mpr
        intro x hx
        have hx' : x.client.state = .closed := by
          rcases List.mem_cons.mp hx with rfl | hx
          · exact hclosed
          · exact hlater x hx hclosed
        obtain ⟨o, c⟩ := x
        cases o with
        | byte b => exact if_neg (by rw [hx']; exact ClientState.noConfusion)
        | _ => rfl
      rw [hnone]
      exact List.nil_prefix
    · have hes := ih (fun x hx => halive x (List.mem_cons_of_mem _ hx)) hrest
      obtain ⟨o, c⟩ := e
      cases o with
      | byte b =>
        -- the byte is fed while the client is OPEN, so it counts
        have hopen : c.state = .opened :=
          (halive _ List.mem_cons_self b rfl).resolve_right hclosed
        have hrec : received (⟨.byte b, c⟩ :: es) = b :: received es :=
          List.filterMap_cons_some (if_pos hopen)
        rw [hrec]
        exact (List.cons_prefix_cons).mpr ⟨rfl, hes⟩
      | _ => exact hes

/-- And all of it if no entry finds the client CLOSED. -/
theorem received_eq {es : Log} (halive : ∀ e ∈ es, FedAlive [] e)
    (hopen : ∀ e ∈ es, e.client.state ≠ .closed) : received es = fed es := by
  apply List.filterMap_congr
  intro e he
  obtain ⟨o, c⟩ := e
  cases o with
  | byte b => exact if_pos ((halive _ he b rfl).resolve_right (hopen _ he))
  | _ => rfl

/-- The current connection is the end of the log. -/
theorem currentConnection_suffix (log : Log) : currentConnection log <:+ log := by
  have hflat := connections_flatten log
  unfold connections at hflat
  rw [List.flatten_append, List.flatten_singleton] at hflat
  exact ⟨_, hflat⟩

/-- What the client has received on the current connection, against what it has fed. -/
theorem received_current (h : Reachable env cfg w) :
    received (currentConnection w.log) <+: fedNow w.log ∧
      (w.client.state = .opened → received (currentConnection w.log) = fedNow w.log) := by
  have hlife := reachable_life h
  have halive := reachable_fedAlive h
  have hsuffix := currentConnection_suffix w.log
  have hall : ∀ e ∈ currentConnection w.log, FedAlive [] e := by
    intro e he
    obtain ⟨pre, post, hlog⟩ := List.append_of_mem (hsuffix.subset he)
    exact halive pre e post hlog
  have hfinal : w.log.Pairwise fun e x => e.client.state = .closed → x.client.state = .closed := by
    apply List.pairwise_iff_getElem.mpr
    intro i j hi hj hij hclosed
    have hentry := always_iff_getElem.mp hlife.entries j hj
    have hmem : w.log[i] ∈ w.log.take j := by
      apply List.mem_take_iff_getElem.mpr
      exact ⟨i, by omega, rfl⟩
    exact (hentry.later _ hmem hclosed).state
  refine ⟨prefix_of_received hall (hfinal.sublist hsuffix.sublist), ?_⟩
  intro hopen
  apply received_eq hall
  intro e he hclosed
  have hfrozen := (hlife.past e (hsuffix.subset he) hclosed).state
  rw [hopen] at hfrozen
  cases hfrozen

/-! ## §5 From the Transport to the Application -/

/-- While the client is OPEN it has received all that the transport has returned. -/
theorem received_open (hT : T.Sound) (h : Reachable (T.under base) cfg w)
    (hopen : w.client.state = .opened) :
    received (currentConnection w.log) = T.returned w.log := by
  obtain ⟨rest, hreturned, hrest⟩ := over_relays hT h
  rw [(received_current h).2 hopen, hreturned, hrest hopen]
  exact (List.append_nil _).symm

/-- What the application has been told on the current connection is the reading of the bytes
received. -/
theorem signals_current (h : Reachable env cfg w) :
    signals (currentConnection w.log) =
      (readingWithTail (clientLimits cfg) (received (currentConnection w.log))).filterMap
        (reportSignal cfg.callbacks) := by
  have hmem : currentConnection w.log ∈ connections w.log :=
    List.mem_append_right _ (List.mem_singleton_self _)
  have htold := (reachable_tells h).told _ hmem
  have hheard := (reachable_hears h).allHeard _ hmem
  unfold Told at htold
  rw [htold, hheard]

/-- **The application hears what the transport returns.** Over any transport whose reads count what
they return: on the current connection the application has been told what the specification's
reading makes of the beginning of the bytes that the transport has returned, and of all of them
while the client is OPEN. -/
theorem over_tells (hT : T.Sound) (h : Reachable (T.under base) cfg w) :
    ∃ bytes, bytes <+: T.returned w.log ∧
      (w.client.state = .opened → bytes = T.returned w.log) ∧
      signals (currentConnection w.log) =
        (readingWithTail (clientLimits cfg) bytes).filterMap (reportSignal cfg.callbacks) := by
  obtain ⟨hbegins, hopen⟩ := received_current h
  obtain ⟨rest, hall, hrest⟩ := over_relays hT h
  refine ⟨received (currentConnection w.log), ?_, ?_, signals_current h⟩
  · rw [hall]
    exact hbegins.trans (List.prefix_append _ _)
  · intro hs
    rw [hall, hrest hs, List.append_nil]
    exact hopen hs

/-- A read is the first thing that a poll of an OPEN client does. -/
theorem read_origin (h : Reachable env cfg w) :
    Always (fun pre e => ∀ len timeoutMs r, e.obs = .transportRead len timeoutMs r →
      ∃ v, Reachable env cfg v ∧ v.client.state = .opened ∧
        pre = (v.push (.call .poll)).log) w.log := by
  refine reachable_questions ?_ ?_ ?_ h
  · intro pre e he len timeoutMs r hobs
    rw [hobs] at he
    exact absurd he Bool.false_ne_true
  · intro v _ _ past c len timeoutMs r hobs
    cases hobs
  · intro v hv hs past len timeoutMs r _
    exact ⟨v, hv, hs, rfl⟩

end EventSource.System
