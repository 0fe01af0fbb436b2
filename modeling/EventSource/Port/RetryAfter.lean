import EventSource.Client.ConnectPolicy
import EventSource.Client.RetryDelay
import EventSource.Port.EspOpen
import EventSource.Port.FinalResponse

/-!
# Retry-After from the Wire to the Deadline

A decimal number in a Retry-After field, followed through both transports into the delay that the
client schedules. The number crosses `strtol`, a conversion to `int32_t` and a clamp, and `long` has
64 bits below one transport and 32 below the other.
-/

namespace EventSource.Port

open EventSource.CMemory
open EventSource.Parser
open EventSource.Client
open EventSource.WrapClock
open EventSource.Trace

/-! ## §1 A Scheduled Retry -/

/-- For a rejected status a retry has been scheduled, `delay` after the last reading of the clock, and
the application has been told if it listens. -/
def SchedulesRetry (env : Env) (v : World) (status : Int) (delay : UInt32) : Prop :=
  ∃ u t, Waiting t delay u.client ∧ lastReading u.log = some t ∧
    v = if u.client.cfg.callbacks.onError then
        callUser env u (.onError ⟨.httpStatus, status, true, delay⟩)
      else u

/-- The deadline and the last reading of the clock stay as they are. -/
def KeepsDeadline (w v : World) : Prop :=
  v.client.retryDeadline = w.client.retryDeadline ∧ lastReading v.log = lastReading w.log

theorem KeepsDeadline.trans {u v w : World} (h : KeepsDeadline u v) (h' : KeepsDeadline v w) :
    KeepsDeadline u w :=
  ⟨h'.1.trans h.1, h'.2.trans h.2⟩

theorem keepsDeadline_push (w : World) {o : Obs} (ho : o.reading = none) :
    KeepsDeadline w (w.push o) := by
  refine ⟨rfl, ?_⟩
  have hnone : lastReading [⟨o, w.client⟩] = none := by
    unfold lastReading
    simp [ho]
  rw [push_log, lastReading_append, hnone, Option.none_or]

theorem survives_deadline (w : World) : SurvivesClosing (KeepsDeadline w) where
  transport := fun v h => h.trans (keepsDeadline_push v rfl)
  closed := fun _ h => h
  onClosed := fun v h => h.trans (keepsDeadline_push v rfl)

/-- A callback can close and stop the client, but the deadline stays what it was. -/
theorem keepsDeadline_callUser (env : Env) (w : World) {o : Obs} (ho : o.reading = none) :
    KeepsDeadline w (callUser env w o) :=
  (survives_deadline w).acts (fun _ h => h) env _ (keepsDeadline_push w ho)

/-- There is one delay. -/
theorem SchedulesRetry.unique {env : Env} {v : World} {status : Int} {d e : UInt32}
    (hd : SchedulesRetry env v status d) (he : SchedulesRetry env v status e) : d = e := by
  have hshown : ∀ {delay : UInt32}, SchedulesRetry env v status delay →
      ∃ t, lastReading v.log = some t ∧ v.client.retryDeadline = shown t + delay := by
    rintro delay ⟨u, t, hwaiting, hclock, rfl⟩
    refine ⟨t, ?_⟩
    split
    · obtain ⟨hdeadline, hreading⟩ := keepsDeadline_callUser env u
        (o := .onError ⟨.httpStatus, status, true, delay⟩) rfl
      exact ⟨hreading.trans hclock, hdeadline.trans hwaiting.deadline⟩
    · exact ⟨hclock, hwaiting.deadline⟩
  obtain ⟨t, ht, hdeadline⟩ := hshown hd
  obtain ⟨t', ht', hdeadline'⟩ := hshown he
  obtain rfl := Option.some.inj (ht.symm.trans ht')
  exact (UInt32.add_right_inj (shown t)).mp (hdeadline.symm.trans hdeadline')

/-! ## §2 The Client -/

/-- The client is about to connect, without jitter and without a hook. -/
structure Connects (w : World) : Prop where
  state : w.client.state = .idle ∨ w.client.state = .connecting
  running : w.client.stopRequested = false
  jitter : w.client.cfg.jitterPct = 0
  policy : w.client.cfg.reconnectPolicy = false

/-- The next call of `open` returns this result and this response. -/
structure Receives (env : Env) (w : World) (result : Int) (info : SseResponseInfo) : Prop where
  result : (env.openReply (w.push (.call .poll)).log).result = result
  info : (env.openReply (w.push (.call .poll)).log).fill ⟨0, [0], -1⟩ = info

/-- The Retry-After counts as present, and the client schedules a retry after exactly this number of
seconds, or the longest delay there is. -/
def Honours (env : Env) (w : World) (info : SseResponseInfo) (seconds : Nat) : Prop :=
  0 ≤ info.retryAfterS ∧
    ∃ delay : UInt32, delay.toNat = min (1000 * seconds) (2 ^ 31 - 1) ∧
      SchedulesRetry env (apply env w .poll) info.statusCode delay

/-- A retry that is scheduled after a rejected status. -/
theorem scheduleRetry_schedules (env : Env) (w : World) (status : Int) (retryAfterS : Int32) :
    SchedulesRetry env (scheduleRetry env w ⟨.httpStatus, status, true, 0⟩ retryAfterS) status
      (retryDelay w.client retryAfterS).1 := by
  let r := retryDelay w.client retryAfterS
  let t := env.time w.log
  let u : World := ((w.update fun _ => { r.2 with attempts := r.2.attempts + 1 }).push
    (.clock t)).update fun c => { c with retryDeadline := .ofNat t + r.1, state := .waitingRetry }
  refine ⟨u, t, ⟨rfl, rfl, retryDelay_lt w.client retryAfterS⟩, ?_, rfl⟩
  show lastReading (w.log ++ [⟨.clock t, _⟩]) = some t
  rw [lastReading_append]
  rfl

/-- A present Retry-After is what the retry waits for, whatever the rejected status. -/
theorem poll_schedules {env : Env} {w : World} (hw : Connects w) {info : SseResponseInfo}
    (hreply : Receives env w 0 info) (hstatus : 400 ≤ info.statusCode)
    (hpresent : 0 ≤ info.retryAfterS) :
    ∃ delay : UInt32, delay.toNat = min (2 ^ 31 - 1) (1000 * info.retryAfterS.toInt.toNat) ∧
      SchedulesRetry env (apply env w .poll) info.statusCode delay := by
  let u := w.push (.call .poll)
  let reply := env.openReply u.log
  let v := (attempt u (env.extraHeaders u.log) reply.result reply.stop).update fun c =>
    { c with transportOpen := true }
  have hcfg : (closeTransport v).client.cfg = w.client.cfg := by
    have hattempt : v.client.cfg = w.client.cfg :=
      attempt_cfg u (env.extraHeaders u.log) reply.result reply.stop
    rcases closeTransport_cases v with ⟨-, heq⟩ | ⟨-, heq⟩ <;> rw [heq] <;> exact hattempt
  have hconnect : doConnect env u = judgeResponse env v info := by
    have hzero : ¬ reply.result ≠ 0 := not_not_intro hreply.result
    unfold doConnect
    rw [← hreply.info]
    exact if_neg hzero
  have h204 : ¬ info.statusCode = 204 := by omega
  have h200 : info.statusCode ≠ 200 := by omega
  have hjudge : judgeResponse env v info =
      failConn env v .httpStatus info.statusCode info.retryAfterS := by
    unfold judgeResponse
    rw [if_neg h204, if_pos h200]
  have hretry : defaultShouldRetry .httpStatus info.statusCode info.retryAfterS = true :=
    (defaultShouldRetry_httpStatus _ _).mpr (.inr (.inr hpresent))
  have hfail : failConn env v .httpStatus info.statusCode info.retryAfterS =
      scheduleRetry env (closeTransport v) ⟨.httpStatus, info.statusCode, true, 0⟩
        info.retryAfterS := by
    -- nobody is asked: the default retries, since a Retry-After is present
    have hpolicy : (closeTransport v).client.cfg.reconnectPolicy = false := by
      rw [hcfg]
      exact hw.policy
    unfold failConn
    simp only [hpolicy, hretry, Bool.false_eq_true, if_false]
    rfl
  have hjitter : jitter (closeTransport v).client = 0 := by
    apply jitter_of_zero
    rw [hcfg]
    exact hw.jitter
  refine ⟨(retryDelay (closeTransport v).client info.retryAfterS).1, ?_, ?_⟩
  · rw [retryDelay_toNat, jitteredDelay, hjitter, Nat.mul_zero, Nat.zero_div, Nat.add_zero,
      plannedDelay, if_pos hpresent]
  · rw [poll_connects env hw.state hw.running, hconnect, hjudge, hfail]
    exact scheduleRetry_schedules env _ _ _

/-- **The client's half.** A number of seconds is honoured if the transport's number makes the same
delay. -/
theorem honours_iff {env : Env} {w : World} (hw : Connects w) {info : SseResponseInfo}
    (hreply : Receives env w 0 info) (hstatus : 400 ≤ info.statusCode) (seconds : Nat) :
    Honours env w info seconds ↔
      0 ≤ info.retryAfterS ∧
        min (1000 * info.retryAfterS.toInt.toNat) (2 ^ 31 - 1) =
          min (1000 * seconds) (2 ^ 31 - 1) := by
  unfold Honours
  refine and_congr_right fun hpresent => ?_
  obtain ⟨delay, hdelay, hschedules⟩ := poll_schedules hw hreply hstatus hpresent
  rw [Nat.min_comm] at hdelay
  rw [← hdelay]
  constructor
  · rintro ⟨d, hd, hd'⟩
    rw [← hd, hd'.unique hschedules]
  · intro heq
    exact ⟨delay, heq, hschedules⟩

/-! ## §3 The Conversion -/

/-- The seconds that the conversion from a 64-bit `long` leaves are as good as the number sent: it
fits, or the low 32 bits of the saturated number also make the longest delay. -/
def SurvivesInt32 (seconds : Nat) : Prop :=
  seconds < 2 ^ 31 ∨
    2147484 ≤ min seconds (2 ^ 63 - 1) % 2 ^ 32 ∧ min seconds (2 ^ 63 - 1) % 2 ^ 32 < 2 ^ 31

instance (seconds : Nat) : Decidable (SurvivesInt32 seconds) :=
  inferInstanceAs (Decidable (_ ∨ _))

/-- The conversion keeps the low 32 bits. -/
theorem toInt_ofInt_natCast (n : Nat) :
    (Int32.ofInt (n : Int)).toInt =
      if n % 2 ^ 32 < 2 ^ 31 then ((n % 2 ^ 32 : Nat) : Int)
      else ((n % 2 ^ 32 : Nat) : Int) - 2 ^ 32 := by
  rw [Int32.toInt_ofInt, Int.bmod_def]
  have hsize : (Int32.size : Int) = 2 ^ 32 := rfl
  rw [hsize]
  split <;> split <;> omega

/-- Seconds that were read from a 64-bit `long` make the right delay exactly if they survive. -/
theorem kept_seconds_iff (seconds : Nat) :
    (0 ≤ Int32.ofInt (min seconds (2 ^ 63 - 1) : Nat) ∧
        min (1000 * (Int32.ofInt (min seconds (2 ^ 63 - 1) : Nat)).toInt.toNat) (2 ^ 31 - 1) =
          min (1000 * seconds) (2 ^ 31 - 1)) ↔
      SurvivesInt32 seconds := by
  have hint := toInt_ofInt_natCast (min seconds (2 ^ 63 - 1))
  rw [Int32.le_iff_toInt_le, Int32.toInt_zero, hint]
  unfold SurvivesInt32
  generalize hlow : min seconds (2 ^ 63 - 1) % 2 ^ 32 = low
  by_cases hpos : low < 2 ^ 31
  · rw [if_pos hpos, Int.toNat_natCast]
    -- a number that fits is its own low half
    have hsame : seconds < 2 ^ 31 → low = seconds := by omega
    omega
  · rw [if_neg hpos]
    omega

/-- A 32-bit `long` saturates before the conversion, which then changes nothing. -/
theorem saturated_seconds (seconds : Nat) :
    0 ≤ Int32.ofInt (min seconds (2 ^ 31 - 1) : Nat) ∧
      min (1000 * (Int32.ofInt (min seconds (2 ^ 31 - 1) : Nat)).toInt.toNat) (2 ^ 31 - 1) =
        min (1000 * seconds) (2 ^ 31 - 1) := by
  have hint := toInt_ofInt_natCast (min seconds (2 ^ 31 - 1))
  have hfits : min seconds (2 ^ 31 - 1) % 2 ^ 32 = min seconds (2 ^ 31 - 1) := by omega
  rw [hfits, if_pos (by omega)] at hint
  rw [Int32.le_iff_toInt_le, Int32.toInt_zero, hint, Int.toNat_natCast]
  omega

/-! ## §4 The Field -/

/-- `'\t'`. -/
def tab : UInt8 := 0x09

/-- A decimal number. -/
structure IsDelay (digits : Bytes) : Prop where
  ne_nil : digits ≠ []
  digits : ∀ b ∈ digits, isDigit b = true

/-- Entries that a fold passes over do not matter to it. -/
theorem foldl_single {α β : Type} {f : β → α → β} {pre post : List α} (x : α) (b : β)
    (hquiet : ∀ y ∈ pre ++ post, ∀ c, f c y = c) : (pre ++ x :: post).foldl f b = f b x := by
  have hskip : ∀ {l : List α}, (∀ y ∈ l, ∀ c, f c y = c) → ∀ c, l.foldl f c = c := by
    intro l hl
    induction l with
    | nil => exact fun c => rfl
    | cons y l ih =>
      intro c
      rw [List.foldl_cons, hl y (List.mem_cons_self ..)]
      exact ih (fun z hz => hl z (List.mem_cons_of_mem _ hz)) c
  rw [List.foldl_append, hskip fun y hy => hquiet y (List.mem_append_left _ hy), List.foldl_cons,
    hskip fun y hy => hquiet y (List.mem_append_right _ hy)]

/-! ## §5 Through curl -/

/-- A Retry-After line: the name in any case, white space, the number, and something that is no
digit. -/
structure RetryAfterLine (l : HeaderLine) (gap digits : Bytes) : Prop where
  text : ∃ name rest, name.map asciiLower = retryAfterName ∧ EndsDigits rest ∧
    l.1 = name ++ (gap ++ (digits ++ rest))
  length : retryAfterName.length + (gap.length + digits.length) ≤ l.2
  gap : ∀ b ∈ gap, b = space ∨ b = tab
  delay : IsDelay digits

/-- The lines of an answer in front of those of its final block. -/
def Answer.interimLines (a : Answer) : List HeaderLine :=
  a.interim.flatMap HeaderBlock.lines

/-- The answer has one Retry-After line, in its final block between `pre` and `post`. -/
structure Answer.Announces (a : Answer) (pre post : List HeaderLine) (gap digits : Bytes) : Prop where
  line : ∃ l, a.final.fields = pre ++ l :: post ∧ RetryAfterLine l gap digits
  others : ∀ x ∈ a.interim.flatMap HeaderBlock.fields ++ (pre ++ post),
    startsWithCase x.1 retryAfterName = false

/-- The lines in front of the Retry-After line seem complete at no time, and no line behind it begins
with `HTTP/`. -/
structure Answer.KeepsRetryAfter (a : Answer) (pre post : List HeaderLine) : Prop where
  notEarly : ∀ ls, ls <+: a.interimLines ++ a.final.statusLine :: pre → ¬ Completes ls
  notLate : ∀ x ∈ post, ¬ IsStatusLine x

/-- Of the white space the handler skips the spaces up to the first tab. -/
theorem takeWhile_gap {gap digits rest : Bytes} {m : Nat} (hgap : ∀ b ∈ gap, b = space ∨ b = tab)
    (hdelay : IsDelay digits) (hm : gap.length + digits.length ≤ m) :
    let spaces := ((gap ++ (digits ++ rest)).take m).takeWhile (· = space)
    (tab ∉ gap → spaces = gap) ∧
      (tab ∈ gap → ∃ more, gap ++ (digits ++ rest) = spaces ++ tab :: more) := by
  induction gap generalizing m with
  | nil =>
    refine ⟨fun _ => ?_, fun h => absurd h List.not_mem_nil⟩
    -- behind the gap comes a digit, which is no space
    obtain ⟨d, ds, rfl⟩ := List.exists_cons_of_ne_nil hdelay.ne_nil
    have hd : ¬ d = space := by
      rintro rfl
      exact absurd (hdelay.digits space (List.mem_cons_self ..)) (by decide)
    obtain ⟨k, rfl⟩ : ∃ k, m = k + 1 := ⟨m - 1, by simp at hm; omega⟩
    simp [hd]
  | cons b gap ih =>
    obtain ⟨k, rfl⟩ : ∃ k, m = k + 1 := ⟨m - 1, by simp at hm; omega⟩
    rcases hgap b (List.mem_cons_self ..) with rfl | rfl
    · have hne : ¬ tab = space := by decide
      obtain ⟨hnone, hsome⟩ := @ih k (fun x hx => hgap x (List.mem_cons_of_mem _ hx))
        (by simp at hm; omega)
      simp only [List.cons_append, List.take_succ_cons, List.takeWhile_cons, decide_true, if_true,
        List.mem_cons, hne, false_or, List.cons.injEq, true_and]
      exact ⟨hnone, hsome⟩
    -- the first tab ends what is skipped
    · refine ⟨fun h => absurd (List.mem_cons_self ..) h, fun _ => ⟨gap ++ (digits ++ rest), ?_⟩⟩
      have hne : ¬ tab = space := by decide
      simp [hne]

/-- It is long, and no status line. -/
theorem RetryAfterLine.long {l : HeaderLine} {gap digits : Bytes} (h : RetryAfterLine l gap digits) :
    12 < l.2 ∧ ¬ IsStatusLine l := by
  obtain ⟨name, rest, hname, -, htext⟩ := h.text
  have hnameLength : name.length = retryAfterName.length := by rw [← hname, List.length_map]
  have htwelve : retryAfterName.length = 12 := rfl
  have hdigits : 0 < digits.length := List.length_pos_of_ne_nil h.delay.ne_nil
  have hlength := h.length
  refine ⟨by omega, fun hstatus => ?_⟩
  have hra : startsWithCase l.1 retryAfterName = true := by
    unfold startsWithCase
    rw [htext, ← hnameLength, List.take_left, hname]
    exact decide_eq_true rfl
  rw [hstatus.notRetryAfter] at hra
  cases hra

/-- What the line leaves in the field: nothing if a tab comes before the number. -/
theorem retryAfterLine_of_line {l : HeaderLine} {gap digits : Bytes}
    (h : RetryAfterLine l gap digits) (before : Int32) :
    addRetryAfter before l =
      if tab ∈ gap then before else .ofInt (min (decimal digits) (2 ^ 63 - 1) : Nat) := by
  obtain ⟨ptr, n⟩ := l
  obtain ⟨name, rest, hname, hrest, rfl⟩ := h.text
  have hnameLength : name.length = retryAfterName.length := by rw [← hname, List.length_map]
  have htwelve : retryAfterName.length = 12 := rfl
  have hdigits : 0 < digits.length := List.length_pos_of_ne_nil h.delay.ne_nil
  have hlength : retryAfterName.length + (gap.length + digits.length) ≤ n := h.length
  have hline : 12 < n ∧ startsWithCase (name ++ (gap ++ (digits ++ rest))) retryAfterName := by
    refine ⟨by omega, ?_⟩
    unfold startsWithCase
    rw [← hnameLength, List.take_left, hname]
    exact decide_eq_true rfl
  let spaces := ((gap ++ (digits ++ rest)).take (n - retryAfterName.length)).takeWhile (· = space)
  have hread : addRetryAfter before (name ++ (gap ++ (digits ++ rest)), n) =
      if retryAfterName.length + spaces.length < n then
        readSeconds curlLongBits ((gap ++ (digits ++ rest)).drop spaces.length) before
      else before := by
    unfold addRetryAfter
    rw [if_pos hline]
    unfold retryAfterLine
    rw [← hnameLength, List.drop_left, hnameLength]
  obtain ⟨hnone, hsome⟩ := @takeWhile_gap gap digits rest (n - retryAfterName.length) h.gap h.delay
    (by omega)
  rw [hread]
  by_cases htab : tab ∈ gap
  · obtain ⟨more, hmore⟩ : ∃ more, gap ++ (digits ++ rest) = spaces ++ tab :: more := hsome htab
    -- the handler stops at the tab, which is no digit
    have hbefore : readSeconds curlLongBits (tab :: more) before = before := rfl
    rw [if_pos htab, hmore, List.drop_left, hbefore, ite_self]
  · have hgap : spaces = gap := hnone htab
    rw [if_neg htab, hgap, if_pos (by omega), List.drop_left]
    exact readSeconds_digits 64 h.delay.ne_nil h.delay.digits hrest before

/-- Lines without a Retry-After leave it absent. -/
theorem foldl_line_absent {ls : List HeaderLine} {t : Heard} (ht : t.retryAfter = -1)
    (hls : ∀ x ∈ ls, startsWithCase x.1 retryAfterName = false) :
    (ls.foldl Heard.line t).retryAfter = -1 := by
  induction ls generalizing t with
  | nil => exact ht
  | cons l ls ih =>
    refine ih ?_ fun x hx => hls x (List.mem_cons_of_mem _ hx)
    have hl := hls l (List.mem_cons_self ..)
    unfold Heard.line
    split
    · rfl
    · split
      · exact ht
      · unfold addRetryAfter
        rw [hl]
        simpa using ht

/-- If none of them begins with `HTTP/`, they leave it as it is. -/
theorem foldl_line_kept {ls : List HeaderLine} {t : Heard} (hstatus : ∀ x ∈ ls, ¬ IsStatusLine x)
    (hls : ∀ x ∈ ls, startsWithCase x.1 retryAfterName = false) :
    (ls.foldl Heard.line t).retryAfter = t.retryAfter := by
  induction ls generalizing t with
  | nil => rfl
  | cons l ls ih =>
    rw [List.foldl_cons, ih (fun x hx => hstatus x (List.mem_cons_of_mem _ hx))
      fun x hx => hls x (List.mem_cons_of_mem _ hx)]
    have hl := hls l (List.mem_cons_self ..)
    unfold Heard.line
    rw [if_neg (hstatus l (List.mem_cons_self ..))]
    split
    · rfl
    · unfold addRetryAfter
      rw [hl]
      simp

/-- The lines of the answer, with its Retry-After line among them. -/
theorem Answer.lines_announced {a : Answer} {pre post : List HeaderLine} {l : HeaderLine}
    (h : a.final.fields = pre ++ l :: post) :
    a.lines = a.interimLines ++ a.final.statusLine :: pre ++ [l] ++ (post ++ [a.final.blank]) := by
  unfold Answer.lines Answer.interimLines HeaderBlock.lines
  rw [h]
  simp

/-- **What HTTP allows keeps its Retry-After.** -/
theorem Answer.keepsRetryAfter_of_blocks {a : Answer} {pre post : List HeaderLine} {l : HeaderLine}
    (h : a.final.fields = pre ++ l :: post) (hinterim : ∀ b ∈ a.interim, b.Plain)
    (hfinal : a.final.Plain) : a.KeepsRetryAfter pre post := by
  refine ⟨?_, ?_⟩
  · intro ls hls hcompletes
    have hlines := Answer.lines_announced h
    have hpart : ls <+: a.lines := by
      rw [hlines, List.append_assoc]
      exact hls.trans (List.prefix_append _ _)
    -- only the whole answer is complete, and it is longer
    have hall := (Answer.plain_of_blocks hinterim hfinal).whole ls hpart hcompletes
    have hlength := hls.length_le
    rw [hall, hlines] at hlength
    simp only [List.length_append, List.length_singleton] at hlength
    omega
  · intro x hx
    refine hfinal.noStatusLine x ?_
    rw [h]
    exact List.mem_append_right _ (List.mem_cons_of_mem _ hx)

/-- No other line says anything about Retry-After. -/
theorem Answer.Announces.absent {a : Answer} {pre post : List HeaderLine} {gap digits : Bytes}
    (h : a.Announces pre post gap digits) :
    (∀ x ∈ a.interimLines ++ a.final.statusLine :: pre, startsWithCase x.1 retryAfterName = false) ∧
      ∀ x ∈ post ++ [a.final.blank], startsWithCase x.1 retryAfterName = false := by
  -- neither a status line nor a blank line begins with the name
  have hblock : ∀ b ∈ a.interim, ∀ x ∈ b.lines, startsWithCase x.1 retryAfterName = false := by
    intro b hb x hx
    rcases List.mem_cons.mp hx with rfl | hx
    · exact b.begins.notRetryAfter
    · rcases List.mem_append.mp hx with hx | hx
      · exact h.others x (List.mem_append_left _ (List.mem_flatMap.mpr ⟨b, hb, hx⟩))
      · rw [List.mem_singleton.mp hx]
        exact b.ends.notRetryAfter
  constructor
  · intro x hx
    rcases List.mem_append.mp hx with hx | hx
    · obtain ⟨b, hb, hxb⟩ := List.mem_flatMap.mp hx
      exact hblock b hb x hxb
    · rcases List.mem_cons.mp hx with rfl | hx
      · exact a.final.begins.notRetryAfter
      · exact h.others x (List.mem_append_right _ (List.mem_append_left _ hx))
  · intro x hx
    rcases List.mem_append.mp hx with hx | hx
    · exact h.others x (List.mem_append_right _ (List.mem_append_right _ hx))
    · rw [List.mem_singleton.mp hx]
      exact a.final.ends.notRetryAfter

/-- **What is heard of an answer that keeps its Retry-After**, once enough of it has been heard. -/
theorem Answer.Announces.heard {a : Answer} {pre post : List HeaderLine} {gap digits : Bytes}
    (h : a.Announces pre post gap digits) (hkeeps : a.KeepsRetryAfter pre post)
    {ls more : List HeaderLine} (henough : HeardEnough a ls) (hls : ls <+: more)
    (hmore : more <+: a.lines) :
    (hear more).retryAfter =
      if tab ∈ gap then -1 else .ofInt (min (decimal digits) (2 ^ 63 - 1) : Nat) := by
  obtain ⟨l, hfields, hline⟩ := h.line
  obtain ⟨hbefore, hafter⟩ := h.absent
  have hlines := Answer.lines_announced hfields
  have hupto : a.interimLines ++ a.final.statusLine :: pre ++ [l] <+: a.lines := by
    rw [hlines]
    exact List.prefix_append _ _
  -- the line has been delivered by then
  have hreached : a.interimLines ++ a.final.statusLine :: pre ++ [l] <+: ls := by
    obtain ⟨hpart, hend⟩ := henough
    rcases List.prefix_or_prefix_of_prefix hpart hupto with hshort | hlong
    · rcases List.prefix_concat_iff.mp hshort with heq | hshort
      · exact heq ▸ List.prefix_rfl
      · rcases hend with hcompletes | hall
        · exact absurd hcompletes (hkeeps.notEarly ls hshort)
        · rw [hall]
          exact hupto
    · exact hlong
  obtain ⟨rest, hrest⟩ := hreached.trans hls
  have hpost : rest <+: post ++ [a.final.blank] := by
    rw [← hrest, hlines] at hmore
    exact (List.prefix_append_right_inj _).mp hmore
  have hnoStatus : ∀ x ∈ post ++ [a.final.blank], ¬ IsStatusLine x := by
    intro x hx
    rcases List.mem_append.mp hx with hx | hx
    · exact hkeeps.notLate x hx
    · rw [List.mem_singleton.mp hx]
      exact a.final.ends.not_isStatusLine
  have hread : ∀ t : Heard, (t.line l).retryAfter = addRetryAfter t.retryAfter l := by
    intro t
    have hlong := hline.long
    unfold Heard.line
    rw [if_neg hlong.2, if_neg (by omega)]
  rw [← hrest]
  unfold hear
  rw [List.foldl_append, foldl_line_kept (fun x hx => hnoStatus x (hpost.subset hx))
    (fun x hx => hafter x (hpost.subset hx)), List.foldl_append, List.foldl_cons, List.foldl_nil,
    hread, foldl_line_absent rfl hbefore, retryAfterLine_of_line hline]
/-! ## §6 Through `esp_http_client` -/

/-- The header fields of the current response. -/
def fieldsOf (log : EspLog) : List (Mem × Mem) :=
  log.foldl (fun fields e =>
    match e.obs with
    | .request _ => []
    | .redirect _ _ => []
    | .event (.onHeader key value) => fields ++ [(key, value)]
    | _ => fields) []

/-- A header field read for its Retry-After. -/
def addField (before : Int32) (f : Mem × Mem) : Int32 :=
  if isKey f.1 retryAfterKey then
    readSeconds espLongBits ((cstr f.2).dropWhile (· = space)) before
  else before

/-- A Retry-After field as `esp_http_client` hands it over: the number, perhaps behind spaces, and
something that is no digit. -/
structure RetryAfterField (f : Mem × Mem) (digits : Bytes) : Prop where
  key : isKey f.1 retryAfterKey = true
  value : ∃ spaces rest, EndsDigits rest ∧
    cstr f.2 = List.replicate spaces space ++ (digits ++ rest)
  delay : IsDelay digits

/-- The response has one Retry-After field. -/
def EspAnnounces (log : EspLog) (digits : Bytes) : Prop :=
  ∃ pre f post, fieldsOf log = pre ++ f :: post ∧ RetryAfterField f digits ∧
    ∀ x ∈ pre ++ post, isKey x.1 retryAfterKey = false

/-- The context knows the Retry-After of the current response. -/
def KnowsRetryAfter (w : EspWorld) : Prop :=
  w.ctx.retryAfterS = (fieldsOf w.log).foldl addField (-1)

theorem fieldsOf_snoc (log : EspLog) (e : EspEntry) :
    fieldsOf (log ++ [e]) =
      match e.obs with
      | .request _ => []
      | .redirect _ _ => []
      | .event (.onHeader key value) => fieldsOf log ++ [(key, value)]
      | _ => fieldsOf log := by
  unfold fieldsOf
  rw [List.foldl_append]
  rfl

/-- The other header fields leave the Retry-After alone. -/
theorem onHttpEvent_retryAfterS (t : EspCtx) (key value : Mem) :
    (onHttpEvent t (.onHeader key value)).retryAfterS = addField t.retryAfterS (key, value) := by
  have hother : ∀ {name : Bytes}, isKey key name = true → name ≠ retryAfterKey →
      addField t.retryAfterS (key, value) = t.retryAfterS := by
    intro name hkey hne
    refine if_neg fun hretry => hne ?_
    exact (of_decide_eq_true hkey).symm.trans (of_decide_eq_true hretry)
  unfold onHttpEvent
  simp only
  split
  · next hkey => exact (hother hkey (by decide)).symm
  · split
    · next hkey => exact (hother hkey (by decide)).symm
    · unfold addField
      split <;> rfl

/-- What is no header field changes nothing. -/
theorem KnowsRetryAfter.push {w : EspWorld} (h : KnowsRetryAfter w) {o : EspObs}
    (ho : fieldsOf (w.log ++ [⟨o, w.ctx⟩]) = fieldsOf w.log) : KnowsRetryAfter (w.push o) := by
  unfold KnowsRetryAfter
  rw [espPush_log, ho]
  exact h

theorem KnowsRetryAfter.handleEvent {w : EspWorld} (h : KnowsRetryAfter w) (e : EspEvent) :
    KnowsRetryAfter (handleEvent w e) := by
  cases e with
  | other => exact h.push (fieldsOf_snoc _ _)
  | onHeader key value =>
    show (onHttpEvent w.ctx (.onHeader key value)).retryAfterS =
      (fieldsOf (w.log ++ [_])).foldl addField (-1)
    rw [fieldsOf_snoc, onHttpEvent_retryAfterS, h]
    show _ = (fieldsOf w.log ++ [(key, value)]).foldl addField (-1)
    rw [List.foldl_append]
    rfl

theorem KnowsRetryAfter.sendRequest {w : EspWorld} (h : KnowsRetryAfter w) (env : EspEnv) :
    KnowsRetryAfter (sendRequest env w).2 := by
  apply sendRequest_keep KnowsRetryAfter
  · exact h.push (fieldsOf_snoc _ _)
  · exact fun v hv => hv.push (fieldsOf_snoc _ _)
  · exact fun v e _ hv => hv.handleEvent e

/-- **Each hop starts afresh**, so that at the end the context knows the last response. -/
theorem EspHopRun.knowsRetryAfter {env : EspEnv} {left : Nat} {w v : EspWorld} {r : Option Int}
    (h : EspHopRun env left w r v) (hw : KnowsRetryAfter w) : KnowsRetryAfter v := by
  induction h with
  | failed left w => exact hw.sendRequest env
  | surfaced left w status => exact hw.sendRequest env
  | @refused left w status t hcheck =>
    exact (checkRedirect_spares hcheck).2.trans (hw.sendRequest env)
  | @followed left w v r t hcheck h ih =>
    apply ih
    show (-1 : Int32) = (fieldsOf (_ ++ [_])).foldl addField (-1)
    rw [fieldsOf_snoc]
    rfl

theorem espRequested_knowsRetryAfter (w : EspWorld) (req : SseRequest) :
    KnowsRetryAfter (espRequested w req) := by
  refine setHeaders_keep KnowsRetryAfter (fun v _ _ hv => hv.push (fieldsOf_snoc _ _)) req.headers ?_
  show (-1 : Int32) = (fieldsOf (_ ++ [_])).foldl addField (-1)
  rw [fieldsOf_snoc]
  rfl

/-- What a successful open reports is the Retry-After of the last response. -/
theorem espOpenFn_retryAfter {env : EspEnv} {w : EspWorld} {req : SseRequest} {out : SseResponseInfo}
    (hzero : (espOpenFn env w req out).1 = 0) :
    (espOpenFn env w req out).2.1.retryAfterS =
      (fieldsOf (espOpenFn env w req out).2.2.log).foldl addField (-1) := by
  have hknows := (espHopLoop_run env espMaxRedirectHops (espRequested w req)).knowsRetryAfter
    (espRequested_knowsRetryAfter w req)
  have hfail : ¬ (-1 : Int) = 0 := by decide
  rcases espOpenFn_cases env w req out with hr | hr | ⟨status, hr⟩
  · rw [hr] at hzero
    exact absurd hzero hfail
  · rw [hr] at hzero
    exact absurd hzero hfail
  · rw [hr]
    exact hknows

/-- What the field leaves behind. -/
theorem addField_of_field {f : Mem × Mem} {digits : Bytes} (h : RetryAfterField f digits)
    (before : Int32) : addField before f = .ofInt (min (decimal digits) (2 ^ 31 - 1) : Nat) := by
  obtain ⟨spaces, rest, hrest, hvalue⟩ := h.value
  have hskip : (List.replicate spaces space ++ (digits ++ rest)).dropWhile (· = space) =
      digits ++ rest := by
    have hspaces : ∀ b ∈ List.replicate spaces space, decide (b = space) = true := by
      intro b hb
      exact decide_eq_true (List.eq_of_mem_replicate hb)
    obtain ⟨d, ds, rfl⟩ := List.exists_cons_of_ne_nil h.delay.ne_nil
    have hd : ¬ d = space := by
      rintro rfl
      exact absurd (h.delay.digits space (List.mem_cons_self ..)) (by decide)
    rw [List.dropWhile_append_of_pos hspaces, List.cons_append, List.dropWhile_cons_of_neg]
    simpa using hd
  unfold addField
  rw [if_pos h.key, hvalue, hskip]
  exact readSeconds_digits 32 h.delay.ne_nil h.delay.digits hrest before

theorem EspAnnounces.retryAfter {log : EspLog} {digits : Bytes} (h : EspAnnounces log digits) :
    (fieldsOf log).foldl addField (-1) = .ofInt (min (decimal digits) (2 ^ 31 - 1) : Nat) := by
  obtain ⟨pre, f, post, hfields, hfield, hothers⟩ := h
  rw [hfields, foldl_single f (-1), addField_of_field hfield]
  intro y hy c
  refine if_neg ?_
  rw [hothers y hy]
  exact Bool.false_ne_true

/-! ## §7 Both Ports -/

/-- Through curl the number of seconds in the answer is honoured, however libcurl delivers it: by each
client environment in which the open hands the client the answer's status. -/
def CurlHonours (w : World) (a : Answer) (seconds : Nat) : Prop :=
  ∀ (env : Env) (curl : CurlEnv) (t : CurlWorld) (req : SseRequest) (served : Nat → Answer),
    let r := curlOpenFn curl t req ⟨0, [0], -1⟩
    CurlReachable curl t → Delivers served r.2.2.log → served (requests r.2.2.log).length = a →
    r.1 = 0 → r.2.1.statusCode = a.final.status → Receives env w 0 r.2.1 →
    Honours env w r.2.1 seconds

/-- An open that succeeds on a delivery of the answer makes a client wait for what it reports. -/
theorem CurlHonours.reported {w : World} (hw : Connects w) {a : Answer} {seconds : Nat}
    (h : CurlHonours w a seconds) (hstatus : 400 ≤ a.final.status) {cs : List CurlCallback}
    {result : Int} {d : Delivery}
    (hopens : OpensScript a a.final.status d (scriptOpen cs result a.final.status)) :
    0 ≤ (hear d.lines).retryAfter ∧
      min (1000 * (hear d.lines).retryAfter.toInt.toNat) (2 ^ 31 - 1) =
        min (1000 * seconds) (2 ^ 31 - 1) := by
  have hreceives : Receives (answeringEnv (scriptOpen cs result a.final.status).2.1) w 0
    (scriptOpen cs result a.final.status).2.1 := ⟨rfl, rfl⟩
  have hrejected : 400 ≤ (scriptOpen cs result a.final.status).2.1.statusCode := by
    rw [hopens.statusCode]
    exact hstatus
  have hhonours := h _ _ curlNew _ (fun _ => a) ⟨[], rfl⟩ hopens.delivers rfl hopens.zero
    hopens.statusCode hreceives
  rw [honours_iff hw hreceives hrejected, hopens.hears.retryAfter, hopens.delivery] at hhonours
  exact hhonours

/-- An answer whose seconds are honoured keeps its Retry-After line. -/
theorem CurlHonours.keeps {w : World} (hw : Connects w) {a : Answer} {pre post : List HeaderLine}
    {gap digits : Bytes} {seconds : Nat} (hhonours : CurlHonours w a seconds)
    (h : a.Announces pre post gap digits) (hstatus : 400 ≤ a.final.status) :
    a.KeepsRetryAfter pre post := by
  have habsent : ¬ (0 : Int32) ≤ -1 := by decide
  obtain ⟨l, hfields, -⟩ := h.line
  obtain ⟨hbefore, hafter⟩ := h.absent
  have hlines := Answer.lines_announced hfields
  constructor
  · -- an open that ends too early has not heard the line
    intro ls hls hcompletes
    have hpart : ls <+: a.lines := by
      rw [hlines, List.append_assoc]
      exact hls.trans (List.prefix_append _ _)
    have hearly := hhonours.reported hw hstatus (scriptOpen_part hpart hcompletes a.final.status)
    have hnone : (hear ls).retryAfter = -1 :=
      foldl_line_absent rfl fun x hx => hbefore x (hls.subset hx)
    rw [hnone] at hearly
    exact absurd hearly.1 habsent
  · -- and what begins with `HTTP/` behind the line undoes it
    intro x hx hx'
    have hsize : ([] : Bytes).length ≤ ringCap := Nat.zero_le _
    have hwhole := hhonours.reported hw hstatus (scriptOpen_whole a a.final.status hsize)
    obtain ⟨post₁, post₂, rfl⟩ := List.append_of_mem hx
    have hcut : a.lines = (a.interimLines ++ a.final.statusLine :: pre ++ [l] ++ post₁) ++
        x :: (post₂ ++ [a.final.blank]) := by
      rw [hlines]
      simp
    have hnone : (hear a.lines).retryAfter = -1 := by
      rw [hcut]
      unfold hear
      rw [List.foldl_append, List.foldl_cons]
      refine foldl_line_absent ?_ ?_
      · exact congrArg Heard.retryAfter (if_pos hx')
      · intro y hy
        exact hafter y (by simp at hy ⊢; tauto)
    rw [hnone] at hwhole
    exact absurd hwhole.1 habsent

/-- **The curl port's half.** -/
theorem curlHonours_iff {w : World} (hw : Connects w) {a : Answer} {pre post : List HeaderLine}
    {gap digits : Bytes} (h : a.Announces pre post gap digits) (hstatus : 400 ≤ a.final.status) :
    CurlHonours w a (decimal digits) ↔
      tab ∉ gap ∧ SurvivesInt32 (decimal digits) ∧ a.KeepsRetryAfter pre post := by
  have habsent : ¬ (0 : Int32) ≤ -1 := by decide
  constructor
  · intro hhonours
    have hsize : ([] : Bytes).length ≤ ringCap := Nat.zero_le _
    have hwhole := hhonours.reported hw hstatus (scriptOpen_whole a a.final.status hsize)
    have hkeeps := hhonours.keeps hw h hstatus
    -- so the line is heard, and its number is what is reported
    have hheard := h.heard hkeeps ⟨List.prefix_rfl, .inr rfl⟩ List.prefix_rfl List.prefix_rfl
    rw [hheard] at hwhole
    by_cases htab : tab ∈ gap
    · rw [if_pos htab] at hwhole
      exact absurd hwhole.1 habsent
    · rw [if_neg htab, kept_seconds_iff] at hwhole
      exact ⟨htab, hwhole, hkeeps⟩
  · rintro ⟨htab, hsurvives, hkeeps⟩ env curl t req served r hreach hdelivers hlast hzero hcode
      hreceives
    have hhears := curlOpenFn_hears hreach hzero hdelivers
    rw [hlast] at hhears
    obtain ⟨ls, hls, henough⟩ := hhears.enough
    have hrejected : 400 ≤ r.2.1.statusCode := by
      rw [hcode]
      exact hstatus
    rw [honours_iff hw hreceives hrejected, hhears.retryAfter,
      h.heard hkeeps henough hls hhears.part, if_neg htab]
    exact (kept_seconds_iff _).mpr hsurvives

theorem busy_isStatusLine : IsStatusLine (textLine "HTTP/1.1 503 Busy\r\n") := by decide +kernel

theorem busy_fields : ∀ l ∈ ["Retry-After: 120\r\n"].map textLine, ¬ IsBlankLine l := by
  decide +kernel

theorem busier_fields : ∀ l ∈ ["Retry-After: 4294967297\r\n"].map textLine, ¬ IsBlankLine l := by
  decide +kernel

/-- A server that is too busy for two minutes. -/
def busyAnswer : Answer :=
  textAnswer (textBlock 503 "HTTP/1.1 503 Busy\r\n" ["Retry-After: 120\r\n"] busy_isStatusLine
    busy_fields) (show (200 : Int) ≤ 503 by decide)

/-- And one that is so for a little more than 136 years. -/
def busierAnswer : Answer :=
  textAnswer (textBlock 503 "HTTP/1.1 503 Busy\r\n" ["Retry-After: 4294967297\r\n"]
    busy_isStatusLine busier_fields) (show (200 : Int) ≤ 503 by decide)

/-- An open by which the whole answer is heard. -/
def busyOpen (a : Answer) : Int × SseResponseInfo × CurlWorld :=
  scriptOpen (headerCalls a.lines ++ [.body []]) curleOk a.final.status

/-- The first server behind `esp_http_client`. -/
def busyEsp (value : Bytes) : EspEnv :=
  { redirectingEnv [0] with
    fetchEvents := fun _ => [.onHeader (cText "Retry-After") (value ++ [0])]
    statusCode := fun _ => 503 }

theorem smallClient_connects : Connects smallClient := ⟨.inl rfl, rfl, rfl, rfl⟩

end EventSource.Port
