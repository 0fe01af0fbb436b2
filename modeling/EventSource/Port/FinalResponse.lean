import EventSource.Port.CurlOpen

/-!
# When an Open Reports the Final Response

The answers that every libcurl can hand over without misleading the open are those that are heard as
they were sent. For any other there is a libcurl that hands it over in order, and an open that succeeds
before the answer is complete, reports another Retry-After, or mistakes a redirect's body.
-/

namespace EventSource.Port

open EventSource.CMemory
open EventSource.Parser
open EventSource.Client
open EventSource.RingBuffer
open EventSource.Trace

variable {env : CurlEnv} {w v : CurlWorld} {a : Answer}

/-! ## §1 A Delivery at Once -/

/-- libcurl as it hands over all of this at once, and completes with this result. -/
def scriptEnv (cs : List CurlCallback) (result status : Int) : CurlEnv :=
  { twoByteEnv with
    performed := fun _ => cs
    messages := fun _ => [some result]
    responseCode := fun _ => status }

/-- The transport when it has been asked for a page, and libcurl is about to run. -/
def asked : CurlWorld :=
  let w := (teardown curlNew).update fun t => { t with easy := true, multi := true }
  (((((addHandle w (ascii "http://a/".toList)).push (.clock 0)).push (.clock 0)).push
    (.wait 100)).push .perform)

/-- And when libcurl has run. -/
def scripted (cs : List CurlCallback) (result : Int) : CurlWorld :=
  harvest (cs.foldl callBack asked) (some result)

/-- An open by which the delivery is heard. -/
abbrev scriptOpen (cs : List CurlCallback) (result status : Int) : Int × SseResponseInfo × CurlWorld :=
  curlOpenFn (scriptEnv cs result status) curlNew ⟨ascii "http://a/".toList, []⟩ ⟨0, [0], -1⟩

/-- Unless the transfer has failed before anything came of it, the open succeeds, and at most looks at
the clock once more. -/
theorem scriptOpen_spec (cs : List CurlCallback) (result status : Int)
    (h : failedEarly (scripted cs result).ctx = false) :
    ∃ w, scriptOpen cs result status = (0, fillInfo (scriptEnv cs result status) w ⟨0, [0], -1⟩, w) ∧
      (w = scripted cs result ∨ w = (scripted cs result).push (.clock 0)) := by
  let env := scriptEnv cs result status
  let start := addHandle (setUp env curlNew []).2 (ascii "http://a/".toList)
  have hanswered : answered (scripted cs result).ctx = true := by
    unfold answered scripted harvest
    exact Bool.or_true _
  have hawait : awaitResponse env start = (true, scripted cs result) := by
    have hbudget : (0 : UInt32) - 0 < openTimeoutMs := by decide
    -- the first look at the clock finds the transfer done
    have hwait : waitFor env answered start = (true, scripted cs result) := by
      show waitLoop env answered (0 : UInt32) 1 _ = _
      unfold waitLoop
      simp only
      exact (if_pos hbudget).trans rfl
    unfold awaitResponse
    rw [hwait]
    simp only [hanswered, h, Bool.not_true, Bool.or_self, Bool.false_eq_true, if_false]
  -- of a redirect there is nothing left to drain
  have hdrain : drain env (scripted cs result) = (true, (scripted cs result).push (.clock 0)) := rfl
  have hopen : scriptOpen cs result status =
      let r := hopLoop env maxRedirectHops start
      if !r.1 then (-1, ⟨0, [0], -1⟩, teardown r.2) else (0, fillInfo env r.2 ⟨0, [0], -1⟩, r.2) := rfl
  have hloop : hopLoop env maxRedirectHops start =
      (true, if isRedirectStatus (scripted cs result).ctx.headerBlockStatus
        then (scripted cs result).push (.clock 0) else scripted cs result) := by
    unfold maxRedirectHops hopLoop
    rw [hawait]
    simp only [hdrain]
    cases isRedirectStatus (scripted cs result).ctx.headerBlockStatus with
    | false => rfl
    | true => rfl
  rw [hopen, hloop]
  refine ⟨_, rfl, ?_⟩
  cases isRedirectStatus (scripted cs result).ctx.headerBlockStatus with
  | false => exact .inl rfl
  | true => exact .inr rfl

/-! ## §2 Delivering an Answer -/

/-- Header lines as libcurl hands them over. -/
def headerCalls (ls : List HeaderLine) : List CurlCallback :=
  ls.map fun l => .header l.1 l.2

/-- Nothing has been delivered yet. -/
theorem asked_delivers (served : Nat → Answer) :
    Delivers served asked.log ∧ deliveryOf asked.log = ⟨[], []⟩ := by
  refine ⟨?_, rfl⟩
  have hnone : ∀ e ∈ asked.log, ∀ pre, (served (requests pre).length).Allows
      (deliveryOf pre).lines e.obs := by
    intro e he pre
    have hlog : asked.log = [⟨.teardown, _⟩, ⟨.request _ _, _⟩, ⟨.clock _, _⟩, ⟨.clock _, _⟩,
      ⟨.wait _, _⟩, ⟨.perform, _⟩] := rfl
    rw [hlog] at he
    simp only [List.mem_cons, List.not_mem_nil, or_false] at he
    rcases he with rfl | rfl | rfl | rfl | rfl | rfl <;> trivial
  exact (always_nil _).append hnone

/-- The next lines of an answer can be delivered, and the ring does not mind. -/
theorem delivers_headerCalls (h : Delivers (fun _ => a) w.log) {ls : List HeaderLine}
    (hls : (deliveryOf w.log).lines ++ ls <+: a.lines) :
    let u := (headerCalls ls).foldl callBack w
    Delivers (fun _ => a) u.log ∧
      deliveryOf u.log = { deliveryOf w.log with lines := (deliveryOf w.log).lines ++ ls } ∧
      u.ctx.rLen = w.ctx.rLen := by
  induction ls generalizing w with
  | nil => exact ⟨h, by simp [headerCalls], rfl⟩
  | cons l ls ih =>
    let v := callBack w (.header l.1 l.2)
    have hnext : deliveryOf v.log =
        { deliveryOf w.log with lines := (deliveryOf w.log).lines ++ [l] } := deliveryOf_snoc _ _
    -- the next line is the next one of the answer
    have hv : Delivers (fun _ => a) v.log := by
      refine always_snoc.mpr ⟨h, ?_⟩
      refine List.IsPrefix.trans ?_ hls
      exact (List.prefix_append_right_inj _).mpr ⟨ls, rfl⟩
    obtain ⟨hdelivers, hdelivery, hlen⟩ := @ih v hv (by
      rw [hnext, List.append_assoc]
      exact hls)
    refine ⟨hdelivers, ?_, hlen.trans (onHeader_ring w.ctx l.1 l.2).2.2⟩
    rw [hnext] at hdelivery
    refine hdelivery.trans ?_
    simp

/-- A chunk can be delivered behind the last line, and is not refused by an empty ring. -/
theorem delivers_body (h : Delivers (fun _ => a) w.log) (hlines : (deliveryOf w.log).lines = a.lines)
    (hempty : w.ctx.rLen = 0) {chunk : Bytes} (hsize : chunk.length ≤ ringCap) :
    Delivers (fun _ => a) (callBack w (.body chunk)).log ∧
      deliveryOf (callBack w (.body chunk)).log = ⟨a.lines, (deliveryOf w.log).body ++ chunk⟩ := by
  refine ⟨always_snoc.mpr ⟨h, hlines⟩, ?_⟩
  rcases callBack_body_cases w chunk with ⟨-, heq⟩ | ⟨-, hfull, -⟩ | ⟨-, -, heq⟩
  · rw [heq, curlPush_log, deliveryOf_snoc, ← hlines]
    rfl
  · omega
  · rw [heq, curlPush_log, curlUpdate_log, deliveryOf_snoc, ← hlines]
    rfl

/-- An open that succeeds on a delivery of an answer. -/
structure OpensScript (a : Answer) (status : Int) (d : Delivery)
    (r : Int × SseResponseInfo × CurlWorld) : Prop where
  zero : r.1 = 0
  delivers : Delivers (fun _ => a) r.2.2.log
  delivery : deliveryOf r.2.2.log = d
  statusCode : r.2.1.statusCode = status

/-- **Whatever libcurl delivers at once, the open succeeds with it**, unless it fails early. -/
theorem scriptOpen_opens {cs : List CurlCallback} {result status : Int} {d : Delivery}
    (hdelivers : Delivers (fun _ => a) (cs.foldl callBack asked).log)
    (hdelivery : deliveryOf (cs.foldl callBack asked).log = d)
    (hresult : result = curleOk → d.lines = a.lines)
    (h : failedEarly (scripted cs result).ctx = false) :
    OpensScript a status d (scriptOpen cs result status) := by
  obtain ⟨w, hopen, hw⟩ := scriptOpen_spec cs result status h
  have hscripted : Delivers (fun _ => a) (scripted cs result).log ∧
      deliveryOf (scripted cs result).log = d := by
    refine ⟨always_snoc.mpr ⟨hdelivers, ?_⟩, ?_⟩
    · show result = curleOk → (deliveryOf (cs.foldl callBack asked).log).lines = a.lines
      rw [hdelivery]
      exact hresult
    · rw [← hdelivery]
      exact deliveryOf_snoc _ _
  rw [hopen]
  -- looking at the clock delivers nothing
  rcases hw with rfl | rfl
  · exact ⟨rfl, hscripted.1, hscripted.2, rfl⟩
  · exact ⟨rfl, always_snoc.mpr ⟨hscripted.1, trivial⟩, (deliveryOf_snoc _ _).trans hscripted.2, rfl⟩

/-- What it has heard then is what was delivered. -/
theorem OpensScript.hears {cs : List CurlCallback} {result status : Int} {d : Delivery}
    (h : OpensScript a status d (scriptOpen cs result status)) :
    Hears (scriptOpen cs result status) a :=
  @curlOpenFn_hears _ _ (fun _ => a) ⟨[], rfl⟩ _ _ h.zero h.delivers

theorem headerCalls_heard (w : CurlWorld) (ls : List HeaderLine) :
    ((headerCalls ls).foldl callBack w).ctx.heard = ls.foldl Heard.line w.ctx.heard := by
  induction ls generalizing w with
  | nil => rfl
  | cons l ls ih =>
    have hl : (callBack w (.header l.1 l.2)).ctx.heard = w.ctx.heard.line l :=
      onHeader_heard w.ctx l.1 l.2
    rw [List.foldl_cons, ← hl]
    exact ih (callBack w (.header l.1 l.2))

/-- **A part that seems complete ends the open**, even if the transfer then fails. -/
theorem scriptOpen_part {ls : List HeaderLine} (hls : ls <+: a.lines) (hdone : Completes ls)
    (status : Int) : OpensScript a status ⟨ls, []⟩ (scriptOpen (headerCalls ls) 1 status) := by
  obtain ⟨hstart, hnone⟩ := asked_delivers fun _ => a
  obtain ⟨hdelivers, hdelivery, -⟩ := @delivers_headerCalls _ _ hstart ls (by
    rw [hnone]
    exact hls)
  refine scriptOpen_opens hdelivers ?_ (fun h => absurd h (by decide)) ?_
  · rw [hdelivery, hnone]
    rfl
  · have hheaders : (scripted (headerCalls ls) 1).ctx.headersDone = true := by
      show ((headerCalls ls).foldl callBack asked).ctx.heard.done = true
      rw [headerCalls_heard]
      exact (hear_done_iff hls).mpr hdone
    unfold failedEarly
    rw [hheaders]
    simp

/-- A whole answer with its body. -/
theorem scriptOpen_whole (a : Answer) (status : Int) {chunk : Bytes} (hsize : chunk.length ≤ ringCap) :
    OpensScript a status ⟨a.lines, chunk⟩
      (scriptOpen (headerCalls a.lines ++ [.body chunk]) curleOk status) := by
  obtain ⟨hstart, hnone⟩ := asked_delivers fun _ => a
  obtain ⟨hdelivers, hdelivery, hlen⟩ := @delivers_headerCalls _ _ hstart a.lines (by
    rw [hnone]
    exact List.prefix_rfl)
  rw [hnone] at hdelivery
  obtain ⟨hall, hboth⟩ := delivers_body hdelivers (by rw [hdelivery]; rfl) (hlen.trans rfl) hsize
  -- the body comes behind the last line
  have hfold : (headerCalls a.lines ++ [CurlCallback.body chunk]).foldl callBack asked =
      callBack ((headerCalls a.lines).foldl callBack asked) (.body chunk) := by
    rw [List.foldl_append, List.foldl_cons, List.foldl_nil]
  refine scriptOpen_opens ?_ ?_ (fun _ => rfl) ?_
  · rw [hfold]
    exact hall
  · rw [hfold, hboth, hdelivery]
    rfl
  · have hresult : (scripted (headerCalls a.lines ++ [.body chunk]) curleOk).ctx.transferResult =
        curleOk := rfl
    unfold failedEarly
    rw [hresult]
    simp

/-! ## §3 The Final Response -/

/-- What is expected of an open: at most six requests, all to the origin of the first; and if it
succeeds, a report of the answer to the last of them. -/
def OpensFinal (env : CurlEnv) (w : CurlWorld) (req : SseRequest) (out : SseResponseInfo)
    (served : Nat → Answer) : Prop :=
  let r := curlOpenFn env w req out
  (∃ urls, requests r.2.2.log = requests w.log ++ urls ∧ urls.length ≤ 6 ∧
    ∀ u ∈ urls, curlOrigin env u = curlOrigin env req.url) ∧
  (r.1 = 0 ∨ r.1 = -1) ∧
  (r.1 = 0 → Reports r.2.2 r.2.1 (served (requests r.2.2.log).length))

/-- **An open reports the final response of the last request, exactly if the answers are plain.**
Let servers give answers of some kind only, and libcurl deliver them in order, or break off anywhere.
No open in any run fails to do what is expected, if and only if each answer of that kind is heard as
it was sent. -/
theorem open_reports_final_iff (S : Answer → Prop) :
    (∀ (env : CurlEnv) (w : CurlWorld) (req : SseRequest) (out : SseResponseInfo)
        (served : Nat → Answer), CurlReachable env w → EffectiveIsRequested env →
        (∀ i, S (served i)) → Delivers served (curlOpenFn env w req out).2.2.log →
        OpensFinal env w req out served) ↔
      ∀ a, S a → a.Plain := by
  constructor
  · intro hall a ha
    -- a delivery of this answer alone
    have hreports : ∀ {cs : List CurlCallback} {result status : Int} {d : Delivery},
        OpensScript a status d (scriptOpen cs result status) →
        Reports (scriptOpen cs result status).2.2 (scriptOpen cs result status).2.1 a :=
      fun hopens => (hall _ curlNew _ _ (fun _ => a) ⟨[], rfl⟩ (fun _ _ _ _ h => by cases h)
        (fun _ => ha) hopens.delivers).2.2 hopens.zero
    have hsize : [(0x78 : UInt8)].length ≤ ringCap := by decide
    have hwhole := scriptOpen_whole a 0 hsize
    obtain ⟨hstatus, hseconds⟩ := hear_lines a
    refine ⟨?_, ?_, ?_⟩
    · intro ls hls hcompletes
      have hpart := scriptOpen_part hls hcompletes 0
      rw [← (hreports hpart).lines, hpart.delivery]
    · -- the chunk tells whether the answer was taken for a redirect
      have hring := hwhole.hears.ring
      rw [(hreports hwhole).ring, hwhole.delivery, hstatus] at hring
      cases hheard : isRedirectStatus (numberOf a.tail.1) <;>
        cases hsent : isRedirectStatus a.final.status <;> simp [hheard, hsent] at hring <;> rfl
    · have hretry := hwhole.hears.retryAfter
      rw [(hreports hwhole).retryAfter, hwhole.delivery, hseconds] at hretry
      exact hretry.symm
  · intro hplain env w req out served h henv hserved hdelivers
    obtain ⟨hurls, hresult⟩ := curlOpenFn_requests henv w req out
    exact ⟨hurls, hresult, fun hzero =>
      (curlOpenFn_hears h hzero hdelivers).reports (hplain _ (hserved _))⟩

/-! ## §4 Two Servers -/

/-- A header line of a text. -/
def textLine (text : String) : HeaderLine :=
  (ascii text.toList, text.length)

theorem blank_isBlankLine : IsBlankLine (textLine "\r\n") := by decide

/-- A header block of a text. -/
def textBlock (status : Int) (statusLine : String) (fields : List String)
    (hstatus : IsStatusLine (textLine statusLine))
    (hfields : ∀ l ∈ fields.map textLine, ¬ IsBlankLine l) : HeaderBlock where
  status := status
  statusLine := textLine statusLine
  fields := fields.map textLine
  blank := textLine "\r\n"
  begins := hstatus
  ends := blank_isBlankLine
  goesOn := hfields

/-- An answer of one block. -/
def textAnswer (b : HeaderBlock) (h : 200 ≤ b.status) : Answer where
  interim := []
  final := b
  informational := fun _ hb => absurd hb List.not_mem_nil
  complete := h

theorem found_isStatusLine : IsStatusLine (textLine "HTTP/1.1 302 Found\r\n") := by decide +kernel

theorem misread_fields : ∀ l ∈ ["HTTP/x: 200\r\n"].map textLine, ¬ IsBlankLine l := by decide +kernel

/-- A redirect with a field line that begins with `HTTP/`. -/
def misreadAnswer : Answer :=
  textAnswer (textBlock 302 "HTTP/1.1 302 Found\r\n" ["HTTP/x: 200\r\n"] found_isStatusLine
    misread_fields) (show (200 : Int) ≤ 302 by decide)

/-- **The body of a redirect is kept**, since its second line counts as a status line. -/
theorem redirect_body_kept :
    let evil := ascii "EVIL".toList
    let env := scriptEnv (headerCalls misreadAnswer.lines ++ [.body evil]) curleOk 302
    let r := curlOpenFn env curlNew ⟨ascii "http://a/".toList, []⟩ ⟨0, [0], -1⟩
    EffectiveIsRequested env ∧ Delivers (fun _ => misreadAnswer) r.2.2.log ∧ r.1 = 0 ∧
      misreadAnswer.final.status = 302 ∧ r.2.2.ctx.ringContents = evil ∧
      ¬ OpensFinal env curlNew ⟨ascii "http://a/".toList, []⟩ ⟨0, [0], -1⟩ fun _ => misreadAnswer := by
  intro evil env r
  have hopened : OpensScript misreadAnswer 302 ⟨misreadAnswer.lines, evil⟩ r :=
    scriptOpen_whole misreadAnswer 302 (by decide)
  have hstatus : (hear misreadAnswer.lines).status = 200 := by decide +kernel
  have hring : r.2.2.ctx.ringContents = evil := by
    rw [hopened.hears.ring, hopened.delivery, hstatus]
    rfl
  refine ⟨fun _ _ _ _ h => (by cases h), hopened.delivers, hopened.zero, rfl, hring, ?_⟩
  intro hopens
  have hempty := (hopens.2.2 hopened.zero).ring
  rw [show curlOpenFn _ _ _ _ = r from rfl, hring] at hempty
  exact absurd hempty (by decide)

theorem moved_fields : ∀ l ∈ ["Retry-After: 7\r\n"].map textLine, ¬ IsBlankLine l := by
  decide +kernel

theorem ok_isStatusLine : IsStatusLine (textLine "HTTP/1.1 200 OK\r\n") := by decide +kernel

theorem no_fields : ∀ l ∈ ([] : List String).map textLine, ¬ IsBlankLine l := by decide

/-- The page has moved for seven seconds. -/
def movedAnswer : Answer :=
  textAnswer (textBlock 302 "HTTP/1.1 302 Found\r\n" ["Retry-After: 7\r\n"] found_isStatusLine
    moved_fields) (show (200 : Int) ≤ 302 by decide)

def okAnswer : Answer :=
  textAnswer (textBlock 200 "HTTP/1.1 200 OK\r\n" [] ok_isStatusLine no_fields)
    (show (200 : Int) ≤ 200 by decide)

/-- A server that redirects to a page on the same server, with a body. -/
def movedEnv : CurlEnv :=
  { twoByteEnv with
    patience := fun _ => 2
    performed := fun log =>
      if (requests log).length = 1 then headerCalls movedAnswer.lines ++ [.body [0x78]]
      else headerCalls okAnswer.lines ++ [.body [0x68, 0x69]]
    messages := fun log => if (requests log).length = 1 then [some curleOk] else []
    redirectUrl := fun _ => some (ascii "http://a/b".toList)
    effectiveUrl := fun _ => some (ascii "http://a/".toList)
    parseUrl := fun _ => some ⟨ascii "http".toList, ascii "a".toList, ascii "80".toList⟩ }

theorem textAnswer_plain {b : HeaderBlock} (h : 200 ≤ b.status) (hb : b.Plain) :
    (textAnswer b h).Plain :=
  Answer.plain_of_blocks (fun _ hmem => absurd hmem List.not_mem_nil) hb

theorem open_reports_final_iff_of_moved :
    let r := curlOpenFn movedEnv curlNew ⟨ascii "http://a/".toList, []⟩ ⟨0, [0], -1⟩
    (requests r.2.2.log).length = 2 ∧ Reports r.2.2 r.2.1 okAnswer ∧ r.2.1.retryAfterS = -1 ∧
      r.2.2.ctx.ringContents = [0x68, 0x69] := by
  intro r
  have hmoved : movedAnswer.Plain :=
    textAnswer_plain _ ⟨by decide +kernel, by decide +kernel, by decide +kernel⟩
  have hok : okAnswer.Plain :=
    textAnswer_plain _ ⟨by decide +kernel, by decide +kernel, by decide +kernel⟩
  let served : Nat → Answer := fun i => if i = 1 then movedAnswer else okAnswer
  -- the redirect answers the first request, and the second server the rest
  have hserved : ∀ i, served i = movedAnswer ∨ served i = okAnswer := by
    intro i
    by_cases hi : i = 1
    · exact .inl (if_pos hi)
    · exact .inr (if_neg hi)
  have hrequests : (requests r.2.2.log).length = 2 := by decide +kernel
  have hdelivers : Delivers served r.2.2.log := by decide +kernel
  have hzero : r.1 = 0 := by decide +kernel
  have hbody : (deliveryOf r.2.2.log).body = [0x68, 0x69] := by decide +kernel
  have hspec := (open_reports_final_iff fun a => a = movedAnswer ∨ a = okAnswer).mpr (by
    rintro a (rfl | rfl)
    · exact hmoved
    · exact hok)
  have hreports := (hspec movedEnv curlNew ⟨ascii "http://a/".toList, []⟩ ⟨0, [0], -1⟩ served
    ⟨[], rfl⟩ (fun _ _ _ _ _ => rfl) hserved hdelivers).2.2 hzero
  have hlast : Reports r.2.2 r.2.1 (served 2) := by
    rw [← hrequests]
    exact hreports
  refine ⟨hrequests, hlast, hlast.retryAfter, ?_⟩
  rw [← hbody]
  exact hlast.ring

end EventSource.Port
