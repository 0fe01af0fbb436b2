import EventSource.Parser.Refinement
import Mathlib.Tactic.IntervalCases

/-!
# The Parser on Whole Streams

The parser's state after any stream of bytes, the byte-order mark and the LF of a CRLF included
(`StreamRep`). One byte keeps the relation and reports the difference between the readings before
and after it; hence a fresh parser reports the reading of the whole stream, however it is cut into
chunks and whatever its buffers held.
-/

namespace EventSource.Parser

open EventSource.CMemory
open EventSource.Transducer

variable {cb : ParserCallbacks} {lim : Limits} {p : SseParser} {s t : Bytes} {b : UInt8}

/-! ## §1 One Byte of a Text -/

/-- The parser has read the text `t`, which begins behind any byte-order mark. -/
structure TextRep (cb : ParserCallbacks) (lim : Limits) (p : SseParser) (t : Bytes) : Prop where
  line : LineRep cb lim p (readText lim t).1 (splitLines [] t).2
  swallowLf : p.swallowLf = decide (t.getLast? = some cr)

theorem LineRep.state_ne_bom {blk : Block} {cur : Bytes} (h : LineRep cb lim p blk cur) :
    p.state ≠ .bom := by
  cases h with
  | start hs _ => simp [hs]
  | name _ _ _ _ hs _ _ => simp [hs]
  | skip _ _ hs _ => simp [hs]
  | value f rest _ _ hs _ =>
    rw [hs]
    split <;> simp

/-- The pending LF is no part of a line in progress. -/
theorem LineRep.swallow {blk : Block} {cur : Bytes} (h : LineRep cb lim p blk cur) (l : Bool) :
    LineRep cb lim { p with swallowLf := l } blk cur := by
  cases h with
  | start hs h => exact .start hs (h.cursor p.state p.field l p.bomN)
  | name cur hne hcolon hlen hs hname h =>
    exact .name cur hne hcolon hlen hs hname (h.cursor p.state p.field l p.bomN)
  | skip cur hskip hs h => exact .skip cur hskip hs (h.cursor p.state p.field l p.bomN)
  | value f rest hf hfield hs h => exact .value f rest hf hfield hs (valueRep_cursor h p.state l)

theorem readText_snoc_end {line : Bytes}
    (hsplit : splitLines [] (t ++ [b]) = ((splitLines [] t).1 ++ [line], [])) :
    readText lim (t ++ [b]) =
      andThen (readText lim t) fun blk => readLine lim blk line := by
  unfold readText
  rw [hsplit, run_snoc]

/-- Ahead of what was reported before the line, the reports of a step stay its reports. -/
theorem Reports.prepend {r : SseParser × List Callback} {before after : List Report}
    {P : SseParser → Prop} (h : Reports cb r before after P) (old : List Report) :
    Reports cb r (old ++ before) (old ++ after) P := by
  obtain ⟨hP, new, hout, rfl⟩ := h
  exact ⟨hP, new, hout, (List.append_assoc ..).symm⟩

/-- The end of a line in a text. -/
theorem lineEnd_text (hlim : lim.Valid) (h : LineRep cb lim p (readText lim t).1 (splitLines [] t).2)
    (hsplit : splitLines [] (t ++ [b]) =
      ((splitLines [] t).1 ++ [(splitLines [] t).2], [])) :
    Reports cb (lineEnd p) (textReports lim t) (textReports lim (t ++ [b])) fun q =>
      LineRep cb lim q (readText lim (t ++ [b])).1 (splitLines [] (t ++ [b])).2 ∧
        q.swallowLf = p.swallowLf := by
  have hend := (lineEnd_spec hlim h).prepend (readText lim t).2
  have hnone : ∀ blk : Block, earlyReports lim blk [] = [] := fun _ => rfl
  unfold textReports
  rw [readText_snoc_end hsplit, hsplit, hnone, List.append_nil]
  exact hend

/-- One byte of a text that is not the LF of a CRLF. -/
theorem lineByte_text (hlim : lim.Valid)
    (h : LineRep cb lim p (readText lim t).1 (splitLines [] t).2) (hno : p.swallowLf = false)
    (hcrlf : b = lf → t.getLast? ≠ some cr) :
    Reports cb (lineByte p b) (textReports lim t) (textReports lim (t ++ [b]))
      (TextRep cb lim · (t ++ [b])) := by
  by_cases hcr : b = cr
  · subst hcr
    unfold lineByte
    rw [if_pos rfl]
    refine (lineEnd_text hlim h (splitLines_snoc_cr [] t)).andThen ?_
    rintro ⟨hline, -⟩
    exact Reports.quiet ⟨hline.swallow true, by simp⟩
  · by_cases hlf : b = lf
    · subst hlf
      unfold lineByte
      rw [if_neg hcr, if_pos rfl]
      refine (lineEnd_text hlim h (splitLines_snoc_lf [] (hcrlf rfl))).mono ?_
      rintro ⟨hline, hswallow⟩
      exact ⟨hline, by rw [hswallow, hno]; simp [cr, lf]⟩
    · have hsplit := splitLines_snoc_plain [] t hcr hlf
      have hread : readText lim (t ++ [b]) = readText lim t := by
        unfold readText
        rw [hsplit]
      have hplain := (lineByte_plain hlim h hcr hlf).prepend (readText lim t).2
      unfold textReports
      rw [hread, hsplit]
      refine hplain.mono ?_
      rintro ⟨hline, hswallow⟩
      refine ⟨?_, by rw [hswallow, hno]; simp [hcr]⟩
      rw [hread, hsplit]
      exact hline

/-! ## §2 One Byte of a Stream -/

/-- The parser has read the stream `s`. -/
inductive StreamRep (cb : ParserCallbacks) (lim : Limits) (p : SseParser) : Bytes → Prop where
  | bom (n : Nat) (hn : n ≤ 2) (hs : p.state = .bom) (hbomN : p.bomN = n)
      (hno : p.swallowLf = false) (h : BlockRep cb lim p .empty) :
      StreamRep cb lim p (sseBom.take n)
  | text (s : Bytes) (hpast : ¬ s <+: sseBom.take 2) (h : TextRep cb lim p (dropBom s)) :
      StreamRep cb lim p s

theorem dropBom_bom (r : Bytes) : dropBom (sseBom ++ r) = r := rfl

theorem dropBom_eq_self (h : ¬ sseBom <+: s) : dropBom s = s := by
  unfold dropBom
  split
  · next r => exact absurd ⟨r, rfl⟩ h
  · rfl

/-- Only the byte that completes a byte-order mark changes what is dropped. -/
theorem dropBom_snoc (h : s ++ [b] ≠ sseBom) : dropBom (s ++ [b]) = dropBom s ++ [b] := by
  by_cases hbom : sseBom <+: s
  · obtain ⟨r, rfl⟩ := hbom
    rw [List.append_assoc, dropBom_bom, dropBom_bom]
  · have hbom' : ¬ sseBom <+: s ++ [b] := by
      rw [List.prefix_concat_iff]
      rintro (heq | hpre)
      · exact h heq.symm
      · exact hbom hpre
    rw [dropBom_eq_self hbom, dropBom_eq_self hbom']

theorem sseBom_getElem (n : Nat) (hn : n < sseBom.length) :
    sseBom.take (n + 1) = sseBom.take n ++ [sseBom[n]] :=
  List.take_succ_eq_append_getElem hn

/-- No byte of the mark ends a line or a name. -/
theorem sseBom_plain : ∀ c ∈ sseBom, c ≠ cr ∧ c ≠ lf ∧ c ≠ colon := by
  decide +kernel

/-- A cut-off byte-order mark is a line that has reported nothing. -/
theorem splitLines_sseBom (n : Nat) (hn : n ≤ 2) :
    splitLines [] (sseBom.take n) = ([], sseBom.take n) := by
  interval_cases n <;> decide

theorem earlyReports_sseBom (lim : Limits) (blk : Block) (n : Nat) :
    earlyReports lim blk (sseBom.take n) = [] := by
  refine earlyReports_name (fun hmem => ?_) ?_
  · exact absurd (List.mem_of_mem_take hmem) (by decide)
  · exact (List.length_take_le' ..).trans (by decide)

theorem readText_sseBom (lim : Limits) (n : Nat) (hn : n ≤ 2) :
    readText lim (sseBom.take n) = (.empty, []) ∧ textReports lim (sseBom.take n) = [] := by
  unfold textReports readText
  rw [splitLines_sseBom n hn]
  exact ⟨rfl, earlyReports_sseBom lim .empty n⟩

theorem dropBom_sseBom (n : Nat) (hn : n ≤ 2) : dropBom (sseBom.take n) = sseBom.take n := by
  interval_cases n <;> decide

/-- Replaying a cut-off byte-order mark puts the parser inside the line it begins. -/
theorem replay_spec (hlim : lim.Valid) (hs : p.state = .lineStart) (hno : p.swallowLf = false)
    (h : BlockRep cb lim p .empty) (n : Nat) (hn : n ≤ 2) :
    Reports cb (run lineByte p (sseBom.take n)) [] [] fun q =>
      LineRep cb lim q .empty (sseBom.take n) ∧ q.swallowLf = false := by
  induction n with
  | zero => exact Reports.quiet ⟨.start hs h, hno⟩
  | succ n ih =>
    have hlt : n < sseBom.length := Nat.lt_of_succ_lt (Nat.lt_succ_of_le hn)
    obtain ⟨hcr, hlf, -⟩ := sseBom_plain _ (List.getElem_mem hlt)
    rw [sseBom_getElem n hlt, run_snoc]
    refine (ih (Nat.le_of_succ_le hn)).andThen ?_
    rintro ⟨hline, hswallow⟩
    have hbyte := lineByte_plain hlim hline hcr hlf
    rw [← sseBom_getElem n hlt, earlyReports_sseBom, earlyReports_sseBom] at hbyte
    rw [← sseBom_getElem n hlt]
    exact hbyte.mono fun ⟨hline', hswallow'⟩ => ⟨hline', hswallow'.trans hswallow⟩

/-- What a mark that turns out not to be one has held back is read as text. -/
theorem bomByte_mismatch (hlim : lim.Valid) (n : Nat) (hn : n ≤ 2) (hno : p.swallowLf = false)
    (h : BlockRep cb lim p .empty) :
    Reports cb
      (andThen (run lineByte { p with bomN := 0, state := .lineStart } (sseBom.take n))
        fun p => lineByte p b)
      [] (textReports lim (sseBom.take n ++ [b]))
      (TextRep cb lim · (sseBom.take n ++ [b])) := by
  obtain ⟨hread, hquiet⟩ := readText_sseBom lim n hn
  have hstart := h.cursor .lineStart p.field p.swallowLf 0
  refine (replay_spec (p := { p with bomN := 0, state := .lineStart }) hlim rfl hno hstart n
    hn).andThen ?_
  rintro ⟨hline, hswallow⟩
  have hline' : LineRep cb lim
      (run lineByte { p with bomN := 0, state := .lineStart } (sseBom.take n)).1
      (readText lim (sseBom.take n)).1 (splitLines [] (sseBom.take n)).2 := by
    rw [hread, splitLines_sseBom n hn]
    exact hline
  rw [← hquiet]
  refine lineByte_text hlim hline' hswallow fun _ hlast => ?_
  have hmem := List.mem_of_getLast? hlast
  exact absurd (List.mem_of_mem_take hmem) (by decide)

/-- **One byte of a stream.** The parser keeps up with the stream and reports what the byte adds to
its reading. -/
theorem processByte_spec (hlim : lim.Valid) (h : StreamRep cb lim p s) (b : UInt8) :
    Reports cb (processByte p b) (readingWithTail lim s) (readingWithTail lim (s ++ [b]))
      (StreamRep cb lim · (s ++ [b])) := by
  unfold processByte readingWithTail
  cases h with
  | text s hpast h =>
    have hpast' : ¬ s ++ [b] <+: sseBom.take 2 := fun hpre =>
      hpast ((List.prefix_append s [b]).trans hpre)
    have hdrop : dropBom (s ++ [b]) = dropBom s ++ [b] := by
      refine dropBom_snoc fun heq => hpast ?_
      have hs : s = sseBom.dropLast := by rw [← heq, List.dropLast_concat]
      rw [hs]
      exact List.prefix_rfl
    by_cases hlf : p.swallowLf && b = lf
    · rw [if_pos hlf]
      simp only [Bool.and_eq_true, decide_eq_true_eq] at hlf
      -- the LF of a CRLF: the line has been read at its CR
      obtain ⟨hswallow, rfl⟩ := hlf
      have hlast : (dropBom s).getLast? = some cr := by
        simpa [hswallow] using h.swallowLf
      have hsplit := splitLines_snoc_crlf [] hlast
      have hread : readText lim (dropBom s ++ [lf]) = readText lim (dropBom s) := by
        unfold readText
        rw [hsplit]
      have hsame : textReports lim (dropBom s ++ [lf]) = textReports lim (dropBom s) := by
        unfold textReports
        rw [hread, hsplit]
      rw [hdrop, hsame]
      refine Reports.quiet (.text _ hpast' ?_)
      rw [hdrop]
      refine ⟨?_, by simp [cr, lf]⟩
      rw [hread, hsplit]
      exact h.line.swallow false
    · rw [if_neg hlf]
      unfold bomByte
      rw [if_neg h.line.state_ne_bom, hdrop]
      have hcrlf : b = lf → (dropBom s).getLast? ≠ some cr := by
        rintro rfl hlast
        have hswallow : p.swallowLf = true := by simp [h.swallowLf, hlast]
        exact hlf (by simp [hswallow])
      refine (lineByte_text hlim (h.line.swallow false) rfl hcrlf).mono fun htext => ?_
      exact .text _ hpast' (hdrop ▸ htext)
  | bom n hn hs hbomN hno h =>
    have hquiet : textReports lim (dropBom (sseBom.take n)) = [] := by
      rw [dropBom_sseBom n hn]
      exact (readText_sseBom lim n hn).2
    have hkeep : ({ p with swallowLf := false } : SseParser) = p := by rw [← hno]
    rw [if_neg (by simp [hno]), hkeep, hquiet]
    unfold bomByte
    rw [if_pos hs]
    by_cases hmatch : p.bomN < 3 ∧ sseBom[p.bomN]? = some b
    · rw [if_pos hmatch]
      obtain ⟨hlt, hget⟩ := hmatch
      rw [hbomN] at hlt hget ⊢
      obtain ⟨hin, rfl⟩ := List.getElem?_eq_some_iff.mp hget
      rw [← sseBom_getElem n hin]
      by_cases hlast : n + 1 = 3
      · -- the mark is complete
        rw [if_pos hlast]
        have hn' : n = 2 := by omega
        subst hn'
        have hstart := h.cursor .lineStart p.field p.swallowLf 0
        exact Reports.quiet (.text _ (by decide) ⟨.start rfl hstart, hno⟩)
      · rw [if_neg hlast, dropBom_sseBom (n + 1) (by omega),
          (readText_sseBom lim (n + 1) (by omega)).2]
        exact Reports.quiet (.bom (n + 1) (by omega) hs rfl hno
          (h.cursor p.state p.field p.swallowLf (n + 1)))
    · rw [if_neg hmatch, hbomN]
      -- not the mark after all: its held bytes and this one are text
      rw [hbomN] at hmatch
      have hne : sseBom[n]? ≠ some b := fun hget => hmatch ⟨by omega, hget⟩
      have hmis : ∀ m, sseBom.take n ++ [b] ≠ sseBom.take m := by
        intro m heq
        have hget : (sseBom.take n ++ [b])[n]? = some b := by
          have hlen : (sseBom.take n).length = n := by
            rw [List.length_take]
            exact Nat.min_eq_left (Nat.le_succ_of_le hn)
          rw [List.getElem?_append_right (by omega), hlen]
          simp
        rw [heq, List.getElem?_take] at hget
        split at hget
        · exact hne hget
        · exact absurd hget (by simp)
      have hdrop : dropBom (sseBom.take n ++ [b]) = sseBom.take n ++ [b] := by
        rw [dropBom_snoc (hmis 3), dropBom_sseBom n hn]
      rw [hdrop]
      refine (bomByte_mismatch hlim n hn hno h).mono fun htext => ?_
      refine .text _ ?_ (by rwa [hdrop])
      intro hpre
      rw [List.prefix_iff_eq_take, List.take_take] at hpre
      exact hmis _ hpre

theorem LineRep.fits {blk : Block} {cur : Bytes} (h : LineRep cb lim p blk cur) :
    Fits cb lim p := by
  cases h with
  | start _ h => exact h.fits
  | name _ _ _ _ _ _ h => exact h.fits
  | skip _ _ _ h => exact h.fits
  | value f _ _ _ _ h =>
    cases f with
    | none => exact h.elim
    | data => exact DataValue.fits h
    | event => exact TypeValue.fits h
    | id => exact IdValue.fits h
    | retry => exact (RetryValue.block h).fits

theorem StreamRep.fits (h : StreamRep cb lim p s) : Fits cb lim p := by
  cases h with
  | bom _ _ _ _ _ h => exact h.fits
  | text _ _ h => exact h.line.fits

/-! ## §3 Whole Streams -/

/-- Any number of bytes. -/
theorem feed_spec (hlim : lim.Valid) (h : StreamRep cb lim p s) (chunk : Bytes) :
    Reports cb (sseParserFeed p chunk) (readingWithTail lim s) (readingWithTail lim (s ++ chunk))
      (StreamRep cb lim · (s ++ chunk)) := by
  induction chunk generalizing p s with
  | nil =>
    rw [List.append_nil]
    exact Reports.quiet h
  | cons b bs ih =>
    have hsplit : s ++ b :: bs = s ++ [b] ++ bs := by simp
    rw [hsplit]
    exact (processByte_spec hlim h b).andThen (f := fun q => sseParserFeed q bs) fun hq => ih hq

/-- A fresh parser has read nothing, whatever its buffers hold. -/
theorem streamRep_init (cb : ParserCallbacks) (buf : ParserBuffers) (lim : Limits)
    (hlim : lim.Valid) (hdata : buf.dataBuf.length = lim.data) (hid : buf.idBuf.length = lim.id)
    (hevent : buf.eventBuf.length = lim.event) :
    StreamRep cb lim (sseParserInit cb buf) [] := by
  have hfits : Fits cb lim (sseParserInit cb buf) := ⟨rfl, hdata, hid, hevent, rfl, rfl⟩
  refine .bom 0 (by omega) rfl rfl rfl ⟨hfits, rfl, ?_, ?_, ⟨rfl, by simp [Block.empty]⟩⟩
  · exact fun _ => ⟨Holds.nil _, rfl⟩
  · refine fun _ => ⟨Holds.nil _, rfl, by simp [Block.empty], ?_⟩
    exact Nat.lt_of_lt_of_le Nat.zero_lt_two hlim.event

/-- `sse_parser_reset` leaves a parser that has read nothing. -/
theorem streamRep_reset (hlim : lim.Valid) (h : StreamRep cb lim p s) :
    StreamRep cb lim (sseParserReset p) [] := by
  unfold sseParserReset
  rw [h.fits.cb]
  exact streamRep_init _ _ _ hlim h.fits.data h.fits.id h.fits.event

/-- The buffer lengths a caller hands to the parser. -/
def ParserBuffers.limits (buf : ParserBuffers) : Limits :=
  ⟨buf.dataBuf.length, buf.idBuf.length, buf.eventBuf.length⟩

theorem Fits.limits (h : Fits cb lim p) : p.buf.limits = lim := by
  rw [ParserBuffers.limits, h.data, h.id, h.event]

/-- A fresh parser fed a whole stream reports its reading and stands for its state. -/
theorem feed_init (cb : ParserCallbacks) (buf : ParserBuffers) (hlim : buf.limits.Valid)
    (s : Bytes) :
    Emits cb (sseParserFeed (sseParserInit cb buf) s).2 (readingWithTail buf.limits s) ∧
      StreamRep cb buf.limits (sseParserFeed (sseParserInit cb buf) s).1 s := by
  obtain ⟨hrep, new, hout, hnew⟩ :=
    feed_spec hlim (streamRep_init cb buf buf.limits hlim rfl rfl rfl) s
  rw [List.nil_append] at hrep hnew
  have hempty : readingWithTail buf.limits [] = [] := rfl
  rw [hempty, List.nil_append] at hnew
  rw [hnew]
  exact ⟨hout, hrep⟩

/-- **The parser refines the line-based reading.** However a stream is cut into chunks and whatever
the buffers held before, a fresh parser fires exactly the callbacks of the stream's reading, and no
store leaves its array. -/
theorem feedChunks_eq_reading (cb : ParserCallbacks) (buf : ParserBuffers)
    (chunks : List Bytes) (hlim : buf.limits.Valid) :
    (feedChunks (sseParserInit cb buf) chunks).2.map Callback.report =
        (readingWithTail buf.limits chunks.flatten).filter cb.accepts ∧
      (feedChunks (sseParserInit cb buf) chunks).1.oob = false := by
  rw [feedChunks_eq]
  obtain ⟨hout, hrep⟩ := feed_init cb buf hlim chunks.flatten
  exact ⟨hout.reports, hrep.fits.inBounds⟩

/-- Two chunks that cut a CRLF and a value in two, through buffers that hold old bytes. -/
theorem feedChunks_eq_reading_two :
    (feedChunks
        (sseParserInit ⟨true, true, true, true⟩ ⟨[7, 7, 7, 7, 7, 7], [7, 7], [7, 7]⟩)
        [ascii ['i', 'd', ':', '1'] ++ [cr], lf :: ascii ['d', 'a', 't', 'a'] ++ [lf, lf]]).2.map
          Callback.report =
      [.id (ascii ['1']) 1, .event none (some (ascii ['1'])) []] := by
  have h := (feedChunks_eq_reading ⟨true, true, true, true⟩
    ⟨[7, 7, 7, 7, 7, 7], [7, 7], [7, 7]⟩
    [ascii ['i', 'd', ':', '1'] ++ [cr], lf :: ascii ['d', 'a', 't', 'a'] ++ [lf, lf]]
    ⟨by decide, by decide, by decide⟩).1
  rw [h]
  decide

/-- Complete lines alone do not account for every callback: the fault of an unterminated line is
reported before its terminator, here at the sixth byte of an unknown name. -/
theorem feedChunks_ne_completeLines :
    ¬ ∀ (cb : ParserCallbacks) (buf : ParserBuffers) (chunks : List Bytes), buf.limits.Valid →
      (feedChunks (sseParserInit cb buf) chunks).2.map Callback.report =
        (reading buf.limits chunks.flatten).2.filter cb.accepts := by
  intro h
  have hbad := h ⟨true, true, true, true⟩ ⟨[0, 0], [0, 0], [0, 0]⟩
    [ascii ['a', 'b', 'c', 'd', 'e', 'f']] ⟨by decide, by decide, by decide⟩
  exact absurd hbad (by decide)

end EventSource.Parser
