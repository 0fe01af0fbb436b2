import EventSource.Port.CurlTransport

/-!
# Header Lines

The header lines of an answer, and what `on_header` hears of them. An answer has informational header
blocks, a final one and a body; `on_header` does not know where a block begins and ends, and takes
every line that begins with `HTTP/` for a status line and every line of at most two bytes for the end
of a block. What it hears is the text behind the last line of the first kind.
-/

namespace EventSource.Port

open EventSource.CMemory
open EventSource.Parser
open EventSource.Client

/-! ## §1 Lines and Blocks -/

/-- The memory at a header line and its length. -/
abbrev HeaderLine := Mem × Nat

/-- What `on_header` takes for a status line. -/
def IsStatusLine (l : HeaderLine) : Prop :=
  5 < l.2 ∧ l.1.take httpName.length = httpName

instance (l : HeaderLine) : Decidable (IsStatusLine l) :=
  inferInstanceAs (Decidable (_ ∧ _))

/-- A line that begins with CR or LF, which for libcurl ends the block. -/
def IsBlankLine (l : HeaderLine) : Prop :=
  l.1.head? = some cr ∨ l.1.head? = some lf

instance (l : HeaderLine) : Decidable (IsBlankLine l) :=
  inferInstanceAs (Decidable (_ ∨ _))

theorem IsBlankLine.not_isStatusLine {l : HeaderLine} (h : IsBlankLine l) : ¬ IsStatusLine l := by
  rintro ⟨-, hname⟩
  obtain ⟨ptr, n⟩ := l
  cases ptr with
  | nil => simp [IsBlankLine] at h
  | cons b ptr =>
    -- neither CR nor LF is an `H`
    have hhead : b = 0x48 := (List.cons.inj hname).1
    rcases h with hb | hb <;> cases hhead.symm.trans (Option.some.inj hb)

/-- A header line read for its Retry-After. -/
def addRetryAfter (before : Int32) (l : HeaderLine) : Int32 :=
  if 12 < l.2 ∧ startsWithCase l.1 retryAfterName then retryAfterLine l.1 l.2 before else before

/-- A header block: its lines, and the status that libcurl reads from its status line. Nothing is
assumed of how libcurl reads it. -/
structure HeaderBlock where
  status : Int
  statusLine : HeaderLine
  fields : List HeaderLine
  blank : HeaderLine
  begins : IsStatusLine statusLine
  ends : IsBlankLine blank
  goesOn : ∀ l ∈ fields, ¬ IsBlankLine l
  deriving DecidableEq

def HeaderBlock.lines (b : HeaderBlock) : List HeaderLine :=
  b.statusLine :: (b.fields ++ [b.blank])

/-- The Retry-After of the block, -1 if it has none. -/
def HeaderBlock.retryAfter (b : HeaderBlock) : Int32 :=
  b.fields.foldl addRetryAfter (-1)

/-- The header blocks of an answer to a request. -/
structure Answer where
  interim : List HeaderBlock
  final : HeaderBlock
  informational : ∀ b ∈ interim, b.status < 200
  complete : 200 ≤ final.status
  deriving DecidableEq

def Answer.lines (a : Answer) : List HeaderLine :=
  a.interim.flatMap HeaderBlock.lines ++ a.final.lines

/-! ## §2 The Text That Is Heard -/

/-- A line that begins with `HTTP/` begins a block anew. -/
def restart (b : HeaderLine × List HeaderLine) (l : HeaderLine) : HeaderLine × List HeaderLine :=
  if IsStatusLine l then (l, []) else (b.1, b.2 ++ [l])

/-- The last line that begins with `HTTP/`, and the lines behind it. -/
def latest (b : HeaderLine × List HeaderLine) (ls : List HeaderLine) :
    HeaderLine × List HeaderLine :=
  ls.foldl restart b

/-- The number that follows the first space of a line. -/
def numberOf (l : HeaderLine) : Int :=
  statusOfLine (l.1.take l.2)

/-- Behind the last line that begins with `HTTP/`, with a number from 200, there is a line of at most
two bytes. -/
def Completes : List HeaderLine → Prop
  | [] => False
  | l :: ls => 200 ≤ numberOf (latest (l, []) ls).1 ∧ ∃ x ∈ (latest (l, []) ls).2, x.2 ≤ 2

instance : DecidablePred Completes
  | [] => inferInstanceAs (Decidable False)
  | _ :: _ => inferInstanceAs (Decidable (_ ∧ _))

/-- The final block from its last line that begins with `HTTP/`. -/
def Answer.tail (a : Answer) : HeaderLine × List HeaderLine :=
  latest (a.final.statusLine, []) a.final.fields

/-- The answer loses nothing when only the text behind the last line that begins with `HTTP/` is
heard. No part of its lines seems complete before the whole is, the number of the last such line makes
it a redirect exactly if its status does, and the Retry-After lines behind that line are as good as
all. -/
structure Answer.Plain (a : Answer) : Prop where
  whole : ∀ ls, ls <+: a.lines → Completes ls → ls = a.lines
  status : isRedirectStatus (numberOf a.tail.1) = isRedirectStatus a.final.status
  retryAfter : a.tail.2.foldl addRetryAfter (-1) = a.final.retryAfter

/-! ## §3 Hearing -/

/-- What `on_header` keeps of the lines. -/
structure Heard where
  status : Int
  retryAfter : Int32
  done : Bool
  deriving DecidableEq

def Heard.line (t : Heard) (l : HeaderLine) : Heard :=
  if IsStatusLine l then ⟨numberOf l, -1, false⟩
  else if l.2 ≤ 2 then { t with done := t.done || 200 ≤ t.status }
  else { t with retryAfter := addRetryAfter t.retryAfter l }

/-- What is left of the lines of a request. -/
def hear (ls : List HeaderLine) : Heard :=
  ls.foldl Heard.line ⟨0, -1, false⟩

/-- The fields of the context that `on_header` writes. -/
def CurlCtx.heard (t : CurlCtx) : Heard :=
  ⟨t.headerBlockStatus, t.retryAfterS, t.headersDone⟩

theorem onHeader_heard (t : CurlCtx) (ptr : Mem) (n : Nat) :
    (onHeader t ptr n).heard = t.heard.line (ptr, n) := by
  unfold onHeader Heard.line
  by_cases hstatus : 5 < n ∧ ptr.take httpName.length = httpName
  · rw [if_pos hstatus, if_pos (show IsStatusLine (ptr, n) from hstatus)]
    rfl
  · rw [if_neg hstatus, if_neg (show ¬ IsStatusLine (ptr, n) from hstatus)]
    by_cases hshort : n ≤ 2
    · rw [if_pos hshort, if_pos hshort]
      by_cases hfinal : 200 ≤ t.headerBlockStatus <;> simp [CurlCtx.heard, hfinal]
    · rw [if_neg hshort, if_neg hshort]
      unfold addRetryAfter
      by_cases hra : 12 < n ∧ startsWithCase ptr retryAfterName
      · rw [if_pos hra, if_pos hra]
        rfl
      · rw [if_neg hra, if_neg hra]

/-- The other fields of the context are not touched. -/
theorem onHeader_spares (t : CurlCtx) (ptr : Mem) (n : Nat) :
    (onHeader t ptr n).bodyStarted = t.bodyStarted ∧
      (onHeader t ptr n).transferDone = t.transferDone ∧
      (onHeader t ptr n).transferResult = t.transferResult := by
  unfold onHeader
  split
  · exact ⟨rfl, rfl, rfl⟩
  · split
    · split <;> exact ⟨rfl, rfl, rfl⟩
    · split <;> exact ⟨rfl, rfl, rfl⟩

/-- What is heard of a block that begins with a line and goes on with others. -/
def Heard.of (b : HeaderLine × List HeaderLine) : Heard where
  status := numberOf b.1
  retryAfter := b.2.foldl addRetryAfter (-1)
  done := 200 ≤ numberOf b.1 && b.2.any fun x => x.2 ≤ 2

/-- A short line says nothing about Retry-After. -/
theorem addRetryAfter_of_short {l : HeaderLine} (h : l.2 ≤ 2) (before : Int32) :
    addRetryAfter before l = before := by
  refine if_neg ?_
  rintro ⟨hlong, -⟩
  omega

theorem Heard.of_restart (b : HeaderLine × List HeaderLine) (l : HeaderLine) :
    Heard.of (restart b l) = (Heard.of b).line l := by
  unfold restart Heard.line
  by_cases hstatus : IsStatusLine l
  · rw [if_pos hstatus, if_pos hstatus]
    simp [Heard.of]
  · rw [if_neg hstatus, if_neg hstatus]
    by_cases hshort : l.2 ≤ 2
    · -- the line completes the block if its status allows
      rw [if_pos hshort]
      by_cases hfinal : 200 ≤ numberOf b.1 <;>
        simp [Heard.of, hshort, hfinal, addRetryAfter_of_short hshort]
    · rw [if_neg hshort]
      simp [Heard.of, hshort]

theorem foldl_line_of (b : HeaderLine × List HeaderLine) (ls : List HeaderLine) :
    ls.foldl Heard.line (Heard.of b) = Heard.of (latest b ls) := by
  unfold latest
  induction ls generalizing b with
  | nil => rfl
  | cons l ls ih => rw [List.foldl_cons, List.foldl_cons, ← Heard.of_restart, ih]

/-- **What is heard is the text behind the last line that begins with `HTTP/`.** -/
theorem hear_append_statusLine (pre : List HeaderLine) {l : HeaderLine} (hl : IsStatusLine l)
    (ls : List HeaderLine) : hear (pre ++ l :: ls) = Heard.of (latest (l, []) ls) := by
  unfold hear
  rw [List.foldl_append, List.foldl_cons, ← foldl_line_of]
  unfold Heard.line
  rw [if_pos hl]
  simp [Heard.of]

/-! ## §4 Answers -/

/-- A row of blocks begins with a status line. -/
theorem blocks_head (bs : List HeaderBlock) (b : HeaderBlock) :
    ∃ l ls, bs.flatMap HeaderBlock.lines ++ b.lines = l :: ls ∧ IsStatusLine l := by
  cases bs with
  | nil => exact ⟨_, _, rfl, b.begins⟩
  | cons b' bs => exact ⟨_, _, rfl, b'.begins⟩

/-- A part of an answer that seems complete is so by its text. -/
theorem hear_done_iff {a : Answer} {ls : List HeaderLine} (h : ls <+: a.lines) :
    (hear ls).done = true ↔ Completes ls := by
  cases ls with
  | nil => exact ⟨fun hdone => Bool.noConfusion hdone, False.elim⟩
  | cons l ls =>
    obtain ⟨l', ls', hlines, hstatus⟩ := blocks_head a.interim a.final
    unfold Answer.lines at h
    rw [hlines] at h
    obtain rfl : l = l' := (List.cons_prefix_cons.mp h).1
    have hheard : hear (l :: ls) = Heard.of (latest (l, []) ls) :=
      hear_append_statusLine [] hstatus ls
    rw [hheard]
    simp [Heard.of, Completes]

theorem addRetryAfter_of_other {l : HeaderLine} (h : startsWithCase l.1 retryAfterName = false)
    (before : Int32) : addRetryAfter before l = before := by
  refine if_neg ?_
  rw [h]
  exact fun hand => absurd hand.2 Bool.false_ne_true

/-- A line whose first byte is no `r` has no Retry-After. -/
theorem notRetryAfter_of_head {l : HeaderLine} (h : ∀ b, l.1.head? = some b → asciiLower b ≠ 0x72) :
    startsWithCase l.1 retryAfterName = false := by
  obtain ⟨ptr, n⟩ := l
  refine decide_eq_false fun hname => ?_
  cases ptr with
  | nil => cases hname
  | cons b ptr => exact h b rfl (List.cons.inj hname).1

theorem IsBlankLine.notRetryAfter {l : HeaderLine} (h : IsBlankLine l) :
    startsWithCase l.1 retryAfterName = false := by
  refine notRetryAfter_of_head fun b hb => ?_
  rcases h with h | h <;> obtain rfl := Option.some.inj (h.symm.trans hb) <;> decide

theorem IsStatusLine.notRetryAfter {l : HeaderLine} (h : IsStatusLine l) :
    startsWithCase l.1 retryAfterName = false := by
  obtain ⟨ptr, n⟩ := l
  refine notRetryAfter_of_head fun b hb => ?_
  cases ptr with
  | nil => cases hb
  | cons c ptr =>
    have hhead : c = 0x48 := (List.cons.inj h.2).1
    obtain rfl := Option.some.inj hb
    rw [hhead]
    decide

/-- What is heard of a whole answer is its tail. -/
theorem hear_lines (a : Answer) :
    (hear a.lines).status = numberOf a.tail.1 ∧
      (hear a.lines).retryAfter = a.tail.2.foldl addRetryAfter (-1) := by
  have hblank : latest (a.final.statusLine, []) (a.final.fields ++ [a.final.blank]) =
      (a.tail.1, a.tail.2 ++ [a.final.blank]) := by
    unfold Answer.tail latest
    rw [List.foldl_append, List.foldl_cons, List.foldl_nil]
    exact if_neg a.final.ends.not_isStatusLine
  have hheard : hear a.lines = Heard.of (a.tail.1, a.tail.2 ++ [a.final.blank]) := by
    rw [← hblank]
    exact hear_append_statusLine _ a.final.begins _
  rw [hheard]
  refine ⟨rfl, ?_⟩
  show (a.tail.2 ++ [a.final.blank]).foldl addRetryAfter (-1) = _
  rw [List.foldl_append]
  exact addRetryAfter_of_other a.final.ends.notRetryAfter _

/-- Without a further line that begins with `HTTP/`, all lines stand behind the first. -/
theorem latest_of_fields {b : HeaderLine × List HeaderLine} {ls : List HeaderLine}
    (h : ∀ l ∈ ls, ¬ IsStatusLine l) : latest b ls = (b.1, b.2 ++ ls) := by
  unfold latest
  induction ls generalizing b with
  | nil => rw [List.append_nil, List.foldl_nil]
  | cons l ls ih =>
    have hl : restart b l = (b.1, b.2 ++ [l]) := if_neg (h l (List.mem_cons_self ..))
    rw [List.foldl_cons, hl, ih fun x hx => h x (List.mem_cons_of_mem _ hx), List.append_assoc]
    rfl

/-- No field line looks like something else, and the status line gives the status. -/
structure HeaderBlock.Plain (b : HeaderBlock) : Prop where
  status : numberOf b.statusLine = b.status
  noStatusLine : ∀ l ∈ b.fields, ¬ IsStatusLine l
  noShort : ∀ l ∈ b.fields, 2 < l.2

/-- A part of a plain block is complete only if it is the whole, and the block is a final one. -/
theorem HeaderBlock.Plain.part {b : HeaderBlock} (h : b.Plain) {ls : List HeaderLine}
    (hls : ls <+: b.lines) (hcompletes : Completes ls) : ls = b.lines ∧ 200 ≤ b.status := by
  cases ls with
  | nil => exact hcompletes.elim
  | cons l ls =>
    obtain ⟨rfl, hpart⟩ : l = b.statusLine ∧ ls <+: b.fields ++ [b.blank] :=
      List.cons_prefix_cons.mp hls
    have hnone : ∀ x ∈ b.fields ++ [b.blank], ¬ IsStatusLine x := by
      intro x hx
      rcases List.mem_append.mp hx with hx | hx
      · exact h.noStatusLine x hx
      · rw [List.mem_singleton.mp hx]
        exact b.ends.not_isStatusLine
    have hlatest : latest (b.statusLine, []) ls = (b.statusLine, ls) :=
      latest_of_fields fun x hx => hnone x (hpart.subset hx)
    obtain ⟨hstatus, x, hx, hshort⟩ := hcompletes
    rw [hlatest] at hstatus hx
    refine ⟨?_, h.status ▸ hstatus⟩
    -- the short line is no field, so the blank line is there
    rcases List.prefix_concat_iff.mp hpart with hwhole | hfields
    · exact congrArg (b.statusLine :: ·) hwhole
    · exact absurd hshort (Nat.not_le_of_lt (h.noShort x (hfields.subset hx)))

/-- What stands before a status line does not matter. -/
theorem completes_append_statusLine (pre : List HeaderLine) {l : HeaderLine} (hl : IsStatusLine l)
    (ls : List HeaderLine) : Completes (pre ++ l :: ls) ↔ Completes (l :: ls) := by
  cases pre with
  | nil => exact Iff.rfl
  | cons p pre =>
    have hlatest : latest (p, []) (pre ++ l :: ls) = latest (l, []) ls := by
      unfold latest
      rw [List.foldl_append, List.foldl_cons]
      exact congrArg (List.foldl restart · ls) (if_pos hl)
    rw [List.cons_append]
    simp only [Completes, hlatest]

/-- **What HTTP allows is heard as it was sent.** -/
theorem Answer.plain_of_blocks {a : Answer} (hinterim : ∀ b ∈ a.interim, b.Plain)
    (hfinal : a.final.Plain) : a.Plain := by
  have htail : a.tail = (a.final.statusLine, a.final.fields) :=
    latest_of_fields hfinal.noStatusLine
  refine ⟨?_, ?_, ?_⟩
  · have hinformational := a.informational
    unfold Answer.lines
    generalize a.interim = bs at hinterim hinformational
    induction bs with
    | nil => exact fun ls hls hcompletes => (hfinal.part hls hcompletes).1
    | cons b bs ih =>
      intro ls hls hcompletes
      rw [List.flatMap_cons, List.append_assoc] at hls ⊢
      -- an informational block does not complete anything
      have hnot : ∀ part, part <+: b.lines → ¬ Completes part := fun part hpart hcompletes =>
        Int.not_le.mpr (hinformational b (List.mem_cons_self ..))
          ((hinterim b (List.mem_cons_self ..)).part hpart hcompletes).2
      rcases List.prefix_or_prefix_of_prefix hls (List.prefix_append _ _) with hpart | ⟨more, rfl⟩
      · exact absurd hcompletes (hnot ls hpart)
      · have hmore := (List.prefix_append_right_inj _).mp hls
        -- the next block starts the search for the end afresh
        cases more with
        | nil =>
          rw [List.append_nil] at hcompletes
          exact absurd hcompletes (hnot b.lines List.prefix_rfl)
        | cons l more =>
          have hl : IsStatusLine l := by
            obtain ⟨l', ls', hlines, hl'⟩ := blocks_head bs a.final
            rw [hlines] at hmore
            rw [(List.cons_prefix_cons.mp hmore).1]
            exact hl'
          rw [completes_append_statusLine _ hl] at hcompletes
          rw [ih (fun x hx => hinterim x (List.mem_cons_of_mem _ hx))
            (fun x hx => hinformational x (List.mem_cons_of_mem _ hx)) _ hmore hcompletes]
  · rw [htail]
    exact congrArg isRedirectStatus hfinal.status
  · rw [htail]
    rfl

end EventSource.Port
