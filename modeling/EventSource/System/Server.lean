import EventSource.Client.Delivery
import EventSource.Parser.WireFormat
import EventSource.Port.HttpText

/-!
# The Other End

A server that numbers its events and takes up where a reader left off. It is asked through the
`Last-Event-ID` header, read as `tools/sse_fixture_server.py` reads it, and that server's ticks are
one such stream.
-/

namespace EventSource.System

open EventSource.CMemory
open EventSource.Client
open EventSource.Parser
open EventSource.Port

variable {lim : Limits}

/-! ## §1 Request Headers -/

/-- What `str.strip` takes off, as far as it is ASCII. -/
def isBlank (b : UInt8) : Bool :=
  isSpace b || (0x1C ≤ b && b ≤ 0x1F)

def rstrip (text : Bytes) : Bytes :=
  text.rdropWhile isBlank

def strip (text : Bytes) : Bytes :=
  (rstrip text).dropWhile isBlank

def lastEventIdName : Bytes := ascii "last-event-id:".toList

/-- The header is the one that `Handler.handle` looks for. -/
def namesLastEventId (line : Bytes) : Bool :=
  startsWithCase (rstrip line) lastEventIdName

/-- `text.split(":", 1)[1].strip()`. -/
def headerValue (line : Bytes) : Bytes :=
  strip (((rstrip line).dropWhile (· ≠ colon)).drop 1)

/-- The header loop of `Handler.handle`: the last such line counts. -/
def lastEventIdOf (lines : List Bytes) : Bytes :=
  lines.foldl (fun id line => if namesLastEventId line then headerValue line else id) []

/-! ## §2 Servers -/

/-- What the application is told of an event. -/
def messageSignal (m : Message lim) : Signal :=
  .message (if m.type = [] then defaultType else m.type) m.data

/-- Events, each with what is written behind it. -/
def itemsOf (entries : List (Message lim × List (Item lim))) : List (Item lim) :=
  entries.flatMap fun e => .message e.1 :: e.2

/-- A server: its events, each with the comments and retry times written behind it, and the event
that it takes a reader to want first. The ids tell the events apart, since the server finds its
place by them. -/
structure Server (lim : Limits) where
  bom : Bool
  eol : Eol
  entries : List (Message lim × List (Item lim))
  start : Bytes → Nat
  quiet : ∀ e ∈ entries, ∀ it ∈ e.2, it.toMessage = none
  bare : ∀ e ∈ entries, e.1.key ≠ [] ∧ strip e.1.key = e.1.key
  start_nil : start [] = 0
  start_key : ∀ n e, entries[n]? = some e → start e.1.key = n + 1

/-- The place in the events that a request with these headers asks for. -/
def Server.place (S : Server lim) (headers : List Mem) : Nat :=
  S.start (lastEventIdOf (headers.map cstr))

/-- The answer to it. -/
def Server.answer (S : Server lim) (headers : List Mem) : Bytes :=
  writeStream S.bom S.eol (itemsOf (S.entries.drop (S.place headers)))

/-! ## §3 The Fixture Server -/

/-- `int(last_event_id) if last_event_id.isdigit() else 0`, for ASCII. -/
def fixtureStart (lastEventId : Bytes) : Nat :=
  if lastEventId ≠ [] ∧ lastEventId.all isDigit then decimal lastEventId else 0

/-- The `n`-th tick has a place in the buffers. -/
def TickFits (lim : Limits) (tag : Bytes) (n : Nat) : Prop :=
  (digitsOf n).length < lim.id ∧ tag.length + 1 + (digitsOf n).length < lim.data

instance (lim : Limits) (tag : Bytes) (n : Nat) : Decidable (TickFits lim tag n) :=
  inferInstanceAs (Decidable (_ ∧ _))

theorem nul_not_mem_digitsOf (n : Nat) : (0 : UInt8) ∉ digitsOf n := fun hmem =>
  absurd (isDigit_of_mem_digitsOf hmem) (by decide)

/-- The data of a tick. -/
def tickData (tag : Bytes) (n : Nat) : Bytes :=
  tag ++ space :: digitsOf n

theorem cr_not_mem_tickData {tag : Bytes} (htag : cr ∉ tag) (n : Nat) : cr ∉ tickData tag n := by
  unfold tickData
  rw [List.mem_append, List.mem_cons]
  rintro (h | h | h)
  · exact htag h
  · exact absurd h (by decide)
  · exact (plain_digitsOf n).1 h

theorem length_tickData (tag : Bytes) (n : Nat) :
    (tickData tag n).length = tag.length + 1 + (digitsOf n).length := by
  unfold tickData
  rw [List.length_append, List.length_cons]
  omega

theorem plain_tickId (n : Nat) : ∀ v ∈ some (digitsOf n), cr ∉ v ∧ lf ∉ v ∧ 0 ∉ v := by
  rintro v ⟨⟩
  exact ⟨(plain_digitsOf n).1, (plain_digitsOf n).2, nul_not_mem_digitsOf n⟩

theorem plain_noType : cr ∉ ([] : Bytes) ∧ lf ∉ ([] : Bytes) ∧ (0 : UInt8) ∉ ([] : Bytes) :=
  ⟨List.not_mem_nil, List.not_mem_nil, List.not_mem_nil⟩

theorem TickFits.data {tag : Bytes} {n : Nat} (h : TickFits lim tag n) :
    (tickData tag n).length < lim.data := by
  rw [length_tickData]
  exact h.2

theorem TickFits.id {tag : Bytes} {n : Nat} (h : TickFits lim tag n) :
    ∀ v ∈ some (digitsOf n), v.length < lim.id := by
  rintro v ⟨⟩
  exact h.1

/-- `f"id: {n}\ndata: {tag} {n}\n\n"`. -/
def tick (tag : Bytes) (htag : cr ∉ tag) (hevent : 0 < lim.event) (n : Nat)
    (hfits : TickFits lim tag n) : Message lim where
  type := []
  data := tickData tag n
  id := some (digitsOf n)
  data_plain := cr_not_mem_tickData htag n
  data_fits := hfits.data
  type_plain := plain_noType
  type_fits := hevent
  id_plain := plain_tickId n
  id_fits := hfits.id

/-- `b": keepalive\n"`, behind every fifth tick. -/
def keepalive (n : Nat) : List (Item lim) :=
  if n % 5 = 0 then [.comment (ascii " keepalive".toList) (by decide)] else []

theorem strip_digitsOf (n : Nat) : strip (digitsOf n) = digitsOf n := by
  have hdigit : ∀ b ∈ digitsOf n, isBlank b = false := by
    intro b hb
    have hd := isDigit_of_mem_digitsOf hb
    have hspace := isSpace_of_isDigit hd
    unfold isDigit at hd
    rw [Bool.and_eq_true, decide_eq_true_eq, decide_eq_true_eq] at hd
    have hhigh : ¬ b ≤ 0x1F := by
      have := hd.1
      rw [UInt8.le_iff_toNat_le] at this ⊢
      have h30 : (0x30 : UInt8).toNat = 48 := rfl
      have h1f : (0x1F : UInt8).toNat = 31 := rfl
      omega
    unfold isBlank
    rw [hspace, decide_eq_false hhigh, Bool.and_false]
    rfl
  have hright : rstrip (digitsOf n) = digitsOf n := by
    unfold rstrip
    rw [List.rdropWhile_eq_self_iff]
    intro hne hblank
    rw [hdigit _ (List.getLast_mem hne)] at hblank
    cases hblank
  have hleft : (digitsOf n).dropWhile isBlank = digitsOf n := by
    rw [List.dropWhile_eq_self_iff]
    intro hpos hblank
    rw [hdigit _ (List.getElem_mem _)] at hblank
    cases hblank
  unfold strip
  rw [hright, hleft]

/-- The first `count` ticks of `sse_ticks`. -/
def tickServer (tag : Bytes) (htag : cr ∉ tag) (hevent : 0 < lim.event) (count : Nat)
    (hfits : ∀ n, n < count → TickFits lim tag (n + 1)) : Server lim where
  bom := false
  eol := .lf
  entries := List.ofFn fun i : Fin count =>
    (tick tag htag hevent (i + 1) (hfits i i.isLt), keepalive (i + 1))
  start := fixtureStart
  quiet := by
    intro e he it hit
    obtain ⟨i, rfl⟩ := List.mem_ofFn.mp he
    simp only [keepalive] at hit
    split at hit
    · rw [List.mem_singleton.mp hit]
      rfl
    · exact absurd hit List.not_mem_nil
  bare := by
    intro e he
    obtain ⟨i, rfl⟩ := List.mem_ofFn.mp he
    exact ⟨digitsOf_ne_nil _, strip_digitsOf _⟩
  start_nil := rfl
  start_key := by
    intro n e he
    obtain ⟨hn, rfl⟩ := List.getElem?_eq_some_iff.mp he
    rw [List.getElem_ofFn]
    have hall : (digitsOf (n + 1)).all isDigit = true :=
      List.all_eq_true.mpr fun b hb => isDigit_of_mem_digitsOf hb
    show fixtureStart (digitsOf (n + 1)) = n + 1
    unfold fixtureStart
    rw [if_pos ⟨digitsOf_ne_nil _, hall⟩, decimal_digitsOf]

end EventSource.System
