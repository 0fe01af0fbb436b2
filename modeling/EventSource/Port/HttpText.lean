import EventSource.Client.Machine
import EventSource.Parser.LineReading

/-!
# Numbers and Names in HTTP Text

The functions of the C library that both transports read header values with, and the reading of
Retry-After, which the two transports have in common up to the width of `long`.
-/

namespace EventSource.Port

open EventSource.CMemory
open EventSource.Parser
open EventSource.Client

/-! ## §1 Comparison -/

/-- `strcasecmp(a, b) == 0`. -/
def strcaseEq (a b : Mem) : Bool :=
  (cstr a).map asciiLower = (cstr b).map asciiLower

/-- `strncasecmp(p, text, strlen(text)) == 0`, for a text in lower case. -/
def startsWithCase (p : Mem) (text : Bytes) : Bool :=
  (p.take text.length).map asciiLower = text

/-! ## §2 Numbers -/

/-- `isspace`. -/
def isSpace (b : UInt8) : Bool :=
  b = space || (0x09 ≤ b && b ≤ 0x0D)

/-- The sign that `strtol` accepts, and what follows it. -/
def splitSign : Mem → Bool × Mem
  | 0x2D :: m => (true, m)
  | 0x2B :: m => (false, m)
  | m => (false, m)

/-- `strtol(p, NULL, 10)` where `long` has `bits` bits. -/
def strtol (bits : Nat) (p : Mem) : Int :=
  let s := splitSign (p.dropWhile isSpace)
  let v := decimal (s.2.takeWhile isDigit)
  if s.1 then -(min v (2 ^ (bits - 1)) : Nat) else (min v (2 ^ (bits - 1) - 1) : Nat)

/-- Delta-seconds only: a value that starts with no digit leaves what was there. The conversion to
`int32_t` keeps the low 32 bits. -/
def readSeconds (bits : Nat) (p : Mem) (before : Int32) : Int32 :=
  if (p.head?.map isDigit).getD false then
    let v := strtol bits p
    if 0 ≤ v then .ofInt v else before
  else before

/-! ## §3 Digit Strings -/

/-- No further digit follows. -/
def EndsDigits (rest : Mem) : Prop :=
  rest.takeWhile isDigit = []

theorem isSpace_of_isDigit {b : UInt8} (h : isDigit b = true) : isSpace b = false := by
  simp only [isDigit, Bool.and_eq_true, decide_eq_true_eq] at h
  have hspace : b ≠ space := by
    rintro rfl
    exact absurd h.1 (by decide)
  have hcontrol : ¬ b ≤ 0x0D := fun hle =>
    absurd (UInt8.le_trans h.1 hle) (by decide)
  simp [isSpace, hspace, hcontrol]

theorem splitSign_digit {b : UInt8} (h : isDigit b = true) (m : Mem) :
    splitSign (b :: m) = (false, b :: m) := by
  have hplus : b ≠ 0x2B := by
    rintro rfl
    exact absurd h (by decide)
  have hminus : b ≠ 0x2D := by
    rintro rfl
    exact absurd h (by decide)
  unfold splitSign
  split
  · next heq => exact absurd (List.cons.inj heq).1 hminus
  · next heq => exact absurd (List.cons.inj heq).1 hplus
  · rfl

/-- A digit string is read whole, up to the largest `long`. -/
theorem strtol_digits (bits : Nat) {ds rest : Mem} (hne : ds ≠ []) (hds : ∀ b ∈ ds, isDigit b = true)
    (hrest : EndsDigits rest) :
    strtol bits (ds ++ rest) = (min (decimal ds) (2 ^ (bits - 1) - 1) : Nat) := by
  cases ds with
  | nil => exact absurd rfl hne
  | cons b ds =>
    have hb : isDigit b = true := hds b (List.mem_cons_self ..)
    have hskip : (b :: ds ++ rest).dropWhile isSpace = b :: ds ++ rest := by
      rw [List.cons_append, List.dropWhile_cons_of_neg]
      rw [isSpace_of_isDigit hb]
      exact Bool.false_ne_true
    have htake : (b :: ds ++ rest).takeWhile isDigit = b :: ds := by
      rw [List.takeWhile_append_of_pos hds, hrest, List.append_nil]
    unfold strtol
    rw [hskip, List.cons_append, splitSign_digit hb]
    show ((min (decimal ((b :: ds ++ rest).takeWhile isDigit)) (2 ^ (bits - 1) - 1) : Nat) : Int) = _
    rw [htake]

/-- What a digit string leaves in the field. -/
theorem readSeconds_digits (bits : Nat) {ds rest : Mem} (hne : ds ≠ [])
    (hds : ∀ b ∈ ds, isDigit b = true) (hrest : EndsDigits rest) (before : Int32) :
    readSeconds bits (ds ++ rest) before =
      .ofInt (min (decimal ds) (2 ^ (bits - 1) - 1) : Nat) := by
  have hhead : ((ds ++ rest).head?.map isDigit).getD false = true := by
    cases ds with
    | nil => exact absurd rfl hne
    | cons b ds => exact hds b (List.mem_cons_self ..)
  unfold readSeconds
  rw [if_pos hhead, strtol_digits bits hne hds hrest]
  exact if_pos (Int.natCast_nonneg _)

end EventSource.Port
