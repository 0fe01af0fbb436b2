import EventSource.Client.Reconnect
import Mathlib.Order.MinMax

/-!
# The Delay of a Retry

What `fail_conn` computes in 64 bits, against the same computation in unbounded numbers: nothing
wraps before the one clamp, the jitter only lengthens the delay, and a larger operand never gives a
shorter one.
-/

namespace EventSource.Client

open EventSource.Trace

variable {env : Env} {c d : SseClient} {retryAfterS : Int32}

/-! ## §1 The Delay in Unbounded Numbers -/

/-- The delay before the jitter. -/
def plannedDelay (c : SseClient) (retryAfterS : Int32) : Nat :=
  if 0 ≤ retryAfterS then 1000 * retryAfterS.toInt.toNat
  else if c.cfg.maxRetryMs = 0 then c.baseRetryMs.toNat
  else min (c.baseRetryMs.toNat * 2 ^ min c.attempts.toNat 15) c.cfg.maxRetryMs.toNat

/-- The percentage that the generator adds. -/
def jitter (c : SseClient) : Nat :=
  (prngNext c).1.toNat % (c.cfg.jitterPct.toNat + 1)

/-- The delay with the jitter. -/
def jitteredDelay (c : SseClient) (retryAfterS : Int32) : Nat :=
  plannedDelay c retryAfterS + plannedDelay c retryAfterS * jitter c / 100

theorem jitter_le (c : SseClient) : jitter c ≤ c.cfg.jitterPct.toNat :=
  Nat.le_of_lt_succ (Nat.mod_lt _ (Nat.succ_pos _))

theorem jitter_of_zero (h : c.cfg.jitterPct = 0) : jitter c = 0 := by
  have hle := jitter_le c
  rw [h] at hle
  exact Nat.le_zero.mp hle

/-! ## §2 Nothing Wraps -/

/-- The exponent of the doubling. -/
def shift (c : SseClient) : UInt32 :=
  if c.attempts > 15 then 15 else c.attempts

theorem shift_toNat (c : SseClient) : (shift c).toNat = min c.attempts.toNat 15 := by
  unfold shift
  split
  · next h =>
    have hlt : 15 < c.attempts.toNat := UInt32.lt_iff_toNat_lt.mp h
    rw [Nat.min_eq_right (by omega)]
    rfl
  · next h =>
    have hle : c.attempts.toNat ≤ 15 := UInt32.le_iff_toNat_le.mp (UInt32.not_lt.mp h)
    rw [Nat.min_eq_left hle]

/-- The shift loses no bit. -/
theorem doubled_toNat (c : SseClient) :
    (c.baseRetryMs.toUInt64 <<< (shift c).toUInt64).toNat =
      c.baseRetryMs.toNat * 2 ^ min c.attempts.toNat 15 := by
  have hshift : (shift c).toNat ≤ 15 := by
    rw [shift_toNat]
    exact Nat.min_le_right _ _
  have hbase : c.baseRetryMs.toNat < 2 ^ 32 := c.baseRetryMs.toNat_lt
  have hpow : 2 ^ (shift c).toNat ≤ 2 ^ 15 := Nat.pow_le_pow_right (by decide) hshift
  have hsmall : c.baseRetryMs.toNat * 2 ^ (shift c).toNat < 2 ^ 64 :=
    calc c.baseRetryMs.toNat * 2 ^ (shift c).toNat
        ≤ c.baseRetryMs.toNat * 2 ^ 15 := Nat.mul_le_mul_left _ hpow
      _ < 2 ^ 64 := by omega
  rw [UInt64.toNat_shiftLeft, UInt32.toNat_toUInt64, UInt32.toNat_toUInt64, Nat.shiftLeft_eq,
    Nat.mod_eq_of_lt (by omega : (shift c).toNat < 64), Nat.mod_eq_of_lt hsmall, shift_toNat]

/-- A Retry-After in milliseconds. -/
theorem seconds_toNat (retryAfterS : Int32) :
    (UInt64.ofNat retryAfterS.toInt.toNat * 1000).toNat = 1000 * retryAfterS.toInt.toNat := by
  have hlt : retryAfterS.toInt < 2 ^ 31 := retryAfterS.toInt_lt
  have hsmall : retryAfterS.toInt.toNat < 2 ^ 31 := by omega
  have hthousand : (1000 : UInt64).toNat = 1000 := rfl
  have hfits : retryAfterS.toInt.toNat % 2 ^ 64 = retryAfterS.toInt.toNat :=
    Nat.mod_eq_of_lt (by omega)
  rw [UInt64.toNat_mul, UInt64.toNat_ofNat', hthousand, hfits, Nat.mod_eq_of_lt (by omega),
    Nat.mul_comm]

/-- The delay before the jitter is exact. -/
theorem retryBase_toNat (c : SseClient) (retryAfterS : Int32) :
    (retryBase c retryAfterS).toNat = plannedDelay c retryAfterS := by
  unfold retryBase plannedDelay
  split
  · exact seconds_toNat retryAfterS
  · split
    · exact UInt32.toNat_toUInt64 _
    · have hdoubled := doubled_toNat c
      show (if c.baseRetryMs.toUInt64 <<< (shift c).toUInt64 > c.cfg.maxRetryMs.toUInt64 then
        c.cfg.maxRetryMs.toUInt64 else c.baseRetryMs.toUInt64 <<< (shift c).toUInt64).toNat = _
      split
      · next h =>
        have hlt := UInt64.lt_iff_toNat_lt.mp h
        rw [hdoubled, UInt32.toNat_toUInt64] at hlt
        rw [UInt32.toNat_toUInt64, Nat.min_eq_right (Nat.le_of_lt hlt)]
      · next h =>
        have hle := UInt64.le_iff_toNat_le.mp (UInt64.not_lt.mp h)
        rw [hdoubled, UInt32.toNat_toUInt64] at hle
        rw [hdoubled, Nat.min_eq_left hle]

/-- There is room for the jitter. -/
theorem plannedDelay_lt (c : SseClient) (retryAfterS : Int32) :
    plannedDelay c retryAfterS < 2 ^ 42 := by
  have hlt : retryAfterS.toInt < 2 ^ 31 := retryAfterS.toInt_lt
  have hbase : c.baseRetryMs.toNat < 2 ^ 32 := c.baseRetryMs.toNat_lt
  have hmax : c.cfg.maxRetryMs.toNat < 2 ^ 32 := c.cfg.maxRetryMs.toNat_lt
  unfold plannedDelay
  split
  · omega
  · split
    · omega
    · exact Nat.lt_of_le_of_lt (Nat.min_le_right _ _) (by omega)

/-- The divisor of the generator's output. -/
theorem percent_toNat (c : SseClient) :
    (c.cfg.jitterPct.toUInt32 + 1).toNat = c.cfg.jitterPct.toNat + 1 := by
  have hpct : c.cfg.jitterPct.toNat < 2 ^ 8 := c.cfg.jitterPct.toNat_lt
  rw [UInt32.toNat_add, UInt8.toNat_toUInt32]
  exact Nat.mod_eq_of_lt (by
    show c.cfg.jitterPct.toNat + 1 < 2 ^ 32
    omega)

theorem drawn_toNat (c : SseClient) :
    ((prngNext c).1 % (c.cfg.jitterPct.toUInt32 + 1)).toUInt64.toNat = jitter c := by
  rw [UInt32.toNat_toUInt64, UInt32.toNat_mod, percent_toNat]
  rfl

/-- The product with the percentage is exact. -/
theorem product_toNat (c : SseClient) (retryAfterS : Int32) :
    (retryBase c retryAfterS *
        ((prngNext c).1 % (c.cfg.jitterPct.toUInt32 + 1)).toUInt64).toNat =
      plannedDelay c retryAfterS * jitter c := by
  have hplanned := plannedDelay_lt c retryAfterS
  have hpct : c.cfg.jitterPct.toNat < 2 ^ 8 := c.cfg.jitterPct.toNat_lt
  have hjitter := jitter_le c
  have hsmall : plannedDelay c retryAfterS * jitter c < 2 ^ 64 :=
    calc plannedDelay c retryAfterS * jitter c
        ≤ plannedDelay c retryAfterS * 2 ^ 8 := Nat.mul_le_mul_left _ (by omega)
      _ < 2 ^ 64 := by omega
  rw [UInt64.toNat_mul, retryBase_toNat, drawn_toNat, Nat.mod_eq_of_lt hsmall]

/-- And so is the sum. -/
theorem sum_toNat (c : SseClient) (retryAfterS : Int32) :
    (retryBase c retryAfterS + retryBase c retryAfterS *
        ((prngNext c).1 % (c.cfg.jitterPct.toUInt32 + 1)).toUInt64 / 100).toNat =
      jitteredDelay c retryAfterS := by
  have hplanned := plannedDelay_lt c retryAfterS
  have hpct : c.cfg.jitterPct.toNat < 2 ^ 8 := c.cfg.jitterPct.toNat_lt
  have hjitter := jitter_le c
  have hadded : plannedDelay c retryAfterS * jitter c / 100 ≤ plannedDelay c retryAfterS * 3 := by
    apply Nat.div_le_of_le_mul
    calc plannedDelay c retryAfterS * jitter c
        ≤ plannedDelay c retryAfterS * 255 := Nat.mul_le_mul_left _ (by omega)
      _ ≤ 100 * (plannedDelay c retryAfterS * 3) := by omega
  have hhundred : (100 : UInt64).toNat = 100 := rfl
  unfold jitteredDelay
  rw [UInt64.toNat_add, UInt64.toNat_div, product_toNat, retryBase_toNat, hhundred,
    Nat.mod_eq_of_lt (by omega)]

/-- **The delay is exact before its clamp.** -/
theorem retryDelay_toNat (c : SseClient) (retryAfterS : Int32) :
    (retryDelay c retryAfterS).1.toNat = min (2 ^ 31 - 1) (jitteredDelay c retryAfterS) := by
  -- the sum does not wrap in 64 bits, so the clamp sees its true value
  have hclamp : ∀ x : UInt64,
      (if x > int32Max.toUInt64 then int32Max else x.toUInt32).toNat = min (2 ^ 31 - 1) x.toNat := by
    intro x
    have hmax : int32Max.toUInt64.toNat = 2 ^ 31 - 1 := rfl
    split
    · next h =>
      have hlt := UInt64.lt_iff_toNat_lt.mp h
      rw [hmax] at hlt
      rw [Nat.min_eq_left (Nat.le_of_lt hlt)]
      rfl
    · next h =>
      have hle := UInt64.le_iff_toNat_le.mp (UInt64.not_lt.mp h)
      rw [hmax] at hle
      rw [Nat.min_eq_right hle, UInt64.toNat_toUInt32]
      exact Nat.mod_eq_of_lt (by omega)
  by_cases hpct : c.cfg.jitterPct = 0
  · have hsame : (retryDelay c retryAfterS).1 =
        if retryBase c retryAfterS > int32Max.toUInt64 then int32Max
        else (retryBase c retryAfterS).toUInt32 := by
      unfold retryDelay
      simp only [hpct, ne_eq, not_true_eq_false, if_false]
    rw [hsame, hclamp, retryBase_toNat, jitteredDelay, jitter_of_zero hpct, Nat.mul_zero,
      Nat.zero_div, Nat.add_zero]
  · have hsame : (retryDelay c retryAfterS).1 =
        if retryBase c retryAfterS + retryBase c retryAfterS *
            ((prngNext c).1 % (c.cfg.jitterPct.toUInt32 + 1)).toUInt64 / 100 > int32Max.toUInt64
        then int32Max
        else (retryBase c retryAfterS + retryBase c retryAfterS *
            ((prngNext c).1 % (c.cfg.jitterPct.toUInt32 + 1)).toUInt64 / 100).toUInt32 := by
      unfold retryDelay
      simp only [ne_eq, hpct, not_false_eq_true, if_true]
    rw [hsame, hclamp, sum_toNat]

/-! ## §3 Bounds and Order -/

theorem plannedDelay_le_jitteredDelay (c : SseClient) (retryAfterS : Int32) :
    plannedDelay c retryAfterS ≤ jitteredDelay c retryAfterS :=
  Nat.le_add_right _ _

theorem jitteredDelay_le (c : SseClient) (retryAfterS : Int32) :
    jitteredDelay c retryAfterS ≤
      plannedDelay c retryAfterS + plannedDelay c retryAfterS * c.cfg.jitterPct.toNat / 100 := by
  apply Nat.add_le_add_left
  apply Nat.div_le_div_right
  exact Nat.mul_le_mul_left _ (jitter_le c)

/-- The operands of one delay are at most those of another, which is computed the same way. -/
inductive DelayLe (c d : SseClient) : Int32 → Int32 → Prop where
  | retryAfter {s t : Int32} (hs : 0 ≤ s) (ht : s ≤ t) : DelayLe c d s t
  | flat {s t : Int32} (hs : s < 0) (ht : t < 0) (hc : c.cfg.maxRetryMs = 0)
      (hd : d.cfg.maxRetryMs = 0) (hbase : c.baseRetryMs ≤ d.baseRetryMs) : DelayLe c d s t
  | doubled {s t : Int32} (hs : s < 0) (ht : t < 0) (hc : 0 < c.cfg.maxRetryMs)
      (hmax : c.cfg.maxRetryMs ≤ d.cfg.maxRetryMs) (hbase : c.baseRetryMs ≤ d.baseRetryMs)
      (hattempts : c.attempts ≤ d.attempts) : DelayLe c d s t

theorem plannedDelay_mono {s t : Int32} (h : DelayLe c d s t) :
    plannedDelay c s ≤ plannedDelay d t := by
  unfold plannedDelay
  -- one case for each way to compare two delays; the operands of both are of one kind
  cases h with
  | retryAfter hs ht =>
    have hle : s.toInt ≤ t.toInt := Int32.le_iff_toInt_le.mp ht
    rw [if_pos hs, if_pos (Int32.le_trans hs ht)]
    exact Nat.mul_le_mul_left _ (Int.toNat_le_toNat hle)
  | flat hs ht hc hd hbase =>
    rw [if_neg (Int32.not_le.mpr hs), if_neg (Int32.not_le.mpr ht), if_pos hc, if_pos hd]
    exact UInt32.le_iff_toNat_le.mp hbase
  | doubled hs ht hc hmax hbase hattempts =>
    have hc' : c.cfg.maxRetryMs ≠ 0 := fun heq => by simp [heq] at hc
    have hd : 0 < d.cfg.maxRetryMs := UInt32.lt_of_lt_of_le hc hmax
    have hd' : d.cfg.maxRetryMs ≠ 0 := fun heq => by simp [heq] at hd
    rw [if_neg (Int32.not_le.mpr hs), if_neg (Int32.not_le.mpr ht), if_neg hc', if_neg hd']
    have hshift : min c.attempts.toNat 15 ≤ min d.attempts.toNat 15 :=
      min_le_min_right _ (UInt32.le_iff_toNat_le.mp hattempts)
    apply min_le_min
    · exact Nat.mul_le_mul (UInt32.le_iff_toNat_le.mp hbase)
        (Nat.pow_le_pow_right (by decide) hshift)
    · exact UInt32.le_iff_toNat_le.mp hmax

/-- For one percentage, more delay before the jitter is more delay after it. -/
theorem retryDelay_mono {s t : Int32} (h : DelayLe c d s t) (hj : jitter c = jitter d) :
    (retryDelay c s).1 ≤ (retryDelay d t).1 := by
  have hplanned := plannedDelay_mono h
  rw [UInt32.le_iff_toNat_le, retryDelay_toNat, retryDelay_toNat]
  apply min_le_min le_rfl
  unfold jitteredDelay
  rw [hj]
  apply Nat.add_le_add hplanned
  exact Nat.div_le_div_right (Nat.mul_le_mul_right _ hplanned)

/-! ## §4 The Announced Delay -/

/-- What a scheduled retry tells the application. -/
theorem scheduleRetry_announces (env : Env) (w : World) (e : SseError) (retryAfterS : Int32)
    (hcb : w.client.cfg.callbacks.onError = true) :
    ∃ pre c post, (scheduleRetry env w e retryAfterS).log =
      pre ++ ⟨.onError { e with
        willRetry := true
        retryInMs := (retryDelay w.client retryAfterS).1 }, c⟩ :: post := by
  -- the report is the last thing that the scheduling logs
  have hsched : ∃ pre c, (schedule w e retryAfterS (env.time w.log)).log =
      pre ++ [⟨.onError { e with
        willRetry := true
        retryInMs := (retryDelay w.client retryAfterS).1 }, c⟩] := by
    obtain ⟨x, hframe⟩ := retryDelay_frame w.client retryAfterS
    have hset : (retryDelay w.client retryAfterS).2.cfg.callbacks.onError = true := by
      rw [hframe]
      exact hcb
    unfold schedule
    simp only [update_client, push_client, hset, if_true]
    exact ⟨_, _, rfl⟩
  obtain ⟨pre, c, hsched⟩ := hsched
  obtain ⟨acts, heq⟩ := scheduleRetry_eq env w e retryAfterS
  -- what `on_error` calls is logged behind it
  have hlater : (schedule w e retryAfterS (env.time w.log)).log <+:
      (scheduleRetry env w e retryAfterS).log := by
    rw [heq]
    exact invariant_of_steps
      (I := fun p : Phase × World => (schedule w e retryAfterS (env.time w.log)).log <+: p.2.log)
      (fun _ _ hst h => h.trans (step_log hst))
      (@acts_steps env .scheduled rfl _ acts) List.prefix_rfl
  obtain ⟨post, hpost⟩ := hlater
  refine ⟨pre, c, post, ?_⟩
  rw [← hpost, hsched, List.append_assoc]
  rfl

/-- No intermediate value of the computation wraps. -/
structure NoWrap (c : SseClient) (retryAfterS : Int32) : Prop where
  seconds : (UInt64.ofNat retryAfterS.toInt.toNat * 1000).toNat = 1000 * retryAfterS.toInt.toNat
  doubled : (c.baseRetryMs.toUInt64 <<< (shift c).toUInt64).toNat =
    c.baseRetryMs.toNat * 2 ^ min c.attempts.toNat 15
  percent : (c.cfg.jitterPct.toUInt32 + 1).toNat = c.cfg.jitterPct.toNat + 1
  product : (retryBase c retryAfterS *
      ((prngNext c).1 % (c.cfg.jitterPct.toUInt32 + 1)).toUInt64).toNat =
    plannedDelay c retryAfterS * jitter c
  sum : (retryBase c retryAfterS + retryBase c retryAfterS *
      ((prngNext c).1 % (c.cfg.jitterPct.toUInt32 + 1)).toUInt64 / 100).toNat =
    jitteredDelay c retryAfterS

/-- **The delay arithmetic is exact before its single clamp.** For every client and every Retry-After,
present or not: nothing wraps; the delay is that of unbounded numbers, clamped once; the jitter only
lengthens it, and by at most its percentage; with the same percentage drawn, larger operands give no
shorter delay; and this delay is what the application is told. -/
theorem retry_delay_exact (c : SseClient) (retryAfterS : Int32) :
    NoWrap c retryAfterS ∧
      (retryDelay c retryAfterS).1.toNat =
        min (2 ^ 31 - 1)
          (plannedDelay c retryAfterS + plannedDelay c retryAfterS * jitter c / 100) ∧
      min (plannedDelay c retryAfterS) (2 ^ 31 - 1) ≤ (retryDelay c retryAfterS).1.toNat ∧
      (retryDelay c retryAfterS).1.toNat ≤
        min (plannedDelay c retryAfterS + plannedDelay c retryAfterS * c.cfg.jitterPct.toNat / 100)
          (2 ^ 31 - 1) ∧
      (∀ d t, DelayLe c d retryAfterS t → jitter c = jitter d →
        (retryDelay c retryAfterS).1 ≤ (retryDelay d t).1) ∧
      ∀ env w e, w.client = c → c.cfg.callbacks.onError = true →
        ∃ pre c' post, (scheduleRetry env w e retryAfterS).log =
          pre ++ ⟨.onError { e with
            willRetry := true
            retryInMs := (retryDelay c retryAfterS).1 }, c'⟩ :: post := by
  have hexact := retryDelay_toNat c retryAfterS
  refine ⟨⟨seconds_toNat _, doubled_toNat c, percent_toNat c, product_toNat c _, sum_toNat c _⟩,
    hexact, ?_, ?_, fun d t h hj => retryDelay_mono h hj, ?_⟩
  -- the jitter adds at least nothing
  · rw [hexact, Nat.min_comm]
    exact min_le_min le_rfl (plannedDelay_le_jitteredDelay c retryAfterS)
  · rw [hexact, Nat.min_comm]
    exact min_le_min (jitteredDelay_le c retryAfterS) le_rfl
  · rintro env w e rfl hcb
    exact scheduleRetry_announces env w e retryAfterS hcb

/-- A server asks the client of `smallConfig` for five seconds. -/
theorem retry_delay_exact_of_five :
    (retryDelay smallClient.client 5).1.toNat = 5000 ∧
      (retryDelay smallClient.client 5).1 ≤ (retryDelay smallClient.client 6).1 := by
  obtain ⟨-, hexact, -, -, hmono, -⟩ := retry_delay_exact smallClient.client 5
  exact ⟨hexact.trans (by decide), hmono _ 6 (.retryAfter (by decide) (by decide)) rfl⟩

end EventSource.Client
