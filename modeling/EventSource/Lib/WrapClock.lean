import Mathlib.Algebra.Ring.Int.Defs
import Mathlib.Algebra.Ring.Nat

/-!
# A Clock That Wraps

A clock shows the low 32 bits of a true time. Two readings are compared through the sign of their
difference, which tells the order of the true times as long as these are less than `2 ^ 31` apart,
however often the clock has wrapped in between.
-/

namespace EventSource.WrapClock

/-- The clock at true time `now`. -/
abbrev shown (now : Nat) : UInt32 := .ofNat now

/-- A delay added to a reading is the reading at the later time. -/
theorem shown_add (now : Nat) (d : UInt32) : shown now + d = shown (now + d.toNat) := by
  rw [shown, shown, UInt32.ofNat_add, UInt32.ofNat_toNat]

/-- The time from one reading to a later one. -/
theorem toNat_shown_sub {now later : Nat} (hle : now ≤ later) (hlt : later - now < 2 ^ 32) :
    (shown later - shown now).toNat = later - now := by
  rw [shown, shown, ← UInt32.ofNat_sub hle]
  exact UInt32.toNat_ofNat_of_lt hlt

/-- However long it was, up to full turns of the clock. -/
theorem toNat_shown_sub_mod {now later : Nat} (hle : now ≤ later) :
    (shown later - shown now).toNat = (later - now) % 2 ^ 32 := by
  rw [shown, shown, ← UInt32.ofNat_sub hle]
  exact UInt32.toNat_ofNat

theorem toInt_toInt32 (x : UInt32) :
    x.toInt32.toInt = if x.toNat < 2 ^ 31 then (x.toNat : Int) else (x.toNat : Int) - 2 ^ 32 := by
  show x.toInt32.toBitVec.toInt = _
  rw [UInt32.toBitVec_toInt32, BitVec.toInt_eq_toNat_cond, UInt32.toNat_toBitVec]
  by_cases h : x.toNat < 2 ^ 31
  · rw [if_pos h, if_pos (by omega)]
  · rw [if_neg h, if_neg (by omega)]
    rfl

/-- A deadline less than `2 ^ 31` ahead is seen as ahead, at its true distance. -/
theorem signed_ahead {now deadline : Nat} (hlt : now < deadline)
    (hnear : deadline - now < 2 ^ 31) :
    ¬ (shown deadline - shown now).toInt32 ≤ 0 ∧
      (shown deadline - shown now).toInt32.toUInt32 = shown (deadline - now) := by
  have hdist := toNat_shown_sub (Nat.le_of_lt hlt) (by omega : deadline - now < 2 ^ 32)
  refine ⟨?_, ?_⟩
  · rw [Int32.le_iff_toInt_le, toInt_toInt32, hdist, if_pos hnear, Int32.toInt_zero]
    omega
  · rw [UInt32.toUInt32_toInt32, shown, shown, ← UInt32.ofNat_sub (Nat.le_of_lt hlt)]

/-- A deadline at most `2 ^ 31` in the past is seen as reached. -/
theorem signed_reached {now deadline : Nat} (hle : deadline ≤ now)
    (hnear : now - deadline ≤ 2 ^ 31) : (shown deadline - shown now).toInt32 ≤ 0 := by
  have hdist := toNat_shown_sub hle (by omega : now - deadline < 2 ^ 32)
  have hneg : (shown deadline - shown now).toNat = (2 ^ 32 - (now - deadline)) % 2 ^ 32 := by
    have hflip : shown deadline - shown now = -(shown now - shown deadline) := UInt32.neg_sub.symm
    calc (shown deadline - shown now).toNat
        = (UInt32.size - (shown now - shown deadline).toNat) % UInt32.size := by
          rw [hflip, UInt32.toNat_neg]
      _ = (2 ^ 32 - (now - deadline)) % 2 ^ 32 :=
          congrArg (fun n => (UInt32.size - n) % UInt32.size) hdist
  rw [Int32.le_iff_toInt_le, toInt_toInt32, hneg, Int32.toInt_zero]
  split <;> omega

end EventSource.WrapClock
