import Mathlib.Tactic.Ring

/-!
# Little-endian byte strings

The `w`-byte little-endian representation of a natural number, and back.

## Main results

* `leValue_leBytes`: reading back what was written gives the number modulo `256 ^ w`;
* `leBytes_leValue`: writing back what was read gives the same bytes.
-/

namespace LittleEndian

/-- The `w` low bytes of `n`, least significant first. -/
def leBytes : ℕ → ℕ → List UInt8
  | 0, _ => []
  | w + 1, n => UInt8.ofNat n :: leBytes w (n / 256)

/-- The number a byte string stands for, least significant byte first. -/
def leValue : List UInt8 → ℕ
  | [] => 0
  | b :: bs => b.toNat + 256 * leValue bs

@[simp]
theorem length_leBytes (w n : ℕ) : (leBytes w n).length = w := by
  induction w generalizing n with
  | zero => rfl
  | succ w ih => simp [leBytes, ih]

/-- Reading back `w` bytes of `n` gives `n` modulo `256 ^ w`. -/
theorem leValue_leBytes (w n : ℕ) : leValue (leBytes w n) = n % 256 ^ w := by
  induction w generalizing n with
  | zero => simp [leBytes, leValue, Nat.mod_one]
  | succ w ih =>
      have hbyte : (UInt8.ofNat n).toNat = n % 256 := by simp
      rw [leBytes, leValue, ih, hbyte, pow_succ', Nat.mod_mul]

/-- The bytes determine a number that fits them. -/
theorem leBytes_inj {w m n : ℕ} (hm : m < 256 ^ w) (hn : n < 256 ^ w)
    (h : leBytes w m = leBytes w n) : m = n := by
  have hvalue := congrArg leValue h
  rwa [leValue_leBytes, leValue_leBytes, Nat.mod_eq_of_lt hm, Nat.mod_eq_of_lt hn] at hvalue

/-- A byte string is recovered from its value. -/
theorem leBytes_leValue (bs : List UInt8) : leBytes bs.length (leValue bs) = bs := by
  induction bs with
  | nil => rfl
  | cons b bs ih =>
      have hdiv : (b.toNat + 256 * leValue bs) / 256 = leValue bs := by
        have := b.toNat_lt
        omega
      have hbyte : UInt8.ofNat (b.toNat + 256 * leValue bs) = b := by
        apply UInt8.toNat_inj.mp
        have := b.toNat_lt
        simp
      rw [List.length_cons, leValue, leBytes, hdiv, hbyte, ih]

end LittleEndian
