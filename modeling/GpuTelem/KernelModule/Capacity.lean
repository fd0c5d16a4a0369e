import GpuTelem.KernelModule

/-!
# The capacity of the ring

What the capacity `gpu_telem_init` arrives at means for the slots of the ring.

## Main results

* `ringSlot_injOn_window`: sequence numbers of one window have slots of their own;
* `capacity_sound`: the capacity and the slots, for every parameter and every sequence number.
-/

namespace GpuTelem

open CyclicArray

/-- `ring_init` does not refuse a power of two up to 4096. -/
theorem ringInit_ne_einval {size : UInt32} (hpow : ∃ k, size.toNat = 2 ^ k)
    (hle : size.toNat ≤ 4096) (vzalloc : Bool) : ringInit size vzalloc ≠ .error .EINVAL := by
  rw [ringInit, if_neg ((ringInit_size_iff size).mpr ⟨hpow, hle⟩)]
  cases vzalloc <;> simp

/-- Sequence numbers of one window of the capacity have slots of their own, also where the window
passes `2 ^ 64`. -/
theorem ringSlot_injOn_window {r : RingBuf} (hwf : r.WellFormed) (seq : UInt64) {i j : ℕ}
    (hi : i < r.size.toNat) (hj : j < r.size.toNat)
    (hslot : ringSlot r (seq + .ofNat i) = ringSlot r (seq + .ofNat j)) : i = j := by
  obtain ⟨k, hk⟩ := hwf.size_pow
  have hbound := hwf.size_le
  -- the capacity divides `2 ^ 64`, so wrapping does not change the slot
  have hdvd : r.size.toNat ∣ 2 ^ 64 := by
    rw [hk]
    apply Nat.pow_dvd_pow
    by_contra hlt
    have hpow : 2 ^ 64 ≤ 2 ^ k := Nat.pow_le_pow_right (by omega) (by omega)
    omega
  have hmod : ∀ n : ℕ, n < r.size.toNat →
      (ringSlot r (seq + .ofNat n)).toNat = (seq.toNat + n) % r.size.toNat := by
    intro n hn
    have hsmall : n % 2 ^ 64 = n := Nat.mod_eq_of_lt (by omega)
    rw [hwf.toNat_ringSlot, UInt64.toNat_add, UInt64.toNat_ofNat', hsmall,
      Nat.mod_mod_of_dvd _ hdvd]
  have heq := congrArg UInt32.toNat hslot
  rw [hmod i hi, hmod j hj] at heq
  rcases Nat.lt_trichotomy i j with hlt | heq' | hgt
  · exact absurd heq.symm (mod_ne_of_window (by omega) (by omega))
  · exact heq'
  · exact absurd heq (mod_ne_of_window (by omega) (by omega))

/-- **The capacity is sound for every parameter.** `next_pow2` ends with the least power of two up
to `2 ^ 31`, and the bit test finds the powers of two. `gpu_telem_init` refuses a `ring_size`
outside 2 to 4096 on its own; any other it rounds up to the least power of two, which `ring_init`
accepts. In a ring so set up a sequence number has the slot of its residue, and the numbers of a
window have slots of their own. -/
theorem capacity_sound :
    (∀ n : UInt32, n.toNat ≤ 2 ^ 31 →
      ∃ p, nextPow2 n = some p ∧ IsLeastPow2 p.toNat n.toNat) ∧
    (∀ n : UInt32, 1 ≤ n.toNat → (n &&& (n - 1) = 0 ↔ ∃ k, n.toNat = 2 ^ k)) ∧
    (∀ e : InitEnv,
      (ringInitSize e.ringSize = some (.error .EINVAL) ↔
        e.ringSize.toNat < 2 ∨ 4096 < e.ringSize.toNat) ∧
      (e.ringSize.toNat < 2 ∨ 4096 < e.ringSize.toNat → e.initRing = some (.error .EINVAL)) ∧
      (2 ≤ e.ringSize.toNat → e.ringSize.toNat ≤ 4096 → ∃ size,
        ringInitSize e.ringSize = some (.ok size) ∧ e.initRing = some (ringInit size e.vzalloc) ∧
        IsLeastPow2 size.toNat e.ringSize.toNat ∧
        ∀ vzalloc, ringInit size vzalloc ≠ .error .EINVAL)) ∧
    ∀ size vzalloc r, ringInit size vzalloc = .ok r → ∀ seq : UInt64,
      (ringSlot r seq).toNat = seq.toNat % size.toNat ∧ (ringSlot r seq).toNat < size.toNat ∧
      ∀ i j, i < size.toNat → j < size.toNat →
        ringSlot r (seq + .ofNat i) = ringSlot r (seq + .ofNat j) → i = j := by
  refine ⟨fun n hn => ?_, fun n hn => ?_, fun e => ?_, fun size vzalloc r hinit seq => ?_⟩
  · obtain ⟨p, hp, hclog⟩ := nextPow2_eq hn
    exact ⟨p, hp, hclog ▸ isLeastPow2_clog _⟩
  · apply and_sub_one_eq_zero_iff
    rintro rfl
    simp at hn
  · have hout : e.ringSize < 2 ∨ e.ringSize > maxRingSize ↔
        e.ringSize.toNat < 2 ∨ 4096 < e.ringSize.toNat := Iff.rfl
    rw [← hout]
    refine ⟨⟨fun h => ?_, ringInitSize_of_out⟩, e.initRing_of_out, fun hlow hhigh => ?_⟩
    · by_contra hin
      obtain ⟨size, hsize, -⟩ := ringInitSize_eq hin
      rw [hsize] at h
      cases h
    · have hin : ¬ (e.ringSize < 2 ∨ e.ringSize > maxRingSize) := by
        rw [hout]
        omega
      obtain ⟨size, hsize, hleast, hle⟩ := ringInitSize_eq hin
      exact ⟨size, hsize, e.initRing_eq hsize, hleast, ringInit_ne_einval hleast.isPow hle⟩
  · obtain ⟨hwf, -, -, rfl⟩ := ringInit_ok hinit
    refine ⟨hwf.toNat_ringSlot seq, ?_, fun i j => ringSlot_injOn_window hwf seq⟩
    rw [hwf.toNat_ringSlot]
    exact Nat.mod_lt _ hwf.size_pos

end GpuTelem
