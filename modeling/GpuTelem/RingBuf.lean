import GpuTelem.Foundations.BroadcastLog
import GpuTelem.Foundations.CyclicArray
import GpuTelem.Uapi
import Mathlib.Data.Nat.Log

/-!
# The ring buffer

`kernel/ringbuf.c`. Every function below runs with the ring's spinlock held from its first to its
last access, or is a single `READ_ONCE`; so each is one atomic step on the ring and the lock itself
is not part of the state.

A `NULL` `samples` pointer is the empty array. The counters wrap like the source's `u64`.

## Main definitions

* `ringInit`, `ringDestroy`, `ringPush`, `ringDataAvailable`, `ringConsume`, `ringDropped`;
* `RingBuf.WellFormed`: what `ringInit` establishes and the other operations keep;
* `consumeSkip`, `consumeSeqs`: how far the overrun branch of `ringConsume` advances the cursor, and
  the sequence numbers its copying loop reads.

## Main results

* `toNat_ringSlot`: masking is reduction modulo the capacity;
* `ringConsume_of_le`, `ringConsume_of_lt`: the two outcomes of `ringConsume`;
* `toNat_consumeSkip`, `toNat_consumeCount`, `map_toNat_consumeSeqs`,
  `toNat_nextSeq_ringConsume`: its arithmetic does not wrap.
-/

namespace GpuTelem

open BroadcastLog

/-- `struct ring_buf`, without its lock. -/
structure RingBuf where
  /-- `vzalloc`'d, `size` entries. -/
  samples : Array GpuSample
  /-- Capacity: always a power of 2. -/
  size : UInt32
  /-- `size - 1`, for fast modular index. -/
  mask : UInt32
  /-- Sequence of the next slot to write. -/
  headSeq : UInt64
  /-- Samples skipped due to slow readers. -/
  dropped : UInt64
  deriving DecidableEq

/-- `ring_init`. `vzalloc` says whether the allocation succeeds. -/
def ringInit (size : UInt32) (vzalloc : Bool) : Except Errno RingBuf :=
  if size = 0 ∨ size &&& (size - 1) ≠ 0 ∨ size > 4096 then .error .EINVAL
  else if vzalloc = false then .error .ENOMEM
  else
    .ok
      { samples := Array.replicate size.toNat default
        size := size
        mask := size - 1
        headSeq := 0
        dropped := 0 }

/-- `ring_destroy`. -/
def ringDestroy (r : RingBuf) : RingBuf := { r with samples := #[] }

/-- The slot of a sequence number: `(u32)(seq & r->mask)`. -/
def ringSlot (r : RingBuf) (seq : UInt64) : UInt32 := (seq &&& r.mask.toUInt64).toUInt32

/-- `ring_push`. -/
def ringPush (r : RingBuf) (s : GpuSample) : RingBuf :=
  let slot := ringSlot r r.headSeq
  { r with
    samples := r.samples.setIfInBounds slot.toNat s
    headSeq := r.headSeq + 1 }

/-- `ring_data_available`. -/
def ringDataAvailable (r : RingBuf) (nextSeq : UInt64) : Bool := decide (r.headSeq > nextSeq)

/-- What `ring_consume` leaves behind: the ring, `*next_seq`, `out[]` and the returned count. -/
structure Consumed where
  ring : RingBuf
  nextSeq : UInt64
  out : Array GpuSample
  count : UInt32

/-- One iteration of the copying loop of `ring_consume`, on `*next_seq` and `out[]`. -/
def copyStep (r : RingBuf) (p : UInt64 × Array GpuSample) (i : ℕ) : UInt64 × Array GpuSample :=
  let slot := ringSlot r p.1
  (p.1 + 1, p.2.setIfInBounds i r.samples[slot.toNat]!)

/-- The tail of `ring_consume`, from the computation of `to_copy` on. -/
def copyOut (r : RingBuf) (nextSeq behind : UInt64) (out : Array GpuSample) (max : UInt32) :
    Consumed :=
  let toCopy := (min behind max.toUInt64).toUInt32
  let p := (List.range toCopy.toNat).foldl (copyStep r) (nextSeq, out)
  { ring := r, nextSeq := p.1, out := p.2, count := toCopy }

/-- `ring_consume`. -/
def ringConsume (r : RingBuf) (nextSeq : UInt64) (out : Array GpuSample) (max : UInt32) :
    Consumed :=
  let head := r.headSeq
  if head ≤ nextSeq then
    { ring := r, nextSeq := nextSeq, out := out, count := 0 }
  else
    let behind := head - nextSeq
    if behind > r.size.toUInt64 then
      -- the reader fell behind: advance to the oldest live sample
      let skip := behind - r.size.toUInt64
      copyOut { r with dropped := r.dropped + skip } (nextSeq + skip) r.size.toUInt64 out max
    else
      copyOut r nextSeq behind out max

/-- `ring_dropped`. -/
def ringDropped (r : RingBuf) : UInt64 := r.dropped

/-! ## Well-formed rings -/

/-- A ring between `ringInit` and `ringDestroy`. -/
structure RingBuf.WellFormed (r : RingBuf) : Prop where
  size_pow : ∃ k, r.size.toNat = 2 ^ k
  size_le : r.size.toNat ≤ 4096
  mask_eq : r.mask = r.size - 1
  cells : r.samples.size = r.size.toNat

/-- The bit test of `ring_init` and `gpu_telem_init` finds the powers of two. -/
theorem and_sub_one_eq_zero_iff {n : UInt32} (hn : n ≠ 0) :
    n &&& (n - 1) = 0 ↔ ∃ k, n.toNat = 2 ^ k := by
  have hne : n.toNat ≠ 0 := fun h => hn (UInt32.toNat_inj.mp (by simpa using h))
  have hsub : (n - 1).toNat = n.toNat - 1 := by
    rw [UInt32.toNat_sub_of_le _ _ (by rw [UInt32.le_iff_toNat_le]; simp; omega)]
    rfl
  rw [← UInt32.toNat_inj, UInt32.toNat_and, hsub]
  exact Nat.and_sub_one_eq_zero_iff_isPowerOfTwo hne

/-- `ringInit` accepts exactly the powers of two up to 4096. -/
theorem ringInit_size_iff (size : UInt32) :
    ¬ (size = 0 ∨ size &&& (size - 1) ≠ 0 ∨ size > 4096) ↔
      (∃ k, size.toNat = 2 ^ k) ∧ size.toNat ≤ 4096 := by
  by_cases hzero : size = 0
  · subst hzero
    have hpow : ¬ ∃ k, (0 : UInt32).toNat = 2 ^ k := by
      rintro ⟨k, hk⟩
      have := Nat.two_pow_pos k
      simp at hk
      omega
    simp only [true_or, not_true_eq_false, false_iff, not_and]
    exact fun h => absurd h hpow
  · have hle : ¬ size > 4096 ↔ size.toNat ≤ 4096 := by
      rw [gt_iff_lt, UInt32.lt_iff_toNat_lt, not_lt]
      rfl
    rw [not_or, not_or, not_not, and_sub_one_eq_zero_iff hzero, hle]
    simp [hzero]

/-- A successful `ringInit` gives a well-formed, empty ring. -/
theorem ringInit_ok {size : UInt32} {vzalloc : Bool} {r : RingBuf}
    (h : ringInit size vzalloc = .ok r) :
    r.WellFormed ∧ r.headSeq = 0 ∧ r.dropped = 0 ∧ r.size = size := by
  rw [ringInit] at h
  split_ifs at h with hsize halloc
  obtain ⟨hpow, hle⟩ := (ringInit_size_iff size).mp hsize
  obtain rfl := Except.ok.inj h
  exact ⟨⟨hpow, hle, rfl, by simp⟩, rfl, rfl, rfl⟩

namespace RingBuf.WellFormed

variable {r : RingBuf} (hwf : r.WellFormed)

include hwf

theorem size_pos : 0 < r.size.toNat := by
  obtain ⟨k, hk⟩ := hwf.size_pow
  rw [hk]
  exact Nat.two_pow_pos k

/-- The mask is one less than the capacity, also as a number. -/
theorem toNat_mask : r.mask.toNat = r.size.toNat - 1 := by
  have hpos := hwf.size_pos
  rw [hwf.mask_eq, UInt32.toNat_sub_of_le _ _ (by rw [UInt32.le_iff_toNat_le]; simp; omega)]
  rfl

/-- Masking a sequence number is reduction modulo the capacity. -/
theorem toNat_ringSlot (seq : UInt64) : (ringSlot r seq).toNat = seq.toNat % r.size.toNat := by
  have hle := hwf.size_le
  have hpos := hwf.size_pos
  obtain ⟨k, hk⟩ := hwf.size_pow
  have hlt : seq.toNat % r.size.toNat < 2 ^ 32 := by
    have := Nat.mod_lt seq.toNat hpos
    omega
  rw [ringSlot, UInt64.toNat_toUInt32, UInt64.toNat_and, UInt32.toNat_toUInt64, hwf.toNat_mask,
    hk, Nat.and_two_pow_sub_one_eq_mod, ← hk, Nat.mod_eq_of_lt hlt]

theorem ringSlot_lt (seq : UInt64) : (ringSlot r seq).toNat < r.samples.size := by
  rw [hwf.toNat_ringSlot, hwf.cells]
  exact Nat.mod_lt _ hwf.size_pos

/-- `ringPush` keeps the ring well-formed. -/
theorem ringPush (s : GpuSample) : (ringPush r s).WellFormed :=
  ⟨hwf.size_pow, hwf.size_le, hwf.mask_eq, by simpa [GpuTelem.ringPush] using hwf.cells⟩

/-- So does counting dropped samples. -/
theorem addDropped (d : UInt64) : ({ r with dropped := d } : RingBuf).WellFormed :=
  ⟨hwf.size_pow, hwf.size_le, hwf.mask_eq, hwf.cells⟩

end RingBuf.WellFormed

/-! ## The copying loop -/

/-- After `n` iterations the cursor has moved by `n`. -/
theorem copyLoop_fst (r : RingBuf) (seq : UInt64) (out : Array GpuSample) (n : ℕ) :
    ((List.range n).foldl (copyStep r) (seq, out)).1 = seq + UInt64.ofNat n := by
  induction n with
  | zero => simp
  | succ n ih =>
      rw [List.range_succ, List.foldl_append, List.foldl_cons, List.foldl_nil, copyStep, ih,
        UInt64.ofNat_add]
      exact UInt64.add_assoc _ _ _

/-- The loop does not change the length of `out[]`. -/
theorem size_copyLoop (r : RingBuf) (seq : UInt64) (out : Array GpuSample) (n : ℕ) :
    ((List.range n).foldl (copyStep r) (seq, out)).2.size = out.size := by
  induction n with
  | zero => rfl
  | succ n ih =>
      rw [List.range_succ, List.foldl_append, List.foldl_cons, List.foldl_nil, copyStep]
      simpa using ih

/-- After `n` iterations the first `n` cells of `out[]` hold the slots of the next `n` sequence
numbers, and the other cells are as before. -/
theorem getElem?_copyLoop (r : RingBuf) (seq : UInt64) (out : Array GpuSample) (n i : ℕ)
    (hi : i < out.size) :
    ((List.range n).foldl (copyStep r) (seq, out)).2[i]? =
      if i < n then some r.samples[(ringSlot r (seq + UInt64.ofNat i)).toNat]! else out[i]? := by
  induction n with
  | zero => simp
  | succ n ih =>
      rw [List.range_succ, List.foldl_append, List.foldl_cons, List.foldl_nil]
      simp only [copyStep, copyLoop_fst]
      rw [Array.getElem?_setIfInBounds, size_copyLoop, ih]
      rcases Nat.lt_trichotomy i n with hlt | rfl | hgt
      · simp [hlt.ne', hlt, Nat.lt_succ_of_lt hlt]
      · simp [hi]
      · have hn : ¬ i < n + 1 := by omega
        have hn' : ¬ i < n := by omega
        simp [hgt.ne, hn, hn']

/-! ## The two outcomes of `ringConsume` -/

/-- The value the local `skip` of `ring_consume` adds to the cursor: zero where the overrun branch
is not taken. -/
def overrunSkip (r : RingBuf) (nextSeq : UInt64) : UInt64 :=
  let behind := r.headSeq - nextSeq
  if behind > r.size.toUInt64 then behind - r.size.toUInt64 else 0

/-- The value of `to_copy` in `ring_consume`, past the emptiness test. -/
def consumeCount (r : RingBuf) (nextSeq : UInt64) (max : UInt32) : UInt32 :=
  (min (r.headSeq - nextSeq - overrunSkip r nextSeq) max.toUInt64).toUInt32

/-- The sequence numbers whose slots the copying loop of `ring_consume` reads, in order. -/
def consumeSeqs (r : RingBuf) (nextSeq : UInt64) (max : UInt32) : List UInt64 :=
  if r.headSeq ≤ nextSeq then []
  else (List.range (consumeCount r nextSeq max).toNat).map fun i =>
    nextSeq + overrunSkip r nextSeq + UInt64.ofNat i

/-- Without unread samples `ringConsume` returns 0 and changes nothing. -/
theorem ringConsume_of_le {r : RingBuf} {nextSeq : UInt64} (h : r.headSeq ≤ nextSeq)
    (out : Array GpuSample) (max : UInt32) :
    ringConsume r nextSeq out max = { ring := r, nextSeq := nextSeq, out := out, count := 0 } := by
  simp [ringConsume, h]

/-- With unread samples `ringConsume` skips what was overwritten and copies from there. -/
theorem ringConsume_of_lt {r : RingBuf} {nextSeq : UInt64} (h : nextSeq < r.headSeq)
    (out : Array GpuSample) (max : UInt32) :
    ringConsume r nextSeq out max =
      { ring := { r with dropped := r.dropped + overrunSkip r nextSeq }
        nextSeq := nextSeq + overrunSkip r nextSeq + (consumeCount r nextSeq max).toUInt64
        out := ((List.range (consumeCount r nextSeq max).toNat).foldl (copyStep r)
          (nextSeq + overrunSkip r nextSeq, out)).2
        count := consumeCount r nextSeq max } := by
  have hle : ¬ r.headSeq ≤ nextSeq := by
    rw [UInt64.not_le]
    exact h
  -- the loop does not look at `dropped`
  have hstep : ∀ d, copyStep { r with dropped := d } = copyStep r := fun _ => rfl
  have hcount : ∀ c : UInt32, UInt64.ofNat c.toNat = c.toUInt64 := fun c => by simp
  rw [ringConsume]
  simp only [hle, ↓reduceIte]
  by_cases hover : r.headSeq - nextSeq > r.size.toUInt64
  · have hskip : overrunSkip r nextSeq = r.headSeq - nextSeq - r.size.toUInt64 := by
      simp [overrunSkip, hover]
    have hsize : r.headSeq - nextSeq - overrunSkip r nextSeq = r.size.toUInt64 := by
      rw [hskip]
      grind
    rw [if_pos hover, ← hskip, ← hsize]
    simp only [copyOut, consumeCount, copyLoop_fst, hstep, hcount]
  · have hskip : overrunSkip r nextSeq = 0 := by simp [overrunSkip, hover]
    rw [if_neg hover]
    simp only [copyOut, consumeCount, copyLoop_fst, hcount, hskip, UInt64.add_zero,
      UInt64.sub_zero]

/-- The amount by which the overrun branch of a call advances the cursor. -/
def consumeSkip (r : RingBuf) (nextSeq : UInt64) : UInt64 :=
  if r.headSeq ≤ nextSeq then 0 else overrunSkip r nextSeq

/-- `ringConsume` counts in `dropped` what its overrun branch skips, and changes nothing else in
the ring. -/
theorem ring_ringConsume_eq (r : RingBuf) (nextSeq : UInt64) (out : Array GpuSample)
    (max : UInt32) :
    (ringConsume r nextSeq out max).ring
      = { r with dropped := r.dropped + consumeSkip r nextSeq } := by
  unfold consumeSkip
  split_ifs with hle
  · simp [ringConsume_of_le hle]
  · rw [ringConsume_of_lt (UInt64.not_le.mp hle)]

/-- `ringConsume` changes nothing in the ring but `dropped`. -/
theorem ring_ringConsume (r : RingBuf) (nextSeq : UInt64) (out : Array GpuSample) (max : UInt32) :
    ∃ d, (ringConsume r nextSeq out max).ring = { r with dropped := d } :=
  ⟨_, ring_ringConsume_eq r nextSeq out max⟩

/-- `ringConsume` keeps the ring well-formed. -/
theorem RingBuf.WellFormed.ringConsume {r : RingBuf} (hwf : r.WellFormed) (nextSeq : UInt64)
    (out : Array GpuSample) (max : UInt32) :
    (GpuTelem.ringConsume r nextSeq out max).ring.WellFormed := by
  obtain ⟨d, hd⟩ := ring_ringConsume r nextSeq out max
  rw [hd]
  exact hwf.addDropped d

/-- The samples a call wrote to the front of `out[]`. -/
def Consumed.delivered (c : Consumed) : List GpuSample := c.out.toList.take c.count.toNat

/-- The samples delivered are those in the slots of `consumeSeqs`, if `out[]` has room. -/
theorem delivered_ringConsume (r : RingBuf) (nextSeq : UInt64) {out : Array GpuSample}
    {max : UInt32} (hroom : (consumeCount r nextSeq max).toNat ≤ out.size) :
    (ringConsume r nextSeq out max).delivered
      = (consumeSeqs r nextSeq max).map fun seq => r.samples[(ringSlot r seq).toNat]! := by
  by_cases h : r.headSeq ≤ nextSeq
  · simp [ringConsume_of_le h, Consumed.delivered, consumeSeqs, h]
  · rw [ringConsume_of_lt (UInt64.not_le.mp h), Consumed.delivered, consumeSeqs, if_neg h]
    dsimp only
    apply List.ext_getElem?
    intro i
    by_cases hi : i < (consumeCount r nextSeq max).toNat
    · rw [List.getElem?_take_of_lt hi, Array.getElem?_toList,
        getElem?_copyLoop _ _ _ _ _ (by omega), if_pos hi]
      simp [hi]
    · rw [List.getElem?_eq_none (by simp; omega), List.getElem?_eq_none (by simp; omega)]

/-- `ringConsume` does not change the length of `out[]`. -/
theorem size_out_ringConsume (r : RingBuf) (nextSeq : UInt64) (out : Array GpuSample)
    (max : UInt32) : (ringConsume r nextSeq out max).out.size = out.size := by
  by_cases h : r.headSeq ≤ nextSeq
  · rw [ringConsume_of_le h]
  · rw [ringConsume_of_lt (UInt64.not_le.mp h)]
    exact size_copyLoop _ _ _ _

/-! ## Its arithmetic -/

section Arithmetic

/-- `min_t(u64, a, b)` is the minimum of the numbers. -/
theorem toNat_min_u64 (a b : UInt64) : (min a b).toNat = min a.toNat b.toNat := by
  show (if a ≤ b then a else b).toNat = _
  split_ifs with hab
  · rw [UInt64.le_iff_toNat_le] at hab
    omega
  · rw [UInt64.le_iff_toNat_le] at hab
    omega

variable {r : RingBuf} {nextSeq : UInt64} (h : nextSeq ≤ r.headSeq)

include h

/-- The backlog does not wrap. -/
theorem toNat_behind : (r.headSeq - nextSeq).toNat = r.headSeq.toNat - nextSeq.toNat :=
  UInt64.toNat_sub_of_le _ _ h

/-- The overrun branch moves the cursor up to the oldest live sample. -/
theorem toNat_overrunSkip :
    (overrunSkip r nextSeq).toNat
      = resume r.size.toNat r.headSeq.toNat nextSeq.toNat - nextSeq.toNat := by
  have hbehind := toNat_behind h
  have hle := UInt64.le_iff_toNat_le.mp h
  have hsize : r.size.toUInt64.toNat = r.size.toNat := UInt32.toNat_toUInt64 _
  unfold overrunSkip resume
  by_cases hover : r.headSeq - nextSeq > r.size.toUInt64
  · have hlt := UInt64.lt_iff_toNat_lt.mp hover
    rw [if_pos hover, UInt64.toNat_sub_of_le _ _ (UInt64.le_of_lt hover)]
    omega
  · have hnlt : ¬ r.size.toUInt64.toNat < (r.headSeq - nextSeq).toNat :=
      fun hlt => hover (UInt64.lt_iff_toNat_lt.mpr hlt)
    rw [if_neg hover]
    simp only [UInt64.toNat_zero]
    omega

/-- The number of samples copied. -/
theorem toNat_consumeCount (max : UInt32) :
    (consumeCount r nextSeq max).toNat
      = min max.toNat
          (r.headSeq.toNat - resume r.size.toNat r.headSeq.toNat nextSeq.toNat) := by
  have hbehind := toNat_behind h
  have hskip := toNat_overrunSkip h
  have hle := le_resume r.size.toNat r.headSeq.toNat nextSeq.toNat
  have hresume := resume_le r.size.toNat (UInt64.le_iff_toNat_le.mp h)
  have hleft : (r.headSeq - nextSeq - overrunSkip r nextSeq).toNat
      = r.headSeq.toNat - resume r.size.toNat r.headSeq.toNat nextSeq.toNat := by
    rw [UInt64.toNat_sub_of_le _ _ (by rw [UInt64.le_iff_toNat_le]; omega)]
    omega
  have hmax : max.toUInt64.toNat = max.toNat := UInt32.toNat_toUInt64 _
  have hmaxlt := max.toNat_lt
  rw [consumeCount, UInt64.toNat_toUInt32, toNat_min_u64, hleft, hmax,
    Nat.mod_eq_of_lt (by omega), min_comm]

/-- Sequence numbers up to the cursor after the call do not wrap. -/
theorem toNat_consumeSeq (max : UInt32) {i : ℕ} (hi : i ≤ (consumeCount r nextSeq max).toNat) :
    (nextSeq + overrunSkip r nextSeq + UInt64.ofNat i).toNat
      = resume r.size.toNat r.headSeq.toNat nextSeq.toNat + i := by
  have hskip := toNat_overrunSkip h
  have hcount := toNat_consumeCount h max
  have hle := le_resume r.size.toNat r.headSeq.toNat nextSeq.toNat
  have hresume := resume_le r.size.toNat (UInt64.le_iff_toNat_le.mp h)
  have hhead := r.headSeq.toNat_lt
  have hilt : i < 2 ^ 64 := by omega
  rw [UInt64.toNat_add, UInt64.toNat_add, UInt64.toNat_ofNat', Nat.mod_eq_of_lt hilt,
    Nat.mod_eq_of_lt (by omega : nextSeq.toNat + (overrunSkip r nextSeq).toNat < 2 ^ 64),
    Nat.mod_eq_of_lt (by omega)]
  omega

/-- The cursor after the overrun branch. -/
theorem toNat_add_overrunSkip :
    (nextSeq + overrunSkip r nextSeq).toNat
      = resume r.size.toNat r.headSeq.toNat nextSeq.toNat := by
  simpa using toNat_consumeSeq h 0 (Nat.zero_le _)

/-- The cursor after the call. -/
theorem toNat_nextSeq_ringConsume (out : Array GpuSample) (max : UInt32) :
    (ringConsume r nextSeq out max).nextSeq.toNat
      = resume r.size.toNat r.headSeq.toNat nextSeq.toNat
        + (consumeCount r nextSeq max).toNat := by
  have hnext := toNat_consumeSeq h max le_rfl
  by_cases hle : r.headSeq ≤ nextSeq
  -- nothing unread: the cursor is at `head_seq` and stays there
  · have heq := UInt64.le_antisymm h hle
    have hcount := toNat_consumeCount h max
    have hresume := resume_le r.size.toNat (UInt64.le_iff_toNat_le.mp h)
    have hge := le_resume r.size.toNat r.headSeq.toNat nextSeq.toNat
    rw [ringConsume_of_le hle]
    subst heq
    dsimp only
    omega
  · rw [ringConsume_of_lt (UInt64.not_le.mp hle), ← hnext]
    simp

/-- The returned count is the length of the delivered list of sequence numbers. -/
theorem count_ringConsume (out : Array GpuSample) (max : UInt32) :
    (ringConsume r nextSeq out max).count = consumeCount r nextSeq max := by
  by_cases hle : r.headSeq ≤ nextSeq
  · have heq := UInt64.le_antisymm h hle
    have hcount := toNat_consumeCount h max
    have hge := le_resume r.size.toNat r.headSeq.toNat nextSeq.toNat
    rw [ringConsume_of_le hle, ← UInt32.toNat_inj]
    subst heq
    simp only [UInt32.toNat_zero]
    omega
  · rw [ringConsume_of_lt (UInt64.not_le.mp hle)]

/-- The sequence numbers read are consecutive, from the oldest live one on. -/
theorem map_toNat_consumeSeqs (max : UInt32) :
    (consumeSeqs r nextSeq max).map UInt64.toNat
      = List.range' (resume r.size.toNat r.headSeq.toNat nextSeq.toNat)
          (consumeCount r nextSeq max).toNat := by
  unfold consumeSeqs
  split_ifs with hle
  · have heq := UInt64.le_antisymm h hle
    have hcount := toNat_consumeCount h max
    have hge := le_resume r.size.toNat r.headSeq.toNat nextSeq.toNat
    have hzero : (consumeCount r nextSeq max).toNat = 0 := by
      subst heq
      omega
    simp [hzero]
  · rw [List.map_map, List.range'_eq_map_range]
    apply List.map_congr_left
    intro i hi
    exact toNat_consumeSeq h max (List.mem_range.mp hi).le

/-- The distance the overrun branch skips. -/
theorem toNat_consumeSkip :
    (consumeSkip r nextSeq).toNat
      = resume r.size.toNat r.headSeq.toNat nextSeq.toNat - nextSeq.toNat := by
  rw [← toNat_overrunSkip h, consumeSkip]
  split_ifs with hle
  · have heq := UInt64.le_antisymm h hle
    simp [overrunSkip, heq]
  · rfl

end Arithmetic

/-- The count `ringConsume` returns, wherever the cursor is: the backlog capped by the ring and the
buffer. -/
theorem toNat_count_ringConsume (r : RingBuf) (nextSeq : UInt64) (out : Array GpuSample)
    (max : UInt32) :
    (ringConsume r nextSeq out max).count.toNat
      = min max.toNat (min (r.headSeq.toNat - nextSeq.toNat) r.size.toNat) := by
  by_cases hle : r.headSeq ≤ nextSeq
  · rw [ringConsume_of_le hle]
    have hnat := UInt64.le_iff_toNat_le.mp hle
    simp only [UInt32.toNat_zero]
    omega
  · have hlt := UInt64.le_of_lt (UInt64.not_le.mp hle)
    rw [count_ringConsume hlt, toNat_consumeCount hlt, resume]
    have hnat := UInt64.le_iff_toNat_le.mp hlt
    omega

/-- The lockless test of `ring_data_available` is `next_seq < head_seq`. -/
theorem ringDataAvailable_iff {r : RingBuf} {nextSeq : UInt64} :
    ringDataAvailable r nextSeq = true ↔ nextSeq < r.headSeq := by
  simp [ringDataAvailable]

end GpuTelem
