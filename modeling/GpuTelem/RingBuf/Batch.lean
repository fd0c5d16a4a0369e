import GpuTelem.RingBuf

/-!
# Consuming in batches

Several calls of `ring_consume` on one cursor, with no push in between, against a single call for
all their samples together.

## Main definitions

* `ringConsumes`: a sequence of calls on one cursor.

## Main results

* `consumedRun_of_ne_nil`: what a sequence of calls does depends on the sum of its `max` only;
* `batch_size_irrelevant`: it does what one call with that sum does, and drains the backlog.
-/

namespace GpuTelem

open BroadcastLog

/-- One call of `ring_consume`: its buffer and its `max`. -/
structure ConsumeCall where
  out : Array GpuSample
  max : UInt32

/-- Whether the buffer has room for what the call can copy from a ring of this capacity. -/
def ConsumeCall.HasRoom (c : ConsumeCall) (size : UInt32) : Prop :=
  min c.max.toNat size.toNat ≤ c.out.size

instance (c : ConsumeCall) (size : UInt32) : Decidable (c.HasRoom size) :=
  inferInstanceAs (Decidable (_ ≤ _))

/-- What a sequence of `ring_consume` calls leaves behind. -/
@[ext]
structure ConsumedRun where
  ring : RingBuf
  nextSeq : UInt64
  /-- The samples of all calls, one call after the other. -/
  samples : List GpuSample
  /-- The sum of the returned counts. -/
  count : ℕ

/-- The calls of `ring_consume` on one cursor, one after the other. -/
def ringConsumes (r : RingBuf) (nextSeq : UInt64) : List ConsumeCall → ConsumedRun
  | [] => { ring := r, nextSeq := nextSeq, samples := [], count := 0 }
  | call :: calls =>
      let c := ringConsume r nextSeq call.out call.max
      let rest := ringConsumes c.ring c.nextSeq calls
      { ring := rest.ring
        nextSeq := rest.nextSeq
        samples := c.delivered ++ rest.samples
        count := c.count.toNat + rest.count }

/-- The sum of the `max` of some calls. -/
def maxSum (calls : List ConsumeCall) : ℕ := (calls.map (·.max.toNat)).sum

@[simp]
theorem maxSum_cons (call : ConsumeCall) (calls : List ConsumeCall) :
    maxSum (call :: calls) = call.max.toNat + maxSum calls := by
  simp [maxSum]

/-- One call, in numbers: the samples are those of the next sequence numbers from where the cursor
resumes. -/
theorem delivered_eq_range' {r : RingBuf} (hwf : r.WellFormed) {nextSeq : UInt64}
    (h : nextSeq ≤ r.headSeq) {call : ConsumeCall} (hroom : call.HasRoom r.size) :
    (ringConsume r nextSeq call.out call.max).delivered
      = (List.range' (resume r.size.toNat r.headSeq.toNat nextSeq.toNat)
          (consumeCount r nextSeq call.max).toNat).map fun k => r.samples[k % r.size.toNat]! := by
  have hcount := toNat_consumeCount h call.max
  have hleft := sub_resume_le r.size.toNat r.headSeq.toNat nextSeq.toNat
  rw [ConsumeCall.HasRoom] at hroom
  rw [delivered_ringConsume r nextSeq (by omega), ← map_toNat_consumeSeqs h, List.map_map]
  apply List.map_congr_left
  intro seq _
  rw [Function.comp_apply, hwf.toNat_ringSlot]

/-- A sequence of calls does what its sum says: it skips once, copies from there on, and stops when
it has copied the sum or the backlog is used up. -/
structure ConsumedRun.Is (c : ConsumedRun) (r : RingBuf) (nextSeq : UInt64) (sum : ℕ) : Prop where
  ring_eq : c.ring = { r with dropped := r.dropped + consumeSkip r nextSeq }
  count_eq : c.count = min sum
    (r.headSeq.toNat - resume r.size.toNat r.headSeq.toNat nextSeq.toNat)
  nextSeq_eq : c.nextSeq.toNat = resume r.size.toNat r.headSeq.toNat nextSeq.toNat + c.count
  samples_eq : c.samples
    = (List.range' (resume r.size.toNat r.headSeq.toNat nextSeq.toNat) c.count).map
        fun k => r.samples[k % r.size.toNat]!

/-- One call. -/
theorem consumedRun_singleton {r : RingBuf} (hwf : r.WellFormed) {nextSeq : UInt64}
    (h : nextSeq ≤ r.headSeq) {call : ConsumeCall} (hroom : call.HasRoom r.size) :
    (ringConsumes r nextSeq [call]).Is r nextSeq call.max.toNat where
  ring_eq := ring_ringConsume_eq r nextSeq call.out call.max
  count_eq := by
    simp only [ringConsumes, count_ringConsume h, Nat.add_zero]
    exact toNat_consumeCount h call.max
  nextSeq_eq := by
    simp only [ringConsumes, count_ringConsume h, Nat.add_zero]
    exact toNat_nextSeq_ringConsume h call.out call.max
  samples_eq := by
    simp only [ringConsumes, count_ringConsume h, Nat.add_zero, List.append_nil]
    exact delivered_eq_range' hwf h hroom

/-- Where the cursor has caught up with the ring, nothing more is skipped. -/
theorem consumeSkip_of_near {r : RingBuf} {nextSeq : UInt64} (h : nextSeq ≤ r.headSeq)
    (hnear : r.headSeq.toNat - nextSeq.toNat ≤ r.size.toNat) : consumeSkip r nextSeq = 0 := by
  have hskip := toNat_consumeSkip h
  rw [resume] at hskip
  rw [← UInt64.toNat_inj, UInt64.toNat_zero]
  omega

/-- A call leaves the cursor inside the ring. -/
theorem nextSeq_ringConsume_le {r : RingBuf} {nextSeq : UInt64} (h : nextSeq ≤ r.headSeq)
    (out : Array GpuSample) (max : UInt32) :
    (ringConsume r nextSeq out max).nextSeq ≤ (ringConsume r nextSeq out max).ring.headSeq := by
  have hcount := toNat_consumeCount h max
  have hnext := toNat_nextSeq_ringConsume h out max
  have hresume := resume_le r.size.toNat (UInt64.le_iff_toNat_le.mp h)
  rw [ring_ringConsume_eq, UInt64.le_iff_toNat_le]
  dsimp only
  omega

/-- One more call in front of a sequence. -/
theorem ConsumedRun.Is.cons {r : RingBuf} (hwf : r.WellFormed) {nextSeq : UInt64}
    (h : nextSeq ≤ r.headSeq) {call : ConsumeCall} (hroom : call.HasRoom r.size)
    {calls : List ConsumeCall} {sum : ℕ}
    (hrest : (ringConsumes (ringConsume r nextSeq call.out call.max).ring
        (ringConsume r nextSeq call.out call.max).nextSeq calls).Is
      (ringConsume r nextSeq call.out call.max).ring
      (ringConsume r nextSeq call.out call.max).nextSeq sum) :
    (ringConsumes r nextSeq (call :: calls)).Is r nextSeq (call.max.toNat + sum) := by
  have hcount := toNat_consumeCount h call.max
  have hnext := toNat_nextSeq_ringConsume h call.out call.max
  have hone := count_ringConsume h call.out call.max
  have hring := ring_ringConsume_eq r nextSeq call.out call.max
  have hle := nextSeq_ringConsume_le h call.out call.max
  have hdelivered := delivered_eq_range' hwf h hroom
  have hleft := sub_resume_le r.size.toNat r.headSeq.toNat nextSeq.toNat
  have hresume := resume_le r.size.toNat (UInt64.le_iff_toNat_le.mp h)
  rw [ringConsumes]
  generalize hc : resume r.size.toNat r.headSeq.toNat nextSeq.toNat = c at *
  generalize ringConsume r nextSeq call.out call.max = one at *
  generalize ringConsumes one.ring one.nextSeq calls = rest at *
  obtain ⟨hring', hcount', hnext', hsamples'⟩ := hrest
  have hsize : one.ring.size = r.size := by rw [hring]
  have hhead : one.ring.headSeq = r.headSeq := by rw [hring]
  have hcells : one.ring.samples = r.samples := by rw [hring]
  -- the cursor has caught up, so the calls after this one skip nothing
  have hcaught : resume r.size.toNat r.headSeq.toNat one.nextSeq.toNat = one.nextSeq.toNat := by
    rw [resume] at hc ⊢
    omega
  have hnone : consumeSkip one.ring one.nextSeq = 0 := by
    apply consumeSkip_of_near hle
    rw [hhead, hsize]
    omega
  rw [hsize, hhead, hcaught] at hcount' hnext' hsamples'
  rw [hnone, UInt64.add_zero] at hring'
  rw [hcells] at hsamples'
  constructor <;> dsimp only <;> try rw [hc, hone]
  · exact hring'.trans hring
  · omega
  · omega
  · rw [hdelivered, hsamples', hnext, ← List.map_append, List.range'_append_1]

/-- What a sequence of calls does depends on the sum of its `max` only. -/
theorem consumedRun_of_ne_nil {calls : List ConsumeCall} (hne : calls ≠ []) {r : RingBuf}
    (hwf : r.WellFormed) {nextSeq : UInt64} (h : nextSeq ≤ r.headSeq)
    (hroom : ∀ call ∈ calls, call.HasRoom r.size) :
    (ringConsumes r nextSeq calls).Is r nextSeq (maxSum calls) := by
  induction calls generalizing r nextSeq with
  | nil => exact absurd rfl hne
  | cons call calls ih =>
      have hhead := hroom call List.mem_cons_self
      cases calls with
      | nil => simpa [maxSum] using consumedRun_singleton hwf h hhead
      | cons call' calls =>
          rw [maxSum_cons]
          apply ConsumedRun.Is.cons hwf h hhead
          apply ih (List.cons_ne_nil _ _) (hwf.ringConsume _ _ _) (nextSeq_ringConsume_le h _ _)
          intro call'' hmem
          rw [ring_ringConsume_eq]
          exact hroom call'' (List.mem_cons_of_mem _ hmem)

/-- With positive `max`, the sum is at least the number of calls. -/
theorem length_le_maxSum {calls : List ConsumeCall} (hpos : ∀ call ∈ calls, 0 < call.max.toNat) :
    calls.length ≤ maxSum calls := by
  induction calls with
  | nil => simp
  | cons call calls ih =>
      have hhead := hpos call List.mem_cons_self
      have htail := ih fun call' hmem => hpos call' (List.mem_cons_of_mem _ hmem)
      rw [maxSum_cons, List.length_cons]
      omega

/-- Two runs of the same sum are the same. -/
theorem ConsumedRun.Is.unique {c d : ConsumedRun} {r : RingBuf} {nextSeq : UInt64} {sum : ℕ}
    (hc : c.Is r nextSeq sum) (hd : d.Is r nextSeq sum) : c = d := by
  have hcount : c.count = d.count := hc.count_eq.trans hd.count_eq.symm
  refine ConsumedRun.ext (hc.ring_eq.trans hd.ring_eq.symm) ?_ ?_ hcount
  · rw [← UInt64.toNat_inj, hc.nextSeq_eq, hd.nextSeq_eq, hcount]
  · rw [hc.samples_eq, hd.samples_eq, hcount]

/-- Calls with positive `max` get through the backlog in as many calls as the ring has slots. -/
theorem drained_of_positive {r : RingBuf} (hwf : r.WellFormed) {nextSeq : UInt64}
    (h : nextSeq ≤ r.headSeq) {calls : List ConsumeCall}
    (hroom : ∀ call ∈ calls, call.HasRoom r.size) (hpos : ∀ call ∈ calls, 0 < call.max.toNat)
    (hlength : r.size.toNat ≤ calls.length) :
    (ringConsumes r nextSeq calls).count = min (r.headSeq.toNat - nextSeq.toNat) r.size.toNat ∧
      ∀ out max, (ringConsume (ringConsumes r nextSeq calls).ring
        (ringConsumes r nextSeq calls).nextSeq out max).count = 0 := by
  have hne : calls ≠ [] := by
    rintro rfl
    have hsize := hwf.size_pos
    simp at hlength
    omega
  have hsum := length_le_maxSum hpos
  have hresume := resume_le r.size.toNat (UInt64.le_iff_toNat_le.mp h)
  have hleft := sub_resume_le r.size.toNat r.headSeq.toNat nextSeq.toNat
  obtain ⟨hring, hcount, hnext, -⟩ := consumedRun_of_ne_nil hne hwf h hroom
  refine ⟨?_, fun out max => ?_⟩
  · rw [hcount, resume]
    rw [resume] at hleft
    have hle := UInt64.le_iff_toNat_le.mp h
    omega
  · have hdone : (ringConsumes r nextSeq calls).ring.headSeq
        ≤ (ringConsumes r nextSeq calls).nextSeq := by
      rw [hring, UInt64.le_iff_toNat_le]
      dsimp only
      omega
    rw [ringConsume_of_le hdone]

/-- **Batch size does not matter.** On a well-formed ring and a cursor inside it, a sequence of
`ring_consume` calls delivers the same samples and the same number of them, and leaves the same
cursor and the same ring, `dropped` included, as one call whose `max` is the sum. So calls with
positive `max` drain the backlog: they never deliver more than `size` samples, and after `size` of
them every sample left has been delivered and any further call returns 0. -/
theorem batch_size_irrelevant {r : RingBuf} (hwf : r.WellFormed) {nextSeq : UInt64}
    (h : nextSeq ≤ r.headSeq) :
    (∀ (calls : List ConsumeCall) (one : ConsumeCall), calls ≠ [] →
      (∀ call ∈ calls, call.HasRoom r.size) → one.HasRoom r.size →
      one.max.toNat = maxSum calls →
      (ringConsumes r nextSeq calls).samples
          = (ringConsume r nextSeq one.out one.max).delivered ∧
        (ringConsumes r nextSeq calls).count
          = (ringConsume r nextSeq one.out one.max).count.toNat ∧
        (ringConsumes r nextSeq calls).nextSeq = (ringConsume r nextSeq one.out one.max).nextSeq ∧
        (ringConsumes r nextSeq calls).ring = (ringConsume r nextSeq one.out one.max).ring) ∧
    ∀ calls : List ConsumeCall, (∀ call ∈ calls, call.HasRoom r.size) →
      (∀ call ∈ calls, 0 < call.max.toNat) →
      (ringConsumes r nextSeq calls).count ≤ r.size.toNat ∧
      (r.size.toNat ≤ calls.length →
        (ringConsumes r nextSeq calls).count
          = min (r.headSeq.toNat - nextSeq.toNat) r.size.toNat ∧
        ∀ out max, (ringConsume (ringConsumes r nextSeq calls).ring
          (ringConsumes r nextSeq calls).nextSeq out max).count = 0) := by
  refine ⟨fun calls one hne hroom hone hsum => ?_, fun calls hroom hpos => ⟨?_, ?_⟩⟩
  · have hmany := consumedRun_of_ne_nil hne hwf h hroom
    have hsingle := consumedRun_singleton hwf h hone
    rw [hsum] at hsingle
    rw [hmany.unique hsingle]
    simp [ringConsumes]
  · by_cases hne : calls = []
    · simp [hne, ringConsumes]
    · have hcount := (consumedRun_of_ne_nil hne hwf h hroom).count_eq
      have hleft := sub_resume_le r.size.toNat r.headSeq.toNat nextSeq.toNat
      omega
  · exact drained_of_positive hwf h hroom hpos

/-- A cursor five behind on a ring of two: three calls, the first with `max` 0, against one. -/
theorem batch_size_irrelevant_overrun :
    let r : RingBuf := ⟨#[.stamped 3, .stamped 4], 2, 1, 5, 7⟩
    let calls : List ConsumeCall := [⟨#[], 0⟩, ⟨#[default], 1⟩, ⟨#[default, default], 5⟩]
    (ringConsumes r 0 calls).samples = (ringConsume r 0 #[default, default] 6).delivered ∧
      (ringConsumes r 0 calls).ring.dropped = 10 ∧ (ringConsumes r 0 calls).nextSeq = 5 := by
  intro r calls
  have hwf : r.WellFormed := ⟨⟨1, rfl⟩, by decide, by decide, rfl⟩
  have hle : (0 : UInt64) ≤ r.headSeq := by decide
  obtain ⟨hsamples, -, hnext, hring⟩ := (batch_size_irrelevant hwf hle).1 calls
    ⟨#[default, default], 6⟩ (by decide) (by decide) (by decide) (by decide)
  refine ⟨hsamples, ?_, ?_⟩
  · rw [hring]
    decide
  · rw [hnext]
    decide

end GpuTelem
