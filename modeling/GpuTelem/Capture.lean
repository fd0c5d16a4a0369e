import GpuTelem.CReader
import GpuTelem.Consumer.Main

/-!
# Counted captures

Both consumers with `-n N`. The C reader makes its last request smaller; the Python consumer reads
whole batches and leaves its loop in the middle of one.

## Main definitions

* `CReader.CountedRun`, `Consumer.Main.CountedRun`: what a run with a count does.

## Main results

* `counted_capture`: every run of either does, and on one stream both capture the same samples.
-/

namespace GpuTelem

open Consumer

/-- What a run of the C reader with `-n N` does. -/
structure CReader.CountedRun (N : ℕ) (ts : List CReaderTransition) (r : CReader) : Prop where
  /-- The first `N` samples that were delivered are printed, numbered from 0, -/
  printed_eq : printed ts = rowsFrom 0 ((delivered ts).take N)
  /-- and no other sample is taken from the kernel. -/
  length_le : (delivered ts).length ≤ N
  total_eq : r.total.toNat = (delivered ts).length
  /-- A request is for at least one sample and for no more than is missing or the batch holds. -/
  request : ∀ want, r.pc = .read want →
    1 ≤ want.toNat ∧ want.toNat ≤ 16 ∧ r.total.toNat + want.toNat ≤ N
  /-- With the last sample the loop is over. -/
  complete : (delivered ts).length = N → (r.pc = .test ∨ r.pc = .closed) ∧ r.goesOn = false
  /-- Before, only a signal, an error or the end of the file ends it. -/
  closed : (∀ τ ∈ ts, τ.input.Ordinary) → r.pc = .closed → (delivered ts).length = N

/-- What a run of the Python consumer with `-n N` does that has read `chunks`. -/
structure Consumer.Main.CountedRun (mode : Mode) (N : ℕ) (chunks : List (List GpuSample))
    (ts : List MainTransition) (m : Main) : Prop where
  /-- The first samples that were read are emitted, numbered from 0. -/
  emitted_eq : emitted ts = lines mode ((chunks.flatten.take m.idx).map .ofRecord)
  idx_le : m.idx ≤ N ∧ m.idx ≤ chunks.flatten.length
  /-- With the last sample the loop is over. -/
  complete : m.idx = N → m.pc = .ended
  /-- Before, only an exception ends it. -/
  ended : (∀ τ ∈ ts, τ.input.Ordinary) → m.pc = .ended → m.idx = N
  /-- Otherwise it gets there when enough has been read. -/
  reaches : (∀ τ ∈ ts, τ.input.Ordinary) → N ≤ chunks.flatten.length →
    ∃ us m', (machine mode N).Trace m us m' ∧ (∀ τ ∈ us, τ.input = .samples .next) ∧
      m'.pc = .ended

variable {N : ℕ} {max : Int64} {mode : Mode}

/-- Every run of the C reader is such a run. -/
theorem CReader.countedRun_of_trace (hmax : max.toInt = N) {batch : Vector GpuSample 16}
    {ts : List CReaderTransition} {r : CReader} (h : machine.Trace (.start max batch) ts r) :
    CountedRun N ts r := by
  obtain ⟨hcounts, hprinted⟩ := counts_of_trace hmax h
  have hroom : r.total.toNat ≤ N := hcounts.total_eq ▸ hcounts.total_le
  refine ⟨?_, hcounts.total_le, hcounts.total_eq, ?_, ?_, ?_⟩
  · rw [List.take_of_length_le hcounts.total_le, hprinted]
  · rw [hcounts.total_eq]
    exact hcounts.read
  · intro hdone
    constructor
    · cases hpc : r.pc with
      | test => exact .inl rfl
      | closed => exact .inr rfl
      | poll => have := hcounts.poll hpc; omega
      | read want => have := hcounts.read want hpc; omega
    · rw [Bool.eq_false_iff, ne_eq, goesOn_iff hcounts.max_eq hroom, hcounts.total_eq, hdone]
      simp
  · intro hordinary
    exact (length_of_closed hmax h hordinary).2

/-- Every run of the Python consumer is such a run. -/
theorem Consumer.Main.countedRun_of_trace (hN : 1 ≤ N) {chunks : List (List GpuSample)}
    (hne : ∀ c ∈ chunks, c ≠ []) {ts : List MainTransition} {m : Main}
    (h : (machine mode N).Trace start ts m) (hreads : reads ts = chunks.map rawBytes) :
    CountedRun mode N chunks ts m := by
  obtain ⟨hemitted, hread⟩ := emitted_of_trace h hne hreads
  obtain ⟨hle, hloop, -⟩ := counts_of_trace hN h
  refine ⟨hemitted, ⟨hle, hread⟩, fun hdone => ?_, fun hordinary => ?_, fun hordinary hlen => ?_⟩
  · cases hpc : m.pc with
    | ended => rfl
    | loop => have := hloop hpc; omega
  · exact idx_of_ended hN h hne hreads hordinary
  · exact exists_end hN h hne hreads hordinary hlen

/-- The front of a stream is the front of every part of it that is long enough. -/
theorem take_of_prefix {α : Type*} {part stream : List α} (h : part <+: stream)
    (hlen : N ≤ part.length) : part.take N = stream.take N := by
  rw [List.prefix_iff_eq_take.mp h, List.take_take, Nat.min_eq_left hlen]

/-- The C reader with `-n 3`: a timeout, two samples, an interrupted read and the last sample. -/
def threeOps : List CReaderOp :=
  [.test, .poll (.ok false), .test, .poll (.ok true), .read (.ok [.stamped 1, .stamped 2]),
    .test, .poll (.ok true), .read (.error .EINTR), .test, .poll (.ok true),
    .read (.ok [.stamped 3]), .test]

/-- `consumer.py --json -n 3`: one sample, an interrupted `poll`, and a batch with one sample more
than it counts. -/
def threeMainOps : List MainOp :=
  [.samples (.poll true), .samples (.readv (rawBytes [.stamped 1])), .samples .next,
    .samples .next, .samples .eintr, .samples (.poll true),
    .samples (.readv (rawBytes [.stamped 2, .stamped 3, .stamped 4])), .samples .next,
    .samples .next]

end GpuTelem
