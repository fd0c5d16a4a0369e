import GpuTelem.Foundations.Machine
import GpuTelem.Uapi

/-!
# The C reader

The loop of `main` in `user/gpu_telem_reader.c`: it polls, reads at most a batch of samples, or what
is missing to the count it was given, and prints them with their index.

## Main definitions

* `CReader.Row`, `CReader.printSample`: a line of the output;
* `CReader`, `CReader.machine`: the loop.

## Main results

* `CReader.Step.of_step`: what a step of the loop can do, by cases;
* `CReader.counts_of_trace`: how far a counted capture has come;
* `CReader.printed_of_trace`: what any run prints.
-/

namespace GpuTelem

open Machine

/-- Where the loop is. -/
inductive CReaderPc
  /-- At the condition of the `while` loop. -/
  | test
  /-- At `poll(&pfd, 1, 1000)`. -/
  | poll
  /-- At `read(fd, batch, want * sizeof(struct gpu_sample))`. -/
  | read (want : UInt64)
  /-- The file is closed. -/
  | closed
  deriving DecidableEq

/-- The variables of `main` that the loop uses. -/
structure CReader where
  /-- `g_running`. -/
  gRunning : Bool
  /-- The argument of `-n`, negative without one. -/
  max : Int64
  total : UInt64
  batch : List GpuSample
  pc : CReaderPc

/-- What happens to the reader. -/
inductive CReaderOp
  /-- `SIGINT` or `SIGTERM` is handled. -/
  | signal
  /-- The condition of the loop is evaluated. -/
  | test
  /-- `poll` returns: an error, or whether `POLLIN` is set, which it is not after a timeout. -/
  | poll (result : Except Errno Bool)
  /-- `read` returns: an error, or the samples it has written. -/
  | read (result : Except Errno (List GpuSample))

namespace CReader

/-- `BATCH`. -/
def batchSize : UInt64 := 16

/-- A line `print_sample` prints, before it is formatted. -/
structure Row where
  idx : UInt64
  timestampNs : UInt64
  /-- `none` is printed as `n/a`. -/
  temp : Option Int32
  fanRpm : UInt32
  powerUw : UInt64
  coreFreqMhz : UInt32
  throttle : String
  deriving DecidableEq

/-- The throttle reasons, as they are printed. -/
def throttle (reasons : UInt8) : String :=
  let text := (if reasons &&& 1 ≠ 0 then "PWR " else "")
    ++ (if reasons &&& 2 ≠ 0 then "THM " else "")
    ++ (if reasons &&& 4 ≠ 0 then "CUR " else "")
    ++ (if reasons &&& 8 ≠ 0 then "UTL " else "")
  if text = "" then "-" else text

/-- `print_sample`. -/
def printSample (idx : UInt64) (s : GpuSample) : Row where
  idx := idx
  timestampNs := s.timestampNs
  temp := if s.tempMillideg = -1 then none else some s.tempMillideg
  fanRpm := s.fanRpm
  powerUw := s.powerUw
  coreFreqMhz := s.coreFreqMhz
  throttle := throttle s.throttleReasons

end CReader

/-- What the reader prints in a step. -/
inductive CReaderObs
  | silent
  | rows (lines : List CReader.Row)
  /-- The number of samples delivered, at the end. -/
  | delivered (total : UInt64)

namespace CReader

/-- The reader when it has opened the device; `batch` is not initialised. -/
def start (max : Int64) (batch : Vector GpuSample 16) : CReader where
  gRunning := true
  max := max
  total := 0
  batch := batch.toList
  pc := .test

/-- The condition of the loop. -/
def goesOn (r : CReader) : Bool := r.gRunning && (r.max < 0 || r.total.toInt64 < r.max)

/-- The number of samples to ask for. -/
def want (r : CReader) : UInt64 :=
  if 0 ≤ r.max then
    let rem := (r.max - r.total.toInt64).toUInt64
    if rem < batchSize then rem else batchSize
  else batchSize

/-- `break`, with what follows the loop. -/
def close (r : CReader) : CReader × CReaderObs := ({ r with pc := .closed }, .delivered r.total)

/-- A call fails: `continue` after `EINTR`, otherwise `break`. -/
def failed (r : CReader) (e : Errno) : CReader × CReaderObs :=
  if e = .EINTR then ({ r with pc := .test }, .silent) else r.close

/-- The samples of a read are printed. -/
def print (r : CReader) (records : List GpuSample) : CReader × CReaderObs :=
  let n := UInt64.ofNat records.length * sampleSz
  let batch := records ++ r.batch.drop records.length
  let count := n / sampleSz
  let rows := (List.range count.toNat).map fun i => printSample (r.total + .ofNat i) batch[i]!
  ({ r with batch := batch, total := r.total + count, pc := .test }, .rows rows)

/-- One step of the loop. -/
def step (r : CReader) : CReaderOp → Option (CReader × CReaderObs)
  | .signal => if r.pc = .closed then none else some ({ r with gRunning := false }, .silent)
  | .test =>
      match r.pc with
      | .test => some (if r.goesOn then ({ r with pc := .poll }, .silent) else r.close)
      | _ => none
  | .poll result =>
      match r.pc with
      | .poll =>
          match result with
          | .error e => some (r.failed e)
          | .ok pollin => some ({ r with pc := if pollin then .read r.want else .test }, .silent)
      | _ => none
  | .read result =>
      match r.pc with
      | .read want =>
          match result with
          | .error e => some (r.failed e)
          | .ok records =>
              -- `read` returns no more than was asked for, and 0 at the end of the file
              if records.length ≤ want.toNat then
                some (if records = [] then r.close else r.print records)
              else none
      | _ => none

/-- The loop as a machine. -/
def machine : Machine CReader CReaderOp CReaderObs where
  step := step

@[simp]
theorem machine_step (r : CReader) (op : CReaderOp) : machine.step r op = r.step op := rfl

end CReader

/-- One step of a run of the reader. -/
abbrev CReaderTransition := Transition CReader CReaderOp CReaderObs

/-- The samples an operation delivers. -/
def CReaderOp.records : CReaderOp → List GpuSample
  | .read (.ok records) => records
  | _ => []

/-- No signal is handled, nothing fails but with `EINTR`, and the file does not end. -/
def CReaderOp.Ordinary : CReaderOp → Prop
  | .signal => False
  | .test => True
  | .poll (.error e) => e = .EINTR
  | .poll (.ok _) => True
  | .read (.error e) => e = .EINTR
  | .read (.ok records) => records ≠ []

/-- The lines a step prints for samples. -/
def CReaderObs.printed : CReaderObs → List CReader.Row
  | .rows lines => lines
  | _ => []

namespace CReader

/-- The samples a run has been delivered, in order. -/
def delivered (ts : List CReaderTransition) : List GpuSample := ts.flatMap (·.input.records)

/-- The lines a run has printed, in order. -/
def printed (ts : List CReaderTransition) : List Row := ts.flatMap (·.output.printed)

theorem delivered_snoc (ts : List CReaderTransition) (τ : CReaderTransition) :
    delivered (ts ++ [τ]) = delivered ts ++ τ.input.records := by
  simp [delivered]

theorem printed_snoc (ts : List CReaderTransition) (τ : CReaderTransition) :
    printed (ts ++ [τ]) = printed ts ++ τ.output.printed := by
  simp [printed]

/-! ## The steps -/

/-- What a step can do. -/
inductive Step (r : CReader) : CReaderOp → CReader → CReaderObs → Prop
  | signal (hpc : r.pc ≠ .closed) : Step r .signal { r with gRunning := false } .silent
  | enter (hpc : r.pc = .test) (hgo : r.goesOn = true) :
      Step r .test { r with pc := .poll } .silent
  | retry {op : CReaderOp} (hop : op.records = []) : Step r op { r with pc := .test } .silent
  | ready (hpc : r.pc = .poll) :
      Step r (.poll (.ok true)) { r with pc := .read r.want } .silent
  | data {want : UInt64} {records : List GpuSample} (hpc : r.pc = .read want)
      (hle : records.length ≤ want.toNat) :
      Step r (.read (.ok records)) (r.print records).1 (r.print records).2
  | close {op : CReaderOp} (hop : op.records = [])
      (hwhy : r.pc = .test ∧ r.goesOn = false ∨ ¬ op.Ordinary) :
      Step r op r.close.1 r.close.2

theorem Step.of_failed {r r' : CReader} {op : CReaderOp} {out : CReaderObs} {e : Errno}
    (hop : op.records = []) (hordinary : op.Ordinary → e = .EINTR)
    (h : r.failed e = (r', out)) : Step r op r' out := by
  rw [failed] at h
  split at h
  next =>
    obtain ⟨rfl, rfl⟩ := Prod.mk.inj h
    exact .retry hop
  next he =>
    obtain ⟨rfl, rfl⟩ := Prod.mk.inj h
    exact .close hop (.inr (mt hordinary he))

theorem Step.of_step {r r' : CReader} {op : CReaderOp} {out : CReaderObs}
    (h : r.step op = some (r', out)) : Step r op r' out := by
  cases op with
  | signal =>
      simp only [step] at h
      split at h
      next => cases h
      next hpc =>
        obtain ⟨rfl, rfl⟩ := Prod.mk.inj (Option.some.inj h)
        exact .signal hpc
  | test =>
      simp only [step] at h
      split at h
      next hpc =>
        cases hgo : r.goesOn with
        | true =>
            rw [hgo] at h
            obtain ⟨rfl, rfl⟩ := Prod.mk.inj (Option.some.inj h)
            exact .enter hpc hgo
        | false =>
            rw [hgo] at h
            obtain ⟨rfl, rfl⟩ := Prod.mk.inj (Option.some.inj h)
            exact .close rfl (.inl ⟨hpc, hgo⟩)
      next => cases h
  | poll result =>
      simp only [step] at h
      split at h
      next hpc =>
        cases result with
        | error e => exact .of_failed rfl id (Option.some.inj h)
        | ok pollin =>
            obtain ⟨rfl, rfl⟩ := Prod.mk.inj (Option.some.inj h)
            cases pollin with
            | false => exact .retry rfl
            | true => exact .ready hpc
      next => cases h
  | read result =>
      simp only [step] at h
      split at h
      next want hpc =>
        cases result with
        | error e => exact .of_failed rfl id (Option.some.inj h)
        | ok records =>
            dsimp only at h
            split at h
            next hle =>
              by_cases hnil : records = []
              · rw [if_pos hnil] at h
                obtain ⟨rfl, rfl⟩ := Prod.mk.inj (Option.some.inj h)
                exact .close hnil (.inr (not_not_intro hnil))
              · rw [if_neg hnil] at h
                obtain ⟨rfl, rfl⟩ := Prod.mk.inj (Option.some.inj h)
                exact .data hpc hle
            next => cases h
      next => cases h

/-! ## Arithmetic of the counts -/

section Counting

variable {N : ℕ} {r : CReader}

/-- `(long)total` is the total, as long as it is within the count. -/
theorem toInt_total (hmax : r.max.toInt = N) (hle : r.total.toNat ≤ N) :
    r.total.toInt64.toInt = r.total.toNat := by
  have hlt := r.max.toInt_lt
  rw [← Int64.toInt_toBitVec, UInt64.toBitVec_toInt64]
  apply BitVec.toInt_eq_toNat_of_lt
  rw [UInt64.toNat_toBitVec]
  omega

/-- The loop goes on while samples are missing. -/
theorem goesOn_iff (hmax : r.max.toInt = N) (hle : r.total.toNat ≤ N) :
    r.goesOn = true ↔ r.gRunning = true ∧ r.total.toNat < N := by
  have hneg : ¬ r.max < 0 := by
    rw [Int64.lt_iff_toInt_lt, hmax, Int64.toInt_zero]
    omega
  simp only [goesOn, hneg, decide_false, Bool.false_or, Bool.and_eq_true, decide_eq_true_eq,
    Int64.lt_iff_toInt_lt, toInt_total hmax hle, hmax, Nat.cast_lt]

/-- The reader asks for what is missing, up to a batch. -/
theorem toNat_want (hmax : r.max.toInt = N) (hle : r.total.toNat ≤ N) :
    r.want.toNat = min 16 (N - r.total.toNat) := by
  have hnonneg : 0 ≤ r.max := by
    rw [Int64.le_iff_toInt_le, hmax, Int64.toInt_zero]
    omega
  -- `max - (long)total` does not wrap, nor does its conversion to `size_t`
  have hmaxNat : r.max.toUInt64.toNat = N := by
    rw [Int64.toNat_toUInt64_of_le hnonneg, ← Int64.toNat_toInt, hmax, Int.toNat_natCast]
  have hrem : (r.max - r.total.toInt64).toUInt64.toNat = N - r.total.toNat := by
    rw [Int64.toUInt64_sub, UInt64.toUInt64_toInt64,
      UInt64.toNat_sub_of_le _ _ (UInt64.le_iff_toNat_le.mpr (by omega)), hmaxNat]
  have hbatch : batchSize.toNat = 16 := rfl
  simp only [want, if_pos hnonneg, UInt64.lt_iff_toNat_lt, hrem, hbatch]
  split
  next hlt => rw [hrem]; omega
  next hge => rw [hbatch]; omega

/-- The lines of some samples, numbered from `first`. -/
def rowsFrom (first : ℕ) (records : List GpuSample) : List Row :=
  (records.zipIdx first).map fun p => printSample (.ofNat p.2) p.1

/-- What is printed are the samples of the read, numbered on from the total. -/
theorem print_eq (r : CReader) {records : List GpuSample} (hle : records.length ≤ 16) :
    r.print records =
      ({ r with
          batch := records ++ r.batch.drop records.length
          total := r.total + .ofNat records.length
          pc := .test },
        .rows (rowsFrom r.total.toNat records)) := by
  have hlen : (UInt64.ofNat records.length).toNat = records.length :=
    UInt64.toNat_ofNat_of_lt' (Nat.lt_of_le_of_lt hle (by decide))
  have hcount : UInt64.ofNat records.length * sampleSz / sampleSz = .ofNat records.length := by
    rw [← UInt64.toNat_inj, UInt64.toNat_div, UInt64.toNat_mul, hlen]
    have hsz : sampleSz.toNat = 48 := rfl
    rw [hsz]
    omega
  have hrows : (List.range records.length).map (fun i => printSample (r.total + .ofNat i)
      (records ++ r.batch.drop records.length)[i]!) = rowsFrom r.total.toNat records := by
    apply List.ext_getElem
    · simp [rowsFrom]
    · intro i hi hi'
      have hrecord : i < records.length := by simpa using hi
      have hread : (records ++ r.batch.drop records.length)[i]! = records[i] := by
        rw [List.getElem!_eq_getElem?_getD, List.getElem?_append_left hrecord,
          List.getElem?_eq_getElem hrecord, Option.getD_some]
      simp only [rowsFrom, List.getElem_map, List.getElem_range, List.getElem_zipIdx, hread,
        UInt64.ofNat_add, UInt64.ofNat_toNat]
  rw [print, hcount, hlen, hrows]

end Counting

/-! ## Counted captures -/

/-- How far a capture of `N` samples has come, when `samples` have been delivered. -/
structure Counts (N : ℕ) (r : CReader) (samples : List GpuSample) : Prop where
  max_eq : r.max.toInt = N
  total_eq : r.total.toNat = samples.length
  total_le : samples.length ≤ N
  /-- The loop is entered for missing samples only. -/
  poll : r.pc = .poll → samples.length < N
  /-- Something is asked for, and no more than is missing or fits into the batch. -/
  read : ∀ want, r.pc = .read want →
    1 ≤ want.toNat ∧ want.toNat ≤ 16 ∧ samples.length + want.toNat ≤ N

namespace Counts

variable {N : ℕ} {r r' : CReader} {samples : List GpuSample}

/-- At the condition of the loop, and behind it, only the total counts. -/
theorem of_test_or_closed (hmax : r.max.toInt = N) (htotal : r.total.toNat = samples.length)
    (hle : samples.length ≤ N) (hpc : r.pc = .test ∨ r.pc = .closed) : Counts N r samples where
  max_eq := hmax
  total_eq := htotal
  total_le := hle
  poll h := by rw [h] at hpc; simp at hpc
  read want h := by rw [h] at hpc; simp at hpc

/-- A step keeps the count and prints what it is delivered, numbered on. -/
theorem step (h : Counts N r samples) {op : CReaderOp} {out : CReaderObs}
    (hstep : r.step op = some (r', out)) :
    Counts N r' (samples ++ op.records) ∧
      out.printed = rowsFrom samples.length op.records := by
  obtain ⟨hmax, htotal, hle, hpoll, hread⟩ := h
  have hroom : r.total.toNat ≤ N := htotal ▸ hle
  cases Step.of_step hstep with
  | signal hpc =>
      have hnone : CReaderOp.signal.records = [] := rfl
      rw [hnone, List.append_nil]
      exact ⟨⟨hmax, htotal, hle, hpoll, hread⟩, rfl⟩
  | enter hpc hgo =>
      -- the condition of the loop says that samples are missing
      have hnone : CReaderOp.test.records = [] := rfl
      obtain ⟨-, hlt⟩ := (goesOn_iff hmax hroom).mp hgo
      rw [hnone, List.append_nil]
      refine ⟨⟨hmax, htotal, hle, fun _ => ?_, fun _ hpc => ?_⟩, rfl⟩
      · rwa [← htotal]
      · cases hpc
  | retry hop =>
      rw [hop, List.append_nil]
      exact ⟨of_test_or_closed hmax htotal hle (.inl rfl), rfl⟩
  | ready hpc =>
      -- the request is made where samples are missing, so it is not empty
      have hnone : (CReaderOp.poll (.ok true)).records = [] := rfl
      have hlt := hpoll hpc
      have hwant := toNat_want hmax hroom
      rw [hnone, List.append_nil]
      refine ⟨⟨hmax, htotal, hle, fun hpc => ?_, fun want hpc => ?_⟩, rfl⟩
      · cases hpc
      · obtain rfl := CReaderPc.read.inj hpc
        omega
  | @data want records hpc hlen =>
      -- the request bounds what is delivered, so the total does not pass `N`
      obtain ⟨-, hbatch, hfits⟩ := hread want hpc
      have hN := r.max.toInt_lt
      have hrecords : (CReaderOp.read (.ok records)).records = records := rfl
      rw [hrecords, print_eq r (hlen.trans hbatch)]
      refine ⟨of_test_or_closed hmax ?_ ?_ (.inl rfl), ?_⟩
      · have hlenNat : (UInt64.ofNat records.length).toNat = records.length :=
          UInt64.toNat_ofNat_of_lt' (by rw [UInt64.size]; omega)
        rw [UInt64.toNat_add, hlenNat, htotal, List.length_append]
        exact Nat.mod_eq_of_lt (by omega)
      · rw [List.length_append]
        omega
      · rw [htotal]
        rfl
  | close hop hwhy =>
      rw [hop, List.append_nil]
      exact ⟨of_test_or_closed hmax htotal hle (.inr rfl), rfl⟩

end Counts

/-- Lines are numbered on. -/
theorem rowsFrom_append (first : ℕ) (records later : List GpuSample) :
    rowsFrom first (records ++ later)
      = rowsFrom first records ++ rowsFrom (first + records.length) later := by
  rw [rowsFrom, List.zipIdx_append, List.map_append]
  rfl

/-- The numbers printed are those of a `uint64_t`. -/
theorem rowsFrom_congr {a b : ℕ} (h : UInt64.ofNat a = UInt64.ofNat b)
    (records : List GpuSample) : rowsFrom a records = rowsFrom b records := by
  induction records generalizing a b with
  | nil => rfl
  | cons s records ih =>
      have hnext : UInt64.ofNat (a + 1) = UInt64.ofNat (b + 1) := by
        rw [UInt64.ofNat_add, UInt64.ofNat_add, h]
      have hrest := ih hnext
      simp only [rowsFrom] at hrest
      simp only [rowsFrom, List.zipIdx_cons, List.map_cons, h, hrest]

/-- A request is for a batch at most. -/
theorem toNat_want_le (r : CReader) : r.want.toNat ≤ 16 := by
  have hbatch : batchSize.toNat = 16 := rfl
  rw [want]
  split_ifs with hmax
  · dsimp only
    split_ifs with hlt
    · rw [UInt64.lt_iff_toNat_lt, hbatch] at hlt
      omega
    · exact hbatch.le
  · exact hbatch.le

section Runs

variable {N : ℕ} {max : Int64} {batch : Vector GpuSample 16} {ts : List CReaderTransition}
  {r : CReader}

/-- How far a run has come. -/
theorem counts_of_trace (hmax : max.toInt = N) (h : machine.Trace (start max batch) ts r) :
    Counts N r (delivered ts) ∧ printed ts = rowsFrom 0 (delivered ts) := by
  induction h with
  | nil => exact ⟨.of_test_or_closed hmax rfl (Nat.zero_le N) (.inl rfl), rfl⟩
  | @snoc ts r r' op out _ hstep ih =>
      obtain ⟨hcounts, hprinted⟩ := ih
      obtain ⟨hnext, hout⟩ := hcounts.step hstep
      rw [delivered_snoc, printed_snoc, hprinted, hout, rowsFrom_append, Nat.zero_add]
      exact ⟨hnext, rfl⟩

/-- With or without a count, a run prints what it has been delivered, numbered on. -/
theorem printed_of_trace (h : machine.Trace (start max batch) ts r) :
    printed ts = rowsFrom 0 (delivered ts) ∧ r.total = .ofNat (delivered ts).length ∧
      ∀ want, r.pc = .read want → want.toNat ≤ 16 := by
  induction h with
  | nil => exact ⟨rfl, rfl, nofun⟩
  | @snoc ts r r' op out _ hstep ih =>
      obtain ⟨hprinted, htotal, hwant⟩ := ih
      rw [delivered_snoc, printed_snoc, hprinted, rowsFrom_append]
      cases Step.of_step hstep with
      | signal hpc =>
          exact ⟨by simp [CReaderOp.records, CReaderObs.printed, rowsFrom],
            by simpa [CReaderOp.records] using htotal, hwant⟩
      | enter hpc hgo =>
          exact ⟨by simp [CReaderOp.records, CReaderObs.printed, rowsFrom],
            by simpa [CReaderOp.records] using htotal, nofun⟩
      | retry hop =>
          exact ⟨by simp [hop, CReaderObs.printed, rowsFrom], by simpa [hop] using htotal, nofun⟩
      | ready hpc =>
          refine ⟨by simp [CReaderOp.records, CReaderObs.printed, rowsFrom],
            by simpa [CReaderOp.records] using htotal, ?_⟩
          rintro want hpc
          obtain rfl := CReaderPc.read.inj hpc
          exact toNat_want_le r
      | @data want records hpc hlen =>
          rw [print_eq r (hlen.trans (hwant want hpc))]
          refine ⟨?_, ?_, nofun⟩
          · -- the samples are numbered from the total, which is what was printed before
            have hcongr := rowsFrom_congr (a := r.total.toNat) (b := 0 + (delivered ts).length)
              (by rw [UInt64.ofNat_toNat, htotal, Nat.zero_add]) records
            exact congrArg _ hcongr
          · -- the total wraps as the number of samples does
            show r.total + _ = _
            rw [htotal, List.length_append, UInt64.ofNat_add]
            rfl
      | close hop hwhy =>
          exact ⟨by simp [hop, CReader.close, CReaderObs.printed, rowsFrom],
            by simpa [hop, CReader.close] using htotal, nofun⟩

/-- A loop that nothing ends but its condition ends with the last sample. -/
theorem length_of_closed (hmax : max.toInt = N) (h : machine.Trace (start max batch) ts r)
    (hordinary : ∀ τ ∈ ts, τ.input.Ordinary) :
    r.gRunning = true ∧ (r.pc = .closed → (delivered ts).length = N) := by
  induction h with
  | nil => exact ⟨rfl, fun hpc => nomatch hpc⟩
  | @snoc ts r r' op out htrace hstep ih =>
      obtain ⟨hbefore, hop⟩ := forall_mem_snoc.mp hordinary
      obtain ⟨hrunning, -⟩ := ih hbefore
      have hcounts := (counts_of_trace hmax htrace).1
      have hroom : r.total.toNat ≤ N := hcounts.total_eq ▸ hcounts.total_le
      cases Step.of_step hstep with
      | signal _ => exact hop.elim
      | enter _ _ => exact ⟨hrunning, fun hpc => nomatch hpc⟩
      | retry _ => exact ⟨hrunning, fun hpc => nomatch hpc⟩
      | ready _ => exact ⟨hrunning, fun hpc => nomatch hpc⟩
      | data _ _ => exact ⟨hrunning, fun hpc => nomatch hpc⟩
      | close hrecords hwhy =>
          refine ⟨hrunning, fun _ => ?_⟩
          -- no `break` in an ordinary step, so the condition has failed
          obtain ⟨-, hgo⟩ := hwhy.resolve_right (not_not_intro hop)
          have hdone : ¬ r.total.toNat < N := by
            intro hlt
            rw [(goesOn_iff hcounts.max_eq hroom).mpr ⟨hrunning, hlt⟩] at hgo
            cases hgo
          rw [delivered_snoc, hrecords, List.append_nil, ← hcounts.total_eq]
          omega

end Runs

end CReader

end GpuTelem
