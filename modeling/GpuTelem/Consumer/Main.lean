import GpuTelem.Consumer.Samples

/-!
# The output loops of the consumer

The loops of `main` in `user/consumer.py`: for each item of the generator a CSV row, a JSON object
or a row of the table, with its index, until the count is reached.

## Main definitions

* `Consumer.Mode`, `Consumer.Mode.line`: the output modes, and what they emit for a sample;
* `Consumer.Main`, `Consumer.Main.machine`: the loop.

## Main results

* `Consumer.Main.shows_generator`: a run shows a run of the generator and emits its items, numbered;
* `Consumer.Main.counts_of_trace`: how far a counted run has come.
-/

namespace GpuTelem

open Machine

namespace Consumer

/-- What is emitted for a sample, before it is formatted. -/
inductive Line
  /-- `writer.writerow(d)`, with the throttle reasons joined. -/
  | csv (index : ℕ) (d : SampleDict) (throttle : String)
  /-- `print(json.dumps(d))`. -/
  | json (index : ℕ) (d : SampleDict)
  /-- `print_table_row`. -/
  | table (idx : ℕ) (tempC fanRpm powerW coreFreqMhz memFreqMhz gpuUtil memUtil : Option ℤ)
      (throttle : String)
  deriving DecidableEq

/-- The body of the CSV loop. -/
def csvRow (idx : ℕ) (sample : Sample) : Line :=
  let d := sample.toDict
  .csv idx d ("|".intercalate d.throttle)

/-- The body of the JSON loop. -/
def jsonRow (idx : ℕ) (sample : Sample) : Line := .json idx sample.toDict

/-- `print_table_row`. -/
def printTableRow (idx : ℕ) (s : Sample) : Line :=
  let joined := ",".intercalate s.throttleNames
  .table idx s.tempC (noneIf 0 s.fanRpm) s.powerW (noneIf 0 s.coreFreqMhz) (noneIf 0 s.memFreqMhz)
    s.gpuUtil s.memUtil (if joined = "" then "-" else joined)

/-- The output modes. -/
inductive Mode
  | csv
  | json
  | table
  deriving DecidableEq

/-- What a mode emits for a sample. -/
def Mode.line : Mode → ℕ → Sample → Line
  | .csv => csvRow
  | .json => jsonRow
  | .table => printTableRow

/-- Where the loop is. -/
inductive MainPc
  /-- At `for sample in reader.samples()`, waiting for the generator. -/
  | loop
  /-- Behind the loop, or an exception has left it. -/
  | ended
  deriving DecidableEq

/-- The loop and its generator. -/
structure Main where
  samples : Samples
  idx : ℕ
  pc : MainPc

/-- What happens to the loop. -/
inductive MainOp
  /-- A step of the generator. -/
  | samples (op : SamplesOp)
  /-- `KeyboardInterrupt` in the body of the loop. -/
  | interrupt

namespace Main

/-- The loop when it is entered. -/
def start : Main where
  samples := .start
  idx := 0
  pc := .loop

/-- One step of the loop, with the line it emits. -/
def step (mode : Mode) (count : ℤ) (m : Main) : MainOp → Option (Main × Option Line)
  | .samples op =>
      match m.pc with
      | .ended => none
      | .loop =>
          match m.samples.step op with
          | none => none
          | some (g, .silent) =>
              -- the `for` statement ends when the generator returns
              some ({ m with samples := g, pc := if g.pc = .returned then .ended else .loop }, none)
          | some (g, .yielded sample) =>
              let idx := m.idx + 1
              let pc := if count ≠ 0 ∧ count ≤ idx then .ended else .loop
              some ({ samples := g, idx := idx, pc := pc }, some (mode.line m.idx sample))
          | some (g, .raised) => some ({ m with samples := g, pc := .ended }, none)
  | .interrupt =>
      match m.pc with
      | .ended => none
      | .loop => some ({ m with pc := .ended }, none)

/-- The loop as a machine. -/
def machine (mode : Mode) (count : ℤ) : Machine Main MainOp (Option Line) where
  step := step mode count

@[simp]
theorem machine_step (mode : Mode) (count : ℤ) (m : Main) (op : MainOp) :
    (machine mode count).step m op = m.step mode count op := rfl

end Main

/-- One step of a run of the loop. -/
abbrev MainTransition := Transition Main MainOp (Option Line)

/-- What a `readv` of the generator has read. -/
def MainOp.read? : MainOp → Option (List UInt8)
  | .samples op => op.read?
  | .interrupt => none

/-- No exception is raised. -/
def MainOp.Ordinary (op : MainOp) : Prop := op ≠ .interrupt ∧ op ≠ .samples .raise

namespace Main

/-- The read results of a run, in order. -/
def reads (ts : List MainTransition) : List (List UInt8) := ts.filterMap (·.input.read?)

/-- The lines a run has emitted, in order. -/
def emitted (ts : List MainTransition) : List Line := ts.filterMap (·.output)

/-- The lines of some items, numbered from 0. -/
def lines (mode : Mode) (items : List Sample) : List Line :=
  items.zipIdx.map fun p => mode.line p.2 p.1

/-! ## The steps -/

/-- What a step can do. -/
inductive Step (mode : Mode) (count : ℤ) (m : Main) : MainOp → Main → Option Line → Prop
  | silent {op : SamplesOp} {g : Samples} (hpc : m.pc = .loop)
      (hstep : m.samples.step op = some (g, .silent)) :
      Step mode count m (.samples op)
        { m with samples := g, pc := if g.pc = .returned then .ended else .loop } none
  | yielded {op : SamplesOp} {g : Samples} {sample : Sample} (hpc : m.pc = .loop)
      (hstep : m.samples.step op = some (g, .yielded sample)) :
      Step mode count m (.samples op)
        { samples := g
          idx := m.idx + 1
          pc := if count ≠ 0 ∧ count ≤ (m.idx + 1 : ℕ) then .ended else .loop }
        (some (mode.line m.idx sample))
  | raised {op : SamplesOp} {g : Samples} (hpc : m.pc = .loop)
      (hstep : m.samples.step op = some (g, .raised)) :
      Step mode count m (.samples op) { m with samples := g, pc := .ended } none
  | interrupt (hpc : m.pc = .loop) : Step mode count m .interrupt { m with pc := .ended } none

variable {mode : Mode} {count : ℤ} {m m' : Main}

theorem Step.of_step {op : MainOp} {line : Option Line}
    (h : m.step mode count op = some (m', line)) : Step mode count m op m' line := by
  cases op with
  | samples op =>
      simp only [step] at h
      split at h
      next => cases h
      next hpc =>
        split at h
        next => cases h
        next g hstep =>
          obtain ⟨rfl, rfl⟩ := Prod.mk.inj (Option.some.inj h)
          exact .silent hpc hstep
        next g sample hstep =>
          obtain ⟨rfl, rfl⟩ := Prod.mk.inj (Option.some.inj h)
          exact .yielded hpc hstep
        next g hstep =>
          obtain ⟨rfl, rfl⟩ := Prod.mk.inj (Option.some.inj h)
          exact .raised hpc hstep
  | interrupt =>
      simp only [step] at h
      split at h
      next => cases h
      next hpc =>
        obtain ⟨rfl, rfl⟩ := Prod.mk.inj (Option.some.inj h)
        exact .interrupt hpc

/-! ## The loop and its generator -/

theorem reads_snoc (ts : List MainTransition) (τ : MainTransition) :
    reads (ts ++ [τ]) = reads ts ++ τ.input.read?.toList := by
  cases h : τ.input.read? <;> simp [reads, h]

theorem emitted_snoc (ts : List MainTransition) (τ : MainTransition) :
    emitted (ts ++ [τ]) = emitted ts ++ τ.output.toList := by
  cases h : τ.output <;> simp [emitted, h]

/-- One item more. -/
theorem lines_snoc (items : List Sample) (sample : Sample) :
    lines mode (items ++ [sample]) = lines mode items ++ [mode.line items.length sample] := by
  simp [lines, List.zipIdx_append]

/-- Without an exception none is raised in the generator. -/
theorem ne_raise_snoc {ts : List MainTransition} {us : List SamplesTransition} {op : SamplesOp}
    {line : Option Line} {g g' : Samples} {out : SamplesObs}
    (hraise : (∀ τ ∈ ts, τ.input.Ordinary) → ∀ υ ∈ us, υ.input ≠ .raise)
    (hordinary : ∀ τ ∈ ts ++ [⟨m, .samples op, m', line⟩], τ.input.Ordinary) :
    ∀ υ ∈ us ++ [⟨g, op, g', out⟩], υ.input ≠ .raise := by
  obtain ⟨hbefore, -, hlast⟩ := forall_mem_snoc.mp hordinary
  refine forall_mem_snoc.mpr ⟨hraise hbefore, fun hop => ?_⟩
  exact hlast (congrArg MainOp.samples hop)

/-- A run shows a run of the generator and emits its items, numbered. -/
theorem shows_generator {ts : List MainTransition} (h : (machine mode count).Trace start ts m) :
    ∃ us, Samples.machine.Trace .start us m.samples ∧ Consumer.reads us = reads ts ∧
      (yields us).length = m.idx ∧ emitted ts = lines mode (yields us) ∧
      ((∀ τ ∈ ts, τ.input.Ordinary) → ∀ υ ∈ us, υ.input ≠ .raise) := by
  induction h with
  | nil => exact ⟨[], Trace.nil, rfl, rfl, rfl, by simp⟩
  | @snoc ts m m' op line _ hstep ih =>
      obtain ⟨us, hus, hreads, hidx, hemitted, hraise⟩ := ih
      rw [reads_snoc, emitted_snoc]
      cases Step.of_step hstep with
      | @silent op g _ hgen =>
          rw [← Samples.machine_step] at hgen
          refine ⟨_, Trace.snoc hus hgen, ?_, ?_, ?_, ne_raise_snoc hraise⟩
          · rw [reads_append, reads_singleton, hreads]
            rfl
          · simpa using hidx
          · simpa using hemitted
      | @yielded op g sample _ hgen =>
          rw [← Samples.machine_step] at hgen
          refine ⟨_, Trace.snoc hus hgen, ?_, ?_, ?_, ne_raise_snoc hraise⟩
          · rw [reads_append, reads_singleton, hreads]
            rfl
          · simpa using hidx
          · rw [yields_append, yields_singleton, SamplesObs.item?_yielded, Option.toList_some,
              Option.toList_some, lines_snoc, hemitted, hidx]
      | @raised op g _ hgen =>
          rw [← Samples.machine_step] at hgen
          refine ⟨_, Trace.snoc hus hgen, ?_, ?_, ?_, ne_raise_snoc hraise⟩
          · rw [reads_append, reads_singleton, hreads]
            rfl
          · simpa using hidx
          · simpa using hemitted
      | interrupt _ =>
          refine ⟨us, hus, ?_, hidx, ?_, fun hordinary => ?_⟩
          · simpa [MainOp.read?] using hreads
          · simpa using hemitted
          · exact hraise (forall_mem_snoc.mp hordinary).1

/-- How far a run with a positive count has come. -/
theorem counts_of_trace {N : ℕ} (hN : 1 ≤ N) {ts : List MainTransition}
    (h : (machine mode N).Trace start ts m) :
    m.idx ≤ N ∧ (m.pc = .loop → m.idx < N) ∧
      ((∀ τ ∈ ts, τ.input.Ordinary) → m.pc = .ended → m.samples.pc ≠ .returned → m.idx = N) := by
  induction h with
  | nil => exact ⟨Nat.zero_le N, fun _ => hN, fun _ hpc => nomatch hpc⟩
  | @snoc ts m m' op line _ hstep ih =>
      obtain ⟨hle, hlt, hended⟩ := ih
      cases Step.of_step hstep with
      | @silent op g hpc hgen =>
          refine ⟨hle, fun _ => hlt hpc, fun _ hpost hreturned => ?_⟩
          rw [if_neg hreturned] at hpost
          cases hpost
      | @yielded op g sample hpc hgen =>
          -- the count is compared with the index after it was raised
          have hlt := hlt hpc
          have hcount : ((N : ℤ) ≠ 0 ∧ (N : ℤ) ≤ (m.idx + 1 : ℕ)) ↔ N ≤ m.idx + 1 := by omega
          simp only [hcount]
          refine ⟨hlt, fun hpost => ?_, fun _ hpost _ => ?_⟩
          · by_contra hge
            rw [if_pos (by omega)] at hpost
            cases hpost
          · by_contra hne
            rw [if_neg (by omega)] at hpost
            cases hpost
      | @raised op g hpc hgen =>
          -- the exception has left the generator too
          refine ⟨hle, fun hpost => (nomatch hpost), fun _ _ hreturned => ?_⟩
          exact absurd (Samples.pc_of_raised hgen) hreturned
      | interrupt hpc =>
          refine ⟨hle, fun hpost => (nomatch hpost), fun hordinary _ _ => ?_⟩
          obtain ⟨-, hop, -⟩ := forall_mem_snoc.mp hordinary
          exact absurd rfl hop

section Streams

variable {N : ℕ} {ts : List MainTransition} {chunks : List (List GpuSample)}

/-- What a run that has read whole records has emitted. -/
theorem emitted_of_trace (h : (machine mode count).Trace start ts m)
    (hne : ∀ c ∈ chunks, c ≠ []) (hreads : reads ts = chunks.map rawBytes) :
    emitted ts = lines mode ((chunks.flatten.take m.idx).map .ofRecord) ∧
      m.idx ≤ chunks.flatten.length := by
  obtain ⟨us, hus, hread, hidx, hemitted, -⟩ := shows_generator h
  obtain ⟨hfollows, -⟩ := follows_of_trace hus hne (hread.trans hreads)
  have hprefix := hfollows.isPrefix
  have hitems := List.prefix_iff_eq_take.mp hprefix
  have hle := hprefix.length_le
  rw [hidx, ← List.map_take] at hitems
  rw [hidx, List.length_map] at hle
  exact ⟨hemitted.trans (congrArg (lines mode) hitems), hle⟩

/-- Without an exception the loop ends with the last sample of the count. -/
theorem idx_of_ended (hN : 1 ≤ N) (h : (machine mode N).Trace start ts m)
    (hne : ∀ c ∈ chunks, c ≠ []) (hreads : reads ts = chunks.map rawBytes)
    (hordinary : ∀ τ ∈ ts, τ.input.Ordinary) (hpc : m.pc = .ended) : m.idx = N := by
  obtain ⟨us, hus, hread, -, -, hraise⟩ := shows_generator h
  obtain ⟨-, -, hended⟩ := counts_of_trace hN h
  have hreturned := pc_ne_returned hus hne (hread.trans hreads) (hraise hordinary)
  exact hended hordinary hpc hreturned

/-- When enough has been read, the loop reaches its count by going on. -/
theorem exists_end (hN : 1 ≤ N) (h : (machine mode N).Trace start ts m)
    (hne : ∀ c ∈ chunks, c ≠ []) (hreads : reads ts = chunks.map rawBytes)
    (hordinary : ∀ τ ∈ ts, τ.input.Ordinary) (hlen : N ≤ chunks.flatten.length) :
    ∃ us m', (machine mode N).Trace m us m' ∧ (∀ τ ∈ us, τ.input = .samples .next) ∧
      m'.pc = .ended := by
  -- by induction on the number of samples that are missing
  induction hn : N - m.idx generalizing ts m with
  | zero =>
      obtain ⟨hle, hloop, -⟩ := counts_of_trace hN h
      refine ⟨[], m, Trace.nil, by simp, ?_⟩
      cases hpc : m.pc with
      | ended => rfl
      | loop => have := hloop hpc; omega
  | succ n ih =>
      cases hpc : m.pc with
      | ended => exact ⟨[], m, Trace.nil, by simp, hpc⟩
      | loop =>
          obtain ⟨us, hus, hread, hidx, -, hraise⟩ := shows_generator h
          obtain ⟨hfollows, -⟩ := follows_of_trace hus hne (hread.trans hreads)
          have hreturned := pc_ne_returned hus hne (hread.trans hreads) (hraise hordinary)
          obtain ⟨g, sample, hgen⟩ := hfollows.exists_next hreturned (by omega)
          obtain ⟨m₁, line, hstep, hidx₁⟩ : ∃ m₁ line,
              (machine mode N).step m (.samples .next) = some (m₁, line) ∧
                m₁.idx = m.idx + 1 := by
            simp only [machine_step, step, hpc, hgen]
            exact ⟨_, _, rfl, rfl⟩
          have hinputs : ∀ τ ∈ ts ++ [⟨m, .samples .next, m₁, line⟩], τ.input.Ordinary := by
            refine forall_mem_snoc.mpr ⟨hordinary, MainOp.noConfusion, fun hop => ?_⟩
            cases hop
          have hsame : reads (ts ++ [⟨m, .samples .next, m₁, line⟩]) = chunks.map rawBytes := by
            rw [reads_snoc, hreads]
            exact List.append_nil _
          obtain ⟨vs, m', hvs, hnext, hend⟩ := ih (h.snoc hstep) hsame hinputs (by omega)
          refine ⟨_ :: vs, m', Trace.cons hstep hvs, ?_, hend⟩
          rintro τ (_ | ⟨_, hτ⟩)
          · rfl
          · exact hnext τ hτ

end Streams

end Main

end Consumer

end GpuTelem
