import GpuTelem.Consumer
import GpuTelem.Foundations.Machine

/-!
# The sample stream of the consumer

The generator `GpuTelemReader.samples` of `user/consumer.py`: it waits with `poll`, reads a batch
into a buffer it keeps, and yields the records of the batch one by one as it is asked for them.

## Main definitions

* `Consumer.Samples`, `Consumer.Samples.machine`: the generator;
* `Consumer.Sample.pack`: a record encoded with the layout of the consumer.

## Main results

* `Consumer.follows_of_trace`: where the generator is in the stream it reads;
* `Consumer.stream_decoded`: it yields the records that were read, however they were cut into reads,
  and encoding one of them gives back its fields.
-/

namespace GpuTelem

open Machine StructFormat

namespace Consumer

/-- `_SIZE`. -/
def size : ℕ := calcsize fmt

/-- `BATCH`: samples per `read()` call. -/
def batch : ℕ := 16

/-- Where the generator is. -/
inductive SamplesPc
  /-- At `self._poll.poll(timeout_ms)`. -/
  | poll
  /-- At `os.readv(self._fd, [view])`. -/
  | readv
  /-- At the test of `for i in range(count)`. -/
  | body (count i : ℕ)
  /-- The generator has returned, or an exception has left it. -/
  | returned
  deriving DecidableEq

/-- The state of the generator. -/
structure Samples where
  /-- `buf`, which every read fills from the front. -/
  buf : List UInt8
  pc : SamplesPc

/-- What happens to the generator. -/
inductive SamplesOp
  /-- `poll` returns, with or without an event. -/
  | poll (ready : Bool)
  /-- `readv` returns, having written `raw`. -/
  | readv (raw : List UInt8)
  /-- A signal interrupts `poll` or `readv`; the interpreter makes the call again. -/
  | eintr
  /-- `poll` or `readv` raises, or the handler of a signal does. -/
  | raise
  /-- The next round of the `for` loop. -/
  | next

/-- What is seen of a step of the generator. -/
inductive SamplesObs
  | silent
  | yielded (s : Sample)
  /-- An exception leaves the generator. -/
  | raised
  deriving DecidableEq

namespace Samples

/-- The generator when it is first asked for an item. -/
def start : Samples where
  buf := List.replicate (batch * size) 0
  pc := .poll

/-- One step of the generator. -/
def step (g : Samples) : SamplesOp → Option (Samples × SamplesObs)
  | .poll ready =>
      match g.pc with
      | .poll =>
          -- after a timeout it polls again
          some ({ g with pc := if ready then .readv else .poll }, .silent)
      | _ => none
  | .readv raw =>
      match g.pc with
      | .readv =>
          -- `readv` fills no more than the buffer
          if raw.length ≤ g.buf.length then
            let n := raw.length
            some
              ({ buf := raw ++ g.buf.drop n
                 pc := if n = 0 then .returned else .body (n / size) 0 },
                .silent)
          else none
      | _ => none
  | .eintr =>
      match g.pc with
      | .poll | .readv => some (g, .silent)
      | _ => none
  | .raise =>
      match g.pc with
      | .returned => none
      | _ => some ({ g with pc := .returned }, .raised)
  | .next =>
      match g.pc with
      | .body count i =>
          if i < count then
            let chunk := (g.buf.take ((i + 1) * size)).drop (i * size)
            match Sample.unpack chunk with
            | some s => some ({ g with pc := .body count (i + 1) }, .yielded s)
            | none => some ({ g with pc := .returned }, .raised)
          else some ({ g with pc := .poll }, .silent)
      | _ => none

/-- The generator as a machine. -/
def machine : Machine Samples SamplesOp SamplesObs where
  step := step

@[simp]
theorem machine_step (g : Samples) (op : SamplesOp) : machine.step g op = g.step op := rfl

/-- `readv` returns at `readv` only. -/
theorem pc_of_readv {g g' : Samples} {raw : List UInt8} {out : SamplesObs}
    (hstep : g.step (.readv raw) = some (g', out)) : g.pc = .readv := by
  simp only [step] at hstep
  split at hstep
  next hpc => exact hpc
  next => cases hstep

/-- A generator that an exception has left does not go on. -/
theorem pc_of_raised {g g' : Samples} {op : SamplesOp} (hstep : g.step op = some (g', .raised)) :
    g'.pc = .returned := by
  cases op <;> simp only [step] at hstep <;> grind

end Samples

/-- One step of a run of the generator. -/
abbrev SamplesTransition := Transition Samples SamplesOp SamplesObs

/-- What a `readv` has read. -/
def SamplesOp.read? : SamplesOp → Option (List UInt8)
  | .readv raw => some raw
  | _ => none

@[simp]
theorem SamplesOp.read?_readv (raw : List UInt8) : (readv raw).read? = some raw := rfl

@[simp]
theorem SamplesOp.read?_poll (ready : Bool) : (poll ready).read? = none := rfl

/-- The item a step yields. -/
def SamplesObs.item? : SamplesObs → Option Sample
  | .yielded s => some s
  | _ => none

@[simp]
theorem SamplesObs.item?_yielded (s : Sample) : (yielded s).item? = some s := rfl

@[simp]
theorem SamplesObs.item?_silent : silent.item? = none := rfl

@[simp]
theorem SamplesObs.item?_raised : raised.item? = none := rfl

/-- The read results of a run, in order. -/
def reads (ts : List SamplesTransition) : List (List UInt8) := ts.filterMap (·.input.read?)

/-- The items a run has yielded, in order. -/
def yields (ts : List SamplesTransition) : List Sample := ts.filterMap (·.output.item?)

/-- Whole records, one after the other, as `read()` returns them. -/
def rawBytes (records : List GpuSample) : List UInt8 := records.flatMap GpuSample.bytes

/-- `struct.pack` of the fields of a record. -/
def Sample.pack (s : Sample) : Option (List UInt8) :=
  StructFormat.pack fmt [s.timestampNs, s.tempMillideg, s.fanRpm, s.powerUw, s.coreFreqMhz,
    s.memFreqMhz, s.gpuUtilPct, s.memUtilPct, s.throttleReasons]

/-- Encoding the fields of a record gives its bytes, with zeros in the place of `_pad`. -/
theorem pack_ofRecord (s : GpuSample) :
    (Sample.ofRecord s).pack = some (s.fieldBytes ++ List.replicate 7 0) := by
  have hpad : StructFormat.pack [.pad 7] [] = some (List.replicate 7 0) := rfl
  have hbytes := bytes_eq_encode { s with pad := Vector.replicate 7 0 }
  rw [GpuSample.bytes] at hbytes
  refine Eq.trans ?_ (congrArg some hbytes.symm)
  -- field by field, in the order of `_FMT`
  apply pack_int (cast_u64 _)
  apply pack_int (cast_s32 _)
  apply pack_int (cast_u32 _)
  apply pack_int (cast_u64 _)
  apply pack_int (cast_u32 _)
  apply pack_int (cast_u32 _)
  apply pack_int (cast_u32 _)
  apply pack_int (cast_u32 _)
  apply pack_int (cast_u8 _)
  exact hpad

/-- The size of a record is `_SIZE`. -/
theorem length_bytes_eq_size (s : GpuSample) : s.bytes.length = size := s.length_bytes

/-- Record `i` of the buffer is decoded as it was read, whatever is behind the records. -/
theorem unpack_slice {records : List GpuSample} {i : ℕ} (hi : i < records.length)
    (rest : List UInt8) :
    Sample.unpack (((rawBytes records ++ rest).take ((i + 1) * size)).drop (i * size))
      = some (.ofRecord records[i]) := by
  rw [rawBytes, slice_flatMap_append length_bytes_eq_size hi, unpack_bytes]

/-- The records of one read, as the buffer holds them. -/
theorem length_rawBytes (records : List GpuSample) :
    (rawBytes records).length = records.length * size :=
  length_flatMap length_bytes_eq_size records

/-- A read of whole records returns their number times their size. -/
theorem length_rawBytes_div (records : List GpuSample) :
    (rawBytes records).length / size = records.length := by
  have hpos : 0 < size := by decide
  rw [length_rawBytes, Nat.mul_div_cancel _ hpos]

namespace Samples

/-- The next record of the buffer is decoded. -/
theorem step_next_record {records : List GpuSample} {i : ℕ} (hi : i < records.length)
    (rest : List UInt8) :
    step ⟨rawBytes records ++ rest, .body records.length i⟩ .next
      = some (⟨rawBytes records ++ rest, .body records.length (i + 1)⟩,
          .yielded (.ofRecord records[i])) := by
  simp only [step, if_pos hi, unpack_slice hi]

/-- Behind the last record the generator polls again. -/
theorem step_next_last (buf : List UInt8) (count : ℕ) :
    step ⟨buf, .body count count⟩ .next = some (⟨buf, .poll⟩, .silent) := by
  simp only [step, if_neg (Nat.lt_irrefl count)]

end Samples

/-! ## Where the generator is -/

/-- Where the generator is when it has read `chunks` and yielded `items`. -/
inductive Samples.Follows (chunks : List (List GpuSample)) (items : List Sample) :
    Samples → Prop
  /-- Between two reads, everything that was read has been yielded. -/
  | waiting {g : Samples} (hpc : g.pc = .poll ∨ g.pc = .readv)
      (hitems : items = chunks.flatten.map .ofRecord) : Follows chunks items g
  /-- Behind a read, its records are at the front of the buffer, and the first `i` of them have
  been yielded. -/
  | yielding {init : List (List GpuSample)} {last : List GpuSample} {rest : List UInt8} {i : ℕ}
      (hchunks : chunks = init ++ [last]) (hi : i ≤ last.length)
      (hitems : items = (init.flatten ++ last.take i).map .ofRecord) :
      Follows chunks items ⟨rawBytes last ++ rest, .body last.length i⟩
  /-- An exception leaves some of the records behind. -/
  | returned {g : Samples} (hpc : g.pc = .returned)
      (hitems : items <+: chunks.flatten.map .ofRecord) : Follows chunks items g

namespace Samples.Follows

variable {chunks : List (List GpuSample)} {items : List Sample} {g g' : Samples}

/-- Nothing but what was read is yielded, in the order in which it was read. -/
theorem isPrefix (h : Follows chunks items g) : items <+: chunks.flatten.map .ofRecord := by
  cases h with
  | waiting _ hitems => exact hitems ▸ List.prefix_rfl
  | yielding hchunks _ hitems =>
      subst hchunks hitems
      rw [List.flatten_append, List.flatten_singleton]
      apply List.IsPrefix.map
      exact (List.prefix_append_right_inj _).mpr (List.take_prefix _ _)
  | returned _ hitems => exact hitems

/-- At `poll` nothing is left to yield. -/
theorem eq_of_poll (h : Follows chunks items g) (hpc : g.pc = .poll) :
    items = chunks.flatten.map .ofRecord := by
  cases h with
  | waiting _ hitems => exact hitems
  | yielding _ _ _ => cases hpc
  | returned hreturned _ => rw [hreturned] at hpc; cases hpc

/-- A read of at least one record is yielded from its beginning. -/
theorem readv (h : Follows chunks items g) (hpc : g.pc = .readv) {last : List GpuSample}
    (hne : last ≠ []) {out : SamplesObs}
    (hstep : g.step (.readv (rawBytes last)) = some (g', out)) :
    Follows (chunks ++ [last]) items g' ∧ out = .silent ∧ g'.pc ≠ .returned := by
  have hpos : (rawBytes last).length ≠ 0 := by
    have hsize : 0 < size := by decide
    have hlen := List.length_pos_iff.mpr hne
    rw [length_rawBytes]
    exact (Nat.mul_pos hlen hsize).ne'
  cases h with
  | waiting _ hitems =>
      simp only [step, hpc, if_neg hpos, length_rawBytes_div] at hstep
      split at hstep
      next =>
        obtain ⟨rfl, rfl⟩ := Prod.mk.inj (Option.some.inj hstep)
        exact ⟨.yielding rfl (Nat.zero_le _) (by simpa using hitems), rfl, SamplesPc.noConfusion⟩
      next => cases hstep
  | yielding _ _ _ => cases hpc
  | returned hreturned _ => rw [hreturned] at hpc; cases hpc

/-- One record further. -/
theorem items_succ {init last : List GpuSample} {i : ℕ} (hi : i < last.length)
    (hitems : items = (init ++ last.take i).map .ofRecord) :
    items ++ [.ofRecord last[i]] = (init ++ last.take (i + 1)).map .ofRecord := by
  have hlast : [Sample.ofRecord last[i]] = [last[i]].map .ofRecord := rfl
  rw [hitems, hlast, ← List.map_append, List.take_succ_eq_append_getElem hi, List.append_assoc]

/-- The next record of the buffer is yielded. -/
theorem next (h : Follows chunks items g) {out : SamplesObs}
    (hstep : g.step .next = some (g', out)) :
    Follows chunks (items ++ out.item?.toList) g' ∧ g'.pc ≠ .returned := by
  cases h with
  | waiting hpc _ => rcases hpc with hpc | hpc <;> simp [step, hpc] at hstep
  | returned hpc _ => simp [step, hpc] at hstep
  | @yielding init last rest i hchunks hi hitems =>
      rcases Nat.lt_or_eq_of_le hi with hlt | rfl
      · rw [step_next_record hlt] at hstep
        obtain ⟨rfl, rfl⟩ := Prod.mk.inj (Option.some.inj hstep)
        exact ⟨.yielding hchunks hlt (items_succ hlt hitems), SamplesPc.noConfusion⟩
      · rw [step_next_last] at hstep
        obtain ⟨rfl, rfl⟩ := Prod.mk.inj (Option.some.inj hstep)
        refine ⟨.waiting (.inl rfl) ?_, SamplesPc.noConfusion⟩
        simp [hitems, hchunks]

/-- An operation that reads nothing. Only an exception ends the generator then. -/
theorem step (h : Follows chunks items g) {op : SamplesOp} (hop : op.read? = none)
    {out : SamplesObs} (hstep : g.step op = some (g', out)) :
    Follows chunks (items ++ out.item?.toList) g' ∧ (g'.pc = .returned → op = .raise) := by
  cases op with
  | readv raw => cases hop
  | next =>
      obtain ⟨hfollows, hpc⟩ := h.next hstep
      exact ⟨hfollows, fun hend => absurd hend hpc⟩
  | poll ready =>
      have hpc : g.pc = .poll := by
        simp only [Samples.step] at hstep
        split at hstep
        next hpc => exact hpc
        next => cases hstep
      simp only [Samples.step, hpc] at hstep
      obtain ⟨rfl, rfl⟩ := Prod.mk.inj (Option.some.inj hstep)
      refine ⟨.waiting ?_ ?_, ?_⟩
      · cases ready <;> simp
      · simpa using h.eq_of_poll hpc
      · cases ready <;> simp
  | eintr =>
      obtain ⟨hpc, rfl, rfl⟩ : (g.pc = .poll ∨ g.pc = .readv) ∧ g' = g ∧ out = .silent := by
        simp only [Samples.step] at hstep
        split at hstep
        next hpc => exact ⟨.inl hpc, by simpa [eq_comm] using hstep⟩
        next hpc => exact ⟨.inr hpc, by simpa [eq_comm] using hstep⟩
        next => cases hstep
      refine ⟨by simpa using h, ?_⟩
      rcases hpc with hpc | hpc <;> simp [hpc]
  | raise =>
      simp only [Samples.step] at hstep
      split at hstep
      next => cases hstep
      next =>
        obtain ⟨rfl, rfl⟩ := Prod.mk.inj (Option.some.inj hstep)
        exact ⟨.returned rfl (by simpa using h.isPrefix), fun _ => rfl⟩

/-- While something of what was read is left, the next record is yielded. -/
theorem exists_next (h : Follows chunks items g) (hpc : g.pc ≠ .returned)
    (hlt : items.length < chunks.flatten.length) :
    ∃ g' s, g.step .next = some (g', .yielded s) := by
  cases h with
  | waiting _ hitems =>
      rw [hitems, List.length_map] at hlt
      exact absurd hlt (Nat.lt_irrefl _)
  | returned hreturned _ => exact absurd hreturned hpc
  | @yielding init last rest i hchunks hi hitems =>
      have hlast : i < last.length := by
        simp only [hitems, hchunks, List.length_map, List.length_append, List.length_take,
          List.flatten_append, List.flatten_singleton] at hlt
        omega
      exact ⟨_, _, step_next_record hlast rest⟩

/-- Asked for items, the generator yields what is left of the last read. -/
theorem drain (h : Follows chunks items g) (hpc : g.pc ≠ .returned) :
    ∃ ts g', machine.Trace g ts g' ∧ (∀ τ ∈ ts, τ.input = .next) ∧
      (g.pc ≠ .readv → g'.pc = .poll) ∧ items ++ yields ts = chunks.flatten.map .ofRecord := by
  cases h with
  | waiting hwaiting hitems =>
      refine ⟨[], g, Trace.nil, by simp, fun hne => ?_, by simpa [yields] using hitems⟩
      exact hwaiting.resolve_right hne
  | returned hreturned _ => exact absurd hreturned hpc
  | @yielding init last rest i hchunks hi hitems =>
      -- by induction on the number of records that are left
      induction hn : last.length - i generalizing i items with
      | zero =>
          obtain rfl : i = last.length := by omega
          have hstep := step_next_last (rawBytes last ++ rest) last.length
          rw [← machine_step] at hstep
          refine ⟨_, _, Trace.cons hstep Trace.nil, by simp, fun _ => rfl, ?_⟩
          simp [yields, SamplesObs.item?, hitems, hchunks]
      | succ n ih =>
          have hlt : i < last.length := by omega
          have hstep := step_next_record hlt rest
          rw [← machine_step] at hstep
          obtain ⟨ts, g', htrace, hinputs, hpost, hyields⟩ :=
            ih hlt (items_succ hlt hitems) SamplesPc.noConfusion (by omega)
          have hpoll := hpost SamplesPc.noConfusion
          refine ⟨_ :: ts, g', Trace.cons hstep htrace, ?_, fun _ => hpoll, ?_⟩
          · rintro τ (_ | ⟨_, hτ⟩)
            · rfl
            · exact hinputs τ hτ
          · rw [← hyields, List.append_assoc]
            rfl

end Samples.Follows

@[simp]
theorem reads_append (ts us : List SamplesTransition) : reads (ts ++ us) = reads ts ++ reads us :=
  List.filterMap_append

@[simp]
theorem reads_singleton (τ : SamplesTransition) : reads [τ] = τ.input.read?.toList := by
  cases h : τ.input.read? <;> simp [reads, h]

@[simp]
theorem yields_append (ts us : List SamplesTransition) :
    yields (ts ++ us) = yields ts ++ yields us :=
  List.filterMap_append

@[simp]
theorem yields_singleton (τ : SamplesTransition) : yields [τ] = τ.output.item?.toList := by
  cases h : τ.output.item? <;> simp [yields, h]

/-- Where the generator is after a run that has read whole records. -/
theorem follows_of_trace {ts : List SamplesTransition} {g : Samples}
    (h : Samples.machine.Trace .start ts g) {chunks : List (List GpuSample)}
    (hne : ∀ c ∈ chunks, c ≠ []) (hreads : reads ts = chunks.map rawBytes) :
    g.Follows chunks (yields ts) ∧
      ∀ τ ∈ ts, τ.post.pc = .returned → τ.input = .raise := by
  induction h generalizing chunks with
  | nil =>
      obtain rfl : chunks = [] := by simpa [reads] using hreads.symm
      exact ⟨.waiting (.inl rfl) rfl, by simp⟩
  | @snoc ts g g' op out htrace hstep ih =>
      rw [Samples.machine_step] at hstep
      rw [reads_append, reads_singleton] at hreads
      rw [yields_append, yields_singleton]
      cases hop : op.read? with
      | none =>
          simp only [hop, Option.toList_none, List.append_nil] at hreads
          obtain ⟨hfollows, hraised⟩ := ih hne hreads
          obtain ⟨hnext, hout⟩ := hfollows.step hop hstep
          exact ⟨hnext, forall_mem_snoc.mpr ⟨hraised, hout⟩⟩
      | some raw =>
          obtain rfl : op = .readv raw := by
            cases op <;> simp_all [SamplesOp.read?]
          -- the read is the last one of the stream up to here
          obtain ⟨init, l, rfl, hinit, hlast⟩ := List.map_eq_append_iff.mp hreads.symm
          obtain ⟨last, rfl, rfl⟩ := List.map_eq_singleton_iff.mp hlast
          obtain ⟨hfollows, hraised⟩ := ih (fun c hc => hne c (by simp [hc])) hinit.symm
          have hpc : g.pc = .readv := Samples.pc_of_readv hstep
          obtain ⟨hnext, rfl, hpost⟩ := hfollows.readv hpc (hne last (by simp)) hstep
          refine ⟨by simpa using hnext, forall_mem_snoc.mpr ⟨hraised, fun hend => ?_⟩⟩
          exact absurd hend hpost

/-- Without an exception the generator does not end. -/
theorem pc_ne_returned {ts : List SamplesTransition} {g : Samples}
    (h : Samples.machine.Trace .start ts g) {chunks : List (List GpuSample)}
    (hne : ∀ c ∈ chunks, c ≠ []) (hreads : reads ts = chunks.map rawBytes)
    (hinputs : ∀ τ ∈ ts, τ.input ≠ .raise) : g.pc ≠ .returned := by
  obtain ⟨-, hend⟩ := follows_of_trace h hne hreads
  cases h with
  | nil => exact SamplesPc.noConfusion
  | snoc _ _ =>
      intro hpost
      obtain ⟨-, hlast⟩ := forall_mem_snoc.mp hend
      obtain ⟨-, hinput⟩ := forall_mem_snoc.mp hinputs
      exact hinput (hlast hpost)

/-- Being asked for items reads nothing. -/
theorem reads_of_next {ts : List SamplesTransition} (h : ∀ τ ∈ ts, τ.input = .next) :
    reads ts = [] := by
  rw [reads, List.filterMap_eq_nil_iff]
  intro τ hτ
  rw [h τ hτ]
  rfl

/-! ## Whole streams -/

/-- The buffer keeps its size. -/
theorem Samples.length_buf_step {g g' : Samples} {op : SamplesOp} {out : SamplesObs}
    (hstep : g.step op = some (g', out)) : g'.buf.length = g.buf.length := by
  cases op with
  | readv raw =>
      simp only [step, pc_of_readv hstep] at hstep
      split at hstep
      next hle =>
        obtain ⟨rfl, rfl⟩ := Prod.mk.inj (Option.some.inj hstep)
        rw [List.length_append, List.length_drop]
        exact Nat.add_sub_cancel' hle
      next => cases hstep
  | poll ready => simp only [step] at hstep; grind
  | eintr => simp only [step] at hstep; grind
  | raise => simp only [step] at hstep; grind
  | next => simp only [step] at hstep; grind

/-- The size of the buffer in a run. -/
theorem length_buf_of_trace {ts : List SamplesTransition} {g : Samples}
    (h : Samples.machine.Trace .start ts g) : g.buf.length = batch * size := by
  apply h.invariant (I := fun g => g.buf.length = batch * size)
  · intro g op g' out hg hstep
    rw [Samples.machine_step] at hstep
    rw [Samples.length_buf_step hstep, hg]
  · exact List.length_replicate

/-- Every cut of a stream into reads of at most `BATCH` records has a run. -/
theorem exists_trace_reads {chunks : List (List GpuSample)}
    (hchunks : ∀ c ∈ chunks, c ≠ [] ∧ c.length ≤ batch) :
    ∃ ts g, Samples.machine.Trace .start ts g ∧ reads ts = chunks.map rawBytes ∧
      g.pc = .poll ∧ ∀ τ ∈ ts, τ.input ≠ .raise := by
  induction chunks using List.reverseRecOn with
  | nil => exact ⟨[], _, Trace.nil, rfl, rfl, by simp⟩
  | append_singleton chunks last ih =>
      obtain ⟨ts, g, htrace, hreads, hpc, hinputs⟩ :=
        ih fun c hc => hchunks c (List.mem_append_left _ hc)
      obtain ⟨hne, hle⟩ := hchunks last (by simp)
      have hfits : (rawBytes last).length ≤ g.buf.length := by
        rw [length_rawBytes, length_buf_of_trace htrace]
        exact Nat.mul_le_mul_right size hle
      -- `poll` reports the records, and `readv` reads them
      have hready : Samples.machine.step g (.poll true)
          = some ({ g with pc := .readv }, .silent) := by
        simp [Samples.step, hpc]
      obtain ⟨g₁, hread, hpc₁⟩ : ∃ g₁, Samples.machine.step { g with pc := .readv }
          (.readv (rawBytes last)) = some (g₁, .silent) ∧ g₁.pc ≠ .readv := by
        refine ⟨_, if_pos hfits, ?_⟩
        dsimp only
        split <;> exact SamplesPc.noConfusion
      have hbefore := Trace.snoc (Trace.snoc htrace hready) hread
      generalize hus : ts ++ [_] ++ [_] = us at hbefore
      have hreadsus : reads us = (chunks ++ [last]).map rawBytes := by
        rw [← hus, reads_append, reads_append, reads_singleton, reads_singleton, hreads]
        simp
      have hinputsus : ∀ τ ∈ us, τ.input ≠ .raise := by
        rw [← hus]
        refine forall_mem_snoc.mpr ⟨forall_mem_snoc.mpr ⟨hinputs, ?_⟩, ?_⟩
        · exact SamplesOp.noConfusion
        · exact SamplesOp.noConfusion
      have hneus : ∀ c ∈ chunks ++ [last], c ≠ [] := fun c hc => (hchunks c hc).1
      obtain ⟨hfollows, -⟩ := follows_of_trace hbefore hneus hreadsus
      have hpcus := pc_ne_returned hbefore hneus hreadsus hinputsus
      -- and the generator is asked for its records
      obtain ⟨vs, g', hvs, hnext, hpost, -⟩ := hfollows.drain hpcus
      refine ⟨us ++ vs, g', hbefore.append hvs, ?_, hpost hpc₁, ?_⟩
      · rw [reads_append, hreadsus, reads_of_next hnext, List.append_nil]
      · refine List.forall_mem_append.mpr ⟨hinputsus, fun τ hτ => ?_⟩
        rw [hnext τ hτ]
        exact SamplesOp.noConfusion

/-- **The consumer inverts the layout of the kernel, for whole streams.** For every stream of
records and every cut of it into reads of at most `BATCH` whole records: what the generator yields
is what was read, record by record; nothing is missing when it polls again, and unless an exception
is raised it gets there by being asked for items; such runs exist. Encoding a decoded record gives
its first 41 bytes back. -/
theorem stream_decoded (chunks : List (List GpuSample))
    (hchunks : ∀ c ∈ chunks, c ≠ [] ∧ c.length ≤ batch) :
    (∃ ts g, Samples.machine.Trace .start ts g ∧ reads ts = chunks.map rawBytes ∧
      g.pc = .poll ∧ ∀ τ ∈ ts, τ.input ≠ .raise) ∧
    (∀ ts g, Samples.machine.Trace .start ts g → reads ts = chunks.map rawBytes →
      yields ts <+: chunks.flatten.map .ofRecord ∧
      (g.pc = .poll → yields ts = chunks.flatten.map .ofRecord) ∧
      (∀ τ ∈ ts, τ.output = .raised → τ.input = .raise) ∧
      ((∀ τ ∈ ts, τ.input ≠ .raise) → ∃ us g', Samples.machine.Trace g us g' ∧
        (∀ τ ∈ us, τ.input = .next) ∧ yields (ts ++ us) = chunks.flatten.map .ofRecord)) ∧
    ∀ s : GpuSample, Sample.unpack s.bytes = some (.ofRecord s) ∧
      ∃ raw, (Sample.ofRecord s).pack = some raw ∧ raw.take 41 = s.bytes.take 41 := by
  refine ⟨exists_trace_reads hchunks, fun ts g htrace hreads => ?_, fun s => ?_⟩
  · have hne : ∀ c ∈ chunks, c ≠ [] := fun c hc => (hchunks c hc).1
    obtain ⟨hfollows, hend⟩ := follows_of_trace htrace hne hreads
    refine ⟨hfollows.isPrefix, hfollows.eq_of_poll, fun τ hτ hout => ?_, fun hinputs => ?_⟩
    · obtain ⟨-, -, -, -, hstep, -⟩ := htrace.before_of_mem hτ
      rw [Samples.machine_step, hout] at hstep
      exact hend τ hτ (Samples.pc_of_raised hstep)
    · have hpc := pc_ne_returned htrace hne hreads hinputs
      obtain ⟨us, g', hus, hnext, -, hall⟩ := hfollows.drain hpc
      exact ⟨us, g', hus, hnext, by rw [yields_append, hall]⟩
  · refine ⟨unpack_bytes s, _, pack_ofRecord s, ?_⟩
    rw [GpuSample.bytes, List.take_left' s.length_fieldBytes, List.take_left' s.length_fieldBytes]

/-- Three records in two reads; the second leaves the second record of the first behind in the
buffer. -/
theorem stream_decoded_two_reads :
    ∃ ts g, Samples.machine.Trace .start ts g ∧
      reads ts = [rawBytes [.stamped 1, .stamped 2], rawBytes [.stamped 3]] ∧
      yields ts = [.ofRecord (.stamped 1), .ofRecord (.stamped 2), .ofRecord (.stamped 3)] := by
  obtain ⟨⟨ts, g, htrace, hreads, hpc, -⟩, hruns, -⟩ :=
    stream_decoded [[.stamped 1, .stamped 2], [.stamped 3]] (by simp [batch])
  obtain ⟨-, hall, -⟩ := hruns ts g htrace hreads
  exact ⟨ts, g, htrace, hreads, hall hpc⟩

end Consumer

end GpuTelem
