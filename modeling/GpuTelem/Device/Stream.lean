import GpuTelem.Device.Result
import GpuTelem.Readers.Accounting
import Mathlib.Data.List.Perm.Subperm

/-!
# The stream a file delivers

What the successful `read()` calls on a file return, one after the other, across every interleaving
with the collector and the other readers: whole records, and no others than those the collector
pushed, in the order it pushed them.

## Main definitions

* `readerSteps`: the run of the ring and its readers that a run of the device shows;
* `returnedOn`, `faultsOn`: what the calls on a file return, and where one fails in `copy_to_user`;
* `Device.CopiesOn`: a call on a file is at `copy_to_user`;
* `recordsAt`: the samples with some sequence numbers.

## Main results

* `streams_of_trace`: the books of a file, with the call that is at `copy_to_user`;
* `device_stream`: the stream of a file.
-/

namespace GpuTelem

open Machine

/-- The steps of the ring and its readers that a run of the device shows. -/
def readerSteps (ts : List DeviceTransition) : List ReaderStep :=
  Trace.projected Readers.machine Device.readers (fun d op => op.readerOp d) ts

/-- The file of the call a step advances. -/
def callFile (τ : DeviceTransition) : Option FileId :=
  match τ.input with
  | .advance t _ => (τ.pre.calls.find t).map (·.file)
  | _ => none

/-- The bytes a successful `read()` on `f` returns in a step. -/
def returnedBy (f : FileId) (τ : DeviceTransition) : Option (List UInt8) :=
  match τ.output with
  | .returned _ (.ok _) bytes => if callFile τ = some f then some bytes else none
  | _ => none

/-- Whether a `read()` on `f` returns `-EFAULT` in a step. -/
def faultsOn (f : FileId) (τ : DeviceTransition) : Bool :=
  match τ.output with
  | .returned _ (.error .EFAULT) _ => callFile τ == some f
  | _ => false

/-- What the successful `read()` calls on `f` return in a run, in order. -/
def returnedOn (f : FileId) (ts : List DeviceTransition) : List (List UInt8) :=
  ts.filterMap (returnedBy f)

/-- A call on `f` is at `copy_to_user`, with `n` samples in its buffer. -/
def Device.CopiesOn (d : Device) (f : FileId) (kbuf : Array GpuSample) (n : UInt32) : Prop :=
  ∃ t c, d.calls.find t = some c ∧ c.file = f ∧ c.pc = .copy kbuf n

/-- The samples with the given sequence numbers. -/
def recordsAt (samples : List GpuSample) (seqs : List ℕ) : List GpuSample :=
  seqs.filterMap (samples[·]?)

/-- Their bytes. -/
def bytesAt (samples : List GpuSample) (seqs : List ℕ) : List UInt8 :=
  (recordsAt samples seqs).flatMap GpuSample.bytes

/-! ## One step -/

section Step

variable {d d' : Device} {op : DeviceOp} {o : DeviceObs} {f : FileId}

theorem readerSteps_append (ts us : List DeviceTransition) :
    readerSteps (ts ++ us) = readerSteps ts ++ readerSteps us := Trace.projected_append ..

/-- The step of the ring and its readers that delivers to `f` is a `ring_consume` on `f`. -/
theorem delivered_readerSteps_eq_nil
    (h : ∀ out max, op.readerOp d ≠ some (.consume f out max)) :
    delivered (readerSteps [⟨d, op, d', o⟩]) f = [] := by
  rw [readerSteps]
  cases hop : op.readerOp d with
  | none =>
      rw [Trace.projected_singleton_none hop]
      rfl
  | some rop =>
      cases hstep : d.readers.step rop with
      | none => simp [Trace.projected, hop, hstep, delivered]
      | some p =>
          rw [Trace.projected_singleton_some hop hstep, delivered, List.flatMap_singleton]
          refine (books_eq_zero_of_ne_consume ?_).1
          rintro out max rfl
          exact h out max hop

/-- Whether a call is at `copy_to_user` depends on the calls only. -/
theorem Device.copiesOn_congr (hcalls : ∀ t kbuf n,
      (∃ c, d'.calls.find t = some c ∧ c.file = f ∧ c.pc = .copy kbuf n) ↔
        ∃ c, d.calls.find t = some c ∧ c.file = f ∧ c.pc = .copy kbuf n)
    (kbuf : Array GpuSample) (n : UInt32) : d'.CopiesOn f kbuf n ↔ d.CopiesOn f kbuf n :=
  exists_congr fun t => hcalls t kbuf n

/-- There is at most one call on `f`. -/
def Device.SingleCall (d : Device) (f : FileId) : Prop :=
  ∀ t u b c, d.calls.find t = some b → d.calls.find u = some c → b.file = f → c.file = f → t = u

/-- What a step does to the stream of a file with at most one call on it. -/
inductive StreamStep (f : FileId) (τ : DeviceTransition) : Prop
  /-- `ring_consume` fills the buffer of the call. -/
  | consumed (t : ThreadId) (e : ReadEnv) (c : ReadCall) (kbuf : Array GpuSample)
      (nextSeq : UInt64) (hop : τ.input = .advance t e) (hcall : τ.pre.calls.find t = some c)
      (hfile : c.file = f) (hpc : c.pc = .consume kbuf)
      (hcursor : τ.pre.readers.cursor f = some nextSeq) (hreturned : returnedBy f τ = none)
      (hfault : faultsOn f τ = false) (hbefore : ∀ kbuf n, ¬ τ.pre.CopiesOn f kbuf n)
      (hafter : ∀ kbuf' n, τ.post.CopiesOn f kbuf' n ↔
        kbuf' = (ringConsume τ.pre.readers.ring nextSeq kbuf c.maxSamples.toUInt32).out ∧
        n = (ringConsume τ.pre.readers.ring nextSeq kbuf c.maxSamples.toUInt32).count)
  /-- `copy_to_user` returns the buffer. -/
  | copied (kbuf : Array GpuSample) (n : UInt32) (hbefore : τ.pre.CopiesOn f kbuf n)
      (hafter : ∀ kbuf n, ¬ τ.post.CopiesOn f kbuf n)
      (hdelivered : delivered (readerSteps [τ]) f = [])
      (hreturned : returnedBy f τ = some (sampleBytes kbuf n)) (hfault : faultsOn f τ = false)
  /-- `copy_to_user` fails. -/
  | faulted (hafter : ∀ kbuf n, ¬ τ.post.CopiesOn f kbuf n)
      (hdelivered : delivered (readerSteps [τ]) f = []) (hreturned : returnedBy f τ = none)
      (hfault : faultsOn f τ = true)
  /-- Any other step. -/
  | quiet (hdelivered : delivered (readerSteps [τ]) f = []) (hreturned : returnedBy f τ = none)
      (hfault : faultsOn f τ = false)
      (hcopies : ∀ kbuf n, τ.post.CopiesOn f kbuf n ↔ τ.pre.CopiesOn f kbuf n)

/-- A step by which a call goes on. -/
private theorem StreamStep.of_goto (hsingle : d.SingleCall f) {t : ThreadId} {e : ReadEnv}
    {c c' : ReadCall} {nextSeq : UInt64} {s : Readers} (hcall : d.calls.find t = some c)
    (hcursor : d.readers.cursor c.file = some nextSeq)
    (hread : ReadStep d.readers c e nextSeq s (.goto c')) :
    StreamStep f ⟨d, .advance t e, { d with readers := s, calls := d.calls.insert t c' },
      .silent⟩ := by
  -- a step that is not `ring_consume` on `f` does not touch the stream
  have hquiet : (∀ out max, (DeviceOp.advance t e).readerOp d ≠ some (.consume f out max)) →
      (c.file = f → ∀ kbuf n, c.pc ≠ .copy kbuf n) →
      (c'.file = f → ∀ kbuf n, c'.pc ≠ .copy kbuf n) →
      StreamStep f ⟨d, .advance t e, { d with readers := s, calls := d.calls.insert t c' },
        .silent⟩ := by
    intro hop hc hc'
    refine .quiet (delivered_readerSteps_eq_nil hop) rfl rfl
      (Device.copiesOn_congr fun u kbuf n => ?_)
    by_cases hu : u = t
    · simp only [hu, Table.find_insert_self, hcall, Option.some.injEq, exists_eq_left']
      constructor
      · exact fun h => absurd h.2 (hc' h.1 kbuf n)
      · exact fun h => absurd h.2 (hc h.1 kbuf n)
    · simp [hu]
  rcases hread.goto_cases with ⟨-, hconsume, hcopy, hcopy'⟩ | ⟨kbuf, hpc, -, rfl⟩
  · have hnone := readerOp_advance_eq_none (e := e) hcall hconsume
    exact hquiet (by simp [hnone]) (fun _ => hcopy) (fun _ => hcopy')
  by_cases hfile : c.file = f
  · have hother : ∀ u b, u ≠ t → d.calls.find u = some b → b.file ≠ f := fun u b hu hb hbf =>
      hu (hsingle u t b c hb hcall hbf hfile)
    refine .consumed t e c kbuf nextSeq rfl hcall hfile hpc (hfile ▸ hcursor) rfl rfl ?_ ?_
    · rintro kbuf' n ⟨u, b, hb, hbf, hbpc⟩
      by_cases hu : u = t
      · obtain rfl : c = b := Option.some.inj (hcall.symm.trans (hu ▸ hb))
        rw [hpc] at hbpc
        cases hbpc
      · exact hother u b hu hb hbf
    · intro kbuf' n
      constructor
      swap
      · rintro ⟨rfl, rfl⟩
        exact ⟨t, _, Table.find_insert_self .., hfile, rfl⟩
      rintro ⟨u, b, hb, hbf, hbpc⟩
      by_cases hu : u = t
      · obtain rfl := Option.some.inj ((Table.find_insert_self ..).symm.trans (hu ▸ hb))
        obtain ⟨rfl, rfl⟩ := ReadPc.copy.inj hbpc
        exact ⟨rfl, rfl⟩
      · have hb' : d.calls.find u = some b := by simpa [hu] using hb
        exact absurd hbf (hother u b hu hb')
  · refine hquiet ?_ (fun hf => absurd hf hfile) (fun hf => absurd hf hfile)
    simp [DeviceOp.readerOp, hcall, hpc, hfile]

/-- A step by which a call returns. -/
private theorem StreamStep.of_ret (hsingle : d.SingleCall f) {t : ThreadId} {e : ReadEnv}
    {c : ReadCall} {nextSeq : UInt64} {s : Readers} {result : Except Errno Int64}
    {bytes : List UInt8} (hcall : d.calls.find t = some c)
    (hread : ReadStep d.readers c e nextSeq s (.ret result bytes)) :
    StreamStep f ⟨d, .advance t e, { d with readers := s, calls := d.calls.erase t },
      .returned t result bytes⟩ := by
  have hcf : ∀ d' o, callFile ⟨d, .advance t e, d', o⟩ = some c.file := fun d' o => by
    simp [callFile, hcall]
  have hnone : (DeviceOp.advance t e).readerOp d = none :=
    readerOp_advance_eq_none hcall fun kbuf hpc => by cases hread <;> simp_all
  have hnil : delivered (readerSteps [⟨d, .advance t e, { d with
      readers := s, calls := d.calls.erase t }, .returned t result bytes⟩]) f = [] :=
    delivered_readerSteps_eq_nil (by simp [hnone])
  -- a call that is not at `copy_to_user` on `f` leaves the others where they are
  have hquiet : (c.file = f → ∀ kbuf n, c.pc ≠ .copy kbuf n) → ∀ kbuf n,
      ({ d with readers := s, calls := d.calls.erase t } : Device).CopiesOn f kbuf n ↔
        d.CopiesOn f kbuf n := by
    intro hc
    refine Device.copiesOn_congr fun u kbuf n => ?_
    by_cases hu : u = t
    · simp only [hu, Table.find_erase, hcall, Option.some.injEq, exists_eq_left']
      simpa using fun hf hpc => hc hf kbuf n hpc
    · simp [hu]
  by_cases hfile : c.file = f
  · -- the only call on `f` is over
    have hafter : ∀ kbuf n,
        ¬ ({ d with readers := s, calls := d.calls.erase t } : Device).CopiesOn f kbuf n := by
      rintro kbuf n ⟨u, b, hb, hbf, -⟩
      have hu : u ≠ t := by
        rintro rfl
        simp at hb
      have hb' : d.calls.find u = some b := by simpa [hu] using hb
      exact hu (hsingle u t b c hb' hcall hbf hfile)
    cases hread with
    | efault kbuf n hpc hfault hn => exact .faulted hafter hnil rfl (by simp [faultsOn, hcf, hfile])
    | done kbuf n hpc hok =>
        exact .copied kbuf n ⟨t, c, hcall, hfile, hpc⟩ hafter hnil
          (by simp [returnedBy, hcf, hfile]) rfl
    | _ => exact .quiet hnil rfl rfl (hquiet fun _ => by simp [*])
  · refine .quiet hnil ?_ ?_ (hquiet fun hf => absurd hf hfile)
    · cases result <;> simp [returnedBy, hcf, hfile]
    · simp only [faultsOn, hcf]
      split <;> simp [hfile]

/-- Every step does one of these to the stream. -/
theorem DeviceStep.streamStep (h : DeviceStep d op d' o) (hsingle : d.SingleCall f) :
    StreamStep f ⟨d, op, d', o⟩ := by
  cases h with
  -- a call that begins, a signal and a wake-up leave every call at its point
  | read t g count nonblock hthread hopen =>
      refine .quiet (delivered_readerSteps_eq_nil (by simp [DeviceOp.readerOp])) rfl rfl
        (Device.copiesOn_congr fun u kbuf n => ?_)
      by_cases hu : u = t
      · simp [hu, hthread, ReadCall.start]
      · simp [hu]
  | goto t e c c' nextSeq s hcall hcursor hread => exact .of_goto hsingle hcall hcursor hread
  | ret t e c nextSeq s result bytes hcall hcursor hread => exact .of_ret hsingle hcall hread
  | signal t c hcall =>
      refine .quiet (delivered_readerSteps_eq_nil (by simp [DeviceOp.readerOp])) rfl rfl
        (Device.copiesOn_congr fun u kbuf n => ?_)
      by_cases hu : u = t
      · simp [hu, hcall, ReadCall.signal, ReadCall.wake]
      · simp [hu]
  | wake e hpc =>
      refine .quiet (delivered_readerSteps_eq_nil (by simp [DeviceOp.readerOp, hpc])) rfl rfl
        (Device.copiesOn_congr fun u kbuf n => ?_)
      simp [ReadCall.wake]
  -- and the others touch no call at all
  | _ =>
      exact .quiet (delivered_readerSteps_eq_nil (by simp [DeviceOp.readerOp, *])) rfl rfl
        fun kbuf n => Iff.rfl

end Step

/-! ## The books of the stream -/

/-- Numbers of a log keep their samples when the log grows. -/
theorem recordsAt_append {samples : List GpuSample} {seqs : List ℕ}
    (h : ∀ q ∈ seqs, q < samples.length) (more : List GpuSample) :
    recordsAt (samples ++ more) seqs = recordsAt samples seqs := by
  apply List.filterMap_congr
  intro q hq
  exact List.getElem?_append_left (h q hq)

/-- What `ring_consume` reads are the samples pushed with the numbers it is read for. -/
theorem Represents.recordsAt_consumeSeqs {s : Readers} {a : BroadcastLog.State GpuSample}
    (h : Represents s a) {c : UInt64} (hle : c ≤ s.ring.headSeq) (max : UInt32) :
    (∀ q ∈ (consumeSeqs s.ring c max).map UInt64.toNat, q < a.log.length) ∧
      recordsAt a.log ((consumeSeqs s.ring c max).map UInt64.toNat)
        = (consumeSeqs s.ring c max).map fun seq =>
            s.ring.samples[(ringSlot s.ring seq).toNat]! := by
  -- what is read has been pushed, and not been overwritten
  have hrange : ∀ q ∈ consumeSeqs s.ring c max, q.toNat < a.log.length ∧
      a.log.length ≤ q.toNat + s.ring.size.toNat := by
    intro q hq
    have hmem := List.mem_map_of_mem (f := UInt64.toNat) hq
    rw [map_toNat_consumeSeqs hle, List.mem_range'_1, h.head_eq] at hmem
    have hcount := toNat_consumeCount hle max
    have hold := BroadcastLog.sub_resume_le s.ring.size.toNat a.log.length c.toNat
    rw [h.head_eq] at hcount
    omega
  refine ⟨?_, ?_⟩
  · -- so it is in the log
    intro q hq
    obtain ⟨seq, hseq, rfl⟩ := List.mem_map.mp hq
    exact (hrange seq hseq).1
  · -- and its slot holds it
    rw [recordsAt, List.filterMap_map, ← List.filterMap_eq_map]
    apply List.filterMap_congr
    intro q hq
    exact h.slot_eq q (hrange q hq).1 (hrange q hq).2

/-- The buffer `ring_consume` fills, as bytes. -/
theorem Represents.sampleBytes_ringConsume {s : Readers} {a : BroadcastLog.State GpuSample}
    (h : Represents s a) {c : UInt64} (hle : c ≤ s.ring.headSeq) {out : Array GpuSample}
    {max : UInt32} (hroom : max.toNat ≤ out.size) :
    sampleBytes (ringConsume s.ring c out max).out (ringConsume s.ring c out max).count
      = bytesAt a.log ((consumeSeqs s.ring c max).map UInt64.toNat) := by
  have hcount : (consumeCount s.ring c max).toNat ≤ out.size := by
    have := toNat_consumeCount hle max
    omega
  have hdelivered := delivered_ringConsume s.ring c hcount
  rw [bytesAt, (h.recordsAt_consumeSeqs hle max).2, ← hdelivered]
  rfl

/-- With something unread and room for it, `ring_consume` reads something. -/
theorem consumeSeqs_ne_nil {r : RingBuf} (hwf : r.WellFormed) {c : UInt64} (hlt : c < r.headSeq)
    {max : UInt32} (hmax : 0 < max.toNat) : (consumeSeqs r c max).map UInt64.toNat ≠ [] := by
  have hle := UInt64.le_of_lt hlt
  have hcount := toNat_consumeCount hle max
  have hpos := hwf.size_pos
  rw [UInt64.lt_iff_toNat_lt] at hlt
  rw [map_toNat_consumeSeqs hle, ne_eq, List.range'_eq_nil_iff, hcount, BroadcastLog.resume]
  omega

/-- How far the stream of `f` has come: `samples` have been pushed, `seqs` have been delivered to
calls on `f`, and `out` has been returned. The numbers of what was returned are `blocks`, one block
a call, and those in the buffer of the call at `copy_to_user` are `pending`. -/
structure Streams (d : Device) (f : FileId) (samples : List GpuSample) (seqs : List ℕ)
    (out : List (List UInt8)) (faulted : Bool) (blocks : List (List ℕ)) (pending : List ℕ) :
    Prop where
  returned_eq : out = blocks.map (bytesAt samples)
  nonempty : ∀ b ∈ blocks, b ≠ []
  copying : ∀ kbuf n, d.CopiesOn f kbuf n →
    pending ≠ [] ∧ sampleBytes kbuf n = bytesAt samples pending
  idle : (∀ kbuf n, ¬ d.CopiesOn f kbuf n) → pending = []
  sublist : (blocks.flatten ++ pending).Sublist seqs
  exact : faulted = false → blocks.flatten ++ pending = seqs
  bounded : ∀ q ∈ seqs, q < samples.length

namespace Streams

variable {d d' : Device} {f : FileId} {samples : List GpuSample} {seqs : List ℕ}
  {out : List (List UInt8)} {faulted : Bool} {blocks : List (List ℕ)} {pending : List ℕ}

/-- Every number returned or pending has its sample. -/
theorem lt_of_mem (h : Streams d f samples seqs out faulted blocks pending) {q : ℕ}
    (hq : q ∈ blocks.flatten ++ pending) : q < samples.length :=
  h.bounded q (h.sublist.subset hq)

/-- More samples are pushed; the call at `copy_to_user` stays there. -/
theorem push (h : Streams d f samples seqs out faulted blocks pending)
    (hcopies : ∀ kbuf n, d'.CopiesOn f kbuf n ↔ d.CopiesOn f kbuf n) (more : List GpuSample) :
    Streams d' f (samples ++ more) seqs out faulted blocks pending where
  returned_eq := by
    rw [h.returned_eq]
    apply List.map_congr_left
    intro b hb
    rw [bytesAt, bytesAt, recordsAt_append fun q hq => h.lt_of_mem
      (List.mem_append_left _ (List.mem_flatten_of_mem hb hq))]
  nonempty := h.nonempty
  copying kbuf n hcopy := by
    obtain ⟨hne, hbytes⟩ := h.copying kbuf n ((hcopies kbuf n).mp hcopy)
    refine ⟨hne, hbytes.trans ?_⟩
    rw [bytesAt, bytesAt, recordsAt_append fun q hq => h.lt_of_mem (List.mem_append_right _ hq)]
  idle hidle := h.idle fun kbuf n hcopy => hidle kbuf n ((hcopies kbuf n).mpr hcopy)
  sublist := h.sublist
  exact := h.exact
  bounded q hq := by
    rw [List.length_append]
    exact Nat.lt_add_right _ (h.bounded q hq)

/-- A call takes a batch. -/
theorem consume (h : Streams d f samples seqs out faulted blocks pending) {more : List ℕ}
    (hbefore : ∀ kbuf n, ¬ d.CopiesOn f kbuf n) (hmore : more ≠ [])
    (hafter : ∀ kbuf n, d'.CopiesOn f kbuf n → sampleBytes kbuf n = bytesAt samples more)
    (hcopies : ∃ kbuf n, d'.CopiesOn f kbuf n) (hbounded : ∀ q ∈ more, q < samples.length) :
    Streams d' f samples (seqs ++ more) out faulted blocks more where
  returned_eq := h.returned_eq
  nonempty := h.nonempty
  copying kbuf n hcopy := ⟨hmore, hafter kbuf n hcopy⟩
  idle hidle := by
    obtain ⟨kbuf, n, hcopy⟩ := hcopies
    exact absurd hcopy (hidle kbuf n)
  sublist := by
    have hsub := h.sublist
    rw [h.idle hbefore, List.append_nil] at hsub
    exact hsub.append_right more
  exact hfaulted := by
    have hexact := h.exact hfaulted
    rw [h.idle hbefore, List.append_nil] at hexact
    rw [hexact]
  bounded q hq := (List.mem_append.mp hq).elim (h.bounded q) (hbounded q)

/-- A call returns its batch. -/
theorem copy (h : Streams d f samples seqs out faulted blocks pending) {kbuf : Array GpuSample}
    {n : UInt32} (hcopy : d.CopiesOn f kbuf n) (hafter : ∀ kbuf n, ¬ d'.CopiesOn f kbuf n) :
    Streams d' f samples seqs (out ++ [sampleBytes kbuf n]) faulted (blocks ++ [pending]) [] where
  returned_eq := by
    rw [h.returned_eq, (h.copying kbuf n hcopy).2, List.map_append, List.map_singleton]
  nonempty b hb := by
    rcases List.mem_append.mp hb with hb | hb
    · exact h.nonempty b hb
    · rw [List.mem_singleton.mp hb]
      exact (h.copying kbuf n hcopy).1
  copying kbuf n hcopy := absurd hcopy (hafter kbuf n)
  idle _ := rfl
  sublist := by simpa using h.sublist
  exact hfaulted := by simpa using h.exact hfaulted
  bounded := h.bounded

/-- A call loses its batch. -/
theorem fault (h : Streams d f samples seqs out faulted blocks pending)
    (hafter : ∀ kbuf n, ¬ d'.CopiesOn f kbuf n) :
    Streams d' f samples seqs out true blocks [] where
  returned_eq := h.returned_eq
  nonempty := h.nonempty
  copying kbuf n hcopy := absurd hcopy (hafter kbuf n)
  idle _ := rfl
  sublist := by
    rw [List.append_nil]
    exact (List.sublist_append_left _ _).trans h.sublist
  exact := nofun
  bounded := h.bounded

end Streams

/-! ## Runs -/

section Run

variable {size : UInt32} {vzalloc : Bool} {r : RingBuf} {paths : AttrPaths} {intervalMs : UInt32}
  {stack : GpuSample} {ts : List DeviceTransition} {d : Device} {f : FileId}

/-- The steps on the ring and its readers are a run of theirs. -/
theorem readers_trace (hinit : ringInit size vzalloc = .ok r)
    (h : Device.machine.Trace (.start r paths intervalMs stack) ts d) :
    Readers.machine.Trace (.start r) (readerSteps ts) d.readers ∧
      pushCount (readerSteps ts) = Device.pushCount ts := by
  obtain ⟨htrace, hin⟩ := Trace.trace_projected (I := fun d => d.Sound size) (π := Device.readers)
    (N := Readers.machine) (f := fun d op => op.readerOp d)
    (fun _ _ _ _ hI hstep => Device.Sound.step (Device.deviceStep_of_step hstep) hI)
    (fun _ _ _ _ hI hstep => (Device.deviceStep_of_step hstep).readers_step hI) h
    (.start hinit paths intervalMs stack)
  refine ⟨htrace, ?_⟩
  rw [pushCount_eq_countP_input, readerSteps, hin]
  rfl

/-- The books of the stream of a file without overlapping reads, along every run. -/
theorem streams_of_trace (hinit : ringInit size vzalloc = .ok r)
    (h : Device.machine.Trace (.start r paths intervalMs stack) ts d) (hover : NoOverlap f ts)
    (hpush : Device.pushCount ts < 2 ^ 64) :
    ∃ blocks pending, Streams d f (pushed (readerSteps ts)) (delivered (readerSteps ts) f)
      (returnedOn f ts) (ts.any (faultsOn f)) blocks pending := by
  induction h with
  | nil => exact ⟨[], [], rfl, by simp, nofun, fun _ => rfl, List.Sublist.refl _, fun _ => rfl,
      by simp [readerSteps, Trace.projected, delivered]⟩
  | @snoc ts d d' op o htr hlast ih =>
      have hover' : NoOverlap f ts := fun τ hτ => hover τ (List.mem_append_left _ hτ)
      have hpush' : Device.pushCount ts < 2 ^ 64 :=
        (Device.pushCount_le_append ts _).trans_lt hpush
      obtain ⟨blocks, pending, hbooks⟩ := ih hover' hpush'
      have hstep := Device.deviceStep_of_step hlast
      have hsingle : d.SingleCall f := fun t u b c hb hc hbf hcf =>
        single_call_of_trace htr hover' hb hc hbf hcf
      obtain ⟨hreaders, hcount⟩ := readers_trace hinit htr
      obtain ⟨a, hlog, hrep⟩ := represents_of_trace hinit hreaders (by omega)
      have hpushed : ∀ us vs : List ReaderStep, pushed (us ++ vs) = pushed us ++ pushed vs := by
        simp [pushed]
      have hdelivered : ∀ us vs : List ReaderStep,
          delivered (us ++ vs) f = delivered us f ++ delivered vs f := by
        simp [delivered]
      have hreturned : returnedOn f (ts ++ [⟨d, op, d', o⟩])
          = returnedOn f ts ++ (returnedBy f ⟨d, op, d', o⟩).toList := by
        cases hret : returnedBy f ⟨d, op, d', o⟩ <;> simp [returnedOn, hret]
      rw [readerSteps_append, hpushed, hdelivered, hreturned, List.any_append, List.any_cons,
        List.any_nil, Bool.or_false]
      cases hstep.streamStep hsingle with
      | consumed t e c kbuf nextSeq hop hcall hfile hpc hcursor hret hfault hbefore hafter =>
          dsimp only at hop hcall hcursor hbefore hafter
          have hsound := Device.sound_of_trace htr (.start hinit paths intervalMs stack)
          have hcsound := hsound.call_sound t c hcall
          obtain ⟨hmax, hcast⟩ := hcsound.toNat_maxSamples (by simp [hpc])
          have hroom : c.maxSamples.toUInt32.toNat ≤ kbuf.size := by
            rw [hcast, hcsound.room kbuf hpc]
          have hle := hrep.cursor_le f nextSeq hcursor
          -- the batch is booked under the numbers `ring_consume` reads
          have hrop : op.readerOp d = some (.consume f kbuf c.maxSamples.toUInt32) := by
            simp [hop, DeviceOp.readerOp, hcall, hpc, hfile]
          have hshown : ∃ robs, readerSteps [⟨d, op, d', o⟩]
              = [⟨d.readers, .consume f kbuf c.maxSamples.toUInt32, d'.readers, robs⟩] := by
            rcases hstep.readers_step hsound with ⟨hnone, -⟩ | ⟨rop, robs, hsome, hrstep⟩
            · rw [hrop] at hnone
              cases hnone
            · obtain rfl := Option.some.inj (hrop.symm.trans hsome)
              exact ⟨robs, Trace.projected_singleton_some hrop hrstep⟩
          obtain ⟨robs, hshown⟩ := hshown
          have hseqs : delivered (readerSteps [⟨d, op, d', o⟩]) f
              = (consumeSeqs d.readers.ring nextSeq c.maxSamples.toUInt32).map UInt64.toNat := by
            rw [hshown, delivered, List.flatMap_singleton]
            exact (books_consume rfl hcursor).1
          have hnew : pushed (readerSteps [⟨d, op, d', o⟩]) = [] := by
            rw [hshown]
            rfl
          have hlt := ready_of_trace hinit htr hover' hpush' hcall hfile (by rw [hpc]; rfl) hcursor
          have hpos : 0 < c.maxSamples.toUInt32.toNat := by
            have hcount := (hcsound.entered.resolve_left (by simp [hpc])).1
            rw [UInt64.lt_iff_toNat_lt] at hcount
            have hsize := hsound.size_eq ▸ hsound.wellFormed.size_pos
            have h48 : sampleSz.toNat = 48 := rfl
            rw [hcast, hmax]
            omega
          rw [hseqs, hnew, hret, hfault, List.append_nil, Option.toList_none, List.append_nil,
            Bool.or_false, ← hlog]
          rw [← hlog] at hbooks
          refine ⟨blocks, _, hbooks.consume hbefore
            (consumeSeqs_ne_nil hsound.wellFormed hlt hpos) ?_ ⟨_, _, (hafter _ _).mpr ⟨rfl, rfl⟩⟩
            (hrep.recordsAt_consumeSeqs hle _).1⟩
          intro kbuf' n hcopy
          obtain ⟨rfl, rfl⟩ := (hafter kbuf' n).mp hcopy
          exact hrep.sampleBytes_ringConsume hle hroom
      | copied kbuf n hbefore hafter hnil hret hfault =>
          rw [hnil, hret, hfault, List.append_nil, Bool.or_false]
          refine ⟨_, _, (hbooks.copy hbefore hafter).push (fun _ _ => Iff.rfl) _⟩
      | faulted hafter hnil hret hfault =>
          rw [hnil, hret, hfault, List.append_nil, Option.toList_none, List.append_nil,
            Bool.or_true]
          exact ⟨_, _, (hbooks.fault hafter).push (fun _ _ => Iff.rfl) _⟩
      | quiet hnil hret hfault hcopies =>
          rw [hnil, hret, hfault, List.append_nil, Option.toList_none, List.append_nil,
            Bool.or_false]
          exact ⟨_, _, hbooks.push hcopies _⟩

/-- Only a file that was opened is delivered to. -/
theorem openedAt_of_mem_delivered {us : List ReaderStep} {s : Readers}
    (hinit : ringInit size vzalloc = .ok r) (h : Readers.machine.Trace (.start r) us s)
    (hpush : pushCount us < 2 ^ 64) {q : ℕ} (hq : q ∈ delivered us f) :
    ∃ h₀, OpenedAt us f h₀ := by
  obtain ⟨τ, hτ, hseq⟩ := List.mem_flatMap.mp hq
  obtain ⟨before, after, rfl, hbefore, -, -⟩ := Trace.before_of_mem h hτ
  have hacc := account_of_trace hinit hbefore
    ((pushCount_le_append before _).trans_lt hpush) f
  -- the step consumed at a cursor
  obtain ⟨c, hc⟩ : ∃ c, τ.pre.cursor f = some c := by
    rw [seqsOf] at hseq
    split at hseq
    next hc => exact ⟨_, hc⟩
    next => simp at hseq
  obtain ⟨h₀, σ, hσ, hopen⟩ := hacc.opened c hc
  exact ⟨h₀, σ, List.mem_append_left _ hσ, hopen⟩

/-- Increasing numbers that fill an interval are all of its numbers. -/
theorem eq_range'_of_pairwise {l : List ℕ} {a n : ℕ} (hl : l.Pairwise (· < ·))
    (hmem : ∀ q ∈ l, a ≤ q ∧ q < a + n) (hlen : n ≤ l.length) : l = List.range' a n := by
  have hsub : l ⊆ List.range' a n := fun q hq => List.mem_range'_1.mpr (hmem q hq)
  have hnodup : l.Nodup := hl.imp Nat.ne_of_lt
  have hperm := (hnodup.subperm hsub).perm_of_length_le (by simpa using hlen)
  exact hperm.eq_of_pairwise (fun x y _ _ hxy hyx => absurd hxy (Nat.lt_asymm hyx)) hl
    List.pairwise_lt_range'

/-- What the successful calls on `f` have returned in a run to `d`: one block of numbers a call. -/
structure FileStream (ts : List DeviceTransition) (d : Device) (f : FileId)
    (blocks : List (List ℕ)) : Prop where
  /-- A call returns the records of its block, -/
  returned_eq : returnedOn f ts = blocks.map (bytesAt (pushed (readerSteps ts)))
  /-- which is not empty. -/
  nonempty : ∀ b ∈ blocks, b ≠ []
  /-- No record is returned twice or out of order, -/
  ordered : blocks.flatten.Pairwise (· < ·)
  /-- each has been pushed, -/
  bounded : ∀ q ∈ blocks.flatten, q < (pushed (readerSteps ts)).length
  /-- and none of them before the file was opened. -/
  opened : ∀ h₀, OpenedAt (readerSteps ts) f h₀ → ∀ q ∈ blocks.flatten, h₀ ≤ q
  /-- Where no call on the file has failed in `copy_to_user` or is at it, what is missing up to the
  cursor is what the overrun branch has skipped. -/
  complete : (∀ τ ∈ ts, faultsOn f τ = false) → (∀ kbuf n, ¬ d.CopiesOn f kbuf n) →
    ∀ h₀ c, OpenedAt (readerSteps ts) f h₀ → d.readers.cursor f = some c →
      (∀ q ∈ blocks.flatten, q < c.toNat) ∧
        blocks.flatten.length + skipped (readerSteps ts) f + h₀ = c.toNat

/-- Where nothing was skipped, the numbers are consecutive. -/
theorem FileStream.consecutive {blocks : List (List ℕ)} (h : FileStream ts d f blocks)
    (hfault : ∀ τ ∈ ts, faultsOn f τ = false) (hidle : ∀ kbuf n, ¬ d.CopiesOn f kbuf n) {h₀ : ℕ}
    {c : UInt64} (hopen : OpenedAt (readerSteps ts) f h₀) (hc : d.readers.cursor f = some c)
    (hnone : skipped (readerSteps ts) f = 0) :
    blocks.flatten = List.range' h₀ (c.toNat - h₀) := by
  obtain ⟨hbelow, hbalance⟩ := h.complete hfault hidle h₀ c hopen hc
  refine eq_range'_of_pairwise h.ordered (fun q hq => ?_) (by omega)
  have hge := h.opened h₀ hopen q hq
  have hlt := hbelow q hq
  omega

/-- Every run delivers in this way. -/
theorem fileStream_of_trace (hinit : ringInit size vzalloc = .ok r)
    (h : Device.machine.Trace (.start r paths intervalMs stack) ts d) (hover : NoOverlap f ts)
    (hpush : Device.pushCount ts < 2 ^ 64) : ∃ blocks, FileStream ts d f blocks := by
  obtain ⟨blocks, pending, hbooks⟩ := streams_of_trace hinit h hover hpush
  obtain ⟨hreaders, hcount⟩ := readers_trace hinit h
  have hacc := account_of_trace hinit hreaders (by omega) f
  -- what is returned was delivered by `ring_consume` before
  have hsub : blocks.flatten.Sublist (delivered (readerSteps ts) f) :=
    (List.sublist_append_left _ _).trans hbooks.sublist
  refine ⟨blocks, hbooks.returned_eq, hbooks.nonempty, ?_, ?_, ?_, ?_⟩
  · -- the order is that of the deliveries
    refine List.Pairwise.sublist hsub ?_
    cases hseqs : delivered (readerSteps ts) f with
    | nil => exact List.Pairwise.nil
    | cons q seqs =>
        obtain ⟨h₀, hopen⟩ := openedAt_of_mem_delivered hinit hreaders (by omega)
          (hseqs ▸ List.mem_cons_self)
        exact hseqs ▸ (hacc.ordered h₀ hopen).1
  · exact fun q hq => hbooks.bounded q (hsub.subset hq)
  · exact fun h₀ hopen q hq => (hacc.ordered h₀ hopen).2 q (hsub.subset hq)
  · -- without a fault nothing delivered is lost, and the account of the ring is the one of the file
    intro hfault hidle h₀ c hopen hc
    have hexact := hbooks.exact (by simpa using hfault)
    rw [hbooks.idle hidle, List.append_nil] at hexact
    obtain ⟨-, hbelow, hbalance⟩ := hacc.balance h₀ c hopen hc
    rw [← hexact] at hbelow hbalance
    exact ⟨hbelow, hbalance⟩

/-- **The stream of a file.** In every run with fewer than `2 ^ 64` pushes, under every
interleaving, the successful calls on a file whose reads do not overlap return records the collector
pushed since the file was opened, each at most once and in order. When no call on the file has
failed in `copy_to_user` or is at it, nothing is missing between the opening and the cursor but what
the overrun branch of `ring_consume` has skipped; and if it has skipped nothing, the records are
consecutive. -/
theorem device_stream (hinit : ringInit size vzalloc = .ok r)
    (h : Device.machine.Trace (.start r paths intervalMs stack) ts d) (hover : NoOverlap f ts)
    (hpush : Device.pushCount ts < 2 ^ 64) :
    ∃ blocks, FileStream ts d f blocks ∧
      ((∀ τ ∈ ts, faultsOn f τ = false) → (∀ kbuf n, ¬ d.CopiesOn f kbuf n) →
        ∀ h₀ c, OpenedAt (readerSteps ts) f h₀ → d.readers.cursor f = some c →
          skipped (readerSteps ts) f = 0 →
            blocks.flatten = List.range' h₀ (c.toNat - h₀)) := by
  obtain ⟨blocks, hstream⟩ := fileStream_of_trace hinit h hover hpush
  exact ⟨blocks, hstream, fun hfault hidle _ _ => hstream.consecutive hfault hidle⟩

end Run

/-- What the collector finds in a pass at time `t`, without attributes. -/
def stampedEnv (t : UInt64) : CollectorEnv where
  ktimeGetNs := t
  kernelRead _ := .error .ENOENT
  kstrtos64 _ := .error .EINVAL
  interrupted := false

/-- A device with a ring of two, on which nothing has happened. -/
def smallDevice : Device :=
  .start ⟨Array.replicate 2 default, 2, 1, 0, 0⟩ ⟨"", "", "", ""⟩ 500 default

/-- Two passes of the collector, at the times 1 and 2, and a `read()` for both samples. -/
def twoSampleOps : List DeviceOp :=
  [.kthreadRun, .openFile 0 true]
    ++ List.replicate 5 (.collect (stampedEnv 1)) ++ List.replicate 3 (.collect (stampedEnv 2))
    ++ [.read 7 0 100 true]
    ++ List.replicate 5 (.advance 7 ⟨some #[default, default], 0⟩)

/-- The file has delivered the numbers 0 and 1. -/
theorem device_stream_two :
    ∃ ts d blocks, Device.machine.Trace smallDevice ts d ∧ FileStream ts d 0 blocks ∧
      blocks.flatten = [0, 1] := by
  have hrun : (Device.machine.exec smallDevice twoSampleOps).map
        (fun p => decide ((NoOverlap 0 p.1 ∧ Device.pushCount p.1 = 2 ∧
          ∀ τ ∈ p.1, faultsOn 0 τ = false) ∧ OpenedAt (readerSteps p.1) 0 0 ∧
          skipped (readerSteps p.1) 0 = 0 ∧ p.2.readers.cursor 0 = some 2 ∧
          p.2.calls.all (fun _ => false) = true)) = some true := by
    decide
  obtain ⟨⟨ts, d⟩, hexec, hseen⟩ := Option.map_eq_some_iff.mp hrun
  obtain ⟨⟨hover, hcount, hfault⟩, hopen, hnone, hcursor, hidle⟩ := of_decide_eq_true hseen
  have hinit : ringInit 2 true = .ok ⟨Array.replicate 2 default, 2, 1, 0, 0⟩ := rfl
  have htrace := Trace.of_exec hexec
  obtain ⟨blocks, hstream, hexact⟩ := device_stream hinit htrace hover (by rw [hcount]; decide)
  have hcopies : ∀ kbuf n, ¬ d.CopiesOn 0 kbuf n := by
    rintro kbuf n ⟨t, c, hc, -⟩
    simpa using Table.all_eq_true.mp hidle t c hc
  exact ⟨ts, d, blocks, htrace, hstream, hexact hfault hcopies 0 2 hopen hcursor hnone⟩

end GpuTelem
