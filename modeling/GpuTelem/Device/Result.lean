import GpuTelem.Device.Call

/-!
# What `read()` returns

The readiness check of `gpu_telem_read` is lockless and far from its `ring_consume`: any number of
pushes and of other calls may come between. While the reads on a file do not overlap, what the check
saw stays true, because nothing but `ring_consume` moves the cursor and `head_seq` only grows. So a
call that returns without error has copied at least one sample, and a result of 0, which user space
takes for the end of the stream, does not occur.

`head_seq` grows only until it wraps: after `2 ^ 64` pushes the argument, and the property, break
down (`read_returns_zero_after_wrap`).

## Main definitions

* `NoOverlap`: no `read()` on a file begins while another is in flight on it;
* `ConsumesAt`, `ChecksEmpty`: what a call finds at its `ring_consume` and at its check.

## Main results

* `ready_of_trace`: past its check, a call has something to read;
* `read_result`: the result of `gpu_telem_read`.
-/

namespace GpuTelem

open Machine BroadcastLog

/-- Whether an operation begins a `read()` on `f`. -/
def DeviceOp.readsFile (f : FileId) : DeviceOp → Bool
  | .read _ g _ _ => g == f
  | _ => false

/-- No `read()` on `f` begins while another is in flight on it. -/
def NoOverlap (f : FileId) (ts : List DeviceTransition) : Prop :=
  ∀ τ ∈ ts, τ.input.readsFile f = true → τ.pre.calls.all (·.file != f) = true

instance (f : FileId) (ts : List DeviceTransition) : Decidable (NoOverlap f ts) :=
  inferInstanceAs (Decidable (∀ τ ∈ ts, _ → _))

/-- In this step thread `t` reaches `ring_consume` with `backlog` unread samples. -/
def ConsumesAt (t : ThreadId) (σ : DeviceTransition) (backlog : ℕ) : Prop :=
  ∃ c kbuf nextSeq, σ.pre.calls.find t = some c ∧ c.pc = .consume kbuf ∧
    σ.pre.readers.cursor c.file = some nextSeq ∧
    backlog = σ.pre.readers.ring.headSeq.toNat - nextSeq.toNat

/-- In this step thread `t` checks for unread samples and finds none. -/
def ChecksEmpty (t : ThreadId) (σ : DeviceTransition) : Prop :=
  ∃ c nextSeq, σ.pre.calls.find t = some c ∧ c.pc = .check ∧
    σ.pre.readers.cursor c.file = some nextSeq ∧
    ringDataAvailable σ.pre.readers.ring nextSeq = false

/-- Past its readiness check and before `ring_consume`. -/
def ReadPc.ready : ReadPc → Bool
  | .alloc => true
  | .consume _ => true
  | _ => false

/-! ## Availability is stable -/

section Stable

variable {size : UInt32} {vzalloc : Bool} {r : RingBuf} {paths : AttrPaths} {intervalMs : UInt32}
  {stack : GpuSample} {ts : List DeviceTransition} {d d' : Device} {op : DeviceOp} {o : DeviceObs}
  {f : FileId}

/-- Without overlap there is at most one call on a file. -/
theorem single_call_of_trace (h : Device.machine.Trace (.start r paths intervalMs stack) ts d)
    (hover : NoOverlap f ts) {t u : ThreadId} {b c : ReadCall} (hb : d.calls.find t = some b)
    (hc : d.calls.find u = some c) (hbf : b.file = f) (hcf : c.file = f) : t = u := by
  induction h generalizing t u b c with
  | nil => cases hb
  | @snoc ts d d' op o htr hlast ih =>
      have hstep := Device.deviceStep_of_step hlast
      have hbefore : ∀ {t u b c}, d.calls.find t = some b → d.calls.find u = some c →
          b.file = f → c.file = f → t = u := ih fun τ hτ => hover τ (List.mem_append_left _ hτ)
      -- the call of `t` was there before, or has just begun
      have hold : ∀ {t c'}, d'.calls.find t = some c' → c'.file = f →
          (∃ c, d.calls.find t = some c ∧ c.file = f) ∨
            (∃ count nonblock, op = .read t f count nonblock) := by
        intro t c' hc' hf
        rcases hstep.call_cases hc' with ⟨g, count, nonblock, hop, -, -, -, rfl⟩ |
          ⟨e, c, nextSeq, -, hc, -, hread⟩ | ⟨c, w, g, hc, -, -, rfl⟩
        · obtain rfl : g = f := hf
          exact .inr ⟨count, nonblock, hop⟩
        · exact .inl ⟨c, hc, hread.args.1 ▸ hf⟩
        · exact .inl ⟨c, hc, hf⟩
      -- and if one has just begun there was none before
      have hnone : ∀ {t count nonblock}, op = .read t f count nonblock →
          ∀ u c, d.calls.find u = some c → c.file ≠ f := by
        intro t count nonblock hop u c hc
        have hall := hover ⟨d, op, d', o⟩ (by simp) (by simp [hop, DeviceOp.readsFile])
        simpa using Table.all_eq_true.mp hall u c hc
      rcases hold hb hbf with ⟨b₀, hb₀, hbf₀⟩ | ⟨count, nonblock, hop⟩
      · -- of two calls at most one is new
        rcases hold hc hcf with ⟨c₀, hc₀, hcf₀⟩ | ⟨count, nonblock, hop⟩
        · exact hbefore hb₀ hc₀ hbf₀ hcf₀
        · exact absurd hbf₀ (hnone hop t b₀ hb₀)
      · rcases hold hc hcf with ⟨c₀, hc₀, hcf₀⟩ | ⟨count', nonblock', hop'⟩
        · exact absurd hcf₀ (hnone hop u c₀ hc₀)
        · rw [hop] at hop'
          exact (DeviceOp.read.inj hop').1

/-- The own steps of a call that lead past its check. -/
theorem ReadStep.to_ready {s s' : Readers} {c c' : ReadCall} {e : ReadEnv} {nextSeq : UInt64}
    (h : ReadStep s c e nextSeq s' (.goto c')) (hpc : c'.pc.ready = true) :
    s' = s ∧ (ringDataAvailable s.ring nextSeq = true ∨ c.pc.ready = true) := by
  cases h with
  | ready _ havail => exact ⟨rfl, .inl havail⟩
  | condition _ _ havail => exact ⟨rfl, .inl havail⟩
  | alloc kbuf halloc => exact ⟨rfl, .inr (by rw [halloc]; rfl)⟩
  | _ => simp [ReadPc.ready] at hpc

/-- Past its check, a call on a file without overlapping reads has something to read. -/
theorem ready_of_trace (hinit : ringInit size vzalloc = .ok r)
    (h : Device.machine.Trace (.start r paths intervalMs stack) ts d) (hover : NoOverlap f ts)
    (hpush : Device.pushCount ts < 2 ^ 64) {t : ThreadId} {c : ReadCall} {nextSeq : UInt64}
    (hc : d.calls.find t = some c) (hf : c.file = f) (hpc : c.pc.ready = true)
    (hcursor : d.readers.cursor f = some nextSeq) : nextSeq < d.readers.ring.headSeq := by
  induction h generalizing t c nextSeq with
  | nil => cases hc
  | @snoc ts d d' op o htr hlast ih =>
      have hstep := Device.deviceStep_of_step hlast
      have hover' : NoOverlap f ts := fun τ hτ => hover τ (List.mem_append_left _ hτ)
      have hle := Device.pushCount_le_append ts [⟨d, op, d', o⟩]
      have hsound := Device.sound_of_trace htr (.start hinit paths intervalMs stack)
      have hbefore : ∀ {t c nextSeq}, d.calls.find t = some c → c.file = f → c.pc.ready = true →
          d.readers.cursor f = some nextSeq → nextSeq < d.readers.ring.headSeq :=
        ih hover' (by omega)
      have hmono := Device.headSeq_le_step hinit htr hlast hpush
      rcases hstep.call_cases hc with ⟨g, count, nonblock, -, -, -, -, rfl⟩ |
        ⟨e, b, seq, -, hb, hbcursor, hread⟩ | ⟨b, w, g, hb, hother, -, rfl⟩
      · cases hpc
      -- its own step: the check, or one that leaves the ring alone
      · obtain ⟨hsame, havail | hready⟩ := hread.to_ready hpc
        all_goals
          rw [hsame] at hcursor ⊢
          rw [hread.args.1] at hf
          rw [hf] at hbcursor
          obtain rfl : seq = nextSeq := Option.some.inj (hbcursor.symm.trans hcursor)
        · exact ringDataAvailable_iff.mp havail
        · exact hbefore hb hf hready hbcursor
      -- a step of another: it does not move the cursor
      · rcases hstep.cursor_cases f with hsame | ⟨-, hunused, -⟩ | ⟨-, hidle, -⟩ |
          ⟨u, e, c', kbuf, seq, hop, hc', hf', -, -, -⟩
        · rw [hsame] at hcursor
          exact UInt64.lt_of_lt_of_le (hbefore hb hf hpc hcursor) hmono
        · have hopen := hsound.call_open t b hb
          rw [show b.file = f from hf] at hopen
          simp [Readers.cursor, hunused] at hopen
        · exact absurd hf (hidle t b hb)
        · -- the consuming call is on the same file, so it is this one
          obtain rfl : t = u := single_call_of_trace htr hover' hb hc' hf hf'
          exact absurd hop (hother e)

end Stable

/-! ## The result -/

/-- What the history of a call says about its local variables. -/
structure ResultLedger (size : UInt32) (t : ThreadId) (own : List DeviceTransition)
    (c : ReadCall) : Prop where
  /-- A nonblocking call went past its check because it found something. -/
  checked : c.nonblock = true → ∀ σ ∈ own, ¬ ChecksEmpty t σ
  /-- What `ring_consume` returned. -/
  consumed : ∀ kbuf n, c.pc = .copy kbuf n → ∃ σ ∈ own, ∃ backlog, ConsumesAt t σ backlog ∧
    0 < backlog ∧ n.toNat = min (c.count.toNat / 48) (min size.toNat (min backlog size.toNat))

/-- A step that is neither the check of a nonblocking call nor `ring_consume` keeps the ledger. -/
private theorem ResultLedger.snoc {size : UInt32} {t : ThreadId} {own : List DeviceTransition}
    {c c' : ReadCall} {σ : DeviceTransition} (h : ResultLedger size t own c)
    (hnonblock : c'.nonblock = c.nonblock) (hpc : ∀ kbuf n, c'.pc ≠ .copy kbuf n)
    (hcheck : c.nonblock = true → ¬ ChecksEmpty t σ) :
    ResultLedger size t (own ++ [σ]) c' := by
  refine ⟨fun hb => ?_, fun kbuf n hcopy => absurd hcopy (hpc kbuf n)⟩
  rw [hnonblock] at hb
  exact forall_mem_snoc.mpr ⟨h.checked hb, hcheck hb⟩

section Run

variable {size : UInt32} {vzalloc : Bool} {r : RingBuf} {paths : AttrPaths} {intervalMs : UInt32}
  {stack : GpuSample} {ts : List DeviceTransition} {τ : DeviceTransition} {d : Device}
  {t : ThreadId}

/-- A call is at its check only if its point is `check`. -/
private theorem not_checksEmpty {σ : DeviceTransition} {c : ReadCall}
    (hc : σ.pre.calls.find t = some c) (hpc : c.pc ≠ .check) : ¬ ChecksEmpty t σ := by
  rintro ⟨b, nextSeq, hb, hcheck, -⟩
  obtain rfl : c = b := Option.some.inj (hc.symm.trans hb)
  exact hpc hcheck

/-- The ledger of every call in flight on a file without overlapping reads is right. -/
theorem resultLedger_of_trace (hinit : ringInit size vzalloc = .ok r)
    (h : Device.machine.Trace (.start r paths intervalMs stack) ts d)
    (hpush : Device.pushCount ts < 2 ^ 64) {c : ReadCall} (hc : d.calls.find t = some c)
    (hover : NoOverlap c.file ts) : ResultLedger size t (callSteps t ts) c := by
  refine call_invariant (H := fun own b => b.file = c.file → ResultLedger size t own b) h rfl
    (fun f count nonblock _ => ⟨by simp, by simp [ReadCall.start]⟩)
    (fun own b w g hled hf => ⟨(hled hf).checked, (hled hf).consumed⟩) ?_ hc rfl
  intro own σ e b b' nextSeq hσ hop hb hcursor hread hled hf'
  have hf : b.file = c.file := hread.args.1 ▸ hf'
  have hled := hled hf
  obtain ⟨before, after, rfl, htr, -, -⟩ := Trace.before_of_mem h hσ
  obtain ⟨-, -, -, hpc⟩ | ⟨kbuf, hpc, -, rfl⟩ := hread.goto_cases
  · -- a nonblocking call that goes on found something at its check
    refine hled.snoc hread.args.2.2 hpc fun hnonblock => ?_
    rintro ⟨b₁, seq, hb₁, hcheck, hseq, hempty⟩
    obtain rfl : b = b₁ := Option.some.inj (hb.symm.trans hb₁)
    obtain rfl : nextSeq = seq := Option.some.inj (hcursor.symm.trans hseq)
    rw [hread.available_of_check hnonblock hcheck] at hempty
    cases hempty
  have hsound := Device.sound_of_trace htr (.start hinit paths intervalMs stack)
  obtain ⟨hmax, hcast⟩ := (hsound.call_sound t b hb).toNat_maxSamples (by simp [hpc])
  -- the check it went past still holds
  have hlt := ready_of_trace hinit htr (fun τ hτ => hover τ (List.mem_append_left _ hτ))
    ((Device.pushCount_le_append before _).trans_lt hpush) hb hf
    (by rw [hpc]; rfl) (hf ▸ hcursor)
  rw [UInt64.lt_iff_toNat_lt] at hlt
  refine ⟨fun hnb => ?_, fun kbuf' n hcopy => ?_⟩
  · have hnot := not_checksEmpty hb (by simp [hpc])
    exact forall_mem_snoc.mpr ⟨hled.checked hnb, hnot⟩
  · obtain ⟨-, rfl⟩ := ReadPc.copy.inj hcopy
    refine ⟨σ, by simp, _, ⟨b, kbuf, nextSeq, hb, hpc, hcursor, rfl⟩, by omega, ?_⟩
    rw [toNat_count_ringConsume, hcast, hmax, hsound.size_eq]
    simp only
    omega

/-- **What `read()` returns.** In every run with fewer than `2 ^ 64` pushes, under every
interleaving, a call on a file whose reads do not overlap: if it returns no error, it returns
`48 * n` bytes, where `n` is the least of `count / 48`, the ring's size and the backlog its
`ring_consume` found; so at least 48 and at most `count`. It returns `-EINVAL` exactly when `count`
is less than 48; when nonblocking, `-EAGAIN` exactly when `count` is at least 48 and its check found
nothing unread. None of its casts and products loses a bit. -/
theorem read_result (hinit : ringInit size vzalloc = .ok r)
    (h : Device.machine.Trace (.start r paths intervalMs stack) (ts ++ [τ]) d)
    (hpush : Device.pushCount (ts ++ [τ]) < 2 ^ 64)
    {result : Except Errno Int64} {bytes : List UInt8}
    (hret : τ.output = .returned t result bytes) {f : FileId} {count : UInt64} {nonblock : Bool}
    (hread : lastRead t ts = some (f, count, nonblock)) (hover : NoOverlap f ts) :
    (∀ v, result = .ok v → ∃ σ ∈ callSteps t ts, ∃ backlog n, ConsumesAt t σ backlog ∧
      n = min (count.toNat / 48) (min size.toNat (min backlog size.toNat)) ∧
      v.toInt = 48 * n ∧ bytes.length = 48 * n ∧ 48 ≤ v.toInt ∧ v.toInt ≤ count.toNat) ∧
    (result = .error .EINVAL ↔ count.toNat < 48) ∧
    (nonblock = true → (result = .error .EAGAIN ↔
      48 ≤ count.toNat ∧ ∃ σ ∈ callSteps t (ts ++ [τ]), ChecksEmpty t σ)) ∧
    ∀ σ ∈ ts ++ [τ], ∀ c, σ.pre.calls.find t = some c → c.pc ≠ .entry →
      c.maxSamples.toNat = min (c.count.toNat / 48) size.toNat ∧
      c.maxSamples.toUInt32.toNat = c.maxSamples.toNat ∧
      (c.maxSamples * sampleSz).toNat = c.maxSamples.toNat * 48 := by
  obtain ⟨htr, hstep, -⟩ := Trace.of_snoc h
  rw [hret] at hstep
  obtain ⟨e, c, nextSeq, hop, hcall, hcursor, hlast⟩ := step_returned hstep
  obtain ⟨rfl, rfl, rfl⟩ : c.file = f ∧ c.count = count ∧ c.nonblock = nonblock := by
    simpa using (lastRead_of_call htr rfl hcall).symm.trans hread
  have hled := resultLedger_of_trace hinit htr
    ((Device.pushCount_le_append ts [τ]).trans_lt hpush) hcall hover
  have hsound := Device.sound_of_trace htr (.start hinit paths intervalMs stack)
  have hcsound := hsound.call_sound t c hcall
  have hsize : 0 < size.toNat := hsound.size_eq ▸ hsound.wellFormed.size_pos
  have hentered : c.pc ≠ .entry → 48 ≤ c.count.toNat := by
    intro hpc
    have hcount := (hcsound.entered.resolve_left hpc).1
    rw [UInt64.lt_iff_toNat_lt] at hcount
    simpa [sampleSz] using hcount
  generalize τ.post.readers = post at hlast
  refine ⟨?_, ?_, fun hnb => ⟨?_, ?_⟩, ?_⟩
  -- a success comes from the last point only
  · rintro v rfl
    cases hlast with
    | done kbuf n hpc hcopy =>
        obtain ⟨σ, hσ, backlog, hconsumes, hpos, hn⟩ := hled.consumed kbuf n hpc
        have hcount := hentered (by simp [hpc])
        refine ⟨σ, hσ, backlog, n.toNat, hconsumes, hn, toInt_result n,
          length_sampleBytes (hcsound.filled kbuf n hpc), ?_, ?_⟩ <;> rw [toInt_result] <;> omega
  -- `-EINVAL` comes from the first point only, and a short `count` gets no further
  · constructor
    · rintro rfl
      cases hlast with
      | einval hpc hcount =>
          rw [UInt64.lt_iff_toNat_lt] at hcount
          simpa [sampleSz] using hcount
    · intro hcount
      have hpc : c.pc = .entry := by
        by_contra hne
        exact absurd (hentered hne) (by omega)
      cases hlast <;> simp_all
  -- `-EAGAIN` comes from the check, and a nonblocking call does not go on from an empty one
  · rintro rfl
    cases hlast with
    | eagain hpc hnonblock havail =>
        refine ⟨hentered (by simp [hpc]), τ, ?_, c, nextSeq, hcall, hpc, hcursor, havail⟩
        rw [callSteps_snoc_advance _ hop]
        simp
  · rintro ⟨-, σ, hσ, hempty⟩
    rw [callSteps_snoc_advance _ hop] at hσ
    rcases List.mem_append.mp hσ with hown | hself
    · exact absurd hempty (hled.checked hnb σ hown)
    · obtain rfl := List.mem_singleton.mp hself
      obtain ⟨b, seq, hb, hpc, -⟩ := hempty
      obtain rfl : c = b := Option.some.inj (hcall.symm.trans hb)
      cases hlast <;> simp_all
  -- the batch is at most 4096 records, so nothing overflows
  · intro σ hσ b hb hpc
    obtain ⟨before, after, -, hbefore, -, -⟩ := Trace.before_of_mem h hσ
    have hbsound := (Device.sound_of_trace hbefore (.start hinit paths intervalMs stack)).call_sound
      t b hb
    obtain ⟨hmax, hcast⟩ := hbsound.toNat_maxSamples hpc
    have hlt := size.toNat_lt
    refine ⟨hmax, hcast, ?_⟩
    rw [UInt64.toNat_mul]
    simp only [sampleSz, UInt64.reduceToNat]
    omega

end Run

/-- A `read()` of 100 bytes with one sample in the ring. -/
theorem read_result_short :
    ∃ r ts d, ringInit 2 true = .ok r ∧
      Device.machine.Trace (.start r ⟨"", "", "", ""⟩ 500 default) ts d ∧
      lastRead 7 ts = some (0, 100, true) ∧
      ∃ v bytes, ts.getLast?.map (·.output) = some (.returned 7 (.ok v) bytes) ∧
        bytes.length = 48 ∧ 48 ≤ v.toInt ∧ v.toInt ≤ 100 := by
  let r : RingBuf := ⟨Array.replicate 2 default, 2, 1, 0, 0⟩
  have hinit : ringInit 2 true = .ok r := rfl
  let e : CollectorEnv := ⟨0, fun _ => .error .ENOENT, fun _ => .error .EINVAL, false⟩
  let go : DeviceOp := .advance 7 ⟨some #[default, default], 0⟩
  let bytes := (collectSample e ⟨"", "", "", ""⟩ default).bytes
  have hrun : (Device.machine.exec (.start r ⟨"", "", "", ""⟩ 500 default)
      ([.kthreadRun, .openFile 0 true, .collect e, .collect e, .collect e, .read 7 0 100 true,
        go, go, go, go] ++ [go])).map
        (fun p => decide (p.1.getLast?.map (·.output) = some (.returned 7 (.ok 48) bytes) ∧
          lastRead 7 p.1 = some (0, 100, true) ∧ NoOverlap 0 p.1 ∧ Device.pushCount p.1 = 1))
      = some true := by
    decide
  obtain ⟨⟨l, d⟩, hexec, hseen⟩ := Option.map_eq_some_iff.mp hrun
  obtain ⟨hout, hread, hover, hcount⟩ := of_decide_eq_true hseen
  have hin := Trace.input_of_exec hexec
  obtain ⟨ts, last, rfl, -, hlast⟩ := List.map_eq_append_iff.mp hin
  obtain ⟨τ, rfl, hop⟩ := List.map_eq_singleton_iff.mp hlast
  have hret : τ.output = .returned 7 (.ok 48) bytes := by simpa using hout
  have hread' := hread
  rw [lastRead_snoc, hop] at hread'
  obtain ⟨hok, -, -, -⟩ := read_result hinit (Trace.of_exec hexec) (by rw [hcount]; decide) hret
    hread' fun σ hσ => hover σ (List.mem_append_left _ hσ)
  obtain ⟨-, -, -, n, -, -, hv, hbytes, hge, hle⟩ := hok 48 rfl
  have h48 : (48 : Int64).toInt = 48 := by decide
  exact ⟨r, _, d, hinit, Trace.of_exec hexec, hread, 48, bytes, hout, by omega, hge, hle⟩

/-! ## The wrap of `head_seq` -/

section Wrap

variable {d : Device} {e : CollectorEnv}

/-- A run with a single `read()` on a file nobody else reads. -/
theorem NoOverlap.of_single {f : FileId} {ts us : List DeviceTransition} {τ : DeviceTransition}
    (hts : ∀ σ ∈ ts, σ.input.readsFile f = false) (hτ : ∀ t, τ.pre.calls.find t = none)
    (hus : ∀ σ ∈ us, σ.input.readsFile f = false) : NoOverlap f (ts ++ [τ] ++ us) := by
  intro σ hσ hread
  simp only [List.mem_append, List.mem_singleton] at hσ
  rcases hσ with (hσ | rfl) | hσ
  · rw [hts σ hσ] at hread
    cases hread
  · rw [Table.all_eq_true]
    intro t c hc
    rw [hτ t] at hc
    cases hc
  · rw [hus σ hσ] at hread
    cases hread

/-- The collector can make any number of passes through its loop. They push as many samples, and
leave the files and the calls that are not waiting alone. -/
theorem exists_passes (hint : e.interrupted = false) (n : ℕ)
    (hpc : d.collector.pc = .loopTest) (hstop : d.collector.shouldStop = false) :
    ∃ us d', Device.machine.Trace d us d' ∧ (∀ σ ∈ us, σ.input = .collect e) ∧
      d'.collector.pc = .loopTest ∧ d'.collector.shouldStop = false ∧
      d'.readers.files = d.readers.files ∧ d'.readers.ring.size = d.readers.ring.size ∧
      d'.readers.ring.headSeq = d.readers.ring.headSeq + UInt64.ofNat n ∧
      (∀ t, d.calls.find t = none → d'.calls.find t = none) ∧
      ∀ t c, d.calls.find t = some c → c.pc.onQueue = false → d'.calls.find t = some c := by
  induction n with
  | zero =>
      exact ⟨[], d, Trace.nil, by simp, hpc, hstop, rfl, rfl, by simp, fun _ ht => ht,
        fun _ _ hc _ => hc⟩
  | succ n ih =>
      obtain ⟨us, d₁, htr, hin, hpc₁, hstop₁, hfiles, hsize, hhead, hnone, hsome⟩ := ih
      -- one more pass: test, collect, push, wake, sleep
      have hpass := ((((htr.snoc (Device.step_iff.mpr (.loopBody e hpc₁ hstop₁))).snoc
        (Device.step_iff.mpr (.collect e rfl))).snoc (Device.step_iff.mpr (.push e rfl))).snoc
        (Device.step_iff.mpr (.wake e rfl))).snoc (Device.step_iff.mpr (.slept e rfl hint))
      refine ⟨_, _, hpass, ?_, rfl, hstop₁, hfiles, hsize, ?_, ?_, ?_⟩
      · intro σ hσ
        simp only [List.mem_append, List.mem_singleton] at hσ
        rcases hσ with ((((hσ | rfl) | rfl) | rfl) | rfl) | rfl
        · exact hin σ hσ
        all_goals rfl
      · have hpush : ∀ x, (ringPush d₁.readers.ring x).headSeq
            = d₁.readers.ring.headSeq + 1 := fun _ => rfl
        have hsucc : UInt64.ofNat (n + 1) = UInt64.ofNat n + 1 := UInt64.ofNat_add n 1
        simp only [hpush, hhead, hsucc, UInt64.add_assoc]
      · intro t ht
        simp [hnone t ht]
      · intro t c hc hqueue
        simp [hsome t c hc hqueue, ReadCall.wake, hqueue]

/-- A call that is past its check when `head_seq` wraps, with everything it saw one push away. -/
private theorem exists_call_at_wrap (hint : e.interrupted = false) :
    ∃ ts d c, Device.machine.Trace
        (.start ⟨Array.replicate 2 default, 2, 1, 0, 0⟩ ⟨"", "", "", ""⟩ 500 default) ts d ∧
      NoOverlap 0 ts ∧ d.calls.find 7 = some c ∧ c.pc = .alloc ∧ c.file = 0 ∧ c.count = 48 ∧
      c.nonblock = true ∧ c.maxSamples = 1 ∧
      d.readers.cursor 0 = some 0xfffffffffffffffe ∧ d.readers.ring.headSeq = 0 := by
  let start : Device := .start ⟨Array.replicate 2 default, 2, 1, 0, 0⟩ ⟨"", "", "", ""⟩ 500 default
  -- all but two of the `2 ^ 64` pushes come before the file is opened
  have hnil : Device.machine.Trace start [] start := Trace.nil
  have hrun := hnil.snoc (Device.step_iff.mpr (.kthreadRun rfl))
  obtain ⟨us, d₁, hus, hin, hpc, hstop, hfiles, hsize, hhead, hnone, -⟩ :=
    exists_passes hint 0xfffffffffffffffe (d := { start with
      collector := { start.collector with pc := .loopTest } }) rfl rfl
  have hzero : start.readers.ring.headSeq = 0 := rfl
  have hhead₁ : d₁.readers.ring.headSeq = 0xfffffffffffffffe := by
    simp only [hhead, hzero]
    decide
  have hopened := (hrun.append hus).snoc
    (Device.step_iff.mpr (.opened 0 (by rw [hfiles]; rfl)))
  -- one more push, then the call begins and checks
  obtain ⟨us', d₂, hus', hin', hpc', hstop', hfiles', hsize', hhead', hnone', -⟩ :=
    exists_passes hint 1 (d := { d₁ with
      readers := { d₁.readers with
        files := Function.update d₁.readers.files 0
          (.opened { nextSeq := d₁.readers.ring.headSeq }) }
      openCount := d₁.openCount + 1 }) hpc hstop
  have hidle : ∀ t, d₂.calls.find t = none := fun t => hnone' t (hnone t rfl)
  have hhead₂ : d₂.readers.ring.headSeq = 0xffffffffffffffff := by
    rw [hhead']
    simp only [hhead₁]
    rfl
  have hcursor : d₂.readers.cursor 0 = some 0xfffffffffffffffe := by
    rw [Readers.cursor_eq_some, hfiles', ← hhead₁]
    simp
  have hsize₂ : d₂.readers.ring.size = 2 := hsize'.trans hsize
  let c₀ : ReadCall := .start 0 48 true
  let c₁ : ReadCall := { c₀ with maxSamples := 1, pc := .check }
  let c₂ : ReadCall := { c₁ with pc := .alloc }
  have hread : Device.machine.step d₂ (.read 7 0 48 true)
      = some ({ d₂ with calls := d₂.calls.insert 7 c₀ }, .silent) :=
    Device.step_iff.mpr (.read 7 0 48 true (hidle 7) (by rw [hcursor]; rfl))
  have hmax : min ((48 : UInt64) / sampleSz) d₂.readers.ring.size.toUInt64 = 1 := by
    rw [hsize₂]
    decide
  have henter : Device.machine.step { d₂ with calls := d₂.calls.insert 7 c₀ }
      (.advance 7 ⟨none, 0⟩)
      = some ({ d₂ with calls := (d₂.calls.insert 7 c₀).insert 7 c₁ }, .silent) := by
    have hstep : ReadStep d₂.readers c₀ ⟨none, 0⟩ 0xfffffffffffffffe d₂.readers (.goto _) :=
      .enter rfl (by decide)
    rw [show c₀.count = 48 from rfl, hmax] at hstep
    exact Device.step_iff.mpr (DeviceStep.goto (d := { d₂ with calls := d₂.calls.insert 7 c₀ })
      7 _ c₀ c₁ _ d₂.readers (Table.find_insert_self ..) hcursor hstep)
  have hcheck : Device.machine.step { d₂ with calls := (d₂.calls.insert 7 c₀).insert 7 c₁ }
      (.advance 7 ⟨none, 0⟩)
      = some ({ d₂ with calls := ((d₂.calls.insert 7 c₀).insert 7 c₁).insert 7 c₂ }, .silent) := by
    have hstep : ReadStep d₂.readers c₁ ⟨none, 0⟩ 0xfffffffffffffffe d₂.readers (.goto c₂) :=
      .ready rfl (by rw [ringDataAvailable_iff, hhead₂]; decide)
    exact Device.step_iff.mpr (DeviceStep.goto
      (d := { d₂ with calls := (d₂.calls.insert 7 c₀).insert 7 c₁ })
      7 _ c₁ c₂ _ d₂.readers (Table.find_insert_self ..) hcursor hstep)
  -- the last push wraps `head_seq`
  obtain ⟨us'', d₃, hus'', hin'', -, -, hfiles'', -, hhead'', -, hcall⟩ :=
    exists_passes hint 1 (d := { d₂ with
      calls := ((d₂.calls.insert 7 c₀).insert 7 c₁).insert 7 c₂ }) hpc' hstop'
  have htr := ((hopened.append hus').snoc hread).append
    (((Trace.nil.snoc henter).snoc hcheck).append hus'')
  refine ⟨_, d₃, c₂, htr, NoOverlap.of_single ?_ hidle ?_,
    hcall 7 c₂ (Table.find_insert_self ..) rfl, rfl, rfl, rfl, rfl, rfl, ?_, ?_⟩
  -- no other step begins a `read()`
  · intro σ hσ
    simp only [List.mem_append, List.mem_singleton, List.nil_append] at hσ
    rcases hσ with ((rfl | hσ) | rfl) | hσ
    · rfl
    · rw [hin σ hσ]; rfl
    · rfl
    · rw [hin' σ hσ]; rfl
  · intro σ hσ
    simp only [List.mem_append, List.mem_singleton, List.nil_append] at hσ
    rcases hσ with (rfl | rfl) | hσ
    · rfl
    · rfl
    · rw [hin'' σ hσ]; rfl
  · rw [Readers.cursor_eq_some, hfiles'', ← Readers.cursor_eq_some]
    exact hcursor
  · rw [hhead'']
    simp only [hhead₂]
    rfl

/-- Without the bound on the pushes `read()` can return 0: with the call past its check, `head_seq`
wraps to 0, and its `ring_consume` finds nothing. -/
theorem read_returns_zero_after_wrap :
    ∃ r ts d, ringInit 2 true = .ok r ∧
      Device.machine.Trace (.start r ⟨"", "", "", ""⟩ 500 default) ts d ∧ NoOverlap 0 ts ∧
      lastRead 7 ts = some (0, 48, true) ∧
      ts.getLast?.map (·.output) = some (.returned 7 (.ok 0) []) := by
  obtain ⟨ts, d, c, htr, hover, hcall, hpc, hfile, hcount, hnonblock, hmax, hcursor, hhead⟩ :=
    exists_call_at_wrap (e := ⟨0, fun _ => .error .ENOENT, fun _ => .error .EINVAL, false⟩) rfl
  let kbuf : Array GpuSample := #[default]
  let env : ReadEnv := ⟨some kbuf, 0⟩
  let c₁ : ReadCall := { c with pc := .consume kbuf }
  let c₂ : ReadCall := { c₁ with pc := .copy kbuf 0 }
  have hcursor' : d.readers.cursor c.file = some 0xfffffffffffffffe := hfile ▸ hcursor
  have halloc : Device.machine.step d (.advance 7 env)
      = some ({ d with calls := d.calls.insert 7 c₁ }, .silent) :=
    Device.step_iff.mpr (.goto 7 env c c₁ _ d.readers hcall hcursor'
      (.alloc kbuf hpc rfl (by rw [hmax]; rfl)))
  -- `head_seq <= *next_seq`: nothing is copied and nothing changes
  have hnothing : ringConsume d.readers.ring 0xfffffffffffffffe kbuf c₁.maxSamples.toUInt32
      = { ring := d.readers.ring, nextSeq := 0xfffffffffffffffe, out := kbuf, count := 0 } :=
    ringConsume_of_le (by rw [hhead]; decide) _ _
  have hconsume : Device.machine.step { d with calls := d.calls.insert 7 c₁ } (.advance 7 env)
      = some ({ d with calls := (d.calls.insert 7 c₁).insert 7 c₂ }, .silent) := by
    have hstep : ReadStep d.readers c₁ env 0xfffffffffffffffe _ (.goto _) := .consume kbuf rfl
    have hfiles : Function.update d.readers.files c₁.file
        (.opened { nextSeq := 0xfffffffffffffffe }) = d.readers.files := by
      rw [← Readers.cursor_eq_some.mp hcursor', Function.update_eq_self]
    rw [hnothing, hfiles] at hstep
    exact Device.step_iff.mpr (DeviceStep.goto (d := { d with calls := d.calls.insert 7 c₁ })
      7 env c₁ c₂ _ d.readers (Table.find_insert_self ..) hcursor' hstep)
  have hcopy : Device.machine.step { d with calls := (d.calls.insert 7 c₁).insert 7 c₂ }
      (.advance 7 env)
      = some ({ d with calls := ((d.calls.insert 7 c₁).insert 7 c₂).erase 7 },
        .returned 7 (.ok 0) []) :=
    Device.step_iff.mpr (DeviceStep.ret
      (d := { d with calls := (d.calls.insert 7 c₁).insert 7 c₂ })
      7 env c₂ _ d.readers _ _ (Table.find_insert_self ..) hcursor'
      (.done kbuf 0 rfl fun _ => rfl))
  have hend := ((htr.snoc halloc).snoc hconsume).snoc hcopy
  refine ⟨_, _, _, rfl, hend, ?_, ?_, by simp⟩
  · intro σ hσ hread
    simp only [List.mem_append, List.mem_singleton] at hσ
    rcases hσ with ((hσ | rfl) | rfl) | rfl
    · exact hover σ hσ hread
    all_goals cases hread
  · rw [lastRead_snoc, lastRead_snoc, lastRead_snoc, lastRead_of_call htr rfl hcall, hfile, hcount,
      hnonblock]
    rfl

end Wrap

end GpuTelem
