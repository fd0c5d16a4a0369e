import GpuTelem.Readers

/-!
# `gpu_telem_read`

A `read()` is not atomic: pushes, wake-ups and other calls happen between its readiness check, its
sleep, its allocation, `ring_consume` and `copy_to_user`. `gpuTelemRead` takes one step of a call,
from one such point to the next. `wait_event_interruptible` is spelled out: put the task on the
queue, test the condition, sleep if it is false, and test again after each wake-up.

## Main definitions

* `ReadPc`, `ReadCall`: the points of the function and a call in flight;
* `gpuTelemRead`: one step.

## Main results

* `ReadStep`, `gpuTelemRead_iff`: the steps, one case for each edge of the control flow.
-/

namespace GpuTelem

/-- Identifier of a user thread. -/
abbrev ThreadId := ℕ

/-- The points of `gpu_telem_read` between which other parts of the system may run. -/
inductive ReadPc
  | entry
  /-- At the readiness check, lockless. -/
  | check
  /-- At `prepare_to_wait_event`. -/
  | enqueue
  /-- On the queue, at the test of the condition. With a signal pending (`intr`) the task was not
  put on the queue and will not sleep. -/
  | test (intr : Bool)
  /-- On the queue, the condition found false, at `schedule()`. -/
  | sleep
  /-- On the queue and descheduled. -/
  | asleep
  /-- At `kmalloc_array`. -/
  | alloc
  /-- At `ring_consume`. -/
  | consume (kbuf : Array GpuSample)
  /-- At `copy_to_user`, after `ring_consume` returned `n`. -/
  | copy (kbuf : Array GpuSample) (n : UInt32)

/-- A call of `gpu_telem_read` in flight. -/
structure ReadCall where
  file : FileId
  count : UInt64
  /-- `filp->f_flags & O_NONBLOCK`. -/
  nonblock : Bool
  maxSamples : UInt64
  pc : ReadPc
  /-- Woken since it was last put on the queue. -/
  woken : Bool
  sigPending : Bool

/-- What the kernel decides during one step of a call. -/
structure ReadEnv where
  /-- What `kmalloc_array` returns: uninitialised memory, or nothing. -/
  kmalloc : Option (Array GpuSample)
  /-- How many bytes `copy_to_user` leaves uncopied, those from the first unmapped page on; none of
  them is written if it has fewer to copy. -/
  uncopied : ℕ

/-- Where a step leads. -/
inductive ReadNext
  | goto (c : ReadCall)
  /-- Return to user space, with the bytes written to the user's buffer. -/
  | ret (result : Except Errno Int64) (bytes : List UInt8)

/-- A call at its first instruction. -/
def ReadCall.start (f : FileId) (count : UInt64) (nonblock : Bool) : ReadCall where
  file := f
  count := count
  nonblock := nonblock
  maxSamples := 0
  pc := .entry
  woken := false
  sigPending := false

/-- Whether the task is on the wait queue. -/
def ReadPc.onQueue : ReadPc → Bool
  | .test intr => !intr
  | .sleep => true
  | .asleep => true
  | _ => false

/-- `wake_up_interruptible` wakes a task that is on the queue. -/
def ReadCall.wake (c : ReadCall) : ReadCall := { c with woken := c.woken || c.pc.onQueue }

theorem ReadCall.woken_wake_of_woken (c : ReadCall) (h : c.woken = true) :
    c.wake.woken = true := by
  simp [ReadCall.wake, h]

/-- A signal arrives; it wakes the task as well. -/
def ReadCall.signal (c : ReadCall) : ReadCall := { c.wake with sigPending := true }

/-- The first `n` samples of a buffer, as the bytes `copy_to_user` writes. -/
def sampleBytes (kbuf : Array GpuSample) (n : UInt32) : List UInt8 :=
  (kbuf.toList.take n.toNat).flatMap GpuSample.bytes

/-- A record is 48 bytes, and so are those that follow it. -/
theorem length_flatMap_bytes (l : List GpuSample) :
    (l.flatMap GpuSample.bytes).length = 48 * l.length := by
  induction l with
  | nil => rfl
  | cons s l ih =>
      have hsz : sampleSz.toNat = 48 := rfl
      rw [List.flatMap_cons, List.length_append, ih, GpuSample.length_bytes, List.length_cons]
      omega

/-- What is written of a batch that is in the buffer. -/
theorem length_sampleBytes {kbuf : Array GpuSample} {n : UInt32} (hn : n.toNat ≤ kbuf.size) :
    (sampleBytes kbuf n).length = 48 * n.toNat := by
  rw [sampleBytes, length_flatMap_bytes, List.length_take]
  simp only [Array.length_toList]
  omega

/-- What of it `copy_to_user` has written when it leaves the last `uncopied` bytes uncopied. -/
def partialBytes (kbuf : Array GpuSample) (n : UInt32) (uncopied : ℕ) : List UInt8 :=
  (sampleBytes kbuf n).take ((sampleBytes kbuf n).length - uncopied)

theorem length_partialBytes {kbuf : Array GpuSample} {n : UInt32} (hn : n.toNat ≤ kbuf.size)
    (uncopied : ℕ) : (partialBytes kbuf n uncopied).length = 48 * n.toNat - uncopied := by
  rw [partialBytes, List.length_take_of_le (Nat.sub_le ..), length_sampleBytes hn]

/-- `(ssize_t)(n * sample_sz)` does not overflow. -/
theorem toInt_result (n : UInt32) : (n.toUInt64 * sampleSz).toInt64.toInt = 48 * n.toNat := by
  have hn := n.toNat_lt
  have hnat : (n.toUInt64 * sampleSz).toNat = n.toNat * 48 := by
    rw [UInt64.toNat_mul]
    simp only [UInt32.toNat_toUInt64, sampleSz, UInt64.reduceToNat]
    omega
  have hint : (n.toUInt64 * sampleSz).toInt64.toInt
      = (n.toUInt64 * sampleSz).toBitVec.toInt := rfl
  rw [hint, BitVec.toInt_eq_toNat_of_lt]
  · rw [UInt64.toNat_toBitVec, hnat]
    omega
  · rw [UInt64.toNat_toBitVec, hnat]
    omega

/-- One step of `gpu_telem_read`; `none` while the task sleeps. -/
def gpuTelemRead (s : Readers) (c : ReadCall) (e : ReadEnv) : Option (Readers × ReadNext) :=
  match s.cursor c.file with
  | none => none
  | some nextSeq =>
    match c.pc with
    | .entry =>
        -- no room for a whole record
        if c.count < sampleSz then some (s, .ret (.error .EINVAL) [])
        else
          -- more than the ring holds is never asked for
          some (s, .goto { c with
            maxSamples := min (c.count / sampleSz) s.ring.size.toUInt64
            pc := .check })
    | .check =>
        if c.nonblock then
          if ringDataAvailable s.ring nextSeq then some (s, .goto { c with pc := .alloc })
          else some (s, .ret (.error .EAGAIN) [])
        else
          if ringDataAvailable s.ring nextSeq then some (s, .goto { c with pc := .alloc })
          else some (s, .goto { c with pc := .enqueue })
    -- a wake-up from here on counts, also one before the task is descheduled
    | .enqueue => some (s, .goto { c with woken := false, pc := .test c.sigPending })
    | .test intr =>
        -- the condition is tested before the signal: with data there is no `-ERESTARTSYS`
        if ringDataAvailable s.ring nextSeq then some (s, .goto { c with pc := .alloc })
        else if intr then some (s, .ret (.error .ERESTARTSYS) [])
        else some (s, .goto { c with pc := .sleep })
    | .sleep =>
        -- `schedule()` does not sleep when a wake-up came first
        if c.woken then some (s, .goto { c with pc := .enqueue })
        else some (s, .goto { c with pc := .asleep })
    | .asleep => if c.woken then some (s, .goto { c with pc := .enqueue }) else none
    | .alloc =>
        match e.kmalloc with
        | none => some (s, .ret (.error .ENOMEM) [])
        | some kbuf =>
            -- `kmalloc_array` returns room for `max_samples` records, whatever they hold
            if kbuf.size = c.maxSamples.toNat then some (s, .goto { c with pc := .consume kbuf })
            else none
    | .consume kbuf =>
        -- the cursor moves here, before anything has reached user space
        let r := ringConsume s.ring nextSeq kbuf c.maxSamples.toUInt32
        some
          ({ ring := r.ring
             files := Function.update s.files c.file (.opened { nextSeq := r.nextSeq }) },
            .goto { c with pc := .copy r.out r.count })
    | .copy kbuf n =>
        -- a copy of no bytes cannot fault; another has written what comes before the fault
        if e.uncopied != 0 && n != 0 then
          some (s, .ret (.error .EFAULT) (partialBytes kbuf n e.uncopied))
        else some (s, .ret (.ok (n.toUInt64 * sampleSz).toInt64) (sampleBytes kbuf n))

/-- The edges of the control flow of `gpu_telem_read`, for a file whose cursor is at `nextSeq`. -/
inductive ReadStep (s : Readers) (c : ReadCall) (e : ReadEnv) (nextSeq : UInt64) :
    Readers → ReadNext → Prop
  | einval (hpc : c.pc = .entry) (hcount : c.count < sampleSz) :
      ReadStep s c e nextSeq s (.ret (.error .EINVAL) [])
  | enter (hpc : c.pc = .entry) (hcount : ¬ c.count < sampleSz) :
      ReadStep s c e nextSeq s (.goto { c with
        maxSamples := min (c.count / sampleSz) s.ring.size.toUInt64
        pc := .check })
  | ready (hpc : c.pc = .check) (havail : ringDataAvailable s.ring nextSeq = true) :
      ReadStep s c e nextSeq s (.goto { c with pc := .alloc })
  | eagain (hpc : c.pc = .check) (hnonblock : c.nonblock = true)
      (havail : ringDataAvailable s.ring nextSeq = false) :
      ReadStep s c e nextSeq s (.ret (.error .EAGAIN) [])
  | wait (hpc : c.pc = .check) (hnonblock : c.nonblock = false)
      (havail : ringDataAvailable s.ring nextSeq = false) :
      ReadStep s c e nextSeq s (.goto { c with pc := .enqueue })
  | enqueue (hpc : c.pc = .enqueue) :
      ReadStep s c e nextSeq s (.goto { c with woken := false, pc := .test c.sigPending })
  | condition (intr : Bool) (hpc : c.pc = .test intr)
      (havail : ringDataAvailable s.ring nextSeq = true) :
      ReadStep s c e nextSeq s (.goto { c with pc := .alloc })
  | erestartsys (hpc : c.pc = .test true) (havail : ringDataAvailable s.ring nextSeq = false) :
      ReadStep s c e nextSeq s (.ret (.error .ERESTARTSYS) [])
  | schedule (hpc : c.pc = .test false) (havail : ringDataAvailable s.ring nextSeq = false) :
      ReadStep s c e nextSeq s (.goto { c with pc := .sleep })
  | retest (hpc : c.pc = .sleep ∨ c.pc = .asleep) (hwoken : c.woken = true) :
      ReadStep s c e nextSeq s (.goto { c with pc := .enqueue })
  | deschedule (hpc : c.pc = .sleep) (hwoken : c.woken = false) :
      ReadStep s c e nextSeq s (.goto { c with pc := .asleep })
  | enomem (hpc : c.pc = .alloc) (hkmalloc : e.kmalloc = none) :
      ReadStep s c e nextSeq s (.ret (.error .ENOMEM) [])
  | alloc (kbuf : Array GpuSample) (hpc : c.pc = .alloc) (hkmalloc : e.kmalloc = some kbuf)
      (hsize : kbuf.size = c.maxSamples.toNat) :
      ReadStep s c e nextSeq s (.goto { c with pc := .consume kbuf })
  | consume (kbuf : Array GpuSample) (hpc : c.pc = .consume kbuf) :
      ReadStep s c e nextSeq
        { ring := (ringConsume s.ring nextSeq kbuf c.maxSamples.toUInt32).ring
          files := Function.update s.files c.file (.opened
            { nextSeq := (ringConsume s.ring nextSeq kbuf c.maxSamples.toUInt32).nextSeq }) }
        (.goto { c with
          pc := .copy (ringConsume s.ring nextSeq kbuf c.maxSamples.toUInt32).out
            (ringConsume s.ring nextSeq kbuf c.maxSamples.toUInt32).count })
  | efault (kbuf : Array GpuSample) (n : UInt32) (hpc : c.pc = .copy kbuf n)
      (hfault : e.uncopied ≠ 0) (hn : n ≠ 0) :
      ReadStep s c e nextSeq s (.ret (.error .EFAULT) (partialBytes kbuf n e.uncopied))
  | done (kbuf : Array GpuSample) (n : UInt32) (hpc : c.pc = .copy kbuf n)
      (hcopy : e.uncopied ≠ 0 → n = 0) :
      ReadStep s c e nextSeq s
        (.ret (.ok (n.toUInt64 * sampleSz).toInt64) (sampleBytes kbuf n))

/-- `gpuTelemRead` takes exactly the steps of `ReadStep`. -/
theorem gpuTelemRead_iff {s s' : Readers} {c : ReadCall} {e : ReadEnv} {next : ReadNext} :
    gpuTelemRead s c e = some (s', next) ↔
      ∃ nextSeq, s.cursor c.file = some nextSeq ∧ ReadStep s c e nextSeq s' next := by
  constructor
  · intro h
    unfold gpuTelemRead at h
    split at h
    next => cases h
    next nextSeq hcursor =>
      refine ⟨nextSeq, hcursor, ?_⟩
      split at h
      next hpc =>
        split at h <;> cases h
        next hcount => exact .einval hpc hcount
        next hcount => exact .enter hpc hcount
      next hpc =>
        -- both branches of `f_flags & O_NONBLOCK` go on when something is unread
        split at h
        next hnonblock =>
          split at h <;> cases h
          next havail => exact .ready hpc havail
          next havail => exact .eagain hpc hnonblock (by simpa using havail)
        next hnonblock =>
          split at h <;> cases h
          next havail => exact .ready hpc havail
          next havail => exact .wait hpc (by simpa using hnonblock) (by simpa using havail)
      next hpc => cases h; exact .enqueue hpc
      next intr hpc =>
        split at h
        next havail => cases h; exact .condition intr hpc havail
        next havail =>
          split at h
          next hintr => cases h; exact .erestartsys (hintr ▸ hpc) (by simpa using havail)
          next hintr =>
            cases h
            obtain rfl : intr = false := by simpa using hintr
            exact .schedule hpc (by simpa using havail)
      next hpc =>
        split at h <;> cases h
        next hwoken => exact .retest (.inl hpc) hwoken
        next hwoken => exact .deschedule hpc (by simpa using hwoken)
      next hpc =>
        split at h <;> cases h
        next hwoken => exact .retest (.inr hpc) hwoken
      next hpc =>
        split at h
        next hkmalloc => cases h; exact .enomem hpc hkmalloc
        next kbuf hkmalloc =>
          split at h <;> cases h
          next hsize => exact .alloc kbuf hpc hkmalloc hsize
      next kbuf hpc => cases h; exact .consume kbuf hpc
      next kbuf n hpc =>
        split at h <;> cases h
        next hfault =>
          obtain ⟨hfault, hn⟩ : e.uncopied ≠ 0 ∧ n ≠ 0 := by simpa using hfault
          exact .efault kbuf n hpc hfault hn
        next hfault => exact .done kbuf n hpc (by simpa using hfault)
  · rintro ⟨nextSeq, hcursor, hstep⟩
    unfold gpuTelemRead
    cases hstep with
    | retest hpc hwoken =>
        rcases hpc with hpc | hpc <;> simp [hcursor, hpc, hwoken]
    | ready hpc havail => cases hnonblock : c.nonblock <;> simp [*]
    | _ => simp_all

end GpuTelem
