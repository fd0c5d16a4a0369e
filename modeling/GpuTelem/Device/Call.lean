import GpuTelem.Device

/-!
# The history of a call

What a `read()` returns depends on what its earlier steps found, with steps of other threads in
between. `call_invariant` relates the local variables of a call in flight to the list of the steps
the call has made so far.

## Main definitions

* `lastRead`: the arguments of the latest `read()` of a thread;
* `callSteps`: the steps this call has made itself.

## Main results

* `step_returned`: the last step of a call;
* `call_invariant`: induction over the steps of a call.
-/

namespace GpuTelem

open Machine

/-- The arguments of an operation by which thread `t` begins a `read()`. -/
def DeviceOp.begins (t : ThreadId) : DeviceOp → Option (FileId × UInt64 × Bool)
  | .read u f count nonblock => if u = t then some (f, count, nonblock) else none
  | _ => none

/-- Whether an operation is a step of the `read()` of thread `t`. -/
def DeviceOp.advances (t : ThreadId) : DeviceOp → Bool
  | .advance u _ => u == t
  | _ => false

/-- The arguments of the latest `read()` of thread `t`. -/
def lastRead (t : ThreadId) (ts : List DeviceTransition) : Option (FileId × UInt64 × Bool) :=
  ts.reverse.findSome? fun τ => τ.input.begins t

/-- The part of a run since thread `t` began its latest `read()`. -/
def sinceRead (t : ThreadId) (ts : List DeviceTransition) : List DeviceTransition :=
  ts.rtakeWhile fun τ => (τ.input.begins t).isNone

/-- The steps which the latest `read()` of thread `t` has made itself. -/
def callSteps (t : ThreadId) (ts : List DeviceTransition) : List DeviceTransition :=
  (sinceRead t ts).filter fun τ => τ.input.advances t

theorem DeviceOp.advances_iff {t : ThreadId} {op : DeviceOp} :
    op.advances t = true ↔ ∃ e, op = .advance t e := by
  cases op <;> simp [advances]

section Snoc

variable {t : ThreadId} {τ : DeviceTransition} (ts : List DeviceTransition)

theorem lastRead_snoc : lastRead t (ts ++ [τ]) = (τ.input.begins t).or (lastRead t ts) := by
  cases h : τ.input.begins t <;> simp [lastRead, h]

theorem sinceRead_snoc : sinceRead t (ts ++ [τ]) =
    if (τ.input.begins t).isNone then sinceRead t ts ++ [τ] else [] :=
  List.rtakeWhile_concat ..

/-- A new call has made no step. -/
theorem callSteps_snoc_begin (h : (τ.input.begins t).isSome) : callSteps t (ts ++ [τ]) = [] := by
  rw [callSteps, sinceRead_snoc, if_neg (by simpa [Option.isSome_iff_ne_none] using h)]
  rfl

/-- A step of the call is added to its history. -/
theorem callSteps_snoc_advance {e : ReadEnv} (h : τ.input = .advance t e) :
    callSteps t (ts ++ [τ]) = callSteps t ts ++ [τ] := by
  have hbegin : (τ.input.begins t).isNone := by simp [h, DeviceOp.begins]
  rw [callSteps, sinceRead_snoc, if_pos hbegin, List.filter_append]
  simp [callSteps, h, DeviceOp.advances]

/-- A step of anybody else is not. -/
theorem callSteps_snoc_other (hbegin : τ.input.begins t = none) (h : ∀ e, τ.input ≠ .advance t e) :
    callSteps t (ts ++ [τ]) = callSteps t ts := by
  have hother : τ.input.advances t = false := by
    rw [← Bool.not_eq_true, DeviceOp.advances_iff]
    simpa using h
  rw [callSteps, sinceRead_snoc, if_pos (by simp [hbegin]), List.filter_append]
  simp [callSteps, hother]

end Snoc

/-- What returns to thread `t` is the last step of its call. -/
theorem step_returned {d d' : Device} {op : DeviceOp} {t : ThreadId}
    {result : Except Errno Int64} {bytes : List UInt8}
    (h : d.step op = some (d', .returned t result bytes)) :
    ∃ e c nextSeq, op = .advance t e ∧ d.calls.find t = some c ∧
      d.readers.cursor c.file = some nextSeq ∧
      ReadStep d.readers c e nextSeq d'.readers (.ret result bytes) := by
  rw [Device.step_iff] at h
  cases h with
  | ret _ e c nextSeq s _ _ hcall hcursor hread => exact ⟨e, c, nextSeq, rfl, hcall, hcursor, hread⟩

/-- The first step of a call. -/
theorem step_read {d d' : Device} {t : ThreadId} {f : FileId} {count : UInt64} {nonblock : Bool}
    {o : DeviceObs} (h : d.step (.read t f count nonblock) = some (d', o)) :
    d'.readers = d.readers ∧ d'.calls.find t = some (.start f count nonblock) := by
  rw [Device.step_iff] at h
  cases h with
  | read _ _ _ _ hthread hopen => exact ⟨rfl, Table.find_insert_self ..⟩

/-- A step of a call other than `ring_consume` is no operation on the ring. -/
theorem readerOp_advance_eq_none {d : Device} {t : ThreadId} {e : ReadEnv} {c : ReadCall}
    (hc : d.calls.find t = some c) (hpc : ∀ kbuf, c.pc ≠ .consume kbuf) :
    (DeviceOp.advance t e).readerOp d = none := by
  simp only [DeviceOp.readerOp, hc]

/-- A thread in a call does not begin another one. -/
theorem DeviceStep.begins_eq_none {d d' : Device} {op : DeviceOp} {o : DeviceObs} {t : ThreadId}
    {c : ReadCall} (h : DeviceStep d op d' o) (hc : d.calls.find t = some c) :
    op.begins t = none := by
  cases h with
  | read u f count nonblock hthread hopen =>
      have hu : u ≠ t := by
        rintro rfl
        rw [hthread] at hc
        cases hc
      simp [DeviceOp.begins, hu]
  | _ => rfl

/-- A step by which a call goes on is `ring_consume`, which leads to `copy_to_user`, or leaves the
ring and the cursors alone on the way there. -/
theorem ReadStep.goto_cases {s s' : Readers} {c c' : ReadCall} {e : ReadEnv} {nextSeq : UInt64}
    (h : ReadStep s c e nextSeq s' (.goto c')) :
    (s' = s ∧ (∀ kbuf, c.pc ≠ .consume kbuf) ∧ (∀ kbuf n, c.pc ≠ .copy kbuf n) ∧
      ∀ kbuf n, c'.pc ≠ .copy kbuf n) ∨
    ∃ kbuf, c.pc = .consume kbuf ∧
      s' = { ring := (ringConsume s.ring nextSeq kbuf c.maxSamples.toUInt32).ring
             files := Function.update s.files c.file (.opened
              { nextSeq := (ringConsume s.ring nextSeq kbuf c.maxSamples.toUInt32).nextSeq }) } ∧
      c' = { c with
        pc := .copy (ringConsume s.ring nextSeq kbuf c.maxSamples.toUInt32).out
          (ringConsume s.ring nextSeq kbuf c.maxSamples.toUInt32).count } := by
  cases h with
  | consume kbuf hpc => exact .inr ⟨kbuf, hpc, rfl, rfl⟩
  | retest hpc hwoken =>
      -- the two points at which a woken task goes back to its test
      rcases hpc with hpc | hpc <;> exact .inl ⟨rfl, by simp [hpc], by simp [hpc], by simp⟩
  | _ => exact .inl ⟨rfl, by simp [*], by simp [*], by simp⟩

/-- A nonblocking call goes on from its check only with something unread. -/
theorem ReadStep.available_of_check {s s' : Readers} {c c' : ReadCall} {e : ReadEnv}
    {nextSeq : UInt64} (h : ReadStep s c e nextSeq s' (.goto c')) (hnonblock : c.nonblock = true)
    (hpc : c.pc = .check) : ringDataAvailable s.ring nextSeq = true := by
  cases h with
  | ready _ havail => exact havail
  | wait _ hblocking _ => simp [hblocking] at hnonblock
  | retest hpc' hwoken => rcases hpc' with hpc' | hpc' <;> simp [hpc'] at hpc
  | _ => simp_all

/-- No step of its own changes the arguments of a call. -/
theorem ReadStep.args {s s' : Readers} {c c' : ReadCall} {e : ReadEnv} {nextSeq : UInt64}
    (h : ReadStep s c e nextSeq s' (.goto c')) :
    c'.file = c.file ∧ c'.count = c.count ∧ c'.nonblock = c.nonblock := by
  cases h <;> exact ⟨rfl, rfl, rfl⟩

variable {t : ThreadId} {s₀ s : Device} {c : ReadCall} {ts : List DeviceTransition}

/-- Induction over the steps of a call. `H own c` may relate the local variables `c` to the steps
`own` the call has made; it has to survive the call's own steps, and changes of the two flags. -/
theorem call_invariant {H : List DeviceTransition → ReadCall → Prop}
    (h : Device.machine.Trace s₀ ts s) (hnone : s₀.calls.find t = none)
    (hstart : ∀ f count nonblock, H [] (.start f count nonblock))
    (hflags : ∀ own c woken sigPending, H own c →
      H own { c with woken := woken, sigPending := sigPending })
    (hstep : ∀ own σ e c c' nextSeq, σ ∈ ts → σ.input = .advance t e →
      σ.pre.calls.find t = some c → σ.pre.readers.cursor c.file = some nextSeq →
      ReadStep σ.pre.readers c e nextSeq σ.post.readers (.goto c') → H own c → H (own ++ [σ]) c')
    (hc : s.calls.find t = some c) : H (callSteps t ts) c := by
  induction h generalizing c with
  | nil =>
      rw [hnone] at hc
      cases hc
  | @snoc ts d d' op o htr hlast ih =>
      have hbefore : ∀ {c}, d.calls.find t = some c → H (callSteps t ts) c :=
        ih fun own σ e c c' nextSeq hσ => hstep own σ e c c' nextSeq (List.mem_append_left _ hσ)
      have hself : (⟨d, op, d', o⟩ : DeviceTransition) ∈ ts ++ [⟨d, op, d', o⟩] := by simp
      rcases (Device.deviceStep_of_step hlast).call_cases hc with
        ⟨f, count, nonblock, rfl, -, -, -, rfl⟩ | ⟨e, b, nextSeq, rfl, hb, hcursor, hread⟩ |
        ⟨b, w, g, hb, hother, -, rfl⟩
      · rw [callSteps_snoc_begin _ (by simp [DeviceOp.begins])]
        exact hstart f count nonblock
      · rw [callSteps_snoc_advance _ rfl]
        exact hstep _ _ e b c nextSeq hself rfl hb hcursor hread (hbefore hb)
      · have hbegin := (Device.deviceStep_of_step hlast).begins_eq_none hb
        rw [callSteps_snoc_other _ hbegin hother]
        exact hflags _ b w g (hbefore hb)

/-- A call in flight carries the arguments of the latest `read()` of its thread. -/
theorem lastRead_of_call (h : Device.machine.Trace s₀ ts s) (hnone : s₀.calls.find t = none)
    (hc : s.calls.find t = some c) : lastRead t ts = some (c.file, c.count, c.nonblock) := by
  induction h generalizing c with
  | nil =>
      rw [hnone] at hc
      cases hc
  | @snoc ts d d' op o htr hlast ih =>
      rw [lastRead_snoc]
      rcases (Device.deviceStep_of_step hlast).call_cases hc with
        ⟨f, count, nonblock, rfl, -, -, -, rfl⟩ | ⟨e, b, nextSeq, rfl, hb, -, hread⟩ |
        ⟨b, w, g, hb, hother, -, rfl⟩
      · simp [DeviceOp.begins, ReadCall.start]
      · obtain ⟨hfile, hcount, hnonblock⟩ := hread.args
        rw [hfile, hcount, hnonblock, ← ih hb]
        rfl
      · rw [(Device.deviceStep_of_step hlast).begins_eq_none hb, ← ih hb]
        rfl

end GpuTelem
