import GpuTelem.KernelModule.Capacity
import GpuTelem.KernelModule.Resources
import GpuTelem.KernelModule.Unload

/-!
# The rate of the collector

How the clock bounds `collector_thread`, in the module with its clock: between two passes of the
loop lies a whole `msleep_interruptible`, which neither the wake-up of `kthread_stop` nor a change
of the interval shortens, and there is no other sleep. What a sample is worth to a slow reader
follows: how long it stays in the ring.

## Main definitions

* `TimedModule.sleepsFor`: the ticks a step begins to sleep for;
* `TimedModule.ahead`: how much of a sleep is ahead before the next push.

## Main results

* `push_rate`: in every stretch of every run the number of pushes is the number of ticks of sleep
  divided by the length of the sleeps, up to one push;
* `sample_retention`: a sample can be read for as many sleeps as the ring has slots.
-/

namespace GpuTelem

open Machine

namespace TimedModule

variable {e : InitEnv} {jiffies : UInt32 → ℕ} {s s' t : TimedModule} {op : TimedOp}
  {o : DeviceObs}

/-- The ticks a step begins to sleep for: what `msleep_interruptible` makes of the interval. -/
def sleepsFor (jiffies : UInt32 → ℕ) (τ : Transition TimedModule TimedOp DeviceObs) : Option ℕ :=
  if τ.input.collects && τ.pre.mod.dev.collector.pc == .msleep && τ.pre.msleep == .call then
    some (jiffies τ.pre.mod.dev.intervalMs)
  else none

/-- The ticks of sleep ahead before the next push, where a sleep not yet begun counts for `n`. -/
def ahead (n : ℕ) (s : TimedModule) : ℕ :=
  match s.mod.dev.collector.pc with
  | .wake => n
  | .msleep =>
      match s.msleep with
      | .call => n
      | .test timeout | .scheduled timeout => timeout
  | _ => 0

/-- A step of the module that is not one of the collector. -/
theorem collects_run {mop : ModuleOp} (h : ∀ env, mop ≠ .device (.collect env)) :
    (TimedOp.run mop).collects = false := by
  unfold TimedOp.collects
  split
  next env hmop => exact absurd (TimedOp.run.inj hmop) (h env)
  next => rfl

/-- What a step does to the sleep ahead: a push puts a sleep ahead, a tick takes one tick off, and
the call of `msleep_interruptible` fixes how long the sleep is. -/
theorem ahead_cases (hs : s.Consistent) (h : TimedStep e jiffies s op s' o) (n : ℕ) :
    (pushes ⟨s, op, s', o⟩ = true ∧ op.ticks = false ∧ s.ahead n = 0 ∧ s'.ahead n = n) ∨
    (pushes ⟨s, op, s', o⟩ = false ∧ op.ticks = true ∧ s.ahead n = s'.ahead n + 1) ∨
    (pushes ⟨s, op, s', o⟩ = false ∧ op.ticks = false ∧
      ((∃ m, sleepsFor jiffies ⟨s, op, s', o⟩ = some m ∧ s.ahead n = n ∧ s'.ahead n = m) ∨
        s'.ahead n = s.ahead n)) := by
  cases h with
  | tick timeout hmsleep =>
      have hpc := hs.pc_eq (by simp [hmsleep])
      refine .inr (.inl ⟨rfl, rfl, ?_⟩)
      simp only [ahead, hpc, hmsleep]
      split_ifs with hzero <;> simp [hzero]
  | call env hpc hmsleep =>
      refine .inr (.inr ⟨by simp [pushes, hpc], rfl,
        .inl ⟨jiffies s.mod.dev.intervalMs, ?_, ?_, ?_⟩⟩)
      · simp [sleepsFor, TimedOp.collects, hpc, hmsleep]
      · simp [ahead, hpc, hmsleep]
      · simp [ahead, hpc]
  | sleep env timeout hpc hmsleep =>
      exact .inr (.inr ⟨by simp [pushes, hpc], rfl, .inr (by simp [ahead, hpc, hmsleep])⟩)
  | slept env hpc hmsleep hint =>
      exact .inr (.inr ⟨by simp [pushes, hpc], rfl, .inr (by simp [ahead, hpc, hmsleep])⟩)
  | collect env m _ hpc hstep =>
      have hcall := hs.outside hpc
      cases hstep with
      | device _ d _ hallows hstep =>
          cases hstep with
          | push _ hpush =>
              exact .inl ⟨by simp [pushes, TimedOp.collects, hpush], rfl,
                by simp [ahead, hpush], rfl⟩
          | wake _ hwake =>
              refine .inr (.inr ⟨by simp [pushes, hwake], rfl, .inr ?_⟩)
              simp [ahead, hwake, hcall]
          | loopExit _ hpc' hflag | loopBody _ hpc' hflag | collect _ hpc' =>
              exact .inr (.inr ⟨by simp [pushes, hpc'], rfl, .inr (by simp [ahead, hpc'])⟩)
          | interrupted _ hpc' hint | slept _ hpc' hint => exact absurd hpc' hpc
  | stop m _ hpc hstep =>
      -- the wake-up of `kthread_stop` keeps what is left of the sleep
      refine .inr (.inr ⟨rfl, rfl, .inr ?_⟩)
      rcases hstep.collector_cases (by simp) with hkeep | ⟨hpc', -⟩ | ⟨-, -, -, hkeep⟩
      · simp only [ahead, hkeep]
        cases s.msleep <;> rfl
      · simp [hpc] at hpc'
      · simp only [ahead, hkeep]
        cases s.msleep <;> rfl
  | run mop m _ hcollect hstop hstep =>
      refine .inr (.inr ⟨by simp [pushes, collects_run hcollect], rfl, .inr ?_⟩)
      cases hstep with
      | loaded hpc hthread hcollector => simp [ahead, hcollector]
      | stopping hpc hcollector => exact absurd hpc (hstop rfl)
      | device dop d _ hallows hstep =>
          have hkeep := hstep.collector_eq (fun env hdop => hcollect env (hdop ▸ rfl))
            (by rintro rfl; cases hallows) (by rintro rfl; cases hallows)
          simp only [ahead, hkeep]
      | _ => rfl

variable {us : List (Transition TimedModule TimedOp DeviceObs)} {n : ℕ}

/-- No sleep of a run is shorter than `n` ticks: every push takes `n` ticks, but for the sleep that
was ahead at the beginning. -/
theorem pushes_mul_le (hs : s.Consistent) (h : (machine e jiffies).Trace s us t)
    (hn : ∀ τ ∈ us, ∀ m, sleepsFor jiffies τ = some m → n ≤ m) :
    us.countP pushes * n + min n (s.ahead n)
      ≤ us.countP (·.input.ticks) + min n (t.ahead n) := by
  have hsum := Trace.potential (I := Consistent) (Φ := fun s => min n (s.ahead n)) (p := pushes)
    (q := (·.input.ticks)) (a := n) (b := 1)
    (P := fun τ => ∀ m, sleepsFor jiffies τ = some m → n ≤ m) ?_ h hs hn
  · simpa using hsum.2
  · intro s op s' o hs hsleep hstep
    have hstep' := step_iff.mp hstep
    refine ⟨hs.step hstep', ?_⟩
    rcases ahead_cases hs hstep' n with ⟨hpush, htick, hbefore, hafter⟩ |
      ⟨hpush, htick, hahead⟩ | ⟨hpush, htick, ⟨m, hm, hbefore, hafter⟩ | hkeep⟩
    · simp [hpush, htick, hbefore, hafter]
    · simp only [hpush, htick, hahead]
      simp
      omega
    · have hle := hsleep m hm
      simp [hpush, htick, hbefore, hafter, hle]
    · simp [hpush, htick, hkeep]

/-- No sleep of a run is longer than `n` ticks: every push brings at most `n` ticks, besides the
sleep that was ahead at the beginning. -/
theorem ticks_le (hs : s.Consistent) (hahead : s.ahead n ≤ n)
    (h : (machine e jiffies).Trace s us t)
    (hn : ∀ τ ∈ us, ∀ m, sleepsFor jiffies τ = some m → m ≤ n) :
    t.ahead n ≤ n ∧ us.countP (·.input.ticks) + t.ahead n ≤ us.countP pushes * n + s.ahead n := by
  have hsum := Trace.potential (I := fun s => s.Consistent ∧ s.ahead n ≤ n)
    (Φ := fun s => n - s.ahead n) (p := (·.input.ticks)) (q := pushes) (a := 1) (b := n)
    (P := fun τ => ∀ m, sleepsFor jiffies τ = some m → m ≤ n) ?_ h ⟨hs, hahead⟩ hn
  · obtain ⟨⟨-, hend⟩, hsum⟩ := hsum
    refine ⟨hend, ?_⟩
    omega
  · rintro s op s' o ⟨hs, hle⟩ hsleep hstep
    have hstep' := step_iff.mp hstep
    rw [and_assoc]
    refine ⟨hs.step hstep', ?_⟩
    rcases ahead_cases hs hstep' n with ⟨hpush, htick, hbefore, hafter⟩ |
      ⟨hpush, htick, hahead⟩ | ⟨hpush, htick, ⟨m, hm, hbefore, hafter⟩ | hkeep⟩
    · -- a push: the sleep after it is as long as can be until it begins
      simp [hpush, htick, hbefore, hafter]
    · -- a tick: the sleep ahead is one shorter
      simp only [hpush, htick]
      simp
      omega
    · -- the sleep begins, with no more than `n` ticks
      have hle' := hsleep m hm
      simp [hpush, htick, hbefore, hafter, hle']
    · -- any other step
      simp [hpush, htick, hkeep, hle]

end TimedModule

/-- **The collector keeps the rate.** In every stretch `us` of every run, through every change of
the interval and also while the module is unloaded: where no sleep begun is shorter than `shortest`
ticks, the collector pushes at most once every `shortest` ticks of sleep, after a first push; where
none is longer than `longest`, it pushes at least once every `longest` ticks of sleep. The time the
collector is not asleep is not counted. -/
theorem push_rate {e : InitEnv} {jiffies : UInt32 → ℕ} {stack : GpuSample}
    {ts us : List (Transition TimedModule TimedOp DeviceObs)} {s t : TimedModule}
    (hts : (TimedModule.machine e jiffies).Trace (.start stack) ts s)
    (hus : (TimedModule.machine e jiffies).Trace s us t) {shortest longest : ℕ}
    (hshortest : ∀ τ ∈ us, ∀ m, TimedModule.sleepsFor jiffies τ = some m → shortest ≤ m)
    (hlongest : ∀ τ ∈ ts ++ us, ∀ m, TimedModule.sleepsFor jiffies τ = some m → m ≤ longest) :
    us.countP TimedModule.pushes * shortest ≤ us.countP (·.input.ticks) + shortest ∧
      us.countP (·.input.ticks) ≤ (us.countP TimedModule.pushes + 1) * longest := by
  have hcons := TimedModule.consistent_of_trace hts
  rw [List.forall_mem_append] at hlongest
  have hstart : (TimedModule.start stack).Consistent := ⟨fun _ => rfl, nofun⟩
  have hahead := (TimedModule.ticks_le hstart (Nat.zero_le _) hts hlongest.1).1
  have hpushes := TimedModule.pushes_mul_le hcons hus hshortest
  have hticks := (TimedModule.ticks_le hcons hahead hus hlongest.2).2
  have hleft := Nat.min_le_left shortest (t.ahead shortest)
  rw [Nat.add_mul, Nat.one_mul]
  omega

/-- Two passes with sleeps of two ticks: two pushes in a run of two ticks. -/
theorem push_rate_two_passes :
    ∃ us t, (TimedModule.machine loadedEnv (fun _ => 2)).Trace (.start default) us t ∧
      us.countP TimedModule.pushes = 2 ∧ us.countP (·.input.ticks) = 2 ∧
      us.countP TimedModule.pushes * 2 ≤ us.countP (·.input.ticks) + 2 ∧
      us.countP (·.input.ticks) ≤ (us.countP TimedModule.pushes + 1) * 2 := by
  have hrun : ((TimedModule.machine loadedEnv (fun _ => 2)).exec (.start default)
      (List.replicate 6 (.run .advance) ++
        List.replicate 6 (.run (.device (.collect quietEnv))) ++ [.tick, .tick] ++
        List.replicate 4 (.run (.device (.collect quietEnv))))).map
      (fun p => (p.1.countP TimedModule.pushes, p.1.countP (·.input.ticks))) = some (2, 2) := by
    decide
  obtain ⟨⟨us, t⟩, hexec, hseen⟩ := Option.map_eq_some_iff.mp hrun
  obtain ⟨hpushes, hticks⟩ := Prod.mk.inj hseen
  have htrace := Trace.of_exec hexec
  have hsleep : ∀ τ m, TimedModule.sleepsFor (fun _ => 2) τ = some m → m = 2 := by
    intro τ m hm
    rw [TimedModule.sleepsFor] at hm
    split_ifs at hm
    exact (Option.some.inj hm).symm
  exact ⟨us, t, htrace, hpushes, hticks, push_rate Trace.nil htrace
    (fun τ _ m hm => (hsleep τ m hm).ge) (fun τ _ m hm => (hsleep τ m hm).le)⟩

/-! ## How long a sample can be read -/

/-- `gpu_telem_init` does not begin twice. -/
theorem ModuleStep.pc_ne_ringInit {e : InitEnv} {m m' : KernelModule} {op : ModuleOp}
    {o : DeviceObs} (h : ModuleStep e m op m' o) (hne : m.pc ≠ .ringInit) :
    m'.pc ≠ .ringInit := by
  cases h with
  | goto pc' hgoto =>
      generalize m.pc = pc at hgoto
      cases hgoto <;> simp
  | device op d o hallows hstep => exact hne
  | _ => simp

/-- Once set up, the ring is there before every step it is there after. -/
theorem ModuleStep.ringUp_of_post {e : InitEnv} {m m' : KernelModule} {op : ModuleOp}
    {o : DeviceObs} (h : ModuleStep e m op m' o) (hne : m.pc ≠ .ringInit)
    (hup : m'.pc.ringUp = true) : m.pc.ringUp = true := by
  cases h with
  | goto pc' hgoto =>
      generalize m.pc = pc at hne hgoto
      cases hgoto <;> simp_all [ModulePc.ringUp]
  | initialized r hpc hring => exact absurd hpc hne
  | _ => simp_all [ModulePc.ringUp]

/-- A step of the device pushes the collector's sample, and only where the collector is at its
`ring_push`; any other leaves the ring but for `dropped`. -/
theorem DeviceStep.ring_cases {d d' : Device} {op : DeviceOp} {o : DeviceObs}
    (h : DeviceStep d op d' o) :
    (∃ env, op = .collect env ∧ d.collector.pc = .push ∧
      d'.readers.ring = ringPush d.readers.ring d.collector.sample) ∨
    ((∀ env, op = .collect env → d.collector.pc ≠ .push) ∧
      ∃ k, d'.readers.ring = { d.readers.ring with dropped := k }) := by
  cases h with
  | push env hpc => exact .inl ⟨env, rfl, hpc, rfl⟩
  | goto t e c c' nextSeq s hcall hcursor hstep =>
      rcases hstep.readers_cases with rfl | ⟨kbuf, -, rfl⟩
      · exact .inr ⟨nofun, d.readers.ring.dropped, rfl⟩
      · exact .inr ⟨nofun, ring_ringConsume ..⟩
  | ret t e c nextSeq s result bytes hcall hcursor hstep =>
      rcases hstep.readers_cases with rfl | ⟨kbuf, -, rfl⟩
      · exact .inr ⟨nofun, d.readers.ring.dropped, rfl⟩
      · exact .inr ⟨nofun, ring_ringConsume ..⟩
  | _ => exact .inr ⟨by simp_all, d.readers.ring.dropped, rfl⟩

/-- The same for the module with its clock, as long as the ring is set up. -/
theorem TimedStep.ring_cases {e : InitEnv} {jiffies : UInt32 → ℕ} {s s' : TimedModule}
    {op : TimedOp} {o : DeviceObs} (h : TimedStep e jiffies s op s' o)
    (hne : s.mod.pc ≠ .ringInit) (hup : s'.mod.pc.ringUp = true) :
    (TimedModule.pushes ⟨s, op, s', o⟩ = true ∧ s'.mod.dev.readers.ring
      = ringPush s.mod.dev.readers.ring s.mod.dev.collector.sample) ∨
    (TimedModule.pushes ⟨s, op, s', o⟩ = false ∧
      ∃ k, s'.mod.dev.readers.ring = { s.mod.dev.readers.ring with dropped := k }) := by
  -- the same for the steps of the module without its clock
  have hmod : ∀ {mop m o'}, ModuleStep e s.mod mop m o' → m.pc.ringUp = true →
      (∃ env, mop = .device (.collect env) ∧ s.mod.dev.collector.pc = .push ∧
        m.dev.readers.ring = ringPush s.mod.dev.readers.ring s.mod.dev.collector.sample) ∨
      ((∀ env, mop = .device (.collect env) → s.mod.dev.collector.pc ≠ .push) ∧
        ∃ k, m.dev.readers.ring = { s.mod.dev.readers.ring with dropped := k }) := by
    intro mop m o' hstep hup
    cases hstep with
    | initialized r hpc hring => exact absurd hpc hne
    | destroyedByInit ret hpc => cases hup
    | destroyedByExit hpc => cases hup
    | device dop d o hallows hstep =>
        rcases hstep.ring_cases with ⟨env, rfl, hpush⟩ | ⟨hnot, hkeep⟩
        · exact .inl ⟨env, rfl, hpush⟩
        · exact .inr ⟨fun env hop => hnot env (ModuleOp.device.inj hop), hkeep⟩
    | _ => exact .inr ⟨by simp, s.mod.dev.readers.ring.dropped, rfl⟩
  cases h with
  -- while the collector sleeps it pushes nothing
  | tick timeout hmsleep => exact .inr ⟨rfl, s.mod.dev.readers.ring.dropped, rfl⟩
  | call env hpc hmsleep =>
      exact .inr ⟨by simp [TimedModule.pushes, hpc], s.mod.dev.readers.ring.dropped, rfl⟩
  | sleep env timeout hpc hmsleep =>
      exact .inr ⟨by simp [TimedModule.pushes, hpc], s.mod.dev.readers.ring.dropped, rfl⟩
  | slept env hpc hmsleep hint =>
      exact .inr ⟨by simp [TimedModule.pushes, hpc], s.mod.dev.readers.ring.dropped, rfl⟩
  | collect env m _ hpc hstep =>
      rcases hmod hstep hup with ⟨-, -, hpush, hring⟩ | ⟨hnot, hkeep⟩
      · exact .inl ⟨by simp [TimedModule.pushes, TimedOp.collects, hpush], hring⟩
      · exact .inr ⟨by simp [TimedModule.pushes, hnot env rfl], hkeep⟩
  | stop m _ hpc hstep =>
      rcases hmod hstep hup with ⟨_, hop, -⟩ | ⟨-, hkeep⟩
      · cases hop
      · exact .inr ⟨rfl, hkeep⟩
  | run mop m _ hcollect hstop hstep =>
      rcases hmod hstep hup with ⟨env, hop, -⟩ | ⟨-, hkeep⟩
      · exact absurd hop (hcollect env)
      · exact .inr ⟨by simp [TimedModule.pushes, TimedModule.collects_run hcollect], hkeep⟩

/-- The ring `k` pushes after the sample `x` got the number `q`: until the slot of `q` is reused, it
holds `x`. -/
structure RingBuf.Retains (r : RingBuf) (q : UInt64) (x : GpuSample) (k : ℕ) : Prop where
  wf : r.WellFormed
  head_eq : r.headSeq = q + .ofNat (k + 1)
  held : k < r.size.toNat → r.samples[(ringSlot r q).toNat]! = x

namespace RingBuf.Retains

variable {r : RingBuf} {q : UInt64} {x : GpuSample} {k : ℕ}

/-- The push of `x` itself. -/
theorem of_push (hwf : r.WellFormed) (x : GpuSample) :
    (ringPush r x).Retains r.headSeq x 0 where
  wf := hwf.ringPush x
  head_eq := rfl
  held _ := by
    have hslot := hwf.ringSlot_lt r.headSeq
    have hlt : (ringSlot r r.headSeq).toNat < (ringPush r x).samples.size := by
      simpa [ringPush] using hslot
    show (ringPush r x).samples[(ringSlot r r.headSeq).toNat]! = x
    rw [getElem!_pos (ringPush r x).samples _ hlt]
    simp [ringPush]

/-- One more push reuses another slot, or is one too many. -/
theorem push (h : r.Retains q x k) (y : GpuSample) : (ringPush r y).Retains q x (k + 1) where
  wf := h.wf.ringPush y
  head_eq := by
    show r.headSeq + 1 = _
    rw [h.head_eq, UInt64.ofNat_add (k + 1) 1]
    exact UInt64.add_assoc _ _ _
  held hk := by
    have hk' : k + 1 < r.size.toNat := hk
    have hheld := h.held (by omega)
    have hslot := h.wf.ringSlot_lt q
    have hlt : (ringSlot r q).toNat < (ringPush r y).samples.size := by
      simpa [ringPush] using hslot
    -- `q` and `head_seq` lie in one window of the capacity
    have hne : (ringSlot r r.headSeq).toNat ≠ (ringSlot r q).toNat := by
      intro hsame
      have hzero := ringSlot_injOn_window h.wf q (i := 0) (j := k + 1) (by omega) hk' (by
        rw [← h.head_eq, UInt32.toNat_inj.mp hsame]
        simp)
      omega
    rw [getElem!_pos r.samples _ hslot] at hheld
    show (ringPush r y).samples[(ringSlot r q).toNat]! = x
    rw [getElem!_pos (ringPush r y).samples _ hlt, ← hheld]
    exact Array.getElem_setIfInBounds_ne hslot hne

/-- The counter of dropped samples has no part in it. -/
theorem addDropped (h : r.Retains q x k) (d : UInt64) :
    ({ r with dropped := d } : RingBuf).Retains q x k :=
  ⟨h.wf.addDropped d, h.head_eq, h.held⟩

/-- As long as `head_seq` does not wrap, a reader that has not passed the sample gets it with its
next read, or has it still ahead. -/
theorem readable (h : r.Retains q x k) (hk : k < r.size.toNat)
    (hwrap : q.toNat + k + 1 < 2 ^ 64) {c : UInt64} (hc : c ≤ q) (out : Array GpuSample)
    (max : UInt32) :
    q ∈ consumeSeqs r c max ∨ (ringConsume r c out max).nextSeq ≤ q := by
  have hhead : r.headSeq.toNat = q.toNat + k + 1 := by
    rw [h.head_eq, UInt64.toNat_add, UInt64.toNat_ofNat',
      Nat.mod_eq_of_lt (by omega : k + 1 < 2 ^ 64), Nat.mod_eq_of_lt (by omega)]
    omega
  rw [UInt64.le_iff_toNat_le] at hc
  have hle : c ≤ r.headSeq := by
    rw [UInt64.le_iff_toNat_le]
    omega
  have hnext := toNat_nextSeq_ringConsume hle out max
  have hseqs := map_toNat_consumeSeqs hle max
  -- the overrun branch does not pass a sample of the last `size`
  have hresume : BroadcastLog.resume r.size.toNat r.headSeq.toNat c.toNat ≤ q.toNat := by
    by_contra hlt
    rw [not_le, BroadcastLog.lt_resume_iff hc] at hlt
    omega
  by_cases hlt : q.toNat < BroadcastLog.resume r.size.toNat r.headSeq.toNat c.toNat
      + (consumeCount r c max).toNat
  · have hmem : q.toNat ∈ (consumeSeqs r c max).map UInt64.toNat := by
      rw [hseqs, List.mem_range'_1]
      exact ⟨hresume, hlt⟩
    obtain ⟨q', hq', heq⟩ := List.mem_map.mp hmem
    exact .inl (UInt64.toNat_inj.mp heq ▸ hq')
  · refine .inr ?_
    rw [UInt64.le_iff_toNat_le]
    omega

end RingBuf.Retains

/-- Where the ring is set up after a step, it was before, unless the step is `ring_init`. -/
theorem TimedStep.ringUp_of_post {e : InitEnv} {jiffies : UInt32 → ℕ} {s s' : TimedModule}
    {op : TimedOp} {o : DeviceObs} (h : TimedStep e jiffies s op s' o)
    (hne : s.mod.pc ≠ .ringInit) (hup : s'.mod.pc.ringUp = true) : s.mod.pc.ringUp = true := by
  rcases TimedModule.TimedStep.mod_cases h with hsame | ⟨mop, o', hmod⟩
  · exact hsame ▸ hup
  · exact hmod.ringUp_of_post hne hup

/-- `gpu_telem_init` does not begin again in a run. -/
theorem TimedModule.pc_ne_ringInit_of_trace {e : InitEnv} {jiffies : UInt32 → ℕ}
    {s t : TimedModule} {us : List (Transition TimedModule TimedOp DeviceObs)}
    (h : (machine e jiffies).Trace s us t) (hne : s.mod.pc ≠ .ringInit) :
    t.mod.pc ≠ .ringInit := by
  refine Trace.invariant (I := fun s : TimedModule => s.mod.pc ≠ .ringInit) ?_ h hne
  intro s op s' o hs hstep
  rcases TimedStep.mod_cases (step_iff.mp hstep) with hsame | ⟨mop, o', hmod⟩
  · exact hsame ▸ hs
  · exact hmod.pc_ne_ringInit hs

/-- A run that ends with the ring set up begins with it. -/
theorem TimedModule.ringUp_of_trace {e : InitEnv} {jiffies : UInt32 → ℕ} {s t : TimedModule}
    {us : List (Transition TimedModule TimedOp DeviceObs)}
    (h : (machine e jiffies).Trace s us t) (hne : s.mod.pc ≠ .ringInit)
    (hup : t.mod.pc.ringUp = true) : s.mod.pc.ringUp = true := by
  induction h with
  | nil => exact hup
  | snoc hus hlast ih =>
      have hne' := pc_ne_ringInit_of_trace hus hne
      exact ih ((step_iff.mp hlast).ringUp_of_post hne' hup)

/-- A run that keeps the ring set up only adds pushes. -/
theorem TimedModule.retains_of_trace {e : InitEnv} {jiffies : UInt32 → ℕ} {s t : TimedModule}
    {us : List (Transition TimedModule TimedOp DeviceObs)}
    (h : (machine e jiffies).Trace s us t) (hne : s.mod.pc ≠ .ringInit)
    (hup : t.mod.pc.ringUp = true) {q : UInt64} {x : GpuSample}
    (hretains : s.mod.dev.readers.ring.Retains q x 0) :
    t.mod.dev.readers.ring.Retains q x (us.countP pushes) := by
  induction h with
  | nil => exact hretains
  | @snoc us m m' op o hus hlast ih =>
      have hstep := step_iff.mp hlast
      have hne' := pc_ne_ringInit_of_trace hus hne
      have hbefore := ih (hstep.ringUp_of_post hne' hup)
      rw [List.countP_append, List.countP_singleton]
      rcases hstep.ring_cases hne' hup with ⟨hpush, hring⟩ | ⟨hpush, k, hring⟩
      · rw [hring, hpush]
        exact hbefore.push _
      · rw [hring, hpush]
        exact hbefore.addDropped k

/-- **How long a sample can be read.** From its push on, whatever the readers and the module do,
and through every change of the interval: where no sleep begun is shorter than `n` ticks and fewer
than `size * n` ticks of sleep have passed, the sample is in its slot, and every reader that had not
passed it gets it with its next read or has it still ahead. Until then the ring must not be
destroyed and `head_seq` not wrap. -/
theorem sample_retention {e : InitEnv} {jiffies : UInt32 → ℕ} {stack : GpuSample}
    {ts us : List (Transition TimedModule TimedOp DeviceObs)} {s s' t : TimedModule} {op : TimedOp}
    {o : DeviceObs} (hts : (TimedModule.machine e jiffies).Trace (.start stack) ts s)
    (hstep : s.step e jiffies op = some (s', o))
    (hpush : TimedModule.pushes ⟨s, op, s', o⟩ = true)
    (hus : (TimedModule.machine e jiffies).Trace s' us t) (hup : t.mod.pc.ringUp = true) {n : ℕ}
    (hn : ∀ τ ∈ us, ∀ m, TimedModule.sleepsFor jiffies τ = some m → n ≤ m)
    (hticks : us.countP (·.input.ticks) < t.mod.dev.readers.ring.size.toNat * n)
    (hwrap : s.mod.dev.readers.ring.headSeq.toNat + us.countP TimedModule.pushes + 1 < 2 ^ 64) :
    let q := s.mod.dev.readers.ring.headSeq
    let r := t.mod.dev.readers.ring
    r.samples[(ringSlot r q).toNat]! = s.mod.dev.collector.sample ∧
      ∀ c ≤ q, ∀ out max, q ∈ consumeSeqs r c max ∨ (ringConsume r c out max).nextSeq ≤ q := by
  have hstep' := TimedModule.step_iff.mp hstep
  have hcons := TimedModule.consistent_of_trace hts
  obtain ⟨hpushpc, hne⟩ : s.mod.dev.collector.pc = .push ∧ s.mod.pc ≠ .ringInit := by
    obtain ⟨-, hpc⟩ : op.collects = true ∧ s.mod.dev.collector.pc = .push := by
      simpa [TimedModule.pushes] using hpush
    obtain ⟨vs, hvs⟩ := TimedModule.module_of_trace hts
    refine ⟨hpc, fun hinit => ?_⟩
    rw [(KernelModule.absent_iff_of_trace hvs).mpr (by rw [hinit]; rfl)] at hpc
    cases hpc
  -- the ring is set up from before the push on
  have hne' : s'.mod.pc ≠ .ringInit :=
    TimedModule.pc_ne_ringInit_of_trace (Trace.snoc Trace.nil hstep) hne
  have hup' : s'.mod.pc.ringUp = true := TimedModule.ringUp_of_trace hus hne' hup
  have hwf : s.mod.dev.readers.ring.WellFormed := by
    obtain ⟨vs, hvs⟩ := TimedModule.module_of_trace hts
    obtain ⟨size, r, ws, -, hinit, hws⟩ :=
      KernelModule.device_of_trace hvs (hstep'.ringUp_of_post hne hup')
    exact (Device.sound_of_trace hws (.start hinit _ _ _)).wellFormed
  have hretains : s'.mod.dev.readers.ring.Retains s.mod.dev.readers.ring.headSeq
      s.mod.dev.collector.sample 0 := by
    rcases hstep'.ring_cases hne hup' with ⟨-, hring⟩ | ⟨hnot, -⟩
    · exact hring ▸ .of_push hwf _
    · rw [hpush] at hnot
      cases hnot
  have hend := TimedModule.retains_of_trace hus hne' hup hretains
  -- each later push takes a sleep
  have hrate := TimedModule.pushes_mul_le (hcons.step hstep') hus hn
  have hahead : s'.ahead n = n := by
    rcases TimedModule.ahead_cases hcons hstep' n with ⟨-, -, -, hafter⟩ | ⟨hnot, -⟩ | ⟨hnot, -⟩
    · exact hafter
    · simp [hpush] at hnot
    · simp [hpush] at hnot
  have hfew : us.countP TimedModule.pushes < t.mod.dev.readers.ring.size.toNat := by
    have hleft := Nat.min_le_left n (t.ahead n)
    rw [hahead, Nat.min_self] at hrate
    exact Nat.lt_of_mul_lt_mul_right (a := n) (by omega)
  exact ⟨hend.held hfew, fun c hc out max => hend.readable hfew hwrap hc out max⟩

/-- A ring of two: the first sample, stamped 1, outlives a sleep of two ticks and the push of the
second. -/
theorem sample_retention_second_push :
    ∃ t : TimedModule, t.mod.dev.readers.ring.headSeq = 2 ∧
      t.mod.dev.readers.ring.samples[(ringSlot t.mod.dev.readers.ring 0).toNat]!.timestampNs = 1 ∧
      ∀ c ≤ (0 : UInt64), ∀ out max, 0 ∈ consumeSeqs t.mod.dev.readers.ring c max ∨
        (ringConsume t.mod.dev.readers.ring c out max).nextSeq ≤ 0 := by
  let e : InitEnv := { loadedEnv with ringSize := 2 }
  let M := TimedModule.machine e (fun _ => 2)
  let first : TimedOp := .run (.device (.collect { quietEnv with ktimeGetNs := 1 }))
  let next : TimedOp := .run (.device (.collect quietEnv))
  have hrun : ((M.exec (.start default) (List.replicate 6 (.run .advance) ++ [first, first])).bind
      fun p => (p.2.step e (fun _ => 2) first).bind fun q =>
        (M.exec q.1 (List.replicate 3 next ++ [.tick, .tick] ++ List.replicate 4 next)).map fun v =>
          (p, q, v)).map (fun (p, q, v) =>
      ((TimedModule.pushes ⟨p.2, first, q.1, q.2⟩, p.2.mod.dev.collector.sample.timestampNs,
        p.2.mod.dev.readers.ring.headSeq), v.1.countP (·.input.ticks),
        v.1.countP TimedModule.pushes, v.2.mod.pc.ringUp, v.2.mod.dev.readers.ring.size,
        v.2.mod.dev.readers.ring.headSeq)) = some ((true, 1, 0), 2, 1, true, 2, 2) := by
    decide
  obtain ⟨⟨⟨ts, s⟩, ⟨s', o⟩, us, t⟩, hexec, hseen⟩ := Option.map_eq_some_iff.mp hrun
  obtain ⟨_, hts, hrest⟩ := Option.bind_eq_some_iff.mp hexec
  obtain ⟨_, hstep, hlast⟩ := Option.bind_eq_some_iff.mp hrest
  obtain ⟨_, hus, heq⟩ := Option.map_eq_some_iff.mp hlast
  cases heq
  obtain ⟨⟨hpush, hstamp, hhead⟩, hticks, hpushes, hup, hsize, hhead'⟩ :
      (TimedModule.pushes ⟨s, first, s', o⟩ = true ∧
        s.mod.dev.collector.sample.timestampNs = 1 ∧ s.mod.dev.readers.ring.headSeq = 0) ∧
      us.countP (·.input.ticks) = 2 ∧ us.countP TimedModule.pushes = 1 ∧
      t.mod.pc.ringUp = true ∧ t.mod.dev.readers.ring.size = 2 ∧
      t.mod.dev.readers.ring.headSeq = 2 := by
    simpa using hseen
  have hsleep : ∀ τ ∈ us, ∀ m, TimedModule.sleepsFor (fun _ => 2) τ = some m → 2 ≤ m := by
    intro τ _ m hm
    rw [TimedModule.sleepsFor] at hm
    split_ifs at hm
    exact (Option.some.inj hm).le
  obtain ⟨hheld, hread⟩ := sample_retention (Trace.of_exec hts) hstep hpush (Trace.of_exec hus) hup
    hsleep (by rw [hticks, hsize]; decide) (by rw [hhead, hpushes]; decide)
  rw [hhead] at hheld hread
  exact ⟨t, hhead', hheld ▸ hstamp, hread⟩

end GpuTelem
