import GpuTelem.Spinlock.Linearizable

/-!
# Progress under the spinlock

The ring never deadlocks: a call in flight can make its next access unless it waits for the lock,
and then the call that holds the lock can make its own. Nor does anyone keep the lock, with
interrupts off, for longer than its copying takes: `ring_push` gives it back after 9 accesses,
`ring_consume` after at most 6 and 8 for each sample its caller asked for. `ring_data_available`
waits for nobody.

## Main definitions

* `RingPc.left`: the accesses a call still makes under the lock, at most;
* `RingCall.lockBound`: the same, for a whole critical section.

## Main results

* `left_lt_of_ringStep`: every access under the lock brings the end of it nearer;
* `spinlock_progress`: no deadlock, and a bound on how long the lock is held.
-/

namespace GpuTelem

open Linearizability Machine

/-- The accesses a call at this point still makes until it has given the lock back, at most. -/
def RingPc.left : RingPc → ℕ
  | .pickSlot _ => GpuSample.words + 3
  | .storeWord _ _ w => GpuSample.words - w + 2
  | .bump _ => 2
  | .loadHead _ _ max => 8 * max.toNat + 6
  | .compare _ _ max _ => 8 * max.toNat + 5
  | .overrun _ _ max _ => 8 * max.toNat + 4
  | .skipSeq _ _ max _ => 8 * max.toNat + 3
  | .testCopy _ _ toCopy i => 8 * (toCopy.toNat - i) + 2
  | .loadWord _ _ toCopy i _ w => GpuSample.words - w + (8 * (toCopy.toNat - (i + 1)) + 3)
  | .advance _ _ toCopy i => 8 * (toCopy.toNat - (i + 1)) + 3
  | .readDropped => 2
  | .unlock _ => 1
  | _ => 0

/-- Giving the lock back is an access. -/
theorem RingPc.left_pos {pc : RingPc} (h : pc.critical = true) : 0 < pc.left := by
  cases pc <;> first | (cases h; done) | simp [left]

/-- The accesses a call makes under the lock, at most. -/
def RingCall.lockBound (c : RingCall) : ℕ := c.locked.left

/-- Whether a step is an access of call `k`. -/
def SpinOp.runs (k : CallId) : SpinOp → Bool
  | .call _ => false
  | .run k' => decide (k' = k)

section Step

variable {m : SpinRing} {a mem' : Readers} {st : CallId → Status RingCall RingResult}
  {lock' : Option CallId} {k : CallId} {pc pc' : RingPc}

/-- `to_copy` is at most what the caller asked for. -/
theorem toNat_toCopy_le (n : UInt64) (max : UInt32) :
    (min n max.toUInt64).toUInt32.toNat ≤ max.toNat := by
  have hmax : max.toUInt64.toNat = max.toNat := UInt32.toNat_toUInt64 max
  have hlt := max.toNat_lt
  rw [UInt64.toNat_toUInt32, toNat_min_u64, hmax, Nat.mod_eq_of_lt (by omega)]
  exact Nat.min_le_right _ _

/-- Every access under the lock brings the end of the critical section nearer. -/
theorem left_lt_of_ringStep (h : Tracks m a st) (hk : m.calls.find k = some pc)
    (hpc : pc.critical = true) (hstep : ringStep m.mem m.lock k pc = some (mem', lock', pc')) :
    lock' = none ∨ lock' = m.lock ∧ pc'.left < pc.left := by
  have hagrees := h.agrees k pc hk hpc
  cases pc with
  -- the accesses of `ring_push`: one for each word that is missing
  | pickSlot s =>
      obtain ⟨-, rfl, rfl⟩ : _ ∧ m.lock = lock' ∧ _ = pc' := by simpa [ringStep] using hstep
      exact .inr ⟨rfl, by simp [RingPc.left, GpuSample.words]⟩
  | storeWord s slot w =>
      obtain ⟨-, rfl, rfl⟩ : _ ∧ m.lock = lock' ∧ _ = pc' := by simpa [ringStep] using hstep
      have hw := hagrees.2.1
      refine .inr ⟨rfl, ?_⟩
      split <;> simp only [RingPc.left] <;> omega
  | bump s =>
      obtain ⟨-, rfl, rfl⟩ : _ ∧ m.lock = lock' ∧ _ = pc' := by simpa [ringStep] using hstep
      exact .inr ⟨rfl, by simp [RingPc.left]⟩
  -- those of `ring_consume`: a fixed number, and some for each sample to copy
  | loadHead f out max =>
      obtain ⟨-, rfl, rfl⟩ : _ ∧ m.lock = lock' ∧ _ = pc' := by simpa [ringStep] using hstep
      exact .inr ⟨rfl, by simp [RingPc.left]⟩
  | compare f out max head =>
      simp only [ringStep] at hstep
      split at hstep
      next => cases hstep
      next seq hseq =>
        simp only [Option.some.injEq, Prod.mk.injEq] at hstep
        obtain ⟨-, rfl, rfl⟩ := hstep
        refine .inr ⟨rfl, ?_⟩
        split <;> simp only [RingPc.left] <;> omega
  | overrun f out max behind =>
      -- no more is copied than the caller asked for
      have hle := toNat_toCopy_le behind max
      simp only [ringStep] at hstep
      split at hstep <;> simp only [Option.some.injEq, Prod.mk.injEq] at hstep <;>
        obtain ⟨-, rfl, rfl⟩ := hstep <;> refine .inr ⟨rfl, ?_⟩ <;> simp only [RingPc.left] <;>
        omega
  | skipSeq f out max skip =>
      have hle := toNat_toCopy_le m.mem.ring.size.toUInt64 max
      simp only [ringStep] at hstep
      split at hstep
      next => cases hstep
      next seq hseq =>
        simp only [Option.some.injEq, Prod.mk.injEq] at hstep
        obtain ⟨-, rfl, rfl⟩ := hstep
        refine .inr ⟨rfl, ?_⟩
        simp only [RingPc.left]
        omega
  | testCopy f out toCopy i =>
      simp only [ringStep] at hstep
      split at hstep
      next => cases hstep
      next seq hseq =>
        simp only [Option.some.injEq, Prod.mk.injEq] at hstep
        obtain ⟨-, rfl, rfl⟩ := hstep
        refine .inr ⟨rfl, ?_⟩
        split <;> simp only [RingPc.left, GpuSample.words] <;> omega
  | loadWord f out toCopy i slot w =>
      obtain ⟨-, rfl, rfl⟩ : _ ∧ m.lock = lock' ∧ _ = pc' := by simpa [ringStep] using hstep
      -- the words of one sample
      have hw : w < GpuSample.words := hagrees.1.2.1
      refine .inr ⟨rfl, ?_⟩
      split <;> simp only [RingPc.left] <;> omega
  | advance f out toCopy i =>
      simp only [ringStep] at hstep
      split at hstep
      next => cases hstep
      next seq hseq =>
        simp only [Option.some.injEq, Prod.mk.injEq] at hstep
        obtain ⟨-, rfl, rfl⟩ := hstep
        exact .inr ⟨rfl, by simp only [RingPc.left]; omega⟩
  | readDropped =>
      obtain ⟨-, rfl, rfl⟩ : _ ∧ m.lock = lock' ∧ _ = pc' := by simpa [ringStep] using hstep
      exact .inr ⟨rfl, by simp [RingPc.left]⟩
  | unlock res =>
      obtain ⟨-, rfl, -⟩ : _ ∧ none = lock' ∧ _ = pc' := by simpa [ringStep] using hstep
      exact .inl rfl
  | _ => cases hpc

/-- A call in flight can make its next access unless somebody else holds the lock it waits for. -/
theorem isSome_step_run (h : Tracks m a st) (hk : m.calls.find k = some pc)
    (hwait : ∀ c, pc = .takeLock c → m.lock = none) : (m.step (.run k)).isSome = true := by
  by_cases hret : ∃ res, pc = .ret res
  · obtain ⟨res, rfl⟩ := hret
    simp [SpinRing.step, hk]
  -- every other point has a next access
  obtain ⟨p, hp⟩ : ∃ p, ringStep m.mem m.lock k pc = some p := by
    have hopen : ∀ f, pc.file = some f → pc.opening = false → ∃ seq, m.mem.cursor f = some seq := by
      intro f hf hopening
      have hfile := (h.files k pc hk).1 f hf
      rw [hopening] at hfile
      exact Option.isSome_iff_exists.mp hfile
    cases pc with
    | takeLock c => exact ⟨_, by rw [hwait c rfl]; rfl⟩
    | compare f out max head =>
        obtain ⟨seq, hseq⟩ := hopen f rfl rfl
        exact ⟨_, by simp only [ringStep, hseq]; rfl⟩
    | overrun f out max behind =>
        simp only [ringStep]
        split <;> exact ⟨_, rfl⟩
    | skipSeq f out max skip =>
        obtain ⟨seq, hseq⟩ := hopen f rfl rfl
        exact ⟨_, by simp only [ringStep, hseq]; rfl⟩
    | testCopy f out toCopy i =>
        obtain ⟨seq, hseq⟩ := hopen f rfl rfl
        exact ⟨_, by simp only [ringStep, hseq]; rfl⟩
    | advance f out toCopy i =>
        obtain ⟨seq, hseq⟩ := hopen f rfl rfl
        exact ⟨_, by simp only [ringStep, hseq]; rfl⟩
    | ret res => exact absurd ⟨res, rfl⟩ hret
    | _ => exact ⟨_, rfl⟩
  obtain ⟨mem', lock', pc'⟩ := p
  have hpc : ∀ res, pc ≠ .ret res := fun res heq => hret ⟨res, heq⟩
  rw [SpinRing.step, hk]
  split
  next heq => cases heq
  next res heq => exact absurd (Option.some.inj heq) (hpc res)
  next pc₂ _ heq =>
    obtain rfl := Option.some.inj heq
    rw [hp]
    rfl

end Step

section Run

variable {r : RingBuf} {ts us : List (Transition SpinRing SpinOp (Option (Event CallId RingCall
  RingResult)))} {m m' : SpinRing} {k : CallId} {pc : RingPc}

/-- Memory tracks a sequential ring in every state. -/
theorem tracks_of_trace (h : SpinRing.machine.Trace (SpinRing.start r) ts m) :
    ∃ a st, Tracks m a st := by
  obtain ⟨-, a, st, -, -, htracks⟩ := simulation.exists_linearizes h (Tracks.start r)
  exact ⟨a, st, htracks⟩

/-- As long as `k` holds the lock, each of its accesses brings the end of it nearer, whatever the
other calls do in between. -/
theorem left_of_trace (h : SpinRing.machine.Trace (SpinRing.start r) ts m)
    (hlock : m.lock = some k) (hk : m.calls.find k = some pc)
    (h' : SpinRing.machine.Trace m us m') (hheld : ∀ υ ∈ us, υ.post.lock = some k) :
    m'.lock = some k ∧ ∃ pc', m'.calls.find k = some pc' ∧ pc'.critical = true ∧
      (us.countP fun υ => υ.input.runs k) + pc'.left ≤ pc.left := by
  induction h' with
  | nil =>
      obtain ⟨a, st, htracks⟩ := tracks_of_trace h
      obtain ⟨pc', hpc', hcritical⟩ := (htracks.holder k).mp hlock
      obtain rfl : pc = pc' := Option.some.inj (hk.symm.trans hpc')
      exact ⟨hlock, pc, hk, hcritical, by simp⟩
  | @snoc us m₁ m₂ op e htr hstep ih =>
      obtain ⟨hheld', hlock₂⟩ := forall_mem_snoc.mp hheld
      obtain ⟨hlock₁, pc₁, hk₁, hcritical, hleft⟩ := ih hheld'
      obtain ⟨a, st, htracks⟩ := tracks_of_trace (h.append htr)
      refine ⟨hlock₂, ?_⟩
      rw [List.countP_append, List.countP_singleton]
      rcases SpinRing.step_cases hstep with ⟨c, rfl, -, rfl, -⟩ | ⟨k', res, rfl, hret, rfl, -⟩ |
        ⟨k', pc₂, mem', lock', pc', rfl, hk₂, hring, rfl, -⟩
      -- another call begins
      · have hne : k ≠ m₁.nextId := by
          rintro rfl
          have hnone := (htracks.fresh m₁.nextId le_rfl).2
          rw [hk₁] at hnone
          cases hnone
        exact ⟨pc₁, by simpa [hne] using hk₁, hcritical, by simpa [SpinOp.runs] using hleft⟩
      -- another call returns
      · have hne : k ≠ k' := by
          rintro rfl
          obtain rfl := Option.some.inj (hk₁.symm.trans hret)
          cases hcritical
        refine ⟨pc₁, by simpa [hne] using hk₁, hcritical, ?_⟩
        simpa [SpinOp.runs, Ne.symm hne] using hleft
      · by_cases hkk : k' = k
        · subst hkk
          obtain rfl := Option.some.inj (hk₁.symm.trans hk₂)
          rcases left_lt_of_ringStep htracks hk₁ hcritical hring with hnone | ⟨-, hlt⟩
          -- the lock is still held
          · rw [hnone] at hlock₂
            cases hlock₂
          · obtain ⟨a', st', htracks'⟩ := tracks_of_trace ((h.append htr).snoc hstep)
            obtain ⟨pc₃, hpc₃, hcritical₃⟩ := (htracks'.holder k').mp hlock₂
            obtain rfl : pc' = pc₃ := by simpa using hpc₃
            have hruns : (SpinOp.run k').runs k' = true := decide_eq_true rfl
            exact ⟨pc', by simp, hcritical₃, by rw [if_pos hruns]; omega⟩
        -- an access of another call
        · refine ⟨pc₁, by simpa [Ne.symm hkk] using hk₁, hcritical, ?_⟩
          simpa [SpinOp.runs, hkk] using hleft

/-- The ring under its spinlock makes progress. A call in flight can make its next access, or it
waits for a lock whose holder can make one. And a call that got the lock has given it back before
it makes as many accesses as `lockBound` says, whatever the other calls do in between. -/
theorem spinlock_progress (h : SpinRing.machine.Trace (SpinRing.start r) ts m) :
    (∀ k pc, m.calls.find k = some pc → (m.step (.run k)).isSome = true ∨
      ∃ c k', pc = .takeLock c ∧ m.lock = some k' ∧ k' ≠ k ∧
        (m.step (.run k')).isSome = true) ∧
    ∀ before τ us k c, ts = before ++ τ :: us → τ.input = .run k →
      τ.pre.calls.find k = some (.takeLock c) → (∀ υ ∈ us, υ.post.lock = some k) →
      (us.countP fun υ => υ.input.runs k) < c.lockBound := by
  obtain ⟨a, st, htracks⟩ := tracks_of_trace h
  constructor
  · intro k pc hk
    by_cases hwait : ∀ c, pc = .takeLock c → m.lock = none
    · exact .inl (isSome_step_run htracks hk hwait)
    · push Not at hwait
      obtain ⟨c, rfl, hheld⟩ := hwait
      obtain ⟨k', hk'⟩ := Option.ne_none_iff_exists'.mp hheld
      obtain ⟨pc', hpc', hcritical⟩ := (htracks.holder k').mp hk'
      have hne : k' ≠ k := by
        rintro rfl
        obtain rfl := Option.some.inj (hk.symm.trans hpc')
        cases hcritical
      refine .inr ⟨c, k', rfl, hk', hne, isSome_step_run htracks hpc' ?_⟩
      -- the holder is not waiting
      rintro c' rfl
      cases hcritical
  · rintro before τ us k c rfl hinput hwait hheld
    obtain ⟨m₁, hbefore, hrest⟩ := Trace.of_append h
    obtain ⟨rfl, hstep, htail⟩ := Trace.of_cons hrest
    rw [hinput, SpinRing.machine_step] at hstep
    rcases SpinRing.step_cases hstep with ⟨_, heq, -⟩ | ⟨k', res, heq, hret, -⟩ |
      ⟨k', pc, mem', lock', pc', heq, hk, hring, hpost, -⟩
    · cases heq
    · cases heq
      rw [hwait] at hret
      cases hret
    · cases heq
      obtain rfl := Option.some.inj (hwait.symm.trans hk)
      cases hlock : τ.pre.lock with
      | some k' => simp [ringStep, hlock] at hring
      | none =>
          obtain ⟨-, rfl, rfl⟩ : _ ∧ some k = lock' ∧ _ = pc' := by
            simpa [ringStep, hlock] using hring
          have htaken := hbefore.snoc (i := SpinOp.run k) hstep
          have hlocked : τ.post.calls.find k = some c.locked := by
            rw [hpost]
            simp
          obtain ⟨-, pc', -, hcritical, hle⟩ :=
            left_of_trace htaken (by rw [hpost]) hlocked htail hheld
          have hpos := RingPc.left_pos hcritical
          rw [RingCall.lockBound]
          omega

/-- A reader that waits for the lock of a push in the middle of its record, and the push. -/
theorem spinlock_progress_wait :
    ∃ ts m, SpinRing.machine.Trace (SpinRing.start ⟨#[default, default], 2, 1, 0, 0⟩) ts m ∧
      m.lock = some 1 ∧ (m.step (.run 2)).isNone = true ∧ (m.step (.run 1)).isSome = true ∧
      ((∀ k pc, m.calls.find k = some pc → (m.step (.run k)).isSome = true ∨
        ∃ c k', pc = .takeLock c ∧ m.lock = some k' ∧ k' ≠ k ∧
          (m.step (.run k')).isSome = true) ∧
      ∀ before τ us k c, ts = before ++ τ :: us → τ.input = .run k →
        τ.pre.calls.find k = some (.takeLock c) → (∀ υ ∈ us, υ.post.lock = some k) →
        (us.countP fun υ => υ.input.runs k) < c.lockBound) := by
  have hrun : (SpinRing.machine.exec (SpinRing.start ⟨#[default, default], 2, 1, 0, 0⟩)
      ([.call (.op (.openFile 0 true))] ++ List.replicate 3 (.run 0)
        ++ [.call (.op (.push (.stamped 1))), .call (.op (.consume 0 #[default] 1))]
        ++ List.replicate 5 (.run 1))).map
      (fun p => (p.2.lock, (p.2.step (.run 2)).isNone, (p.2.step (.run 1)).isSome))
      = some (some 1, true, true) := by
    decide
  obtain ⟨⟨ts, m⟩, hexec, hseen⟩ := Option.map_eq_some_iff.mp hrun
  obtain ⟨hlock, hseen⟩ := Prod.mk.inj hseen
  obtain ⟨hspins, hgoes⟩ := Prod.mk.inj hseen
  have htr := Trace.of_exec hexec
  exact ⟨ts, m, htr, hlock, hspins, hgoes, spinlock_progress htr⟩

end Run

end GpuTelem
