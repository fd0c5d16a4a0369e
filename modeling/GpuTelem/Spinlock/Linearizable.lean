import GpuTelem.Spinlock.Tracks

/-!
# The spinlock makes the ring atomic

Every history of the ring under its spinlock is one of the ring whose calls run one after the
other. So what holds of the operations of `Readers`, in whatever order they come, holds of the
functions as they run.

## Main results

* `Tracks.internal`, `Tracks.call`, `Tracks.ret`: the steps of the machine;
* `simulation`: the sequential ring simulates the one under its spinlock;
* `spinlock_linearizable`: every history is linearizable.
-/

namespace GpuTelem

open Linearizability Machine

namespace Tracks

variable {m : SpinRing} {a a' mem' : Readers} {st : CallId → Status RingCall RingResult}
  {lock' : Option CallId} {k : CallId} {pc pc' : RingPc} {σ : Status RingCall RingResult}

/-- What one access does to the sequential ring: nothing, or one pending call takes effect. -/
def Next (a : Readers) (st : CallId → Status RingCall RingResult) (m' : SpinRing) : Prop :=
  Tracks m' a st ∨ ∃ k i o a', st k = .called i ∧ Readers.callMachine.step a i = some (a', o) ∧
    Tracks m' a' (Function.update st k (.performed i o))

/-- A word of a record on its way into the ring is not in the sequential ring. -/
theorem internal_storeWord (h : Tracks m a st) {s : GpuSample} {slot : UInt32} {w : ℕ}
    (hk : m.calls.find k = some (.storeWord s slot w)) :
    Tracks { m with
      mem := { m.mem with ring := m.mem.ring.storeWord slot s w }
      calls := m.calls.insert k
        (if w + 1 < GpuSample.words then .storeWord s slot (w + 1) else .bump s) } a st := by
  obtain ⟨rfl, hw, hmem⟩ := h.agrees k _ hk rfl
  have hstatus := h.status k _ hk
  -- one more word of the record is in its slot
  have hstored : { m.mem with ring := m.mem.ring.storeWord (ringSlot a.ring a.ring.headSeq) s w }
      = { a with ring := { a.ring with
            samples := a.ring.samples.modify (ringSlot a.ring a.ring.headSeq).toNat
              (s.copyWords (w + 1)) } } := by
    rw [hmem, RingBuf.storeWord]
    simp only [CyclicArray.modify_modify]
    have hsucc : s.copyWord w ∘ s.copyWords w = s.copyWords (w + 1) :=
      funext fun x => (GpuSample.copyWords_succ s w x).symm
    rw [hsucc]
  split
  next hw' =>
    have htracks := h.run_critical hk
      { m.mem with ring := m.mem.ring.storeWord (ringSlot a.ring a.ring.headSeq) s w } a
      (.storeWord s (ringSlot a.ring a.ring.headSeq) (w + 1)) (st k) rfl rfl nofun
      (fun _ => .inl rfl) ⟨rfl, hw', hstored⟩ hstatus
    rwa [Function.update_eq_self] at htracks
  -- the last word: from here on the slot holds the record
  next hw' =>
    have hlast : w + 1 = GpuSample.words := by omega
    rw [hlast, GpuSample.modify_copyWords] at hstored
    have htracks := h.run_critical hk
      { m.mem with ring := m.mem.ring.storeWord (ringSlot a.ring a.ring.headSeq) s w } a
      (.bump s) (st k) rfl rfl nofun (fun _ => .inl rfl) hstored hstatus
    rwa [Function.update_eq_self] at htracks

/-- `ring_push` takes effect at `head_seq++`. -/
theorem internal_bump (h : Tracks m a st) {s : GpuSample}
    (hk : m.calls.find k = some (.bump s)) :
    Next a st { m with
      mem := { m.mem with ring := { m.mem.ring with headSeq := m.mem.ring.headSeq + 1 } }
      calls := m.calls.insert k (.unlock .done) } := by
  have hmem : m.mem = { a with ring := { a.ring with
      samples := a.ring.samples.setIfInBounds (ringSlot a.ring a.ring.headSeq).toNat s } } :=
    h.agrees k _ hk rfl
  refine .inr ⟨k, .op (.push s), .done, { a with ring := ringPush a.ring s }, h.status k _ hk, rfl,
    h.run_critical hk _ _ (.unlock .done) _ rfl rfl nofun (fun _ => .inl rfl) ?_ ⟨_, rfl⟩⟩
  rw [hmem]
  rfl

/-- `ring_consume` takes effect where it gets the lock; the others have only begun there. -/
theorem internal_takeLock (h : Tracks m a st) {c : RingCall}
    (hk : m.calls.find k = some (.takeLock c)) (hlock : m.lock = none) :
    Next a st { m with lock := some k, calls := m.calls.insert k c.locked } := by
  have hmem := h.unlocked hlock
  have hstatus : st k = .called c := h.status k _ hk
  obtain ⟨hfileOk, hlockOk⟩ := h.files k _ hk
  match c, hlockOk with
  -- `ring_push` and `ring_dropped` take effect later
  | .op (.push s), _ =>
      have htracks := h.run_takeLock (σ := st k) hk hlock nofun rfl ⟨rfl, trivial⟩ hmem hstatus
      rw [Function.update_eq_self] at htracks
      exact .inl htracks
  | .dropped, _ =>
      have htracks := h.run_takeLock (σ := st k) hk hlock nofun rfl ⟨rfl, trivial⟩ hmem hstatus
      rw [Function.update_eq_self] at htracks
      exact .inl htracks
  | .op (.consume f out max), hroom =>
      obtain ⟨nextSeq, hcursor⟩ := Option.isSome_iff_exists.mp (hfileOk f rfl)
      -- from here to the return, `rest` is what `ring_consume` gives on this memory
      have hrest : (RingPc.loadHead f out max).rest m.mem
          = some (f, ringConsume m.mem.ring nextSeq out max) := by
        simp only [RingPc.rest, RingPc.file, Option.bind_some, hcursor, RingPc.restFrom,
          Option.map_some]
      have hstep := Readers.step_consume.mpr
        ⟨nextSeq, hmem ▸ hcursor, hroom, rfl, rfl⟩
      refine .inr ⟨k, _, _, m.mem.finish f (ringConsume m.mem.ring nextSeq out max), hstatus, ?_,
        h.run_takeLock hk hlock (fun g hg => ⟨rfl, hg⟩) rfl ⟨rfl, trivial⟩
          ⟨trivial, f, _, hrest, rfl⟩ ((RingPc.statusIs_iff_of_consuming rfl hrest).mpr ⟨_, rfl⟩)⟩
      simp only [Readers.callMachine, Readers.call, hstep, Option.map_some, hmem]
      rfl

/-- A file is opened with the `head_seq` it finds, or released. -/
theorem internal_setFile (h : Tracks m a st) (hk : m.calls.find k = some pc)
    (hpc : pc.exclusive = true)
    (hstep : ringStep m.mem m.lock k pc = some (mem', lock', pc')) :
    Next a st { m with mem := mem', lock := lock', calls := m.calls.insert k pc' } := by
  have hcritical : pc.critical = false := by cases pc <;> first | rfl | cases hpc
  have hfiles := fun g hg => h.files_eq hk hcritical hpc (g := g) hg
  have hfileOk := (h.files k pc hk).1
  have hstatus := h.status k pc hk
  cases pc with
  | alloc f kzalloc =>
      have hunused : m.mem.files f = .unused := hfileOk f rfl
      obtain ⟨rfl, rfl, rfl⟩ : m.mem = mem' ∧ m.lock = lock' ∧ _ = pc' := by
        simpa [ringStep] using hstep
      cases kzalloc with
      | true =>
          have hfile : ∀ g, (RingPc.snapshot f).file = some g →
              (RingPc.alloc f true).file = some g := fun _ hg => hg
          -- `kzalloc` has succeeded, and nothing is seen of it yet
          have htracks := h.run_idle hk rfl rfl hfile (fun _ => rfl) hstatus hfileOk trivial
          rw [Function.update_eq_self] at htracks
          exact .inl htracks
      | false =>
          -- the call fails at once
          have hopen := Readers.step_openFile.mpr
            ⟨(hfiles f rfl).symm.trans hunused, .inr ⟨rfl, rfl, rfl⟩⟩
          refine .inr ⟨k, _, .failed .ENOMEM, a, hstatus, ?_, h.run_ret hk rfl⟩
          simp only [Readers.callMachine, Readers.call, hopen, Option.map_some]
          rfl
  | snapshot f =>
      have hunused : m.mem.files f = .unused := hfileOk f rfl
      obtain ⟨rfl, rfl, rfl⟩ : _ = mem' ∧ m.lock = lock' ∧ _ = pc' := by
        simpa [ringStep] using hstep
      -- whoever holds the lock, `head_seq` in memory is that of the sequential ring
      have hopen := Readers.step_openFile.mpr
        ⟨(hfiles f rfl).symm.trans hunused, .inl ⟨rfl, rfl, rfl⟩⟩
      rw [h.headSeq_eq]
      refine .inr ⟨k, _, .opened, _, hstatus, ?_,
        h.run_setFile hk rfl rfl rfl (.opened { nextSeq := a.ring.headSeq })⟩
      simp only [Readers.callMachine, Readers.call, hopen, Option.map_some]
      rfl
  | free f =>
      have hopened : (m.mem.cursor f).isSome := hfileOk f rfl
      obtain ⟨rfl, rfl, rfl⟩ : _ = mem' ∧ m.lock = lock' ∧ _ = pc' := by
        simpa [ringStep] using hstep
      have hrelease := Readers.step_release.mpr ⟨h.cursor_isSome hopened, rfl, rfl⟩
      refine .inr ⟨k, _, .done, _, hstatus, ?_, h.run_setFile hk rfl rfl rfl .released⟩
      simp only [Readers.callMachine, Readers.call, hrelease, Option.map_some]
      rfl
  | _ => cases hpc

/-- Every access is invisible to the sequential ring, or one call takes effect there. -/
theorem internal (h : Tracks m a st) (hk : m.calls.find k = some pc)
    (hstep : ringStep m.mem m.lock k pc = some (mem', lock', pc')) :
    Next a st { m with mem := mem', lock := lock', calls := m.calls.insert k pc' } := by
  by_cases hconsuming : pc.consuming = true
  · exact .inl (h.internal_consume hk hconsuming hstep)
  by_cases hexclusive : pc.exclusive = true
  · exact h.internal_setFile hk hexclusive hstep
  have hstatus := h.status k pc hk
  cases pc with
  -- outside the critical section of `ring_consume`
  | takeLock c =>
      cases hlock : m.lock with
      | none =>
          obtain ⟨rfl, rfl, rfl⟩ : m.mem = mem' ∧ some k = lock' ∧ _ = pc' := by
            simpa [ringStep, hlock] using hstep
          exact h.internal_takeLock hk hlock
      | some k' => simp [ringStep, hlock] at hstep
  | pickSlot s =>
      obtain ⟨rfl, rfl, rfl⟩ : m.mem = mem' ∧ m.lock = lock' ∧ _ = pc' := by
        simpa [ringStep] using hstep
      have hmem : m.mem = a := h.agrees k _ hk rfl
      -- no word of the record is in its slot yet
      have hstored : m.mem = { a with ring := { a.ring with
          samples := a.ring.samples.modify (ringSlot a.ring a.ring.headSeq).toNat
            (GpuSample.copyWords s 0) } } := by
        have hnothing : GpuSample.copyWords s 0 = fun x => x := rfl
        rw [hnothing, CyclicArray.modify_id, hmem]
      have htracks := h.run_critical hk m.mem a
        (.storeWord s (ringSlot m.mem.ring m.mem.ring.headSeq) 0) (st k) rfl rfl
        (by simp [RingPc.file]) (fun _ => .inl rfl) ⟨by rw [hmem], by decide, hmem ▸ hstored⟩
        hstatus
      rw [Function.update_eq_self] at htracks
      exact .inl htracks
  | storeWord s slot w =>
      obtain ⟨rfl, rfl, rfl⟩ : _ = mem' ∧ m.lock = lock' ∧ _ = pc' := by
        simpa [ringStep] using hstep
      exact .inl (h.internal_storeWord hk)
  | bump s =>
      obtain ⟨rfl, rfl, rfl⟩ : _ = mem' ∧ m.lock = lock' ∧ _ = pc' := by
        simpa [ringStep] using hstep
      exact h.internal_bump hk
  | readDropped =>
      obtain ⟨rfl, rfl, rfl⟩ : m.mem = mem' ∧ m.lock = lock' ∧ _ = pc' := by
        simpa [ringStep] using hstep
      have hmem : m.mem = a := h.agrees k _ hk rfl
      rw [hmem]
      exact .inr ⟨k, .dropped, _, a, hstatus, rfl, hmem ▸ h.run_critical hk m.mem a
        (.unlock (.dropped m.mem.ring.dropped)) _ rfl rfl (by simp [RingPc.file])
        (fun _ => .inl rfl) hmem ⟨_, rfl⟩⟩
  | unlock res =>
      obtain ⟨rfl, rfl, rfl⟩ : m.mem = mem' ∧ none = lock' ∧ _ = pc' := by
        simpa [ringStep] using hstep
      exact .inl (h.run_unlock hk)
  | readHead nextSeq =>
      obtain ⟨rfl, rfl, rfl⟩ : m.mem = mem' ∧ m.lock = lock' ∧ _ = pc' := by
        simpa [ringStep] using hstep
      -- the lockless reading of `head_seq`
      have hsame : ringDataAvailable m.mem.ring nextSeq = ringDataAvailable a.ring nextSeq := by
        rw [ringDataAvailable, ringDataAvailable, h.headSeq_eq]
      rw [hsame]
      exact .inr ⟨k, .dataAvailable nextSeq, _, a, hstatus, rfl, h.run_ret hk rfl⟩
  | early f e =>
      obtain ⟨rfl, rfl, rfl⟩ : m.mem = mem' ∧ m.lock = lock' ∧ _ = pc' := by
        simpa [ringStep] using hstep
      have hopened : (m.mem.cursor f).isSome := (h.files k _ hk).1 f rfl
      have hfail : a.step (.fail f e) = some (a, .failed e) :=
        Readers.step_fail.mpr ⟨h.cursor_isSome hopened, rfl, rfl⟩
      refine .inr ⟨k, .op (.fail f e), .failed e, a, hstatus, ?_, h.run_ret hk rfl⟩
      simp only [Readers.callMachine, Readers.call, hfail, Option.map_some]
      rfl
  | ret res => cases hstep
  | _ => simp_all [RingPc.consuming, RingPc.exclusive]

/-- What the VFS promises of a call that begins. -/
theorem admits_entry {c : RingCall} (hadmits : m.admits c = true) :
    c.entry.FileOk m.mem ∧ c.entry.LockOk ∧
      ∀ k pc f, m.calls.find k = some pc → c.entry.file = some f →
        c.entry.exclusive = true ∨ pc.exclusive = true → pc.file ≠ some f := by
  -- nobody uses a file that is opened or released
  have hidle : ∀ f, m.calls.all (·.file != some f) = true →
      ∀ k pc, m.calls.find k = some pc → pc.file ≠ some f :=
    fun f hall k pc hk => by simpa using Table.all_eq_true.mp hall k pc hk
  -- nobody opens or releases a file that is used
  have hshared : ∀ f, (m.calls.all fun pc => !(pc.exclusive && pc.file == some f)) = true →
      ∀ k pc, m.calls.find k = some pc → pc.exclusive = true → pc.file ≠ some f :=
    fun f hall k pc hk hexclusive => by simpa [hexclusive] using Table.all_eq_true.mp hall k pc hk
  match c with
  | .op (.push s) => exact ⟨nofun, trivial, nofun⟩
  | .dataAvailable nextSeq => exact ⟨nofun, trivial, nofun⟩
  | .dropped => exact ⟨nofun, trivial, nofun⟩
  | .op (.openFile f kzalloc) =>
      obtain ⟨hunused, hall⟩ : m.mem.files f = .unused ∧ _ := by
        simpa [SpinRing.admits] using hadmits
      refine ⟨?_, trivial, ?_⟩
      · rintro g hg
        obtain rfl := Option.some.inj hg
        exact hunused
      · rintro k pc g hk hg -
        obtain rfl := Option.some.inj hg
        exact hidle f hall k pc hk
  | .op (.release f) =>
      obtain ⟨hopen, hall⟩ : (m.mem.cursor f).isSome = true ∧ _ := by
        simpa [SpinRing.admits] using hadmits
      refine ⟨?_, trivial, ?_⟩
      · rintro g hg
        obtain rfl := Option.some.inj hg
        exact hopen
      · rintro k pc g hk hg -
        obtain rfl := Option.some.inj hg
        exact hidle f hall k pc hk
  | .op (.consume f out max) =>
      rw [SpinRing.admits, Bool.and_eq_true, Bool.and_eq_true, decide_eq_true_eq] at hadmits
      obtain ⟨⟨hopen, hroom⟩, hall⟩ := hadmits
      refine ⟨?_, hroom, ?_⟩
      · rintro g hg
        obtain rfl := Option.some.inj hg
        exact hopen
      · rintro k pc g hk hg (hfalse | hexclusive)
        · cases hfalse
        · obtain rfl := Option.some.inj hg
          exact hshared f hall k pc hk hexclusive
  | .op (.fail f e) =>
      rw [SpinRing.admits, Bool.and_eq_true] at hadmits
      obtain ⟨hopen, hall⟩ := hadmits
      refine ⟨?_, trivial, ?_⟩
      · rintro g hg
        obtain rfl := Option.some.inj hg
        exact hopen
      · rintro k pc g hk hg (hfalse | hexclusive)
        · cases hfalse
        · obtain rfl := Option.some.inj hg
          exact hshared f hall k pc hk hexclusive

/-- A call begins. -/
theorem call (h : Tracks m a st) {c : RingCall} (hadmits : m.admits c = true) :
    st m.nextId = .unused ∧
      Tracks { m with calls := m.calls.insert m.nextId c.entry, nextId := m.nextId + 1 } a
        (Function.update st m.nextId (.called c)) := by
  obtain ⟨hunused, hnone⟩ := h.fresh m.nextId le_rfl
  obtain ⟨hfileOk, hlockOk, hexclusive⟩ := admits_entry hadmits
  have hcritical : c.entry.critical = false := by
    match c with
    | .op (.push _) | .op (.openFile _ _) | .op (.consume _ _ _) | .op (.fail _ _)
    | .op (.release _) | .dataAvailable _ | .dropped => rfl
  have hstatus : c.entry.StatusIs m.mem (.called c) := by
    match c with
    | .op (.push _) | .op (.openFile _ _) | .op (.consume _ _ _) | .op (.fail _ _)
    | .op (.release _) | .dataAvailable _ | .dropped => rfl
  refine ⟨hunused, ⟨?_, ?_, h.unlocked, ?_, ?_, ?_, ?_⟩⟩
  · -- the next identifier is one more
    intro k hk
    have hne : k ≠ m.nextId := Nat.ne_of_gt hk
    simpa [hne] using h.fresh k (Nat.le_of_succ_le hk)
  · -- a call does not begin inside its critical section
    intro k
    by_cases hk : k = m.nextId
    · have hnot : m.lock ≠ some m.nextId := by
        intro hlock
        obtain ⟨pc, hpc, -⟩ := (h.holder m.nextId).mp hlock
        rw [hnone] at hpc
        cases hpc
      simp [hk, hcritical, hnot]
    · simp [hk, h.holder k]
  · -- nor does it matter to the one that is in it
    intro k pc hk hpc
    by_cases hne : k = m.nextId
    · obtain rfl : c.entry = pc := by simpa [hne] using hk
      rw [hcritical] at hpc
      cases hpc
    · exact h.agrees k pc (by simpa [hne] using hk) hpc
  · -- it has not taken effect
    intro k pc hk
    by_cases hne : k = m.nextId
    · obtain rfl : c.entry = pc := by simpa [hne] using hk
      simpa [hne] using hstatus
    · simpa [hne] using h.status k pc (by simpa [hne] using hk)
  · -- what it relies on is what the VFS promises
    intro k pc hk
    by_cases hne : k = m.nextId
    · obtain rfl : c.entry = pc := by simpa [hne] using hk
      exact ⟨hfileOk, hlockOk⟩
    · exact h.files k pc (by simpa [hne] using hk)
  · -- and so is who else uses its file
    intro k₁ k₂ pc₁ pc₂ f hne h₁ h₂ hexcl hf
    by_cases hk₁ : k₁ = m.nextId
    · obtain rfl : c.entry = pc₁ := by simpa [hk₁] using h₁
      have hk₂ : k₂ ≠ m.nextId := fun heq => hne (by rw [hk₁, heq])
      exact hexclusive k₂ pc₂ f (by simpa [hk₂] using h₂) hf (.inl hexcl)
    · have hfind₁ : m.calls.find k₁ = some pc₁ := by simpa [hk₁] using h₁
      by_cases hk₂ : k₂ = m.nextId
      · obtain rfl : c.entry = pc₂ := by simpa [hk₂] using h₂
        intro hf'
        exact hexclusive k₁ pc₁ f hfind₁ hf' (.inr hexcl) hf
      · exact h.exclusive k₁ k₂ pc₁ pc₂ f hne hfind₁ (by simpa [hk₂] using h₂) hexcl hf

/-- A call returns. -/
theorem ret (h : Tracks m a st) {res : RingResult} (hk : m.calls.find k = some (.ret res)) :
    (∃ i, st k = .performed i res) ∧
      Tracks { m with calls := m.calls.erase k } a (Function.update st k .returned) := by
  -- the calls that are left
  have hfind : ∀ k' pc, (m.calls.erase k).find k' = some pc →
      k' ≠ k ∧ m.calls.find k' = some pc := by
    intro k' pc hk'
    by_cases hne : k' = k
    · simp [hne] at hk'
    · exact ⟨hne, by simpa [hne] using hk'⟩
  refine ⟨h.status k _ hk, ⟨?_, ?_, h.unlocked, ?_, ?_, ?_, ?_⟩⟩
  · intro k' hk'
    obtain ⟨hst, hnone⟩ := h.fresh k' hk'
    have hne : k' ≠ k := by
      rintro rfl
      rw [hk] at hnone
      cases hnone
    simp [hne, hst, hnone]
  · intro k'
    rw [h.holder k']
    by_cases hne : k' = k
    · simp [hne, hk, RingPc.critical]
    · simp [hne]
  · exact fun k' pc hk' hpc => h.agrees k' pc (hfind k' pc hk').2 hpc
  · intro k' pc hk'
    obtain ⟨hne, hold⟩ := hfind k' pc hk'
    simpa [hne] using h.status k' pc hold
  · exact fun k' pc hk' => h.files k' pc (hfind k' pc hk').2
  · exact fun k₁ k₂ pc₁ pc₂ f hne h₁ h₂ =>
      h.exclusive k₁ k₂ pc₁ pc₂ f hne (hfind k₁ pc₁ h₁).2 (hfind k₂ pc₂ h₂).2

/-- A ring nobody has opened yet is the sequential ring. -/
theorem start (r : RingBuf) : Tracks (SpinRing.start r) (Readers.start r) fun _ => .unused where
  fresh _ _ := ⟨rfl, rfl⟩
  holder k := by simp [SpinRing.start]
  unlocked _ := rfl
  agrees _ _ := nofun
  status _ _ := nofun
  files _ _ := nofun
  exclusive _ _ _ _ _ _ := nofun

end Tracks

/-! ## Histories -/

/-- The ring whose calls run one after the other simulates the ring under its spinlock. -/
theorem simulation : Simulation SpinRing.machine Readers.callMachine Tracks where
  call h hstep := by
    rcases SpinRing.step_cases hstep with ⟨c, -, hadmits, rfl, heq⟩ | ⟨_, _, -, _, _, heq⟩ |
      ⟨_, _, _, _, _, -, _, _, _, heq⟩ <;> cases heq
    exact h.call hadmits
  ret h hstep := by
    rcases SpinRing.step_cases hstep with ⟨_, -, _, _, heq⟩ | ⟨k, res, -, hk, rfl, heq⟩ |
      ⟨_, _, _, _, _, -, _, _, _, heq⟩ <;> cases heq
    exact h.ret hk
  internal h hstep := by
    rcases SpinRing.step_cases hstep with ⟨_, -, _, _, heq⟩ | ⟨_, _, -, _, _, heq⟩ |
      ⟨k, pc, mem', lock', pc', -, hk, hring, rfl, -⟩
    · cases heq
    · cases heq
    · exact h.internal hk hring

/-- Every history of the ring under its spinlock is linearizable: the calls answer as if each of
them took effect at one moment between its beginning and its return. -/
theorem spinlock_linearizable {r : RingBuf}
    {ts : List (Transition SpinRing SpinOp (Option (Event CallId RingCall RingResult)))}
    {m : SpinRing} (h : SpinRing.machine.Trace (SpinRing.start r) ts m) :
    Linearizable Readers.callMachine (Readers.start r) (history ts) :=
  simulation.linearizable h (Tracks.start r)

/-- A `ring_push` and a `ring_consume` that overlap: while the record is half written
`ring_data_available` finds nothing, and the reader gets the lock after the push. -/
theorem spinlock_linearizable_overlap :
    ∃ ts m, SpinRing.machine.Trace (SpinRing.start ⟨#[default, default], 2, 1, 0, 0⟩) ts m ∧
      results (history ts) = [(0, .opened), (3, .available false), (1, .done),
        (2, .consumed #[.stamped 1] 1)] ∧
      Linearizable Readers.callMachine (Readers.start ⟨#[default, default], 2, 1, 0, 0⟩)
        (history ts) := by
  have hrun : (SpinRing.machine.exec (SpinRing.start ⟨#[default, default], 2, 1, 0, 0⟩)
      ([.call (.op (.openFile 0 true))] ++ List.replicate 3 (.run 0)
        ++ [.call (.op (.push (.stamped 1))), .call (.op (.consume 0 #[default] 1))]
        -- the lock, the slot and three of the six words
        ++ List.replicate 5 (.run 1) ++ [.call (.dataAvailable 0), .run 3, .run 3]
        -- the other words, `head_seq++`, the unlock and the return
        ++ List.replicate 6 (.run 1) ++ List.replicate 15 (.run 2))).map
      (fun p => results (history p.1)) = some [(0, .opened), (3, .available false), (1, .done),
        (2, .consumed #[.stamped 1] 1)] := by
    decide
  obtain ⟨⟨ts, m⟩, hexec, hseen⟩ := Option.map_eq_some_iff.mp hrun
  have htr := Trace.of_exec hexec
  exact ⟨ts, m, htr, hseen, spinlock_linearizable htr⟩

end GpuTelem
