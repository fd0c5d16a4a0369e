import GpuTelem.Readers

/-!
# Readers do not disturb one another

The readers share the ring and its counter `dropped`, but an operation on one file depends only on
the contents of the ring and on that file, and changes nothing else another operation can see.
Two consequences are drawn:

* two runs with the same pushes and the same operations of one reader look the same to this
  reader, whatever the other readers do in them;
* operations of different readers between two pushes may be exchanged.

## Main results

* `step_local`: the locality of an operation on a file;
* `reader_view_unwinding`: the first consequence;
* `file_ops_commute`: the second, for two operations;
* `readers_isolated`: both, for whole runs.
-/

namespace GpuTelem

open Machine

/-- The ring without its shared counter. -/
def RingBuf.contents (r : RingBuf) : RingBuf := { r with dropped := 0 }

/-- The file an operation is issued on; a push is issued on none. -/
def ReaderOp.file? : ReaderOp → Option FileId
  | .push _ => none
  | .openFile f _ => some f
  | .consume f _ _ => some f
  | .fail f _ => some f
  | .release f => some f

/-- `ringConsume` does not look at `dropped`. -/
theorem ringConsume_congr {r r' : RingBuf} (h : r.contents = r'.contents) (nextSeq : UInt64)
    (out : Array GpuSample) (max : UInt32) :
    (ringConsume r' nextSeq out max).out = (ringConsume r nextSeq out max).out ∧
      (ringConsume r' nextSeq out max).count = (ringConsume r nextSeq out max).count ∧
      (ringConsume r' nextSeq out max).nextSeq = (ringConsume r nextSeq out max).nextSeq ∧
      consumeSkip r' nextSeq = consumeSkip r nextSeq := by
  obtain ⟨samples, size, mask, headSeq, dropped⟩ := r
  obtain ⟨samples', size', mask', headSeq', dropped'⟩ := r'
  obtain ⟨rfl, rfl, rfl, rfl⟩ :
      samples = samples' ∧ size = size' ∧ mask = mask' ∧ headSeq = headSeq' := by
    simpa [RingBuf.contents] using h
  have hskip : consumeSkip ⟨samples, size, mask, headSeq, dropped'⟩ nextSeq
      = consumeSkip ⟨samples, size, mask, headSeq, dropped⟩ nextSeq := rfl
  by_cases hle : headSeq ≤ nextSeq
  · rw [ringConsume_of_le hle, ringConsume_of_le hle]
    exact ⟨rfl, rfl, rfl, hskip⟩
  · have hlt := UInt64.not_le.mp hle
    rw [ringConsume_of_lt hlt, ringConsume_of_lt hlt]
    exact ⟨rfl, rfl, rfl, hskip⟩

/-- Locality: an operation on `f` adds to `dropped` and sets the slot of `f`. In every state with
the same ring contents and the same slot of `f` it is taken as well, with the same effect and the
same observation. -/
theorem step_local {s s' : Readers} {op : ReaderOp} {o : ReaderObs} {f : FileId}
    (hop : op.file? = some f) (hstep : s.step op = some (s', o)) :
    ∃ d slot, ∀ t : Readers, t.ring.contents = s.ring.contents → t.files f = s.files f →
      t.step op = some
        ({ ring := { t.ring with dropped := t.ring.dropped + d }
           files := Function.update t.files f slot }, o) := by
  cases op with
  | push x => cases hop
  | openFile g kzalloc =>
      obtain rfl := Option.some.inj hop
      obtain ⟨hunused, ⟨rfl, rfl, rfl⟩ | ⟨rfl, rfl, rfl⟩⟩ := Readers.step_openFile.mp hstep
      · -- the new cursor is `head_seq`, which is part of the contents
        refine ⟨0, .opened { nextSeq := s.ring.headSeq }, fun t hring hfile => ?_⟩
        have hhead : s.ring.headSeq = t.ring.headSeq :=
          show s.ring.contents.headSeq = t.ring.contents.headSeq by rw [hring]
        rw [Readers.step_openFile]
        refine ⟨hfile.trans hunused, .inl ⟨rfl, by rw [hhead], ?_⟩⟩
        rw [hhead, UInt64.add_zero]
      · -- a failed `open()` leaves the identifier unused
        refine ⟨0, .unused, fun t hring hfile => ?_⟩
        have hkeep : Function.update t.files g .unused = t.files := by
          rw [← hunused, ← hfile, Function.update_eq_self]
        rw [Readers.step_openFile]
        exact ⟨hfile.trans hunused, .inr ⟨rfl, rfl, by simp [hkeep]⟩⟩
  | consume g out max =>
      obtain rfl := Option.some.inj hop
      obtain ⟨c, hc, hroom, rfl, rfl⟩ := Readers.step_consume.mp hstep
      -- the skip is added to whatever the other readers have made of `dropped`
      refine ⟨consumeSkip s.ring c,
        .opened { nextSeq := (ringConsume s.ring c out max).nextSeq }, fun t hring hfile => ?_⟩
      obtain ⟨hout, hcount, hnext, hskip⟩ := ringConsume_congr hring.symm c out max
      have hct : t.cursor g = some c := by
        rw [Readers.cursor_eq_some] at hc ⊢
        exact hfile.trans hc
      rw [Readers.step_consume]
      refine ⟨c, hct, hroom, ?_, ?_⟩
      · rw [ring_ringConsume_eq, hskip, hnext]
      · rw [hout, hcount, hnext]
  | fail g e =>
      obtain rfl := Option.some.inj hop
      obtain ⟨hopen, rfl, rfl⟩ := Readers.step_fail.mp hstep
      refine ⟨0, s'.files g, fun t hring hfile => ?_⟩
      rw [Readers.step_fail]
      refine ⟨?_, ?_, rfl⟩
      · rw [Readers.cursor, hfile]
        exact hopen
      · simp [← hfile]
  | release g =>
      obtain rfl := Option.some.inj hop
      obtain ⟨hopen, rfl, rfl⟩ := Readers.step_release.mp hstep
      refine ⟨0, .released, fun t hring hfile => ?_⟩
      rw [Readers.step_release]
      refine ⟨?_, ?_, rfl⟩
      · rw [Readers.cursor, hfile]
        exact hopen
      · simp

/-- An operation on `f` leaves the ring contents and the slots of other files alone. -/
theorem step_frame {s s' : Readers} {op : ReaderOp} {o : ReaderObs} {f : FileId}
    (hop : op.file? = some f) (hstep : s.step op = some (s', o)) :
    s'.ring.contents = s.ring.contents ∧ ∀ g, g ≠ f → s'.files g = s.files g := by
  obtain ⟨d, slot, hlocal⟩ := step_local hop hstep
  have hself := hlocal s rfl rfl
  rw [hstep] at hself
  obtain ⟨rfl, -⟩ := Prod.mk.inj (Option.some.inj hself)
  exact ⟨rfl, fun g hg => Function.update_of_ne hg _ _⟩

/-! ## The view of one reader -/

/-- Two states that look the same to the reader of `f`. -/
structure SameView (f : FileId) (s₁ s₂ : Readers) : Prop where
  ring : s₁.ring.contents = s₂.ring.contents
  file : s₁.files f = s₂.files f

/-- The operations that matter to the reader of `f`: the pushes and its own. -/
def concerns (f : FileId) (op : ReaderOp) : Bool := decide (op.file? = none ∨ op.file? = some f)

/-- An operation of another reader preserves the view. -/
theorem SameView.of_other {f : FileId} {s s' t : Readers} {op : ReaderOp} {o : ReaderObs}
    (hop : concerns f op = false) (hview : SameView f s t) (hstep : s.step op = some (s', o)) :
    SameView f s' t := by
  obtain ⟨g, hg⟩ : ∃ g, op.file? = some g := by
    cases hfile : op.file? with
    | none => simp [concerns, hfile] at hop
    | some g => exact ⟨g, rfl⟩
  have hne : f ≠ g := by
    rintro rfl
    simp [concerns, hg] at hop
  obtain ⟨hring, hfiles⟩ := step_frame hg hstep
  exact ⟨hring.trans hview.ring, (hfiles f hne).trans hview.file⟩

theorem SameView.symm {f : FileId} {s t : Readers} (h : SameView f s t) : SameView f t s :=
  ⟨h.ring.symm, h.file.symm⟩

/-- What the reader of `f` observes of two steps is the same: the observation (count, samples and
cursor of its calls) and the cursor it is left with. -/
def SameObservation (f : FileId)
    (τ υ : Transition Readers ReaderOp ReaderObs) : Prop :=
  τ.input = υ.input ∧ τ.output = υ.output ∧ τ.post.cursor f = υ.post.cursor f

/-- A push or an operation on `f` itself, taken in two states that look the same to `f`, shows the
same and leads to states that look the same. -/
theorem SameView.of_both {f : FileId} {s₁ s₂ s₁' s₂' : Readers} {op : ReaderOp}
    {o₁ o₂ : ReaderObs} (hop : concerns f op = true) (hview : SameView f s₁ s₂)
    (h₁ : s₁.step op = some (s₁', o₁)) (h₂ : s₂.step op = some (s₂', o₂)) :
    SameObservation f ⟨s₁, op, s₁', o₁⟩ ⟨s₂, op, s₂', o₂⟩ ∧ SameView f s₁' s₂' := by
  have hcursor : ∀ {t₁ t₂ : Readers}, t₁.files f = t₂.files f → t₁.cursor f = t₂.cursor f := by
    intro t₁ t₂ hfile
    rw [Readers.cursor, hfile, Readers.cursor]
  rcases of_decide_eq_true hop with hpush | hfile
  · cases op with
    | push x =>
        obtain ⟨rfl, rfl⟩ := Readers.step_push.mp h₁
        obtain ⟨rfl, rfl⟩ := Readers.step_push.mp h₂
        refine ⟨⟨rfl, rfl, hcursor hview.file⟩, ?_, hview.file⟩
        -- `ring_push` neither reads nor writes `dropped`
        have hcomm : ∀ r : RingBuf, (ringPush r x).contents = ringPush r.contents x :=
          fun r => rfl
        rw [hcomm, hcomm, hview.ring]
    | openFile g kzalloc => cases hpush
    | consume g out max => cases hpush
    | fail g e => cases hpush
    | release g => cases hpush
  · -- an operation on `f` does in both states what it does by locality
    obtain ⟨d, slot, hlocal⟩ := step_local hfile h₁
    have hstep₁ := hlocal s₁ rfl rfl
    have hstep₂ := hlocal s₂ hview.ring.symm hview.file.symm
    rw [h₁] at hstep₁
    rw [h₂] at hstep₂
    obtain ⟨rfl, -⟩ := Prod.mk.inj (Option.some.inj hstep₁)
    obtain ⟨rfl, rfl⟩ := Prod.mk.inj (Option.some.inj hstep₂)
    have hslot : Function.update s₁.files f slot f = Function.update s₂.files f slot f := by simp
    exact ⟨⟨rfl, rfl, hcursor hslot⟩, hview.ring, hslot⟩

/-- Two runs that agree on the pushes and on the operations of `f` look the same to `f` at each of
these steps and at the end. -/
theorem reader_view_unwinding {f : FileId} {s₁ s₂ t₁ t₂ : Readers}
    {ts us : List (Transition Readers ReaderOp ReaderObs)}
    (h₁ : Readers.machine.Trace s₁ ts t₁) (h₂ : Readers.machine.Trace s₂ us t₂)
    (hview : SameView f s₁ s₂)
    (hsame : (Trace.visible (concerns f) ts).map (·.input)
      = (Trace.visible (concerns f) us).map (·.input)) :
    List.Forall₂ (SameObservation f) (Trace.visible (concerns f) ts)
      (Trace.visible (concerns f) us) ∧ SameView f t₁ t₂ :=
  Trace.unwinding (fun _ _ _ _ _ hop hR hstep => hR.of_other hop hstep)
    (fun _ _ _ _ _ hop hR hstep => (hR.symm.of_other hop hstep).symm)
    (fun _ _ _ _ _ _ _ hop hR hs₁ hs₂ => hR.of_both hop hs₁ hs₂) h₁ h₂ hview hsame

/-! ## Exchanging operations of different readers -/

/-- Two operations on different files commute. -/
theorem file_ops_commute :
    Trace.Commutes Readers.machine ReaderOp.file? (fun op => op.file?.isSome) := by
  intro s i j s₁ s₂ o₁ o₂ hi hj hne h₁ h₂
  obtain ⟨f, hf⟩ := Option.isSome_iff_exists.mp hi
  obtain ⟨g, hg⟩ := Option.isSome_iff_exists.mp hj
  have hfg : f ≠ g := by
    rintro rfl
    exact hne (hf.trans hg.symm)
  obtain ⟨d, slot, hlocal⟩ := step_local hf h₁
  obtain ⟨d', slot', hlocal'⟩ := step_local hg h₂
  obtain ⟨hring, hfiles⟩ := step_frame hf h₁
  -- both operations are taken in the starting state, and again after the other one
  have hj_first := hlocal' s hring.symm (hfiles g hfg.symm).symm
  have hi_second := hlocal
    { ring := { s.ring with dropped := s.ring.dropped + d' }
      files := Function.update s.files g slot' } rfl (Function.update_of_ne hfg _ _)
  refine ⟨_, hj_first, ?_⟩
  rw [Readers.machine_step, hi_second]
  -- the two orders add up to the same state
  have hs₁ := hlocal s rfl rfl
  rw [← Readers.machine_step, h₁] at hs₁
  obtain ⟨rfl, -⟩ := Prod.mk.inj (Option.some.inj hs₁)
  have hs₂ := hlocal' _ rfl rfl
  rw [← Readers.machine_step, h₂] at hs₂
  obtain ⟨rfl, -⟩ := Prod.mk.inj (Option.some.inj hs₂)
  have hdropped : s.ring.dropped + d' + d = s.ring.dropped + d + d' := by
    rw [UInt64.add_assoc, UInt64.add_comm d' d, UInt64.add_assoc]
  simp only [hdropped, Function.update_comm hfg]

/-- **Readers do not disturb one another.** Two runs from the same ring with the same pushes and the
same operations of one reader, at the same positions, show this reader the same counts, samples and
cursors, whatever other readers do in them. And in one run the operations between two pushes may be
reordered, keeping each reader's own order: every reader sees the same, and the final state,
`dropped` included, is the same. -/
theorem readers_isolated (r : RingBuf) :
    (∀ f ts us s t, Readers.machine.Trace (Readers.start r) ts s →
      Readers.machine.Trace (Readers.start r) us t →
      (Trace.visible (concerns f) ts).map (·.input)
        = (Trace.visible (concerns f) us).map (·.input) →
      List.Forall₂ (SameObservation f) (Trace.visible (concerns f) ts)
          (Trace.visible (concerns f) us) ∧ s.cursor f = t.cursor f) ∧
    ∀ before mid after s ops, Readers.machine.Trace (Readers.start r) (before ++ mid ++ after) s →
      (∀ τ ∈ mid, τ.input.file?.isSome) →
      (∀ f, (mid.map (·.input)).filter (·.file? = f) = ops.filter (·.file? = f)) →
      ∃ mid', Readers.machine.Trace (Readers.start r) (before ++ mid' ++ after) s ∧
        mid'.map (·.input) = ops ∧
        ∀ f, (mid'.map Trace.shown).filter (·.1.file? = f)
          = (mid.map Trace.shown).filter (·.1.file? = f) := by
  refine ⟨fun f ts us s t h₁ h₂ hsame => ?_, fun before mid after s ops h hmid hops => ?_⟩
  · obtain ⟨hobs, hview⟩ := reader_view_unwinding h₁ h₂ ⟨rfl, rfl⟩ hsame
    refine ⟨hobs, ?_⟩
    rw [Readers.cursor, hview.file, Readers.cursor]
  · obtain ⟨m', hhead, hafter⟩ := Trace.of_append h
    obtain ⟨m, hbefore, hmidtr⟩ := Trace.of_append hhead
    obtain ⟨mid', htr, hin, hshown⟩ := Trace.reorder file_ops_commute hmidtr hmid hops
    exact ⟨mid', (hbefore.append htr).append hafter, hin, hshown⟩

/-- A reader of a ring of two that was overrun, with and without a second reader; and the two
readers consuming in the other order. -/
theorem readers_isolated_overrun :
    let r : RingBuf := ⟨Array.replicate 2 default, 2, 1, 0, 0⟩
    let take (f : FileId) : ReaderOp := .consume f #[default] 1
    let feed : List ReaderOp := [.push (.stamped 1), .push (.stamped 2), .push (.stamped 3)]
    ∃ ts us s t, Readers.machine.Trace (Readers.start r) ts s ∧
      Readers.machine.Trace (Readers.start r) us t ∧
      ts.map (·.input) = .openFile 0 true :: .openFile 1 true :: feed ++ [take 1, take 0] ∧
      us.map (·.input) = .openFile 0 true :: feed ++ [take 0] ∧
      s.cursor 0 = t.cursor 0 ∧
      ∃ vs, Readers.machine.Trace (Readers.start r) vs s ∧
        vs.map (·.input) = .openFile 0 true :: .openFile 1 true :: feed ++ [take 0, take 1] := by
  intro r take feed
  have hboth : (Readers.machine.exec (Readers.start r)
      (.openFile 0 true :: .openFile 1 true :: feed ++ [take 1, take 0])).isSome := by
    decide
  have hone : (Readers.machine.exec (Readers.start r)
      (.openFile 0 true :: feed ++ [take 0])).isSome := by
    decide
  obtain ⟨⟨ts, s⟩, hts⟩ := Option.isSome_iff_exists.mp hboth
  obtain ⟨⟨us, t⟩, hus⟩ := Option.isSome_iff_exists.mp hone
  have hin := Trace.input_of_exec hts
  have hin' := Trace.input_of_exec hus
  obtain ⟨hview, hswap⟩ := readers_isolated r
  have hcursor := (hview 0 ts us s t (Trace.of_exec hts) (Trace.of_exec hus) (by
    rw [Trace.map_input_visible, Trace.map_input_visible, hin, hin']
    rfl)).2
  -- the last two steps of the first run are the two consumes
  obtain ⟨before, mid, rfl, hbefore, hmid⟩ := List.map_eq_append_iff.mp hin
  obtain ⟨mid', htr, hmid', -⟩ := hswap before mid [] s [take 0, take 1]
    (by simpa using Trace.of_exec hts)
    (by
      intro τ hτ
      have hmem : τ.input ∈ mid.map (·.input) := List.mem_map_of_mem hτ
      rw [hmid] at hmem
      rcases List.mem_pair.mp hmem with hop | hop <;> rw [hop] <;> rfl)
    (by
      intro f
      rw [hmid]
      by_cases h0 : some 0 = f
      · simp [take, ReaderOp.file?, ← h0]
      · by_cases h1 : some 1 = f <;> simp [take, ReaderOp.file?, h0, h1])
  refine ⟨_, us, s, t, Trace.of_exec hts, Trace.of_exec hus, hin, hin', hcursor,
    before ++ mid', by simpa using htr, ?_⟩
  rw [List.map_append, hbefore, hmid']

end GpuTelem
