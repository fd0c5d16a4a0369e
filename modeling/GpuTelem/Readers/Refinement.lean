import GpuTelem.Readers

/-!
# The ring refines an unbounded log

The ring and its readers behave like the ideal broadcast log of `BroadcastLog`, in which nothing is
ever overwritten and every cursor is a natural number, as long as fewer than `2 ^ 64` samples are
pushed.

`Represents` is the representation relation: `head_seq` is the length of the log, the slots hold
its last `size` samples, and the cursors are positions inside the log.

## Main results

* `ringConsume_abs`: `ringConsume` returns what the log's `consume` returns;
* `step_represents`: every operation is matched by the log;
* `ring_refines_log`: so is every run, and a sample is passed over exactly when the push that
  reused its slot has happened;
* `represents_of_trace`: after a run the ring holds the end of what was pushed.
-/

namespace GpuTelem

open BroadcastLog CyclicArray Machine

/-- The operation on the log an operation on the ring stands for. -/
def ReaderOp.abs : ReaderOp → Op GpuSample
  | .push s => .push s
  | .openFile f true => .attach f
  | .openFile _ false => .idle
  | .consume f _ max => .consume f max.toNat
  | .fail _ _ => .idle
  | .release f => .detach f

/-- The sample an operation pushes. -/
def ReaderOp.pushed : ReaderOp → Option GpuSample
  | .push s => some s
  | _ => none

/-- What an observation shows of the log: of a buffer only the samples counted. -/
def ReaderObs.abs : ReaderObs → Obs GpuSample
  | .opened nextSeq => .attached nextSeq.toNat
  | .consumed out count nextSeq =>
      .consumed
        { samples := out.toList.take count.toNat
          count := count.toNat
          cursor := nextSeq.toNat }
  | .silent => .silent
  | .failed _ => .silent

/-- The ring `s.ring` holds the end of the log `a.log`, and the files' cursors are those of `a`. -/
structure Represents (s : Readers) (a : State GpuSample) : Prop where
  wf : s.ring.WellFormed
  head_eq : s.ring.headSeq.toNat = a.log.length
  holds : Holds s.ring.samples a.log
  cursor_eq : ∀ f, a.cursor f = (s.cursor f).map UInt64.toNat
  cursor_le : ∀ f c, s.cursor f = some c → c ≤ s.ring.headSeq

/-- A ring fresh from `ringInit` represents the empty log. -/
theorem represents_start {r : RingBuf} (hwf : r.WellFormed) (hhead : r.headSeq = 0) :
    Represents (Readers.start r) State.empty where
  wf := hwf
  head_eq := by simp [Readers.start, State.empty, hhead]
  holds := holds_nil _
  cursor_eq _ := rfl
  cursor_le f c h := by simp at h

namespace Represents

variable {s : Readers} {a : State GpuSample} (h : Represents s a)

include h

/-- The slot of a live sequence number holds the sample pushed under that number. -/
theorem slot_eq (seq : UInt64) (hlt : seq.toNat < a.log.length)
    (hlive : a.log.length ≤ seq.toNat + s.ring.size.toNat) :
    a.log[seq.toNat]? = some s.ring.samples[(ringSlot s.ring seq).toNat]! := by
  have hslot := h.wf.ringSlot_lt seq
  have hcell := h.holds seq.toNat hlt (by rw [h.wf.cells]; exact hlive)
  rw [h.wf.cells, ← h.wf.toNat_ringSlot] at hcell
  rw [← hcell, Array.getElem?_eq_getElem hslot, getElem!_pos s.ring.samples _ hslot]

/-- `ringConsume` delivers the samples the log's `consume` delivers. -/
theorem consumeSeqs_samples {c : UInt64} (hc : c < s.ring.headSeq) (max : UInt32) :
    (consumeSeqs s.ring c max).map (fun seq => s.ring.samples[(ringSlot s.ring seq).toNat]!)
      = (a.log.drop (resume s.ring.size.toNat a.log.length c.toNat)).take
          (consumeCount s.ring c max).toNat := by
  have hle := UInt64.le_of_lt hc
  have hcount := toNat_consumeCount hle max
  have hleft := sub_resume_le s.ring.size.toNat s.ring.headSeq.toNat c.toNat
  rw [consumeSeqs, if_neg (UInt64.not_le.mpr hc), List.map_map]
  apply List.ext_getElem?
  intro i
  by_cases hi : i < (consumeCount s.ring c max).toNat
  · have hseq := toNat_consumeSeq hle max hi.le
    have hlive := h.slot_eq (c + overrunSkip s.ring c + UInt64.ofNat i)
      (by rw [← h.head_eq, hseq]; omega) (by rw [← h.head_eq, hseq]; omega)
    rw [hseq, h.head_eq] at hlive
    rw [List.getElem?_take_of_lt hi, List.getElem?_drop, hlive]
    simp [hi]
  · rw [List.getElem?_eq_none (by simp; omega), List.getElem?_eq_none (by simp; omega)]

/-- `ringConsume` returns what the log's `consume` returns: samples, count and cursor. -/
theorem ringConsume_abs (c : UInt64) {out : Array GpuSample} {max : UInt32}
    (hroom : max.toNat ≤ out.size) :
    Delivery.mk (ringConsume s.ring c out max).delivered
        (ringConsume s.ring c out max).count.toNat (ringConsume s.ring c out max).nextSeq.toNat
      = consume s.ring.size.toNat a.log c.toNat max.toNat := by
  by_cases hc : s.ring.headSeq ≤ c
  · have hlen : a.log.length ≤ c.toNat := by
      rw [← h.head_eq]
      exact UInt64.le_iff_toNat_le.mp hc
    rw [ringConsume_of_le hc, consume_of_le _ hlen]
    simp [Consumed.delivered]
  · have hlt := UInt64.not_le.mp hc
    have hle := UInt64.le_of_lt hlt
    have hlen : c.toNat < a.log.length := by
      rw [← h.head_eq]
      exact UInt64.lt_iff_toNat_lt.mp hlt
    have hcount := toNat_consumeCount hle max
    have hcursor := toNat_consumeSeq hle max le_rfl
    rw [delivered_ringConsume _ _ (by omega), h.consumeSeqs_samples hlt, ringConsume_of_lt hlt,
      consume_of_lt _ hlen]
    rw [h.head_eq] at hcount hcursor
    ext1
    · rw [hcount]
    · exact hcount
    · rw [← hcount, ← hcursor]
      simp

/-- `ringPush` appends to the log. -/
theorem push (x : GpuSample) (hlen : a.log.length + 1 < 2 ^ 64) :
    Represents { s with ring := ringPush s.ring x } { a with log := a.log ++ [x] } where
  wf := h.wf.ringPush x
  head_eq := by
    have hone : (1 : UInt64).toNat = 1 := rfl
    rw [ringPush, List.length_append, UInt64.toNat_add, h.head_eq, hone,
      Nat.mod_eq_of_lt hlen, List.length_singleton]
  holds := by
    have hpos : 0 < s.ring.samples.size := by
      rw [h.wf.cells]
      exact h.wf.size_pos
    have hheld := h.holds.push hpos x
    rwa [← h.head_eq, h.wf.cells, ← h.wf.toNat_ringSlot] at hheld
  cursor_eq f := h.cursor_eq f
  cursor_le f c hc := by
    have hle := UInt64.le_iff_toNat_le.mp (h.cursor_le f c hc)
    have hone : (1 : UInt64).toNat = 1 := rfl
    rw [UInt64.le_iff_toNat_le, ringPush, UInt64.toNat_add, h.head_eq, hone,
      Nat.mod_eq_of_lt hlen]
    rw [h.head_eq] at hle
    omega

/-- `gpuTelemOpen` attaches a cursor at the end of the log. -/
theorem attach (f : FileId) :
    Represents
      { s with files := Function.update s.files f (.opened { nextSeq := s.ring.headSeq }) }
      { a with cursor := Function.update a.cursor f (some a.log.length) } where
  wf := h.wf
  head_eq := h.head_eq
  holds := h.holds
  cursor_eq g := by
    by_cases hg : g = f
    · subst hg
      simp [h.head_eq]
    · simp [hg, h.cursor_eq g]
  cursor_le g c hc := by
    rw [Readers.cursor_update_opened] at hc
    split_ifs at hc with hg
    · obtain rfl := Option.some.inj hc
      exact UInt64.le_refl _
    · exact h.cursor_le g c hc

/-- `ringConsume` moves one cursor, inside the log. -/
theorem consume (f : FileId) {c : UInt64} {out : Array GpuSample} {max : UInt32}
    (hcur : s.cursor f = some c) (hroom : max.toNat ≤ out.size) :
    Represents
      { ring := (ringConsume s.ring c out max).ring
        files := Function.update s.files f
          (.opened { nextSeq := (ringConsume s.ring c out max).nextSeq }) }
      { a with
        cursor := Function.update a.cursor f
          (some (BroadcastLog.consume s.ring.size.toNat a.log c.toNat max.toNat).cursor) } := by
  have habs := h.ringConsume_abs c hroom
  have hnext := congrArg Delivery.cursor habs
  obtain ⟨d, hd⟩ := ring_ringConsume s.ring c out max
  have hle := UInt64.le_iff_toNat_le.mp (h.cursor_le f c hcur)
  refine ⟨h.wf.ringConsume c out max, ?_, ?_, fun g => ?_, fun g c' hc' => ?_⟩
  · rw [hd]
    exact h.head_eq
  · rw [hd]
    exact h.holds
  · by_cases hg : g = f
    · subst hg
      simp [← hnext]
    · simp [hg, h.cursor_eq g]
  · rw [Readers.cursor_update_opened] at hc'
    rw [hd]
    split_ifs at hc' with hg
    · obtain rfl := Option.some.inj hc'
      rw [UInt64.le_iff_toNat_le]
      have hbound := consume_cursor_le s.ring.size.toNat max.toNat
        (hle.trans_eq h.head_eq)
      rw [← hnext] at hbound
      exact hbound.trans_eq h.head_eq.symm
    · exact h.cursor_le g c' hc'

/-- `gpu_telem_release` forgets a cursor. -/
theorem detach (f : FileId) :
    Represents { s with files := Function.update s.files f .released }
      { a with cursor := Function.update a.cursor f none } where
  wf := h.wf
  head_eq := h.head_eq
  holds := h.holds
  cursor_eq g := by
    by_cases hg : g = f
    · subst hg
      simp
    · simp [hg, h.cursor_eq g]
  cursor_le g c hc := by
    rw [Readers.cursor_update_released] at hc
    split_ifs at hc with hg
    exact h.cursor_le g c hc

end Represents

/-- Every operation is matched by the log, if a push does not overflow `head_seq`. -/
theorem step_represents {s s' : Readers} {a : State GpuSample} {op : ReaderOp} {o : ReaderObs}
    (h : Represents s a) (hlen : op.isPush → a.log.length + 1 < 2 ^ 64)
    (hstep : s.step op = some (s', o)) :
    ∃ a', a.step s.ring.size.toNat op.abs = some (a', o.abs) ∧ Represents s' a' := by
  cases op with
  | push x =>
      obtain ⟨rfl, rfl⟩ := Readers.step_push.mp hstep
      exact ⟨_, rfl, h.push x (hlen rfl)⟩
  | openFile f kzalloc =>
      obtain ⟨-, ⟨rfl, rfl, rfl⟩ | ⟨rfl, rfl, rfl⟩⟩ := Readers.step_openFile.mp hstep
      · refine ⟨_, ?_, h.attach f⟩
        simp [ReaderOp.abs, ReaderObs.abs, State.step, h.head_eq]
      · exact ⟨a, rfl, h⟩
  | consume f out max =>
      obtain ⟨c, hcur, hroom, rfl, rfl⟩ := Readers.step_consume.mp hstep
      refine ⟨_, ?_, h.consume f hcur hroom⟩
      have habs := h.ringConsume_abs c hroom
      simp only [Consumed.delivered] at habs
      simp [ReaderOp.abs, ReaderObs.abs, State.step, h.cursor_eq, hcur, habs]
  | fail f e =>
      obtain ⟨-, rfl, rfl⟩ := Readers.step_fail.mp hstep
      exact ⟨a, rfl, h⟩
  | release f =>
      obtain ⟨-, rfl, rfl⟩ := Readers.step_release.mp hstep
      exact ⟨_, rfl, h.detach f⟩

section Run

variable {size : UInt32} {vzalloc : Bool} {r : RingBuf}
  {ts : List (Transition Readers ReaderOp ReaderObs)} {s : Readers}

/-- Every run with fewer than `2 ^ 64` pushes is matched by a run of the log on the same
operations, with the same observations. -/
theorem exists_log_trace (hinit : ringInit size vzalloc = .ok r)
    (h : Readers.machine.Trace (Readers.start r) ts s) (hpush : pushCount ts < 2 ^ 64) :
    ∃ us a, (BroadcastLog.machine GpuSample size.toNat).Trace State.empty us a ∧
      us.map (·.input) = ts.map (·.input.abs) ∧ us.map (·.output) = ts.map (·.output.abs) ∧
      Represents s a := by
  obtain ⟨hwf, hhead, -, rfl⟩ := ringInit_ok hinit
  refine Trace.simulate (M := Readers.machine) (f := ReaderOp.abs) (g := ReaderObs.abs)
    (fun ts => pushCount ts < 2 ^ 64)
    (fun ts τ hok => (pushCount_le_append ts [τ]).trans_lt hok) ?_ h hpush
    (represents_start hwf hhead)
  intro ts s a op s' o htr hok hrep hstep
  have hsize := (wellFormed_of_trace htr hwf).2
  have hlen := toNat_headSeq_of_pushCount_lt htr hhead
    ((pushCount_le_append _ _).trans_lt hok)
  have hroom : op.isPush → a.log.length + 1 < 2 ^ 64 := by
    intro hop
    rw [← hrep.head_eq, hlen]
    simpa [hop] using hok
  obtain ⟨a', ha', hrep'⟩ := step_represents hrep hroom hstep
  rw [hsize] at ha'
  exact ⟨a', ha', hrep'⟩

/-- The samples pushed in a run, in order. -/
def pushed (ts : List (Transition Readers ReaderOp ReaderObs)) : List GpuSample :=
  ts.filterMap (·.input.pushed)

theorem length_pushed (ts : List (Transition Readers ReaderOp ReaderObs)) :
    (pushed ts).length = pushCount ts := by
  rw [pushed, pushCount, List.length_filterMap_eq_countP]
  apply List.countP_congr
  rintro ⟨s, op, s', o⟩ -
  cases op <;> simp [ReaderOp.pushed, ReaderOp.isPush]

/-- After a run below `2 ^ 64` pushes the ring holds the end of what was pushed. -/
theorem represents_of_trace (hinit : ringInit size vzalloc = .ok r)
    (h : Readers.machine.Trace (Readers.start r) ts s) (hpush : pushCount ts < 2 ^ 64) :
    ∃ a, a.log = pushed ts ∧ Represents s a := by
  obtain ⟨us, a, hus, hin, -, hrep⟩ := exists_log_trace hinit h hpush
  refine ⟨a, ?_, hrep⟩
  have hmap : us.filterMap (·.input.pushed) = (us.map (·.input)).filterMap Op.pushed := by
    rw [List.filterMap_map]
    rfl
  rw [log_of_trace hus, hmap, hin, List.filterMap_map, pushed]
  congr 1
  funext τ
  obtain ⟨s, op, s', o⟩ := τ
  match op with
  | .push _ | .openFile _ true | .openFile _ false | .consume _ _ _ | .fail _ _ | .release _ => rfl

/-- After a run below `2 ^ 64` pushes every cursor is at most `head_seq`. -/
theorem cursor_le_of_trace (hinit : ringInit size vzalloc = .ok r)
    (h : Readers.machine.Trace (Readers.start r) ts s) (hpush : pushCount ts < 2 ^ 64)
    {f : FileId} {c : UInt64} (hc : s.cursor f = some c) : c ≤ s.ring.headSeq := by
  obtain ⟨-, a, -, -, -, hrep⟩ := exists_log_trace hinit h hpush
  exact hrep.cursor_le f c hc

/-- After `pushed` pushes the slot of sequence number `k` has been reused by a later push. -/
def Overwritten (r : RingBuf) (pushed k : ℕ) : Prop :=
  ∃ j, k < j ∧ j < pushed ∧ ringSlot r (UInt64.ofNat j) = ringSlot r (UInt64.ofNat k)

/-- A slot is reused `size` pushes later. -/
theorem overwritten_iff {r : RingBuf} (hwf : r.WellFormed) {pushed k : ℕ}
    (hpushed : pushed < 2 ^ 64) (hk : k < pushed) :
    Overwritten r pushed k ↔ k + r.size.toNat < pushed := by
  have hslot : ∀ j, j < pushed →
      (ringSlot r (UInt64.ofNat j)).toNat = j % r.size.toNat := by
    intro j hj
    rw [hwf.toNat_ringSlot, UInt64.toNat_ofNat', Nat.mod_eq_of_lt (hj.trans hpushed)]
  rw [← CyclicArray.exists_later_same_cell_iff hwf.size_pos]
  constructor
  · rintro ⟨j, hkj, hj, heq⟩
    refine ⟨j, hkj, hj, ?_⟩
    rw [← hslot j hj, ← hslot k hk, heq]
  · rintro ⟨j, hkj, hj, heq⟩
    refine ⟨j, hkj, hj, ?_⟩
    rw [← UInt32.toNat_inj, hslot j hj, hslot k hk, heq]

/-- What a `ringConsume` of a run reads and passes over, in terms of the pushes before it. -/
theorem consume_reads_live (hinit : ringInit size vzalloc = .ok r)
    {before : List (Transition Readers ReaderOp ReaderObs)} {p : Readers}
    (h : Readers.machine.Trace (Readers.start r) before p) (hpush : pushCount before < 2 ^ 64)
    {f : FileId} {c : UInt64} (hc : p.cursor f = some c) (max : UInt32) :
    (∀ q ∈ consumeSeqs p.ring c max,
        q.toNat < pushCount before ∧ ¬ Overwritten p.ring (pushCount before) q.toNat) ∧
      ∀ k, c.toNat ≤ k → k < pushCount before →
        (k < (c + overrunSkip p.ring c).toNat ↔ Overwritten p.ring (pushCount before) k) := by
  obtain ⟨hwf, hhead, -, -⟩ := ringInit_ok hinit
  have hwfp : p.ring.WellFormed := (wellFormed_of_trace h hwf).1
  have hle := cursor_le_of_trace hinit h hpush hc
  have hnum := toNat_headSeq_of_pushCount_lt h hhead hpush
  have hstart : (c + overrunSkip p.ring c).toNat
      = resume p.ring.size.toNat (pushCount before) c.toNat := by
    rw [toNat_add_overrunSkip hle, hnum]
  refine ⟨fun q hq => ?_, fun k hck hk => ?_⟩
  · -- the numbers read lie between the resumed cursor and `head_seq`
    have hrange := List.mem_map_of_mem (f := UInt64.toNat) hq
    rw [map_toNat_consumeSeqs hle, hnum, List.mem_range'_1] at hrange
    have hcount := toNat_consumeCount hle max
    have hold := sub_resume_le p.ring.size.toNat (pushCount before) c.toNat
    rw [hnum] at hcount
    have hlt : q.toNat < pushCount before := by omega
    refine ⟨hlt, ?_⟩
    rw [overwritten_iff hwfp hpush hlt]
    omega
  · rw [hstart, lt_resume_iff hck, overwritten_iff hwfp hpush hk]

/-- **The ring refines an unbounded log.** In every run with fewer than `2 ^ 64` pushes, every
observation (the samples written to `out[]`, the returned count, the new cursor) is the one of the
log in which nothing is overwritten. Every slot a `ringConsume` reads was written by the push of
the sequence number it is read for and not reused since, and a sample from the cursor on is passed
over exactly when the push that reused its slot has already happened. -/
theorem ring_refines_log (hinit : ringInit size vzalloc = .ok r)
    (h : Readers.machine.Trace (Readers.start r) ts s) (hpush : pushCount ts < 2 ^ 64) :
    (∃ us a, (BroadcastLog.machine GpuSample size.toNat).Trace State.empty us a ∧
      us.map (·.input) = ts.map (·.input.abs) ∧ us.map (·.output) = ts.map (·.output.abs)) ∧
    ∀ before τ after, ts = before ++ τ :: after → ∀ f out max c,
      τ.input = .consume f out max → τ.pre.cursor f = some c →
      (∀ q ∈ consumeSeqs τ.pre.ring c max,
        q.toNat < pushCount before ∧ ¬ Overwritten τ.pre.ring (pushCount before) q.toNat) ∧
      ∀ k, c.toNat ≤ k → k < pushCount before → ∀ out' n next,
        τ.output = .consumed out' n next →
        (k < next.toNat - n.toNat ↔ Overwritten τ.pre.ring (pushCount before) k) := by
  refine ⟨?_, ?_⟩
  · obtain ⟨us, a, hus, hin, hout, -⟩ := exists_log_trace hinit h hpush
    exact ⟨us, a, hus, hin, hout⟩
  · rintro before τ after rfl f out max c hop hc
    have hbefore := (pushCount_le_append before (τ :: after)).trans_lt hpush
    obtain ⟨m, htr, hrest⟩ := Trace.of_append h
    obtain ⟨rfl, hstep, -⟩ := Trace.of_cons hrest
    obtain ⟨hlive, hpassed⟩ := consume_reads_live hinit htr hbefore hc max
    refine ⟨hlive, fun k hck hk out' n next hobs => ?_⟩
    rw [hop] at hstep
    obtain ⟨c', hc', -, -, ho⟩ := Readers.step_consume.mp hstep
    obtain rfl : c' = c := by simpa [hc] using hc'.symm
    obtain ⟨-, rfl, rfl⟩ : out' = _ ∧ n = _ ∧ next = _ := by simpa using hobs.symm.trans ho
    rw [← hpassed k hck hk]
    have hle := cursor_le_of_trace hinit htr hbefore hc
    have hnext := toNat_nextSeq_ringConsume hle out max
    rw [count_ringConsume hle, hnext, Nat.add_sub_cancel, toNat_add_overrunSkip hle]

/-- The refinement at an overrun: three pushes into a ring of two, then two reads. The log delivers
the second and the third sample; the first is passed over. -/
theorem ring_refines_log_overrun :
    ∃ r ts s us a, ringInit 2 true = .ok r ∧ Readers.machine.Trace (Readers.start r) ts s ∧
      ts.map (·.input) = [.openFile 0 true, .push (.stamped 1), .push (.stamped 2),
        .push (.stamped 3), .consume 0 #[default, default] 1,
        .consume 0 #[default, default] 2] ∧
      (BroadcastLog.machine GpuSample 2).Trace State.empty us a ∧
      us.map (·.output) = [.attached 0, .silent, .silent, .silent,
        .consumed ⟨[.stamped 2], 1, 2⟩, .consumed ⟨[.stamped 3], 1, 3⟩] := by
  let r : RingBuf := ⟨Array.replicate 2 default, 2, 1, 0, 0⟩
  have hinit : ringInit 2 true = .ok r := rfl
  have hrun : (Readers.machine.exec (Readers.start r) [.openFile 0 true, .push (.stamped 1),
      .push (.stamped 2), .push (.stamped 3), .consume 0 #[default, default] 1,
      .consume 0 #[default, default] 2]).map (fun p => (pushCount p.1, p.1.map (·.output)))
      = some (3, [.opened 0, .silent, .silent, .silent, .consumed #[.stamped 2, default] 1 2,
        .consumed #[.stamped 3, default] 1 3]) := by
    decide
  obtain ⟨⟨ts, s⟩, hexec, hseen⟩ := Option.map_eq_some_iff.mp hrun
  obtain ⟨hcount, hout⟩ := Prod.mk.inj hseen
  have htr := Trace.of_exec hexec
  obtain ⟨⟨us, a, hus, -, hobs⟩, -⟩ := ring_refines_log hinit htr (by rw [hcount]; decide)
  refine ⟨r, ts, s, us, a, hinit, htr, Trace.input_of_exec hexec, hus, ?_⟩
  have hmap : ts.map (·.output.abs) = (ts.map (·.output)).map ReaderObs.abs := by simp
  rw [hobs, hmap, hout]
  rfl

end Run

end GpuTelem
