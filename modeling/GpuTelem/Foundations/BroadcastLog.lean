import Mathlib.Data.Nat.ModEq
import GpuTelem.Foundations.Machine

/-!
# Broadcast logs with bounded memory

An append-only log read by any number of independent cursors, where only the last `size` elements
can still be read. A cursor that fell further behind is moved up to the oldest element left; what
lies between is skipped. This is the ideal behaviour of a lossy broadcast queue: the log is an
unbounded list, cursors are natural numbers, and consuming never fails.

## Main definitions

* `resume`: where a cursor goes on reading;
* `consume`: one read of at most `m` elements;
* `machine`: a log with its cursors, as a machine.

## Main results

* `consume_of_le`, `consume_of_lt`: the two outcomes of a read;
* `consume_cursor_le`: the cursor stays inside the log;
* `log_of_trace`: the log of a run is what was appended to it.
-/

namespace BroadcastLog

variable {α : Type*}

/-- Where a cursor `c` goes on reading a log of `len` elements that keeps the last `size`. -/
def resume (size len c : ℕ) : ℕ := max c (len - size)

theorem le_resume (size len c : ℕ) : c ≤ resume size len c := le_max_left _ _

/-- A cursor inside the log resumes inside the log. -/
theorem resume_le (size : ℕ) {len c : ℕ} (h : c ≤ len) : resume size len c ≤ len :=
  max_le h (Nat.sub_le _ _)

/-- The elements left after resuming fit in the memory. -/
theorem sub_resume_le (size len c : ℕ) : len - resume size len c ≤ size := by
  unfold resume
  omega

/-- An element from the cursor on is skipped exactly when it is too old. -/
theorem lt_resume_iff {size len c k : ℕ} (hk : c ≤ k) : k < resume size len c ↔ k + size < len := by
  unfold resume
  omega

/-- What one read returns: the elements, their number, and the new cursor. -/
@[ext]
structure Delivery (α : Type*) where
  /-- The elements delivered, in order. -/
  samples : List α
  /-- The returned count. -/
  count : ℕ
  /-- The cursor after the read. -/
  cursor : ℕ

/-- Read at most `m` elements of `l` at the cursor `c`. -/
def consume (size : ℕ) (l : List α) (c m : ℕ) : Delivery α :=
  if l.length ≤ c then
    { samples := [], count := 0, cursor := c }
  else
    let c' := resume size l.length c
    let n := min m (l.length - c')
    { samples := (l.drop c').take n, count := n, cursor := c' + n }

/-- Without new elements nothing is delivered and the cursor stays. -/
theorem consume_of_le {size : ℕ} {l : List α} {c : ℕ} (m : ℕ) (h : l.length ≤ c) :
    consume size l c m = { samples := [], count := 0, cursor := c } := by
  simp [consume, h]

/-- With new elements the read starts at the resumed cursor. -/
theorem consume_of_lt {size : ℕ} {l : List α} {c : ℕ} (m : ℕ) (h : c < l.length) :
    consume size l c m =
      { samples := (l.drop (resume size l.length c)).take
          (min m (l.length - resume size l.length c))
        count := min m (l.length - resume size l.length c)
        cursor := resume size l.length c + min m (l.length - resume size l.length c) } := by
  simp [consume, Nat.not_le.mpr h]

/-- A cursor inside the log stays inside the log. -/
theorem consume_cursor_le (size : ℕ) {l : List α} {c : ℕ} (m : ℕ) (h : c ≤ l.length) :
    (consume size l c m).cursor ≤ l.length := by
  have hresume := resume_le size h
  rcases Nat.lt_or_ge c l.length with hlt | hge
  · rw [consume_of_lt m hlt]
    dsimp only
    omega
  · rw [consume_of_le m hge]
    exact h

/-! ## The log and its cursors as a machine -/

/-- What can happen to a log with its cursors. -/
inductive Op (α : Type*)
  /-- Append an element. -/
  | push (a : α)
  /-- Put the cursor of a reader at the end of the log. -/
  | attach (r : ℕ)
  /-- Let a reader read at most `m` elements. -/
  | consume (r m : ℕ)
  /-- Forget the cursor of a reader. -/
  | detach (r : ℕ)
  /-- Do nothing. -/
  | idle

/-- What is seen of an operation. -/
inductive Obs (α : Type*)
  | silent
  /-- The position a reader starts from. -/
  | attached (cursor : ℕ)
  /-- What a read returned. -/
  | consumed (d : Delivery α)

/-- A log and the cursors of its readers. -/
structure State (α : Type*) where
  /-- Every element ever pushed. -/
  log : List α
  /-- The cursors. -/
  cursor : ℕ → Option ℕ

/-- The empty log without readers. -/
def State.empty : State α where
  log := []
  cursor _ := none

/-- One operation on the log. -/
def State.step (size : ℕ) (s : State α) : Op α → Option (State α × Obs α)
  | .push a => some ({ s with log := s.log ++ [a] }, .silent)
  | .attach r =>
      some ({ s with cursor := Function.update s.cursor r (some s.log.length) },
        .attached s.log.length)
  | .consume r m =>
      match s.cursor r with
      | none => none
      | some c =>
          let d := BroadcastLog.consume size s.log c m
          some ({ s with cursor := Function.update s.cursor r (some d.cursor) }, .consumed d)
  | .detach r => some ({ s with cursor := Function.update s.cursor r none }, .silent)
  | .idle => some (s, .silent)

/-- The log that keeps the last `size` elements readable, as a machine. -/
def machine (α : Type*) (size : ℕ) : Machine (State α) (Op α) (Obs α) where
  step := State.step size

/-- The element an operation appends. -/
def Op.pushed : Op α → Option α
  | .push a => some a
  | _ => none

/-- The log of a run is what was appended, in order. -/
theorem log_of_trace {size : ℕ} {us : List (Machine.Transition (State α) (Op α) (Obs α))}
    {s : State α} (h : (machine α size).Trace State.empty us s) :
    s.log = us.filterMap (·.input.pushed) := by
  induction h with
  | nil => rfl
  | @snoc us s s' op o _ hstep ih =>
      rw [List.filterMap_append, ← ih]
      cases op with
      | push a =>
          obtain ⟨rfl, -⟩ := Prod.mk.inj (Option.some.inj hstep)
          rfl
      | attach r =>
          obtain ⟨rfl, -⟩ := Prod.mk.inj (Option.some.inj hstep)
          exact (List.append_nil _).symm
      -- readers move their cursors only
      | consume r m =>
          simp only [machine, State.step] at hstep
          split at hstep
          next => cases hstep
          next =>
            obtain ⟨rfl, -⟩ := Prod.mk.inj (Option.some.inj hstep)
            exact (List.append_nil _).symm
      | detach r =>
          obtain ⟨rfl, -⟩ := Prod.mk.inj (Option.some.inj hstep)
          exact (List.append_nil _).symm
      | idle =>
          obtain ⟨rfl, -⟩ := Prod.mk.inj (Option.some.inj hstep)
          exact (List.append_nil _).symm

end BroadcastLog
