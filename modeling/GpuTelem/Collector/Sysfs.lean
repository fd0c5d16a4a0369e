import GpuTelem.Collector
import GpuTelem.Foundations.Decimal

/-!
# Reading an attribute

`sysfs_read_s64` on its buffer of 32 bytes, access by access, and what it makes of the text of a
number.

## Main definitions

* `SysfsRead.read`: the function, where an access outside the buffer has no result;
* `AcceptsDecimal`: what `kstrtos64` accepts;
* `kstrtos64`: a parser that accepts it.

## Main results

* `SysfsRead.read_eq`: no access is outside the buffer, and the result is the one of `sysfsReadS64`;
* `sysfsReadS64_text`: the text of a number with trailing blanks is read as the number;
* `attribute_parsing`: both, with what happens to `*out` and to the sample.
-/

namespace GpuTelem

open Decimal

/-- What the trimming loop of `sysfs_read_s64` removes: a newline or a blank. -/
def isTrimmed (b : UInt8) : Bool := b == 10 || b == 32

namespace SysfsRead

/-- `buf[i] = b`; `none` outside the buffer. -/
def store (buf : Array UInt8) (i : ℕ) (b : UInt8) : Option (Array UInt8) :=
  if i < buf.size then some (buf.setIfInBounds i b) else none

/-- The trimming loop: `while (n > 0 && ...) buf[--n] = '\0'`. -/
def trimLoop (buf : Array UInt8) : ℕ → Option (Array UInt8)
  | 0 => some buf
  | n + 1 =>
      match buf[n]? with
      | none => none
      | some b =>
          if isTrimmed b then
            match store buf n 0 with
            | none => none
            | some buf => trimLoop buf n
          else some buf

/-- The C string in a buffer; `none` when it has no end there. -/
def cString (buf : Array UInt8) : Option (List UInt8) :=
  if buf.contains 0 then some (buf.toList.takeWhile (· != 0)) else none

/-- `sysfs_read_s64` with the contents of `char buf[32]` and of `*out` when it is called: the
returned value and `*out` after it. There is no result when an access is outside the buffer. -/
def read (e : CollectorEnv) (path : String) (buf : Vector UInt8 32) (out : Int64) :
    Option (Except Errno Unit × Int64) :=
  match e.kernelRead path with
  | .error err => some (.error err, out)
  | .ok content =>
      -- `kernel_read(f, buf, sizeof(buf) - 1, &pos)`
      let n := min content.length 31
      let buf := (content.take 31 ++ buf.toList.drop n).toArray
      if n = 0 then some (.error Errno.EIO, out)
      else
        match store buf n 0 with
        | none => none
        | some buf =>
            match trimLoop buf n with
            | none => none
            | some buf =>
                match cString buf with
                | none => none
                | some s =>
                    match e.kstrtos64 s with
                    | .error err => some (.error err, out)
                    | .ok val => some (.ok (), val)

/-- A store inside the buffer. -/
theorem store_toArray (l : List UInt8) (x b : UInt8) (rest : List UInt8) :
    store (l ++ x :: rest).toArray l.length b = some (l ++ b :: rest).toArray := by
  rw [store, if_pos (by simp)]
  simp

/-- From the terminator on, the loop replaces what is to be trimmed by terminators. It looks at the
bytes read, and at nothing else. -/
theorem trimLoop_toArray (l rest : List UInt8) :
    ∃ rest', trimLoop (l ++ 0 :: rest).toArray l.length
      = some (l.rdropWhile isTrimmed ++ 0 :: rest').toArray := by
  induction l using List.reverseRecOn generalizing rest with
  | nil => exact ⟨rest, rfl⟩
  | append_singleton l b ih =>
      have hb : (l ++ [b] ++ 0 :: rest).toArray[l.length]? = some b := by simp
      rw [List.length_append, List.length_singleton, trimLoop, hb]
      dsimp only
      by_cases htrim : isTrimmed b = true
      · have hstore := store_toArray l b 0 (0 :: rest)
        rw [if_pos htrim, List.append_assoc, List.singleton_append, hstore,
          List.rdropWhile_concat_pos _ _ _ htrim]
        exact ih (0 :: rest)
      · rw [if_neg htrim, List.rdropWhile_concat_neg _ _ _ htrim]
        exact ⟨rest, rfl⟩

/-- A C string ends at its first zero byte. -/
theorem cString_toArray (l rest : List UInt8) :
    cString (l ++ 0 :: rest).toArray = some (l.takeWhile (· != 0)) := by
  have hzero : (l ++ 0 :: rest).toArray.contains 0 = true := by simp
  have htake : (l ++ 0 :: rest).takeWhile (· != 0) = l.takeWhile (· != 0) := by
    induction l with
    | nil => rfl
    | cons b l ih => simp [List.takeWhile_cons, ih]
  rw [cString, if_pos hzero, htake]

/-- `sysfs_read_s64` never leaves its buffer. Its value and `*out` are those of `sysfsReadS64`: on
an error `*out` is as it was. -/
theorem read_eq (e : CollectorEnv) (path : String) (buf : Vector UInt8 32) (out : Int64) :
    read e path buf out = some
      (match sysfsReadS64 e path with
        | .error err => (.error err, out)
        | .ok val => (.ok (), val)) := by
  rw [read, sysfsReadS64]
  cases hread : e.kernelRead path with
  | error err => rfl
  | ok content =>
      dsimp only
      generalize hl : content.take 31 = l
      have hlen : min content.length 31 = l.length := by
        rw [← hl, List.length_take, min_comm]
      -- at least the last byte of the buffer is left for the terminator
      obtain ⟨x, rest, hrest⟩ : ∃ x rest, buf.toList.drop l.length = x :: rest := by
        apply List.exists_cons_of_length_pos
        rw [List.length_drop, Vector.length_toList]
        omega
      rw [hlen, hrest]
      cases l with
      | nil => rfl
      | cons b l =>
          obtain ⟨rest', htrim⟩ := trimLoop_toArray (b :: l) rest
          have htrimmed : (fun b : UInt8 => b == 10 || b == 32) = isTrimmed := rfl
          rw [if_neg (by simp), htrimmed]
          simp only [store_toArray, htrim, cString_toArray]
          cases e.kstrtos64 (((b :: l).rdropWhile isTrimmed).takeWhile (· != 0)) <;> rfl

end SysfsRead

/-- `kstrtos64` in base 10 accepts an optionally signed run of digits in the range of an `s64`, with
at most one newline after it, and nothing else. -/
def AcceptsDecimal (kstrtos64 : List UInt8 → Except Errno Int64) : Prop :=
  ∀ s val, kstrtos64 s = .ok val ↔
    Numeral s val.toInt ∨ ∃ num, s = num ++ [10] ∧ Numeral num val.toInt

/-- `kstrtos64` in base 10. -/
def kstrtos64 (s : List UInt8) : Except Errno Int64 :=
  let num := if s.getLast? = some 10 then s.dropLast else s
  match parse num with
  | none => .error .EINVAL
  | some x =>
      if -2 ^ 63 ≤ x ∧ x < 2 ^ 63 then .ok (Int64.ofInt x) else .error .ERANGE

/-- A numeral ends with a digit. -/
theorem getLast?_of_numeral {s : List UInt8} {x : ℤ} (h : Numeral s x) : s.getLast? ≠ some 10 := by
  have hdigits : ∀ ds, IsDigits ds → ds.getLast? ≠ some 10 := by
    rintro ds ⟨-, hall⟩ hlast
    exact absurd (List.all_eq_true.mp hall 10 (List.mem_of_getLast? hlast)) (by decide)
  cases h with
  | unsigned hds => exact hdigits _ hds
  | positive hds =>
      rw [List.getLast?_cons_of_ne_nil hds.1]
      exact hdigits _ hds
  | negative hds =>
      rw [List.getLast?_cons_of_ne_nil hds.1]
      exact hdigits _ hds

/-- The values of an `s64`. -/
theorem ok_ofInt_iff {x : ℤ} {val : Int64} :
    (if -2 ^ 63 ≤ x ∧ x < 2 ^ 63 then .ok (Int64.ofInt x) else .error .ERANGE)
      = (.ok val : Except Errno Int64) ↔ x = val.toInt := by
  constructor
  · intro h
    split_ifs at h with hx
    obtain rfl := Except.ok.inj h
    exact (Int64.toInt_ofInt_of_le hx.1 hx.2).symm
  · rintro rfl
    rw [if_pos ⟨val.le_toInt, val.toInt_lt⟩, Int64.ofInt_toInt]

/-- The parser accepts what `kstrtos64` accepts. -/
theorem acceptsDecimal_kstrtos64 : AcceptsDecimal kstrtos64 := by
  intro s val
  have hnum : ∀ num, (match parse num with
      | none => .error .EINVAL
      | some x => if -2 ^ 63 ≤ x ∧ x < 2 ^ 63 then .ok (Int64.ofInt x) else .error .ERANGE)
        = (.ok val : Except Errno Int64) ↔ Numeral num val.toInt := by
    intro num
    rw [← parse_eq_some_iff]
    cases parse num with
    | none => simp
    | some x => rw [ok_ofInt_iff, Option.some_inj]
  rw [kstrtos64, hnum]
  split_ifs with hlast
  · obtain ⟨num, rfl⟩ := List.getLast?_eq_some_iff.mp hlast
    have hnot : ¬ Numeral (num ++ [10]) val.toInt := fun h => getLast?_of_numeral h hlast
    simp [hnot]
  · constructor
    · exact .inl
    · rintro (h | ⟨num, rfl, -⟩)
      · exact h
      · simp at hlast

/-! ## The text of a number -/

/-- Nothing of the text of a number is trimmed, and no byte of it is zero. -/
theorem not_isTrimmed_of_mem_text {x : ℤ} {b : UInt8} (hb : b ∈ text x) :
    isTrimmed b = false ∧ b ≠ 0 := by
  rcases mem_text hb with hdigit | rfl
  · rw [isDigit, Bool.and_eq_true, decide_eq_true_eq, decide_eq_true_eq] at hdigit
    constructor
    · by_contra htrim
      rw [Bool.not_eq_false, isTrimmed, Bool.or_eq_true, beq_iff_eq, beq_iff_eq] at htrim
      rcases htrim with rfl | rfl
      · exact absurd hdigit.1 (by decide)
      · exact absurd hdigit.1 (by decide)
    · rintro rfl
      exact absurd hdigit.1 (by decide)
  · decide

/-- Trimming what follows the text of a number gives the text back. -/
theorem rdropWhile_text_append (x : ℤ) {w : List UInt8} (hw : ∀ b ∈ w, isTrimmed b = true) :
    (text x ++ w).rdropWhile isTrimmed = text x := by
  induction w using List.reverseRecOn with
  | nil =>
      rw [List.append_nil, List.rdropWhile_eq_self_iff]
      intro hne
      simp [(not_isTrimmed_of_mem_text (List.getLast_mem hne)).1]
  | append_singleton w b ih =>
      rw [← List.append_assoc, List.rdropWhile_concat_pos _ _ _ (hw b (by simp))]
      exact ih fun b' hb' => hw b' (List.mem_append_left _ hb')

/-- The text of an `s64` fits in the 31 bytes read. -/
theorem length_text_toInt_le (val : Int64) : (text val.toInt).length ≤ 31 := by
  have hlow := val.le_toInt
  have hhigh := val.toInt_lt
  have hlen := length_text_le (x := val.toInt) (k := 19) (by omega) (by omega)
  omega

/-- The text of an `s64`, with any blanks and newlines after it, is read as its value. -/
theorem sysfsReadS64_text {e : CollectorEnv} (hkstrto : AcceptsDecimal e.kstrtos64) {path : String}
    (val : Int64) {w : List UInt8} (hw : ∀ b ∈ w, isTrimmed b = true)
    (hfile : e.kernelRead path = .ok (text val.toInt ++ w)) : sysfsReadS64 e path = .ok val := by
  have hlen := length_text_toInt_le val
  -- the window cuts off a part of `w` at most
  have hwindow : (text val.toInt ++ w).take 31
      = text val.toInt ++ w.take (31 - (text val.toInt).length) := by
    rw [List.take_append, List.take_of_length_le hlen]
  have htrim := rdropWhile_text_append val.toInt (w := w.take (31 - (text val.toInt).length))
    fun b hb => hw b (List.mem_of_mem_take hb)
  have hstring : (text val.toInt).takeWhile (· != 0) = text val.toInt := by
    rw [List.takeWhile_eq_self_iff]
    intro b hb
    simpa using (not_isTrimmed_of_mem_text hb).2
  have hval : e.kstrtos64 (text val.toInt) = .ok val :=
    (hkstrto _ _).mpr (.inl (numeral_text _))
  have htrimmed : (fun b : UInt8 => b == 10 || b == 32) = isTrimmed := rfl
  rw [sysfsReadS64, hfile]
  dsimp only
  rw [hwindow, htrimmed]
  generalize hbuf : text val.toInt ++ w.take (31 - (text val.toInt).length) = buf at htrim
  split
  next => exact absurd (List.append_eq_nil_iff.mp hbuf).1 (text_ne_nil _)
  next => rw [htrim, hstring, hval]

/-- A file with nothing but blanks and newlines, or with nothing, is an error. -/
theorem sysfsReadS64_blank {e : CollectorEnv} (hkstrto : AcceptsDecimal e.kstrtos64)
    {path : String} {w : List UInt8} (hw : ∀ b ∈ w, isTrimmed b = true)
    (hfile : e.kernelRead path = .ok w) : ∃ err, sysfsReadS64 e path = .error err := by
  have htrimmed : (fun b : UInt8 => b == 10 || b == 32) = isTrimmed := rfl
  rw [sysfsReadS64, hfile]
  dsimp only
  rw [htrimmed]
  split
  next => exact ⟨_, rfl⟩
  next hbuf =>
    have hnil : (w.take 31).rdropWhile isTrimmed = [] :=
      List.rdropWhile_eq_nil_iff.mpr fun b hb => hw b (List.mem_of_mem_take hb)
    rw [hnil, List.takeWhile_nil]
    cases hval : e.kstrtos64 [] with
    | error err => exact ⟨err, rfl⟩
    | ok val =>
        rcases (hkstrto _ _).mp hval with hempty | ⟨num, happend, -⟩
        · exact absurd hempty (not_numeral_nil _)
        · simp at happend

/-- An attribute whose read fails is not there for `collect_sample`. -/
theorem readAttr_of_error {e : CollectorEnv} {path : String} {err : Errno}
    (h : sysfsReadS64 e path = .error err) : readAttr e path = none := by
  rw [readAttr, h]
  simp

/-- An attribute whose read fails is reported by the sentinel of its field. -/
theorem collectSample_of_error {e : CollectorEnv} {p : AttrPaths} (stack : GpuSample)
    {err : Errno} :
    (sysfsReadS64 e p.tempPath = .error err → (collectSample e p stack).tempMillideg = -1) ∧
    (sysfsReadS64 e p.fanPath = .error err → (collectSample e p stack).fanRpm = 0) ∧
    (sysfsReadS64 e p.powerPath = .error err → (collectSample e p stack).powerUw = 0) ∧
    (sysfsReadS64 e p.freqPath = .error err → (collectSample e p stack).coreFreqMhz = 0) := by
  refine ⟨fun h => ?_, fun h => ?_, fun h => ?_, fun h => ?_⟩ <;>
    simp only [collectSample, readAttr_of_error h]

/-- **Parsing an attribute inverts printing it.** The text of any `s64` with any blanks and newlines
after it is read as the number, whatever the buffer held. On every file the function stays inside
its buffer and ends; where it fails, as on a blank or empty file, it leaves `*out` as it was, and
`collect_sample` reports the sentinel. -/
theorem attribute_parsing {e : CollectorEnv} (hkstrto : AcceptsDecimal e.kstrtos64) :
    (∀ path buf out (val : Int64) w, (∀ b ∈ w, b = 32 ∨ b = 10) →
      e.kernelRead path = .ok (text val.toInt ++ w) →
      SysfsRead.read e path buf out = some (.ok (), val)) ∧
    (∀ path buf out, ∃ ret out', SysfsRead.read e path buf out = some (ret, out') ∧
      ∀ err, ret = .error err → out' = out) ∧
    (∀ path buf out w, (∀ b ∈ w, b = 32 ∨ b = 10) → e.kernelRead path = .ok w →
      ∃ err, SysfsRead.read e path buf out = some (.error err, out)) ∧
    ∀ p stack buf out err out',
      (SysfsRead.read e p.tempPath buf out = some (.error err, out') →
        (collectSample e p stack).tempMillideg = -1) ∧
      (SysfsRead.read e p.fanPath buf out = some (.error err, out') →
        (collectSample e p stack).fanRpm = 0) ∧
      (SysfsRead.read e p.powerPath buf out = some (.error err, out') →
        (collectSample e p stack).powerUw = 0) ∧
      (SysfsRead.read e p.freqPath buf out = some (.error err, out') →
        (collectSample e p stack).coreFreqMhz = 0) := by
  have hblank : ∀ w : List UInt8, (∀ b ∈ w, b = 32 ∨ b = 10) → ∀ b ∈ w, isTrimmed b = true := by
    intro w hw b hb
    rcases hw b hb with rfl | rfl <;> rfl
  have herror : ∀ {path buf out err out'},
      SysfsRead.read e path buf out = some (.error err, out') →
      sysfsReadS64 e path = .error err := by
    intro path buf out err out' h
    rw [SysfsRead.read_eq] at h
    split at h <;> simp_all
  refine ⟨fun path buf out val w hw hfile => ?_, fun path buf out => ?_,
    fun path buf out w hw hfile => ?_, fun p stack buf out err out' => ?_⟩
  · rw [SysfsRead.read_eq, sysfsReadS64_text hkstrto val (hblank w hw) hfile]
  · rw [SysfsRead.read_eq]
    cases sysfsReadS64 e path with
    | error err => exact ⟨_, _, rfl, fun _ _ => rfl⟩
    | ok val => exact ⟨_, _, rfl, nofun⟩
  · obtain ⟨err, herr⟩ := sysfsReadS64_blank hkstrto (hblank w hw) hfile
    rw [SysfsRead.read_eq, herr]
    exact ⟨err, rfl⟩
  · obtain ⟨htemp, hfan, hpower, hfreq⟩ := collectSample_of_error (e := e) (p := p) stack
    exact ⟨fun h => htemp (herror h), fun h => hfan (herror h), fun h => hpower (herror h),
      fun h => hfreq (herror h)⟩

/-- The least `s64` and forty blanks, from a file longer than the buffer. -/
theorem attribute_parsing_least :
    let e : CollectorEnv :=
      { ktimeGetNs := 0
        kernelRead := fun _ => .ok (text (-2 ^ 63) ++ List.replicate 40 32)
        kstrtos64 := kstrtos64
        interrupted := false }
    SysfsRead.read e "temp1_input" (Vector.replicate 32 0xff) 7
      = some (.ok (), Int64.minValue) := by
  intro e
  have hleast : Int64.minValue.toInt = -2 ^ 63 := by decide
  refine (attribute_parsing (e := e) acceptsDecimal_kstrtos64).1 _ _ _ _
    (List.replicate 40 32) (fun b hb => ?_) ?_
  · exact .inl (List.eq_of_mem_replicate hb)
  · rw [hleast]

end GpuTelem
