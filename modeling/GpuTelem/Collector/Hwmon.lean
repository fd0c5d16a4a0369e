import GpuTelem.Collector.Sysfs

/-!
# Finding the attributes

`probe_hwmon_paths`: where the four attribute paths come from. It scans ten directories with one
buffer for their names, which keeps what an earlier directory has left in it. A C string is a
`String` with one character for each byte.

## Main definitions

* `snprintf`, `strncmp`: the library functions, as far as they are used;
* `probeHwmonPaths`: the function of this name, where an access outside a buffer has no result;
* `hwmonName`, `isGpuHwmon`: the name of a directory, and whether it is the one of a GPU driver;
* `AttrPaths.inDir`: the four attributes of a directory.

## Main results

* `strncmp_eq_zero_iff`: what the comparisons of the scan test;
* `probe_first_gpu`: the scan finds the first directory of a GPU driver.
-/

namespace GpuTelem

/-- `snprintf(dst, size, ...)` leaves as much of the text in `dst` as fits with its terminator. -/
def snprintf (size : ℕ) (text : String) : String := String.ofList (text.toList.take (size - 1))

/-- `strncmp`, on C strings without their terminators. -/
def strncmp : List UInt8 → List UInt8 → ℕ → ℤ
  | _, _, 0 => 0
  | [], [], _ + 1 => 0
  | _ :: _, [], _ + 1 => 1
  | [], _ :: _, _ + 1 => -1
  | a :: as, b :: bs, n + 1 => if a = b then strncmp as bs n else if a < b then -1 else 1

/-- The bytes of a C string. -/
def cBytes (s : String) : List UInt8 := s.toList.map fun c => UInt8.ofNat c.toNat

/-- The names the scan compares with, and how many bytes of each. -/
def gpuDrivers : List (String × ℕ) := [("nvidia", 6), ("nouveau", 7), ("amdgpu", 6), ("radeon", 6)]

/-- The condition of the scan: one of the comparisons gives 0. -/
def isGpuName (name : List UInt8) : Bool :=
  gpuDrivers.any fun p => strncmp name (cBytes p.1) p.2 == 0

/-- The four `snprintf` calls, into fields of 256 bytes. -/
def AttrPaths.print (dir : String) : AttrPaths where
  tempPath := snprintf 256 (dir ++ "/temp1_input")
  fanPath := snprintf 256 (dir ++ "/fan1_input")
  powerPath := snprintf 256 (dir ++ "/power1_average")
  freqPath := snprintf 256 (dir ++ "/freq1_input")

/-- `"/sys/class/hwmon/hwmon%d"`. -/
def hwmonDir (i : ℕ) : String := "/sys/class/hwmon/hwmon" ++ toString i

/-- The loop of `probe_hwmon_paths` with `k` directories ahead, the contents of `char name[64]` and
the paths in `gdev`. There is no result when an access is outside the buffer. -/
def probeLoop (kernelRead : String → Except Errno (List UInt8)) :
    ℕ → List UInt8 → AttrPaths → Option AttrPaths
  | 0, _, gdev => some gdev
  | k + 1, name, gdev =>
      let i := 10 - (k + 1)
      match kernelRead (snprintf 256 (hwmonDir i ++ "/name")) with
      | .error _ => probeLoop kernelRead k name gdev
      | .ok content =>
          -- `kernel_read(f, name, sizeof(name) - 1, &pos)`
          let n := min content.length 63
          let name := content.take 63 ++ name.drop n
          if n = 0 then probeLoop kernelRead k name gdev
          else
            match SysfsRead.store name.toArray n 0 with
            | none => none
            | some buf =>
                match SysfsRead.trimLoop buf n with
                | none => none
                | some buf =>
                    match SysfsRead.cString buf with
                    | none => none
                    | some s =>
                        if isGpuName s then some (.print (hwmonDir i))
                        else probeLoop kernelRead k buf.toList gdev

/-- `probe_hwmon_paths`, with the parameter `hwmon_path`, which may be null, what is on the stack in
`name`, and the paths in `gdev` before. -/
def probeHwmonPaths (kernelRead : String → Except Errno (List UInt8)) (hwmonPath : Option String)
    (name : Vector UInt8 64) (gdev : AttrPaths) : Option AttrPaths :=
  match hwmonPath with
  | some dir =>
      if dir.isEmpty then probeLoop kernelRead 10 name.toList gdev else some (.print dir)
  | none => probeLoop kernelRead 10 name.toList gdev

/-! ## What is looked for -/

/-- The name of a directory: what the first 63 bytes of its `name` hold up to the first zero,
without the blanks and newlines at their end. -/
def hwmonName (kernelRead : String → Except Errno (List UInt8)) (i : ℕ) : Option (List UInt8) :=
  match kernelRead (hwmonDir i ++ "/name") with
  | .error _ => none
  | .ok content => ((content.take 63).rdropWhile isTrimmed).takeWhile (· != 0)

/-- Whether the name of a directory begins with the one of a GPU driver. -/
def isGpuHwmon (kernelRead : String → Except Errno (List UInt8)) (i : ℕ) : Bool :=
  (hwmonName kernelRead i).any fun name =>
    gpuDrivers.any fun p => (cBytes p.1).isPrefixOf name

/-- The four attributes of a directory. -/
def AttrPaths.inDir (dir : String) : AttrPaths where
  tempPath := dir ++ "/temp1_input"
  fanPath := dir ++ "/fan1_input"
  powerPath := dir ++ "/power1_average"
  freqPath := dir ++ "/freq1_input"

/-- No attribute. -/
def AttrPaths.absent : AttrPaths where
  tempPath := ""
  fanPath := ""
  powerPath := ""
  freqPath := ""

/-- `strncmp` over the whole length of the second string tests for a prefix. -/
theorem strncmp_eq_zero_iff {a b : List UInt8} : strncmp a b b.length = 0 ↔ b <+: a := by
  induction b generalizing a with
  | nil => simp [strncmp]
  | cons x b ih =>
      cases a with
      | nil => simp [strncmp]
      | cons y a =>
          rw [List.length_cons, strncmp, List.cons_prefix_cons]
          by_cases hxy : y = x
          · rw [if_pos hxy, ih]
            simp [hxy]
          · rw [if_neg hxy]
            exact iff_of_false (by split <;> decide) fun h => hxy h.1.symm

/-- The comparisons test for the names of the drivers. -/
theorem isGpuName_eq (name : List UInt8) :
    isGpuName name = gpuDrivers.any fun p => (cBytes p.1).isPrefixOf name := by
  rw [isGpuName, Bool.eq_iff_iff, List.any_eq_true, List.any_eq_true]
  refine exists_congr fun p => and_congr_right fun hp => ?_
  have hlen : p.2 = (cBytes p.1).length := by
    revert p
    decide
  rw [beq_iff_eq, List.isPrefixOf_iff_prefix, hlen, strncmp_eq_zero_iff]

/-! ## The scan -/

/-- A text that fits is not cut. -/
theorem snprintf_of_lt {size : ℕ} {text : String} (h : text.length < size) :
    snprintf size text = text := by
  rw [snprintf, List.take_of_length_le (by rw [String.length_toList]; omega), String.ofList_toList]

/-- The number of a directory is one digit. -/
theorem length_hwmonDir : ∀ i < 10, (hwmonDir i).length = 23 := by decide

/-- The paths below a short directory are not cut. -/
theorem AttrPaths.print_eq {dir : String} (h : dir.length ≤ 240) :
    AttrPaths.print dir = .inDir dir := by
  have hfits : ∀ attr : String, attr.length ≤ 15 → snprintf 256 (dir ++ attr) = dir ++ attr :=
    fun attr hattr => snprintf_of_lt (by rw [String.length_append]; omega)
  rw [print, inDir, hfits _ (by decide), hfits _ (by decide), hfits _ (by decide),
    hfits _ (by decide)]

/-- Storing a byte keeps the size of the buffer. -/
private theorem size_store {buf buf' : Array UInt8} {i : ℕ} {b : UInt8}
    (h : SysfsRead.store buf i b = some buf') : buf'.size = buf.size := by
  rw [SysfsRead.store] at h
  split_ifs at h
  obtain rfl := Option.some.inj h
  exact Array.size_setIfInBounds

/-- Trimming keeps the size of the buffer. -/
private theorem size_trimLoop {buf buf' : Array UInt8} {n : ℕ}
    (h : SysfsRead.trimLoop buf n = some buf') : buf'.size = buf.size := by
  induction n generalizing buf with
  | zero =>
      obtain rfl := Option.some.inj h
      rfl
  | succ n ih =>
      rw [SysfsRead.trimLoop] at h
      split at h
      next => cases h
      next b hb =>
        split_ifs at h with htrim
        · split at h
          next => cases h
          next stored hstore => exact (ih h).trans (size_store hstore)
        · obtain rfl := Option.some.inj h
          rfl

/-- One name: the scan reads it without leaving the buffer, whatever an earlier name has left
there. -/
private theorem exists_name (content : List UInt8) {name : List UInt8}
    (hname : name.length = 64) :
    ∃ stored trimmed,
      SysfsRead.store (content.take 63 ++ name.drop (min content.length 63)).toArray
        (min content.length 63) 0 = some stored ∧
      SysfsRead.trimLoop stored (min content.length 63) = some trimmed ∧
      SysfsRead.cString trimmed
        = some (((content.take 63).rdropWhile isTrimmed).takeWhile (· != 0)) ∧
      trimmed.size = 64 := by
  generalize hl : content.take 63 = l
  have hlen : min content.length 63 = l.length := by
    rw [← hl, List.length_take, min_comm]
  -- at most 63 bytes were read, so there is room for the terminator
  obtain ⟨x, rest, hrest⟩ : ∃ x rest, name.drop l.length = x :: rest := by
    apply List.exists_cons_of_length_pos
    rw [List.length_drop]
    omega
  obtain ⟨rest', htrim⟩ := SysfsRead.trimLoop_toArray l rest
  have hstore := SysfsRead.store_toArray l x 0 rest
  rw [hlen, hrest]
  refine ⟨_, _, hstore, htrim, SysfsRead.cString_toArray _ _, ?_⟩
  rw [size_trimLoop htrim, List.size_toArray, List.length_append, List.length_cons]
  have hdrop := congrArg List.length hrest
  rw [List.length_drop, List.length_cons] at hdrop
  omega

variable {kernelRead : String → Except Errno (List UInt8)}

/-- From directory `10 - k` on the scan finds the first directory of a GPU driver. -/
private theorem probeLoop_eq (kernelRead : String → Except Errno (List UInt8)) {k : ℕ} (hk : k ≤ 10)
    {name : List UInt8} (hname : name.length = 64) (gdev : AttrPaths) :
    probeLoop kernelRead k name gdev = some
      (match (List.range' (10 - k) k).find? (isGpuHwmon kernelRead) with
        | some i => .inDir (hwmonDir i)
        | none => gdev) := by
  induction k generalizing name with
  | zero => rfl
  | succ k ih =>
      have hnext : 10 - (k + 1) + 1 = 10 - k := by omega
      have hdir := length_hwmonDir (10 - (k + 1)) (by omega)
      -- the path fits into `path[256]`
      have hpath : snprintf 256 (hwmonDir (10 - (k + 1)) ++ "/name")
          = hwmonDir (10 - (k + 1)) ++ "/name" :=
        snprintf_of_lt (by rw [String.length_append, hdir]; decide)
      rw [probeLoop, hpath, List.range'_succ, hnext, List.find?_cons, isGpuHwmon, hwmonName]
      cases kernelRead (hwmonDir (10 - (k + 1)) ++ "/name") with
      -- `continue`: what is left in `name` does not matter
      | error err => exact ih (by omega) hname
      | ok content =>
          obtain ⟨stored, trimmed, hstore, htrim, hstring, hsize⟩ := exists_name content hname
          simp only [hstore, htrim, hstring, Option.any_some, ← isGpuName_eq]
          by_cases hempty : min content.length 63 = 0
          · -- an empty name is the name of no driver
            obtain rfl : content = [] := List.eq_nil_of_length_eq_zero (by omega)
            exact ih (by omega) hname
          · rw [if_neg hempty]
            cases hgpu :
                isGpuName (((content.take 63).rdropWhile isTrimmed).takeWhile (· != 0)) with
            | true =>
                rw [if_pos rfl, AttrPaths.print_eq (by omega)]
            | false =>
                rw [if_neg Bool.false_ne_true]
                exact ih (by omega) (by rw [Array.length_toList, hsize])

/-- Without a path from the user, the scan decides. -/
theorem probeHwmonPaths_eq (kernelRead : String → Except Errno (List UInt8))
    {hwmonPath : Option String} (h : hwmonPath = none ∨ hwmonPath = some "")
    (name : Vector UInt8 64) (gdev : AttrPaths) :
    probeHwmonPaths kernelRead hwmonPath name gdev = some
      (match (List.range' 0 10).find? (isGpuHwmon kernelRead) with
        | some i => .inDir (hwmonDir i)
        | none => gdev) := by
  have hscan := probeLoop_eq kernelRead le_rfl name.length_toList gdev
  rcases h with rfl | rfl <;> exact hscan

/-- The first directory of a GPU driver. -/
theorem find?_isGpuHwmon_eq_some {i : ℕ} :
    (List.range' 0 10).find? (isGpuHwmon kernelRead) = some i ↔
      i < 10 ∧ isGpuHwmon kernelRead i = true ∧ ∀ j < i, isGpuHwmon kernelRead j = false := by
  rw [List.find?_range'_eq_some, List.mem_range'_1]
  simp only [Bool.not_eq_true', Nat.zero_le, true_and, forall_const, Nat.zero_add]
  exact and_left_comm

/-- There is no directory of a GPU driver. -/
theorem find?_isGpuHwmon_eq_none :
    (List.range' 0 10).find? (isGpuHwmon kernelRead) = none ↔
      ∀ i < 10, isGpuHwmon kernelRead i = false := by
  rw [List.find?_range'_eq_none]
  simp

/-- **The scan finds the first GPU.** Whatever the directories hold and whatever is on the stack,
`probe_hwmon_paths` stays inside its buffer. Without a path from the user the four attributes are
those of the first of the ten directories whose name begins with the one of a GPU driver; where
there is none, they are left as they were. A path from the user is taken as it is and not looked at,
up to the 255 bytes that fit. -/
theorem probe_first_gpu (kernelRead : String → Except Errno (List UInt8)) (name : Vector UInt8 64)
    (gdev : AttrPaths) :
    (∀ hwmonPath, hwmonPath = none ∨ hwmonPath = some "" →
      ∃ paths, probeHwmonPaths kernelRead hwmonPath name gdev = some paths ∧
        ((∀ i < 10, isGpuHwmon kernelRead i = false) ∧ paths = gdev ∨
          ∃ i < 10, isGpuHwmon kernelRead i = true ∧
            (∀ j < i, isGpuHwmon kernelRead j = false) ∧ paths = .inDir (hwmonDir i))) ∧
    ∀ dir, dir ≠ "" → ∃ paths, probeHwmonPaths kernelRead (some dir) name gdev = some paths ∧
      (dir.length ≤ 240 → paths = .inDir dir) ∧
      paths.tempPath.toList = (dir ++ "/temp1_input").toList.take 255 ∧
      paths.fanPath.toList = (dir ++ "/fan1_input").toList.take 255 ∧
      paths.powerPath.toList = (dir ++ "/power1_average").toList.take 255 ∧
      paths.freqPath.toList = (dir ++ "/freq1_input").toList.take 255 := by
  constructor
  · intro hwmonPath hnone
    refine ⟨_, probeHwmonPaths_eq kernelRead hnone name gdev, ?_⟩
    cases hfind : (List.range' 0 10).find? (isGpuHwmon kernelRead) with
    | none => exact .inl ⟨find?_isGpuHwmon_eq_none.mp hfind, rfl⟩
    | some i =>
        obtain ⟨hi, hgpu, hfirst⟩ := find?_isGpuHwmon_eq_some.mp hfind
        exact .inr ⟨i, hi, hgpu, hfirst, rfl⟩
  · intro dir hdir
    -- the four names are put behind the path, and cut
    have hne : dir.isEmpty = false := by simpa using hdir
    refine ⟨.print dir, by simp [probeHwmonPaths, hne], AttrPaths.print_eq, ?_⟩
    simp [AttrPaths.print, snprintf]

/-- A machine with a sensor of the processor and a GPU: `hwmon0` is `coretemp` and `hwmon2` is
`amdgpu`, each with a newline. -/
def twoHwmons (path : String) : Except Errno (List UInt8) :=
  if path = "/sys/class/hwmon/hwmon0/name" then .ok (cBytes "coretemp\n")
  else if path = "/sys/class/hwmon/hwmon2/name" then .ok (cBytes "amdgpu\n")
  else .error .ENOENT

/-- The attributes are those of `hwmon2`. -/
theorem probe_first_gpu_second :
    probeHwmonPaths twoHwmons none (Vector.replicate 64 0xff) .absent
      = some (.inDir "/sys/class/hwmon/hwmon2") := by
  obtain ⟨paths, hprobe, ⟨hno, -⟩ | ⟨i, hi, hgpu, hfirst, rfl⟩⟩ :=
    (probe_first_gpu twoHwmons (Vector.replicate 64 0xff) .absent).1 none (.inl rfl)
  · exact absurd (hno 2 (by decide)) (by decide)
  · have hnone : ∀ j < 10, isGpuHwmon twoHwmons j = true → j = 2 := by decide
    obtain rfl := hnone i hi hgpu
    exact hprobe

end GpuTelem
