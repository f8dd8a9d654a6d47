import SyLog.Sinks.CrashSafety
import SyLog.Sinks.SizeRotation

set_option autoImplicit false

/-! # How much of the disk a log takes

A path on which one process after another opens a sink whose mode rotates by size, with whatever
limits and dates. The files of the path stay bounded, and no other file is touched, also where
processes die in the middle of a rotation (`disk_usage_bounded`). -/

namespace SyLog

open RotatingFileSink

variable {ω : Type} {k : Int} {path : Bytes} {limit : UInt64} {bound : Nat}
  {s : RotatingFileSink ω}

/-! ## Limits -/

/-- The mode rotates before the active file comes to exceed `limit`. -/
def RotationMode.Limits (limit : UInt64) (mode : RotationMode ω) : Prop :=
  ∀ w ctx, limit < ctx.currentSize + ctx.incomingBytes → mode.shouldRotate w ctx = true

theorem limits_fileSizeExceeds {maxBytes : UInt64} (h : maxBytes ≤ limit) (keepFiles : Int) :
    (RotationMode.fileSizeExceeds (ω := ω) maxBytes keepFiles).Limits limit :=
  fun _ _ hctx => decide_eq_true (UInt64.lt_of_le_of_lt h hctx)

theorem limits_fileSizeExceedsOrNewDayBegins {maxBytes : UInt64} (h : maxBytes ≤ limit)
    (keepFiles : Int) :
    (RotationMode.fileSizeExceedsOrNewDayBegins (ω := ω) maxBytes keepFiles).Limits limit := by
  intro w ctx hctx
  have hsize := limits_fileSizeExceeds (ω := ω) h keepFiles w ctx hctx
  rw [RotationMode.fileSizeExceedsOrNewDayBegins]
  simp [hsize]

def KeepsArchives.Limits (limit : UInt64) (mode : KeepsArchives ω k) : Prop :=
  ∃ m, mode.1 = some m ∧ m.Limits limit

/-- What is written is no larger than `bound`, and the modes limit the active file. -/
def ProcessStep.Within (limit : UInt64) (bound : Nat) : ProcessStep ω k → Prop
  | .call c => ∀ data ∈ c.records, data.length ≤ bound
  | .restart mode _ => mode.Limits limit
  | .crash _ mode _ => mode.Limits limit

/-! ## The invariant -/

structure Bounded (path : Bytes) (k : Int) (limit : UInt64) (bound : Nat) (s : RotatingFileSink ω) :
    Prop where
  inUse : ∃ mode, InUse path mode s ∧ mode.maxArchivedFiles = k ∧ mode.Limits limit
  files : Files.Each (nameAt path) k.toNat (fun data => data.length ≤ bound) s.contents

theorem Bounded.sinkOn (h : Bounded path k limit bound s) : SinkOn path k s := by
  obtain ⟨mode, hin, hkeep, -⟩ := h.inUse
  exact ⟨hin.opened, hin.path_eq, hin.keep_eq.trans hkeep⟩

/-- On disk there is no more than that. -/
theorem Bounded.onDisk (h : Bounded path k limit bound s) :
    Files.Each (nameAt path) k.toNat (fun data => data.length ≤ bound) s.files := by
  intro j hj data hdata
  by_cases hactive : nameAt path j = path
  · have hmore : s.contents (nameAt path j) = some (data ++ s.ofs.getD []) := by
      rw [contents, h.sinkOn.path_eq, hactive, Files.append, Files.store_self, Files.content,
        ← hactive, hdata, Option.getD_some]
    have hlength : (data ++ s.ofs.getD []).length ≤ bound := h.files j hj _ hmore
    rw [List.length_append] at hlength
    omega
  · refine h.files j hj data ?_
    rw [contents, h.sinkOn.path_eq, Files.append, Files.store_of_ne _ _ hactive, hdata]

/-- A sink that is opened on bounded files. -/
theorem bounded_construct {files : FileSystem} {mode : KeepsArchives ω k}
    (hmode : mode.Limits limit) (today : Bytes)
    (hfiles : Files.Each (nameAt path) k.toNat (fun data => data.length ≤ bound) files) :
    Bounded path k limit bound (construct files path mode.1 today) := by
  obtain ⟨m, hm, hlimits⟩ := hmode
  have hkeep : m.maxArchivedFiles = k := by
    have := mode.2
    rwa [hm] at this
  refine ⟨⟨m, ?_, hkeep, hlimits⟩, ?_⟩
  · rw [hm]
    exact construct_inUse files path m today
  · rw [construct_contents, Files.append, List.append_nil]
    refine hfiles.store path ?_
    cases hactive : files path with
    | none => simp [Files.content, hactive]
    | some data => simpa [Files.content, hactive] using hfiles 0 (Nat.zero_le _) data hactive

theorem Bounded.active_le (h : Bounded path k limit bound s) : s.active.length ≤ bound := by
  refine h.files 0 (Nat.zero_le _) _ ?_
  rw [active, contents, nameAt_zero, h.sinkOn.path_eq, Files.append, Files.content_store,
    Files.store_self]

/-- A write that does not rotate stays below the limit. -/
theorem Bounded.unrotated_le (h : Bounded path k limit bound s) (hlimit : limit.toNat ≤ bound)
    (hbound : 2 * bound < 2 ^ 64) {data today : Bytes} {w : ω} (hdata : data.length ≤ bound)
    (hr : s.rotates data.length.toUInt64 today w = false) :
    s.active.length + data.length ≤ bound := by
  obtain ⟨mode, hin, -, hlimits⟩ := h.inUse
  have hactive := h.active_le
  have hsize : s.currentSize.toNat = s.active.length := hin.sized.toNat_currentSize (by omega)
  have hle : ¬ limit < s.currentSize + data.length.toUInt64 := by
    intro hlt
    have hrotates := hlimits w ⟨s.currentSize, data.length.toUInt64, s.openedDay, today⟩ hlt
    rw [rotates, hin.mode_eq] at hr
    exact absurd (hr.symm.trans hrotates) (by decide)
  rw [UInt64.not_lt, UInt64.le_iff_toNat_le, UInt64.toNat_add, Nat.toUInt64_eq,
    UInt64.toNat_ofNat', Nat.mod_eq_of_lt (show data.length < 2 ^ 64 by omega), hsize,
    Nat.mod_eq_of_lt (by omega)] at hle
  exact hle.trans hlimit

theorem Bounded.act (h : Bounded path k limit bound s) (hlimit : limit.toNat ≤ bound)
    (hbound : 2 * bound < 2 ^ 64) {c : Call ω} (hc : ∀ data ∈ c.records, data.length ≤ bound) :
    Bounded path k limit bound (s.act c) := by
  obtain ⟨mode, hin, hmode⟩ := h.inUse
  obtain ⟨-, -, -, hcontents⟩ := act_of_open h.sinkOn.opened c
  refine ⟨⟨mode, hin.act c, hmode⟩, ?_⟩
  rw [hcontents, h.sinkOn.path_eq, h.sinkOn.keep_eq]
  cases hr : c.rotates s with
  | true =>
      rw [if_pos rfl]
      refine (h.files.rotate (Nat.zero_le _)).store path ?_
      cases c with
      | write data today w =>
          rw [Files.rotate, nameAt_zero, Files.content_store]
          simpa [Call.records] using hc data List.mem_cons_self
      | flush => cases hr
      | spill n => cases hr
  | false =>
      rw [if_neg (by simp)]
      refine h.files.store path ?_
      have hsame : s.contents.content path = s.active := by rw [active, h.sinkOn.path_eq]
      rw [hsame, List.length_append]
      cases c with
      | write data today w =>
          have hle := h.unrotated_le hlimit hbound (hc data List.mem_cons_self) hr
          simpa [Call.records] using hle
      | flush => simpa [Call.records] using h.active_le
      | spill n => simpa [Call.records] using h.active_le

/-- A death leaves bounded files. -/
theorem Bounded.crashFiles (h : Bounded path k limit bound s) (point : CrashPoint ω) :
    Files.Each (nameAt path) k.toNat (fun data => data.length ≤ bound) (s.crashFiles point) := by
  have hclosed := closeStream_of_open h.sinkOn.opened
  cases point with
  | idle => exact h.onDisk
  | shifting c m =>
      rw [RotatingFileSink.crashFiles]
      split
      · rw [hclosed, h.sinkOn.path_eq, h.sinkOn.keep_eq]
        exact h.files.shiftDownTo m
      · exact h.onDisk
  | reopened c =>
      rw [RotatingFileSink.crashFiles]
      split
      · have hrotated := h.files.rotate (k := k.toNat) (Nat.zero_le _)
        rw [hclosed, rotateFiles_eq]
        simpa [openTrunc, Files.rotate, keep, h.sinkOn.path_eq, ← h.sinkOn.keep_eq] using hrotated
      · exact h.onDisk

/-- **Step lemma.** -/
theorem Bounded.step (h : Bounded path k limit bound s) (hlimit : limit.toNat ≤ bound)
    (hbound : 2 * bound < 2 ^ 64) {step : ProcessStep ω k} (hstep : step.Within limit bound) :
    Bounded path k limit bound (s.processStep step) := by
  have hpath := h.sinkOn.path_eq
  cases step with
  | call c => exact h.act hlimit hbound hstep
  | restart mode today =>
      rw [processStep, closeStream_of_open h.sinkOn.opened, hpath]
      exact bounded_construct hstep today h.files
  | crash point mode today =>
      rw [processStep, hpath]
      exact bounded_construct hstep today (h.crashFiles point)

theorem Bounded.run (h : Bounded path k limit bound s) (hlimit : limit.toNat ≤ bound)
    (hbound : 2 * bound < 2 ^ 64) {steps : List (ProcessStep ω k)}
    (hsteps : ∀ step ∈ steps, step.Within limit bound) :
    Bounded path k limit bound (s.runSteps steps) := by
  induction steps generalizing s with
  | nil => exact h
  | cons step steps ih =>
      obtain ⟨hstep, hrest⟩ := List.forall_mem_cons.1 hsteps
      exact ih (h.step hlimit hbound hstep) hrest

/-! ## Other files -/

theorem append_other (files : FileSystem) {path n : Bytes} (h : n ≠ path) (data : Bytes) :
    files.append path data n = files n := Files.store_of_ne _ _ h

/-- A step touches the files of the path only. -/
theorem SinkOn.step_other (h : SinkOn path k s) (step : ProcessStep ω k) {n : Bytes}
    (hn : ∀ j ≤ k.toNat, n ≠ nameAt path j) : (s.processStep step).files n = s.files n := by
  have hactive : n ≠ path := hn 0 (Nat.zero_le _)
  have hcontents : s.contents n = s.files n := by
    rw [contents, h.path_eq]
    exact append_other _ hactive _
  have hclosed := closeStream_of_open h.opened
  -- opening touches the active file
  have hopen : ∀ (files : FileSystem) (mode : KeepsArchives ω k) (today : Bytes),
      (RotatingFileSink.construct files s.path mode.1 today).files n = files n := by
    intro files mode today
    rw [h.path_eq]
    exact append_other files hactive []
  cases step with
  | call c =>
      rcases act_files h.opened c with ⟨-, hfiles⟩ | ⟨-, out, hfiles⟩
      · rw [processStep, hfiles, h.path_eq, h.keep_eq, Files.rotate_of_ne _ _ hn, hcontents]
      · rw [processStep, hfiles, h.path_eq]
        exact append_other _ hactive out
  | restart mode today =>
      rw [processStep, hopen, hclosed]
      exact hcontents
  | crash point mode today =>
      rw [processStep, hopen]
      cases point with
      | idle => rfl
      | shifting c m =>
          rw [crashFiles]
          split
          · rw [hclosed, h.path_eq, h.keep_eq, Files.shiftDownTo_of_ne _ _ _ hn]
            exact hcontents
          · rfl
      | reopened c =>
          rw [crashFiles]
          split
          · rw [hclosed, rotateFiles_eq]
            have hrotated := Files.rotate_of_ne k.toNat s.contents hn
            simpa [openTrunc, Files.rotate, keep, h.path_eq, ← h.keep_eq, hcontents] using hrotated
          · rfl

theorem SinkOn.run_other (h : SinkOn path k s) (steps : List (ProcessStep ω k)) {n : Bytes}
    (hn : ∀ j ≤ k.toNat, n ≠ nameAt path j) : (s.runSteps steps).files n = s.files n := by
  induction steps generalizing s with
  | nil => rfl
  | cons step steps ih => exact (ih (h.step step)).trans (h.step_other step hn)

/-- **Bounded disk usage.** Where every mode rotates before the active file comes to exceed a limit,
    and neither the limit, a file that was there first nor a record is larger than `bound`, every
    file of the path stays within `bound`, and the path takes at most `k + 1` times that, through
    restarts and deaths at any point. Files with other names stay as they are. -/
theorem disk_usage_bounded (files : FileSystem) (path : Bytes) {mode : KeepsArchives ω k}
    (today : Bytes) {limit : UInt64} {bound : Nat} {steps : List (ProcessStep ω k)}
    (hmode : mode.Limits limit) (hsteps : ∀ step ∈ steps, step.Within limit bound)
    (hlimit : limit.toNat ≤ bound) (hbound : 2 * bound < 2 ^ 64)
    (hfiles : ∀ j ≤ k.toNat, ∀ data, files (nameAt path j) = some data → data.length ≤ bound) :
    let s := (construct files path mode.1 today).runSteps steps
    (∀ j ≤ k.toNat, ∀ data, s.files (nameAt path j) = some data → data.length ≤ bound) ∧
    s.onDisk.length ≤ (k.toNat + 1) * bound ∧
    ∀ n, (∀ j ≤ k.toNat, n ≠ nameAt path j) → s.files n = files n := by
  intro s
  have hs : Bounded path k limit bound s :=
    (bounded_construct hmode today hfiles).run hlimit hbound hsteps
  refine ⟨hs.onDisk, ?_, fun n hn => ?_⟩
  · rw [RotatingFileSink.onDisk, hs.sinkOn.path_eq, hs.sinkOn.keep_eq]
    exact Files.length_chain_le hs.onDisk
  · have hrest := (SinkOn.construct files path mode today).run_other steps hn
    rw [hrest]
    exact append_other files (hn 0 (Nat.zero_le _)) []

/-- A limit of four bytes and one archive, with a death in a rotation. -/
theorem disk_usage_bounded_four_bytes :
    let mode : KeepsArchives Unit 1 := ⟨some (.fileSizeExceedsOrNewDayBegins 4 1), rfl⟩
    let steps : List (ProcessStep Unit 1) := [.call (.write (bytes "one\n") [] ()),
      .crash (.shifting (.write (bytes "two\n") [] ()) 0) mode [],
      .call (.write (bytes "three\n") [] ())]
    ((construct (fun _ => none) (bytes "a") mode.1 []).runSteps steps).onDisk.length
      ≤ 2 * 6 := by
  intro mode steps
  have hmode : mode.Limits 4 :=
    ⟨_, rfl, limits_fileSizeExceedsOrNewDayBegins (UInt64.le_refl 4) 1⟩
  have hsteps : ∀ step ∈ steps, step.Within 4 6 := by
    intro step hstep
    simp only [steps, List.mem_cons, List.not_mem_nil, or_false] at hstep
    rcases hstep with rfl | rfl | rfl
    · exact fun data hdata => by rw [List.mem_singleton.1 hdata]; decide
    · exact hmode
    · exact fun data hdata => by rw [List.mem_singleton.1 hdata]; decide
  exact (disk_usage_bounded (fun _ => none) (bytes "a") [] hmode hsteps (by decide) (by decide)
    (fun j hj data hdata => by cases hdata)).2.1

end SyLog
