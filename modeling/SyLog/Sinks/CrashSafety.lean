import SyLog.Library.DurableLog
import SyLog.Sinks.RotatingFileSink

set_option autoImplicit false

/-! # What a crash takes from a file sink

A path on which one process after another opens a sink, with any modes that keep the same number of
archives. A process may end in order, which closes its stream, or die at any moment, with bytes that
the stream has not handed over; a rotation closes the stream as well.

The path refines a durable log (`durable_log`): archives and active file together hold the end of
the log, of which a death takes only what was written after the last flush. -/

namespace SyLog

open RotatingFileSink

variable {ω : Type} {k : Int}

/-- A mode that keeps `k` archives; none stands for `never_rotate`. -/
def KeepsArchives (ω : Type) (k : Int) : Type :=
  { rotation : Option (RotationMode ω) // (rotation.getD .never).maxArchivedFiles = k }

/-- Where a process dies. -/
inductive CrashPoint (ω : Type) where
  /-- between two calls -/
  | idle
  /-- in a rotation, after the renamings down to that of `name m` -/
  | shifting (c : Call ω) (m : Nat)
  /-- in a rotation that has opened the new file -/
  | reopened (c : Call ω)

inductive ProcessStep (ω : Type) (k : Int) where
  | call (c : Call ω)
  /-- the process ends, and another one opens the sink -/
  | restart (mode : KeepsArchives ω k) (today : Bytes)
  /-- the process dies, and another one opens the sink -/
  | crash (point : CrashPoint ω) (mode : KeepsArchives ω k) (today : Bytes)

namespace RotatingFileSink

/-- The files without what the stream keeps back, from `.k` to the active one. -/
def onDisk (s : RotatingFileSink ω) : Bytes :=
  Files.chain (nameAt s.path) s.keep.toNat s.files

/-- What a process leaves that dies; a call that does not rotate is not interrupted. -/
def crashFiles (s : RotatingFileSink ω) : CrashPoint ω → FileSystem
  | .idle => s.files
  | .shifting c m =>
      if c.rotates s then
        Files.shiftDownTo (nameAt s.path) m s.keep.toNat s.closeStream.files
      else s.files
  | .reopened c => if c.rotates s then (openTrunc (rotateFiles s.closeStream)).files else s.files

def processStep (s : RotatingFileSink ω) : ProcessStep ω k → RotatingFileSink ω
  | .call c => s.act c
  | .restart mode today => construct s.closeStream.files s.path mode.1 today
  | .crash point mode today => construct (s.crashFiles point) s.path mode.1 today

def runSteps (s : RotatingFileSink ω) (steps : List (ProcessStep ω k)) : RotatingFileSink ω :=
  steps.foldl processStep s

/-- The step begins a rotation. -/
def rotatesIn (s : RotatingFileSink ω) : ProcessStep ω k → Bool
  | .call c => c.rotates s
  | .restart _ _ => false
  | .crash .idle _ _ => false
  | .crash (.shifting c _) _ _ => c.rotates s
  | .crash (.reopened c) _ _ => c.rotates s

/-- The rotations that a run begins. -/
def rotations (s : RotatingFileSink ω) : List (ProcessStep ω k) → Nat
  | [] => 0
  | step :: steps => (s.rotatesIn step).toNat + rotations (s.processStep step) steps

/-- There is no room for one more archive. -/
def Full (s : RotatingFileSink ω) (k : Int) : Prop :=
  k ≤ 0 ∨ (s.contents (nameAt s.path k.toNat)).isSome

/-- No step of the run begins a rotation without room. -/
def NoneEvicts (s : RotatingFileSink ω) : List (ProcessStep ω k) → Prop
  | [] => True
  | step :: steps =>
    ¬ (s.rotatesIn step = true ∧ s.Full k) ∧ NoneEvicts (s.processStep step) steps

/-- What a call is to the log. -/
def Call.acts : Call ω → List (DurableLog.Act UInt8)
  | .write data _ _ => [.write data]
  | .flush => [.sync]
  | .spill _ => []

end RotatingFileSink

def ProcessStep.acts : ProcessStep ω k → List (DurableLog.Act UInt8)
  | .call c => c.acts
  | .restart _ _ => [.sync]
  | .crash _ _ _ => [.crash]

/-! ## The relation -/

/-- An open sink of the path. -/
structure SinkOn (path : Bytes) (k : Int) (s : RotatingFileSink ω) : Prop where
  opened : s.Open
  path_eq : s.path = path
  keep_eq : s.keep = k

/-- Behind what is lost, the path holds `initial` and the log, and the stream keeps back an end of
    what is recent. -/
structure Logged (path initial : Bytes) (k : Int) (lost : Bytes) (s : RotatingFileSink ω)
    (log : DurableLog UInt8) : Prop extends SinkOn path k s where
  holds : lost ++ s.history = initial ++ log.all
  kept : s.ofs.getD [] <:+ log.recent

variable {path initial lost data : Bytes} {s : RotatingFileSink ω} {log : DurableLog UInt8}

theorem SinkOn.construct (files : FileSystem) (path : Bytes) (mode : KeepsArchives ω k)
    (today : Bytes) : SinkOn path k (construct files path mode.1 today) :=
  ⟨construct_open files path mode.1 today, rfl, mode.2⟩

theorem SinkOn.act (h : SinkOn path k s) (c : Call ω) : SinkOn path k (s.act c) := by
  obtain ⟨hopen, hpath, hkeep, -⟩ := act_of_open h.opened c
  exact ⟨hopen, hpath.trans h.path_eq, hkeep.trans h.keep_eq⟩

theorem SinkOn.step (h : SinkOn path k s) (step : ProcessStep ω k) :
    SinkOn path k (s.processStep step) := by
  cases step with
  | call c => exact h.act c
  | restart mode today => exact h.path_eq ▸ .construct _ _ mode today
  | crash point mode today => exact h.path_eq ▸ .construct _ _ mode today

theorem SinkOn.run (h : SinkOn path k s) (steps : List (ProcessStep ω k)) :
    SinkOn path k (s.runSteps steps) := by
  induction steps generalizing s with
  | nil => exact h
  | cons step steps ih => exact ih (h.step step)

/-- A closed stream has handed over what it kept back. -/
theorem closeStream_of_open (h : s.Open) :
    s.closeStream = { s with files := s.contents, ofs := none } := by
  obtain ⟨kept, hkept⟩ := h.ofs_eq
  simp [closeStream, contents, hkept]

/-- What the stream keeps back comes after what is on disk. -/
theorem history_eq_onDisk (s : RotatingFileSink ω) : s.history = s.onDisk ++ s.ofs.getD [] := by
  have happend := Files.chain_append (nameAt_injective s.path) s.keep.toNat s.files (s.ofs.getD [])
  rwa [nameAt_zero] at happend

/-- What is on disk is what is safe, and the beginning of what is recent. -/
theorem Logged.onDisk (h : Logged path initial k lost s log) :
    ∃ left, left <+: log.recent ∧ lost ++ s.onDisk = initial ++ log.safe ++ left := by
  obtain ⟨left, hleft⟩ := h.kept
  refine ⟨left, ⟨_, hleft⟩, ?_⟩
  have hholds := h.holds
  rw [history_eq_onDisk, DurableLog.all, ← hleft, ← List.append_assoc, ← List.append_assoc,
    ← List.append_assoc] at hholds
  exact List.append_cancel_right hholds

/-- A sink that is opened on what is on disk. -/
theorem logged_construct {files : FileSystem} {safe : Bytes} (mode : KeepsArchives ω k)
    (today : Bytes) (hfiles : lost ++ Files.chain (nameAt path) k.toNat files = initial ++ safe) :
    Logged path initial k lost (construct files path mode.1 today) ⟨safe, []⟩ := by
  have hkeep : (construct files path mode.1 today).keep = k := mode.2
  have hhistory : (construct files path mode.1 today).history
      = Files.chain (nameAt path) k.toNat files := by
    have happend := Files.chain_append (nameAt_injective path) k.toNat files []
    rw [nameAt_zero, List.append_nil] at happend
    rw [history, hkeep, construct_contents]
    exact happend
  refine ⟨.construct files path mode today, ?_, List.nil_suffix⟩
  rw [hhistory, DurableLog.all, List.append_nil]
  exact hfiles

/-- **A rotation** loses at most an old end, and nothing as long as there is room. -/
theorem chain_of_rotate (hkeep : s.keep = k) :
    ∃ out, out ++ Files.chain (nameAt s.path) k.toNat
        (Files.rotate (nameAt s.path) k.toNat s.contents) = s.history ∧
      (¬ s.Full k → out = []) := by
  obtain ⟨out, hout⟩ :=
    Files.chain_rotate_suffix (nameAt_injective s.path) k.toNat s.contents
  have hhistory : s.history = Files.chain (nameAt s.path) k.toNat s.contents := by
    rw [history, hkeep]
  refine ⟨out, hout.trans hhistory.symm, fun hroom => ?_⟩
  obtain ⟨hpos, hnone⟩ := not_or.1 hroom
  obtain ⟨n, hn⟩ : ∃ n, k.toNat = n + 1 := ⟨k.toNat - 1, by omega⟩
  rw [hn] at hout hnone
  rw [Files.chain_rotate (nameAt_injective s.path), Files.chain, Files.content,
    Option.not_isSome_iff_eq_none.1 hnone] at hout
  simpa using hout

/-- **A call** loses at most an old end, and nothing as long as there is room. -/
theorem history_of_call (h : s.Open) (hkeep : s.keep = k) (c : Call ω) :
    ∃ out, s.history ++ c.records.flatten = out ++ (s.act c).history ∧
      (¬ (c.rotates s = true ∧ s.Full k) → out = []) := by
  obtain ⟨-, hpath, hkeep', hcontents⟩ := act_of_open h c
  have hhistory : (s.act c).history = Files.chain (nameAt s.path) s.keep.toNat
      (if c.rotates s then Files.rotate (nameAt s.path) s.keep.toNat s.contents
        else s.contents) ++ c.records.flatten := by
    rw [history, hpath, hkeep', hcontents]
    exact Files.chain_append (nameAt_injective s.path) _ _ _
  by_cases hr : c.rotates s = true
  · obtain ⟨out, hout, hroom⟩ := chain_of_rotate hkeep
    rw [if_pos hr, hkeep] at hhistory
    exact ⟨out, by rw [hhistory, ← hout, List.append_assoc], fun hnot => hroom (not_and.1 hnot hr)⟩
  · rw [if_neg hr] at hhistory
    exact ⟨[], hhistory.symm, fun _ => rfl⟩

/-- **A death in a rotation** does so too; the stream is closed then. -/
theorem chain_crashFiles (h : s.Open) (hkeep : s.keep = k) {c : Call ω} (hr : c.rotates s = true)
    {point : CrashPoint ω} (hpoint : (∃ m, point = .shifting c m) ∨ point = .reopened c) :
    ∃ out, out ++ Files.chain (nameAt s.path) k.toNat (s.crashFiles point) = s.history ∧
      (¬ s.Full k → out = []) := by
  have hclosed := closeStream_of_open h
  rcases hpoint with ⟨m, rfl⟩ | rfl
  · obtain ⟨out, hout, hnone⟩ :=
      Files.chain_shiftDownTo (nameAt_injective s.path) m k.toNat s.contents
    refine ⟨out, ?_, fun hroom => hnone ?_⟩
    · rw [crashFiles, if_pos hr, hclosed, hkeep, hout, history, hkeep]
    · obtain ⟨-, hfree⟩ := not_or.1 hroom
      exact Option.not_isSome_iff_eq_none.1 hfree
  · obtain ⟨out, hout, hroom⟩ := chain_of_rotate hkeep
    refine ⟨out, ?_, hroom⟩
    rw [← hout, crashFiles, if_pos hr, hclosed, rotateFiles_eq, ← hkeep]
    rfl

theorem ofs_write (h : s.Open) (data today : Bytes) (w : ω) :
    (s.write data today w).ofs.getD [] <:+ s.ofs.getD [] ++ data := by
  obtain ⟨kept, hkept⟩ := h.ofs_eq
  have hopen : (if s.ofs.isNone then s.openIfNeeded today else s) = s := by simp [hkept]
  rw [write, hopen]
  by_cases hr : s.rotates data.length.toUInt64 today w = true
  · rw [rotateIfNeeded_eq h hr, hkept]
    exact List.suffix_append kept data
  · rw [rotateIfNeeded, if_neg hr, hkept]
    exact List.suffix_refl _

/-- A death between two calls takes what the stream keeps back. -/
theorem Logged.crash_idle (h : Logged path initial k lost s log) (mode : KeepsArchives ω k)
    (today : Bytes) :
    ∃ out log', DurableLog.Run log [.crash] log' ∧
      Logged path initial k (lost ++ out) (construct s.files s.path mode.1 today) log' ∧
      out = [] := by
  obtain ⟨left, hleft, hdisk⟩ := h.onDisk
  refine ⟨[], ⟨log.safe ++ left, []⟩, .single (.crash left hleft), ?_, rfl⟩
  rw [List.append_nil, h.path_eq]
  refine logged_construct mode today ?_
  rw [← List.append_assoc, ← hdisk, RotatingFileSink.onDisk, h.path_eq, h.keep_eq]

/-- A death in a rotation takes what that evicts, and nothing at the new end. -/
theorem Logged.crash_rotating (h : Logged path initial k lost s log) {c : Call ω}
    (hr : c.rotates s = true) {point : CrashPoint ω}
    (hpoint : (∃ m, point = .shifting c m) ∨ point = .reopened c) (mode : KeepsArchives ω k)
    (today : Bytes) :
    ∃ out log', DurableLog.Run log [.crash] log' ∧
      Logged path initial k (lost ++ out) (s.processStep (.crash point mode today)) log' ∧
      (¬ s.Full k → out = []) := by
  obtain ⟨out, hout, hroom⟩ := chain_crashFiles h.opened h.keep_eq hr hpoint
  refine ⟨out, ⟨log.all, []⟩, .single (.crash _ (List.prefix_refl _)), ?_, hroom⟩
  rw [processStep, h.path_eq]
  refine logged_construct mode today ?_
  rw [List.append_assoc, ← h.path_eq, hout, h.holds]

/-- **One step.** The log goes on, and more is lost only where an archive has to go. -/
theorem Logged.step (h : Logged path initial k lost s log) (step : ProcessStep ω k) :
    ∃ out log', DurableLog.Run log step.acts log' ∧
      Logged path initial k (lost ++ out) (s.processStep step) log' ∧
      (¬ (s.rotatesIn step = true ∧ s.Full k) → out = []) := by
  cases step with
  | call c =>
      obtain ⟨out, hout, hroom⟩ := history_of_call h.opened h.keep_eq c
      have hholds : ∀ log' : DurableLog UInt8, log'.all = log.all ++ c.records.flatten →
          (lost ++ out) ++ (s.act c).history = initial ++ log'.all := by
        intro log' hlog'
        rw [List.append_assoc, ← hout, ← List.append_assoc, h.holds, hlog', List.append_assoc]
      have hlogged : ∀ log' : DurableLog UInt8, log'.all = log.all ++ c.records.flatten →
          (s.act c).ofs.getD [] <:+ log'.recent →
          Logged path initial k (lost ++ out) (s.act c) log' :=
        fun log' hall hkept => ⟨h.act c, hholds log' hall, hkept⟩
      refine ⟨out, ?_⟩
      cases c with
      | write data today w =>
          refine ⟨⟨log.safe, log.recent ++ data⟩, .single (.write data), hlogged _ ?_ ?_, hroom⟩
          · simp [DurableLog.all, Call.records]
          · obtain ⟨left, hleft⟩ := h.kept
            refine (ofs_write h.opened data today w).trans ⟨left, ?_⟩
            rw [← hleft, List.append_assoc]
      | flush =>
          obtain ⟨kept, hkept⟩ := h.opened.ofs_eq
          refine ⟨⟨log.all, []⟩, .single .sync, hlogged _ ?_ ?_, hroom⟩
          · simp [DurableLog.all, Call.records]
          · simp [act, flush, hkept]
      | spill n =>
          obtain ⟨kept, hkept⟩ := h.opened.ofs_eq
          refine ⟨log, .nil, hlogged _ ?_ ?_, hroom⟩
          · simp [Call.records]
          · have hold := h.kept
            rw [hkept, Option.getD_some] at hold
            rw [act, spill, hkept]
            exact (List.drop_suffix n kept).trans hold
  | restart mode today =>
      have hfiles : s.closeStream.files = s.contents := by rw [closeStream_of_open h.opened]
      have hholds := h.holds
      refine ⟨[], ⟨log.all, []⟩, .single .sync, ?_, fun _ => rfl⟩
      rw [List.append_nil]
      show Logged path initial k lost (construct s.closeStream.files s.path mode.1 today) _
      rw [hfiles, h.path_eq]
      refine logged_construct mode today ?_
      rwa [history, h.path_eq, h.keep_eq] at hholds
  | crash point mode today =>
      have hidle := h.crash_idle mode today
      cases point with
      | idle =>
          obtain ⟨out, log', hrun, hlogged, hnone⟩ := hidle
          exact ⟨out, log', hrun, hlogged, fun _ => hnone⟩
      | shifting c m =>
          by_cases hr : c.rotates s = true
          · obtain ⟨out, log', hrun, hlogged, hroom⟩ :=
              h.crash_rotating hr (Or.inl ⟨m, rfl⟩) mode today
            exact ⟨out, log', hrun, hlogged, fun hnot => hroom (not_and.1 hnot hr)⟩
          · obtain ⟨out, log', hrun, hlogged, hroom⟩ := hidle
            refine ⟨out, log', hrun, ?_, fun _ => hroom⟩
            simpa [processStep, crashFiles, hr] using hlogged
      | reopened c =>
          by_cases hr : c.rotates s = true
          · obtain ⟨out, log', hrun, hlogged, hroom⟩ :=
              h.crash_rotating hr (Or.inr rfl) mode today
            exact ⟨out, log', hrun, hlogged, fun hnot => hroom (not_and.1 hnot hr)⟩
          · obtain ⟨out, log', hrun, hlogged, hroom⟩ := hidle
            refine ⟨out, log', hrun, ?_, fun _ => hroom⟩
            simpa [processStep, crashFiles, hr] using hlogged

/-- **A run of steps.** -/
theorem Logged.run (h : Logged path initial k lost s log) (steps : List (ProcessStep ω k)) :
    ∃ out log', DurableLog.Run log (steps.flatMap ProcessStep.acts) log' ∧
      Logged path initial k (lost ++ out) (s.runSteps steps) log' ∧
      (s.NoneEvicts steps → out = []) := by
  induction steps generalizing lost s log with
  | nil => exact ⟨[], log, .nil, by simpa [runSteps] using h, fun _ => rfl⟩
  | cons step steps ih =>
      obtain ⟨out, log₁, hrun, hstep, hroom⟩ := h.step step
      obtain ⟨out', log', hrun', hrest, hroom'⟩ := ih hstep
      refine ⟨out ++ out', log', ?_, ?_, fun hnone => ?_⟩
      · rw [List.flatMap_cons]
        exact hrun.append hrun'
      · rw [← List.append_assoc]
        exact hrest
      · rw [hroom hnone.1, hroom' hnone.2]
        rfl

/-! ## Crashes -/

/-- **The path is a durable log.** Whatever processes do with it, in order or dying, the archives
    and the active file hold what was there first and then the log, less an old end that rotations
    have evicted; on disk, whatever the stream keeps back, is all that is safe and the beginning of
    what is recent. -/
theorem durable_log (files : FileSystem) (path : Bytes) (mode : KeepsArchives ω k) (today : Bytes)
    (steps : List (ProcessStep ω k)) :
    let start := construct files path mode.1 today
    let initial := Files.chain (nameAt path) k.toNat files
    ∃ lost log, DurableLog.Run {} (steps.flatMap ProcessStep.acts) log ∧
      lost ++ (start.runSteps steps).history = initial ++ log.all ∧
      (∃ left, left <+: log.recent ∧
        lost ++ (start.runSteps steps).onDisk = initial ++ log.safe ++ left) ∧
      (start.NoneEvicts steps → lost = []) := by
  intro start initial
  have hstart : Logged path initial k [] start {} :=
    logged_construct mode today (by simp [initial])
  obtain ⟨lost, log, hrun, hlogged, hroom⟩ := hstart.run steps
  rw [List.nil_append] at hlogged
  exact ⟨lost, log, hrun, hlogged.holds, hlogged.onDisk, hroom⟩

/-! ## Records that stay -/

/-- `data` is in one piece in the file `name j`. -/
def HeldAt (files : FileSystem) (path : Bytes) (data : Bytes) (j : Nat) : Prop :=
  ∃ content, files (nameAt path j) = some content ∧ data <:+: content

/-- What a call does to the files. -/
theorem act_files (h : s.Open) (c : Call ω) :
    (c.rotates s = true ∧
      (s.act c).files = Files.rotate (nameAt s.path) s.keep.toNat s.contents) ∨
    (c.rotates s = false ∧ ∃ out, (s.act c).files = s.files.append s.path out) := by
  obtain ⟨kept, hkept⟩ := h.ofs_eq
  cases c with
  | write data today w =>
      have hopen : (if s.ofs.isNone then s.openIfNeeded today else s) = s := by simp [hkept]
      cases hr : s.rotates data.length.toUInt64 today w with
      | true =>
          refine Or.inl ⟨hr, ?_⟩
          rw [act, write, hopen, rotateIfNeeded_eq h hr]
      | false =>
          refine Or.inr ⟨hr, [], ?_⟩
          rw [act, write, hopen, rotateIfNeeded, if_neg (by simp [hr]),
            Files.append_nil _ _ h.file]
  | flush => exact Or.inr ⟨rfl, kept, by simp [act, flush, hkept]⟩
  | spill n => exact Or.inr ⟨rfl, kept.take n, by simp [act, spill, hkept]⟩

namespace HeldAt

variable {files : FileSystem} {j n : Nat}

theorem append (h : HeldAt files path data j) (more : Bytes) :
    HeldAt (files.append path more) path data j := by
  obtain ⟨content, hcontent, hin⟩ := h
  by_cases hj : nameAt path j = path
  · rw [hj] at hcontent
    refine ⟨content ++ more, ?_, hin.trans (List.infix_append' [] content more)⟩
    rw [hj, Files.append, Files.store_self, Files.content, hcontent, Option.getD_some]
  · exact ⟨content, by rw [Files.append, Files.store_of_ne _ _ hj, hcontent], hin⟩

theorem rotate (h : HeldAt files path data j) (hj : j < n) :
    HeldAt (Files.rotate (nameAt path) n files) path data (j + 1) := by
  obtain ⟨content, hcontent, hin⟩ := h
  exact ⟨content, Files.rotate_next (nameAt_injective path) hj hcontent, hin⟩

theorem shiftDownTo (h : HeldAt files path data j) (hj : j < n) (m : Nat) :
    ∃ j' ≤ j + 1, HeldAt (Files.shiftDownTo (nameAt path) m n files) path data j' := by
  obtain ⟨content, hcontent, hin⟩ := h
  by_cases hm : m ≤ j
  · exact ⟨j + 1, le_refl _, content,
      Files.shiftDownTo_next (nameAt_injective path) hm hj hcontent, hin⟩
  · refine ⟨j, Nat.le_succ j, content, ?_, hin⟩
    rw [Files.shiftDownTo_of_lt (nameAt_injective path) (by omega), hcontent]

/-- A call moves the file on if it rotates. -/
theorem call_contents (h : SinkOn path k s) (hheld : HeldAt s.contents path data j) (c : Call ω)
    (hj : j + (c.rotates s).toNat ≤ k.toNat) :
    HeldAt (s.act c).contents path data (j + (c.rotates s).toNat) := by
  obtain ⟨-, -, -, hcontents⟩ := act_of_open h.opened c
  rw [hcontents, h.path_eq, h.keep_eq]
  refine append ?_ _
  cases hr : c.rotates s with
  | true =>
      rw [hr] at hj
      exact hheld.rotate (by simpa using hj)
  | false => exact hheld

/-- So does a step on disk, also where it is cut short. -/
theorem step_files (h : SinkOn path k s) (hheld : HeldAt s.files path data j)
    (step : ProcessStep ω k) (hj : j + (s.rotatesIn step).toNat ≤ k.toNat) :
    ∃ j' ≤ j + (s.rotatesIn step).toNat, HeldAt (s.processStep step).files path data j' := by
  have hcontents : HeldAt s.contents path data j := by
    rw [contents, h.path_eq]
    exact hheld.append _
  have hclosed : s.closeStream.files = s.contents := by rw [closeStream_of_open h.opened]
  -- whatever files a process finds, opening its sink adds nothing
  have hopen : ∀ (files : FileSystem) (mode : KeepsArchives ω k) (today : Bytes) (i : Nat),
      HeldAt files path data i →
      HeldAt (construct files s.path mode.1 today).files path data i := by
    intro files mode today i hi
    rw [h.path_eq]
    exact hi.append []
  cases step with
  | call c =>
      refine ⟨_, le_refl _, ?_⟩
      rcases act_files h.opened c with ⟨hr, hfiles⟩ | ⟨hr, out, hfiles⟩
      · have hroom : j < k.toNat := by simpa [rotatesIn, hr] using hj
        have hmoved := hcontents.rotate hroom
        simpa [processStep, rotatesIn, hr, hfiles, h.path_eq, h.keep_eq] using hmoved
      · have hmore := hheld.append out
        simpa [processStep, rotatesIn, hr, hfiles, h.path_eq] using hmore
  | restart mode today =>
      refine ⟨j, Nat.le_add_right _ _, hopen _ mode today j ?_⟩
      rw [hclosed]
      exact hcontents
  | crash point mode today =>
      cases point with
      | idle => exact ⟨j, Nat.le_add_right _ _, hopen _ mode today j hheld⟩
      | shifting c m =>
          cases hr : c.rotates s with
          | true =>
              have hroom : j < k.toNat := by simpa [rotatesIn, hr] using hj
              obtain ⟨j', hj', hmoved⟩ := hcontents.shiftDownTo hroom m
              refine ⟨j', by simpa [rotatesIn, hr] using hj', hopen _ mode today j' ?_⟩
              rw [crashFiles, if_pos hr, hclosed, h.path_eq, h.keep_eq]
              exact hmoved
          | false =>
              refine ⟨j, Nat.le_add_right _ _, hopen _ mode today j ?_⟩
              rw [crashFiles, if_neg (by simp [hr])]
              exact hheld
      | reopened c =>
          cases hr : c.rotates s with
          | true =>
              have hroom : j < k.toNat := by simpa [rotatesIn, hr] using hj
              refine ⟨j + 1, by simp [rotatesIn, hr], hopen _ mode today (j + 1) ?_⟩
              have hmoved := hcontents.rotate hroom
              rw [crashFiles, if_pos hr, closeStream_of_open h.opened, rotateFiles_eq]
              simpa [openTrunc, Files.rotate, h.path_eq, keep, ← h.keep_eq] using hmoved
          | false =>
              refine ⟨j, Nat.le_add_right _ _, hopen _ mode today j ?_⟩
              rw [crashFiles, if_neg (by simp [hr])]
              exact hheld

/-- **Calls**, as long as the rotations among them have room. -/
theorem calls_contents (h : SinkOn path k s) (hheld : HeldAt s.contents path data j)
    (calls : List (Call ω))
    (hj : j + s.rotations (calls.map (ProcessStep.call (k := k))) ≤ k.toNat) :
    SinkOn path k (s.runCalls calls) ∧
      HeldAt (s.runCalls calls).contents path data
        (j + s.rotations (calls.map (ProcessStep.call (k := k)))) := by
  induction calls generalizing s j with
  | nil => exact ⟨h, hheld⟩
  | cons c calls ih =>
      have hcount : s.rotations ((c :: calls).map (ProcessStep.call (k := k)))
          = (c.rotates s).toNat + (s.act c).rotations (calls.map (ProcessStep.call (k := k))) := rfl
      rw [hcount, ← Nat.add_assoc] at hj ⊢
      exact ih (h.act c) (hheld.call_contents h c (by omega)) hj

/-- **Steps**, on disk. -/
theorem run_files (h : SinkOn path k s) (hheld : HeldAt s.files path data j)
    (steps : List (ProcessStep ω k)) (hj : j + s.rotations steps ≤ k.toNat) :
    ∃ j' ≤ k.toNat, HeldAt (s.runSteps steps).files path data j' := by
  induction steps generalizing s j with
  | nil => exact ⟨j, hj, hheld⟩
  | cons step steps ih =>
      rw [rotations, ← Nat.add_assoc] at hj
      obtain ⟨j', hj', hmoved⟩ := hheld.step_files h step (by omega)
      exact ih (h.step step) hmoved (by omega)

end HeldAt

/-- A write puts its record into the active file. -/
theorem write_heldAt (h : SinkOn path k s) (data today : Bytes) (w : ω) :
    HeldAt (s.write data today w).contents path data 0 := by
  obtain ⟨-, -, -, hcontents⟩ := write_of_open h.opened data today w
  rw [hcontents, h.path_eq]
  exact ⟨_, Files.store_self _ _ _, (List.suffix_append _ data).isInfix⟩

theorem runSteps_calls (s : RotatingFileSink ω) (calls : List (Call ω)) :
    s.runSteps (calls.map (ProcessStep.call (k := k))) = s.runCalls calls := by
  rw [runSteps, List.foldl_map]
  rfl

theorem rotations_append (s : RotatingFileSink ω) (steps steps' : List (ProcessStep ω k)) :
    s.rotations (steps ++ steps') = s.rotations steps + (s.runSteps steps).rotations steps' := by
  induction steps generalizing s with
  | nil => exact (Nat.zero_add _).symm
  | cons step steps ih =>
      rw [List.cons_append, rotations, ih, rotations, Nat.add_assoc]
      rfl

/-- A record that is written and flushed is on disk for as long as rotations have room for it. -/
theorem SinkOn.flushed_stays (h : SinkOn path k s) (data today : Bytes) (w : ω)
    (calls : List (Call ω)) (later : List (ProcessStep ω k))
    (hrotations : (s.write data today w).rotations
      (calls.map .call ++ .call .flush :: later) ≤ k.toNat) :
    ∃ j ≤ k.toNat, HeldAt ((s.write data today w).runSteps
      (calls.map .call ++ .call .flush :: later)).files path data j := by
  have hwritten : SinkOn path k (s.write data today w) := h.act (.write data today w)
  have hrun : (s.write data today w).runSteps (calls.map .call ++ .call .flush :: later)
      = (((s.write data today w).runCalls calls).flush).runSteps later := by
    rw [← runSteps_calls (k := k), runSteps, List.foldl_append]
    rfl
  rw [rotations_append, runSteps_calls] at hrotations
  obtain ⟨hcalls, hheld⟩ := (write_heldAt h data today w).calls_contents hwritten calls (by omega)
  -- the flush hands over everything, and rotates nothing
  obtain ⟨-, hfiles, -⟩ := flush_of_open hcalls.opened
  rw [hrun]
  refine HeldAt.run_files (hcalls.act .flush) (hfiles ▸ hheld) later ?_
  rw [rotations] at hrotations
  have hflush : ((s.write data today w).runCalls calls).rotatesIn
      (ProcessStep.call (k := k) .flush) = false := rfl
  rw [hflush, Bool.toNat_false, Nat.zero_add] at hrotations
  rw [Nat.zero_add]
  exact hrotations

/-- **A flushed record stays.** Whatever has happened to the path, a record that is written and
    flushed is in one piece in the active file or in an archive while at most `k` rotations begin
    after it, through restarts and deaths, deaths in the middle of a rotation included. -/
theorem flushed_record_stays (files : FileSystem) (path : Bytes) (mode : KeepsArchives ω k)
    (opened : Bytes) (steps : List (ProcessStep ω k)) (data today : Bytes) (w : ω)
    (calls : List (Call ω)) (later : List (ProcessStep ω k)) :
    let written := ((construct files path mode.1 opened).runSteps steps).write data today w
    let after : List (ProcessStep ω k) := calls.map .call ++ .call .flush :: later
    written.rotations after ≤ k.toNat →
      ∃ j ≤ k.toNat, HeldAt (written.runSteps after).files path data j := by
  intro written after hrotations
  have hsink := (SinkOn.construct files path mode opened).run steps
  exact hsink.flushed_stays data today w calls later hrotations

/-- Two rotations, in the second of which the process dies before it renames the active file. -/
theorem flushed_record_stays_cut_rotation :
    let mode : KeepsArchives Unit 2 := ⟨some (.fileSizeExceeds 4 2), rfl⟩
    let s := (construct (fun _ => none) (bytes "a") mode.1 []).write (bytes "one\n") [] ()
    let after : List (ProcessStep Unit 2) := [.call .flush, .call (.write (bytes "two\n") [] ()),
      .crash (.shifting (.write (bytes "three\n") [] ()) 1) mode []]
    s.rotations after = 2 ∧
      ∃ j ≤ 2, HeldAt (s.runSteps after).files (bytes "a") (bytes "one\n") j := by
  intro mode s after
  have hcount : s.rotations after = 2 := by decide
  exact ⟨hcount, flushed_record_stays (k := 2) (fun _ => none) (bytes "a") mode [] []
    (bytes "one\n") [] () [] [_, _] (le_of_eq hcount)⟩

end SyLog
