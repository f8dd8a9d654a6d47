import SyLog.Decimal
import SyLog.Library.ArchiveChain

set_option autoImplicit false

/-! # The rotating file sink

`RotatingFileSink` of file_sink.cpp with the files it works on, every filesystem operation
succeeding. The open stream may keep bytes back: they are in `ofs` until the stream hands them to
its file, at `flush`, at `close` or whenever it likes. What the files hold once they are handed over
is `contents`, and the results are about it.

A virtual `should_rotate` may consult more than its context, so a mode has a parameter `ω` for what
else it sees at a call; the four modes of sink.hpp look at the context only. -/

namespace SyLog

/-- The regular files, by path. -/
abbrev FileSystem := Files Bytes UInt8

/-- `rotation::context` -/
structure RotationContext where
  currentSize : UInt64
  incomingBytes : UInt64
  openedDay : Bytes
  today : Bytes
  deriving DecidableEq, Repr

/-- A class derived from `rotation::mode_base`. -/
structure RotationMode (ω : Type) where
  shouldRotate : ω → RotationContext → Bool
  maxArchivedFiles : Int := 5

namespace RotationMode

variable {ω : Type}

def never : RotationMode ω := { shouldRotate := fun _ _ => false }

/-- The sum is one of `std::size_t`. -/
def fileSizeExceeds (maxBytes : UInt64) (keepFiles : Int) : RotationMode ω where
  shouldRotate _ ctx := decide (maxBytes < ctx.currentSize + ctx.incomingBytes)
  maxArchivedFiles := keepFiles

def newDayBegins (keepFiles : Int) : RotationMode ω where
  shouldRotate _ ctx :=
    !ctx.openedDay.isEmpty && !ctx.today.isEmpty && decide (ctx.openedDay ≠ ctx.today)
  maxArchivedFiles := keepFiles

def fileSizeExceedsOrNewDayBegins (maxBytes : UInt64) (keepFiles : Int) : RotationMode ω where
  shouldRotate w ctx :=
    (fileSizeExceeds maxBytes keepFiles).shouldRotate w ctx ||
      (newDayBegins keepFiles).shouldRotate w ctx
  maxArchivedFiles := (fileSizeExceeds (ω := ω) maxBytes keepFiles).maxArchivedFiles

end RotationMode

/-- `RotatingFileSink::Impl` and the files. `ofs` is what the stream keeps back, `none` when it is
    not open. -/
structure RotatingFileSink (ω : Type) where
  files : FileSystem
  path : Bytes
  rotation : Option (RotationMode ω) := some .never
  openedDay : Bytes := []
  currentSize : UInt64 := 0
  ofs : Option Bytes := none

/-- `path + "." + std::to_string(i)` -/
def archivePath (path : Bytes) (i : Nat) : Bytes := path ++ bytes "." ++ formatNat i

namespace RotatingFileSink

variable {ω : Type}

/-! ## The stream -/

/-- `ofs.open(path, std::ios::out | std::ios::app)` -/
def openAppend (s : RotatingFileSink ω) : RotatingFileSink ω :=
  { s with files := s.files.append s.path [], ofs := some [] }

/-- `ofs.open(path, std::ios::out | std::ios::trunc)` -/
def openTrunc (s : RotatingFileSink ω) : RotatingFileSink ω :=
  { s with files := s.files.store s.path [], ofs := some [] }

/-- The stream hands the first `n` bytes that it keeps back to the file. -/
def spill (s : RotatingFileSink ω) (n : Nat) : RotatingFileSink ω :=
  match s.ofs with
  | none => s
  | some kept => { s with files := s.files.append s.path (kept.take n), ofs := some (kept.drop n) }

/-- `ofs.close()` -/
def closeStream (s : RotatingFileSink ω) : RotatingFileSink ω :=
  match s.ofs with
  | none => s
  | some kept => { s with files := s.files.append s.path kept, ofs := none }

/-! ## The functions of `Impl` -/

def fileSizeOrZero (files : FileSystem) (p : Bytes) : UInt64 := (files.content p).length.toUInt64

def openIfNeeded (s : RotatingFileSink ω) (today : Bytes) : RotatingFileSink ω :=
  let s := openAppend { s with openedDay := today }
  { s with currentSize := fileSizeOrZero s.files s.path }

/-- `if (exists(from, ec)) rename(from, to, ec);` -/
def renameExisting (files : FileSystem) (src dst : Bytes) : FileSystem :=
  if (files src).isSome then files.rename src dst else files

/-- The loop of `rotate_files`, from the given `i` down to 1. -/
def renameArchives (path : Bytes) : Nat → FileSystem → FileSystem
  | 0, files => files
  | i + 1, files =>
      renameArchives path i
        (renameExisting files (archivePath path (i + 1)) (archivePath path (i + 2)))

/-- `rotation ? rotation->max_archived_files() : 0` -/
def keep (s : RotatingFileSink ω) : Int :=
  match s.rotation with
  | none => 0
  | some mode => mode.maxArchivedFiles

def rotateFiles (s : RotatingFileSink ω) : RotatingFileSink ω :=
  if s.keep ≤ 0 then s
  else
    let files := renameArchives s.path (s.keep - 1).toNat s.files
    { s with files := renameExisting files s.path (archivePath s.path 1) }

/-- The answer of `should_rotate` in this call; without a mode there is no rotation. -/
def rotates (s : RotatingFileSink ω) (incoming : UInt64) (today : Bytes) (w : ω) : Bool :=
  match s.rotation with
  | none => false
  | some mode => mode.shouldRotate w ⟨s.currentSize, incoming, s.openedDay, today⟩

def rotateIfNeeded (s : RotatingFileSink ω) (incoming : UInt64) (today : Bytes) (w : ω) :
    RotatingFileSink ω :=
  if s.rotates incoming today w then
    { openTrunc { rotateFiles s.closeStream with openedDay := today } with currentSize := 0 }
  else s

/-! ## The calls of the sink -/

/-- The constructor. -/
def construct (files : FileSystem) (path : Bytes) (rotation : Option (RotationMode ω))
    (today : Bytes) : RotatingFileSink ω :=
  openIfNeeded { files, path, rotation := some (rotation.getD .never) } today

/-- `today` is the date that the clock shows during the call. -/
def write (s : RotatingFileSink ω) (data today : Bytes) (w : ω) : RotatingFileSink ω :=
  let s := if s.ofs.isNone then s.openIfNeeded today else s
  let s := s.rotateIfNeeded data.length.toUInt64 today w
  { s with ofs := s.ofs.map (· ++ data), currentSize := s.currentSize + data.length.toUInt64 }

def flush (s : RotatingFileSink ω) : RotatingFileSink ω :=
  match s.ofs with
  | none => s
  | some kept => { s with files := s.files.append s.path kept, ofs := some [] }

/-! ## Contents and history -/

/-- The names of the chain: the active file, then `.1`, `.2`, … -/
def nameAt (path : Bytes) : Nat → Bytes
  | 0 => path
  | i + 1 => archivePath path (i + 1)

@[simp] theorem nameAt_zero (path : Bytes) : nameAt path 0 = path := rfl

theorem nameAt_injective (path : Bytes) : Function.Injective (nameAt path) := by
  have hne : ∀ i, path ≠ archivePath path (i + 1) := by
    intro i h
    have := congrArg List.length h
    simp [archivePath, bytes] at this
  intro i j h
  cases i with
  | zero =>
      cases j with
      | zero => rfl
      | succ j => exact absurd h (hne j)
  | succ i =>
      cases j with
      | zero => exact absurd h.symm (hne i)
      | succ j => exact formatNat_injective (List.append_cancel_left h)

/-- The files once the stream has handed over what it keeps back. -/
def contents (s : RotatingFileSink ω) : FileSystem := s.files.append s.path (s.ofs.getD [])

/-- `.k`, …, `.2`, `.1`, active. -/
def history (s : RotatingFileSink ω) : Bytes :=
  Files.chain (nameAt s.path) s.keep.toNat s.contents

/-- The stream is open, and its file is there. -/
structure Open (s : RotatingFileSink ω) : Prop where
  stream : s.ofs.isSome
  file : (s.files s.path).isSome

theorem Open.ofs_eq {s : RotatingFileSink ω} (h : s.Open) : ∃ kept, s.ofs = some kept :=
  Option.isSome_iff_exists.1 h.stream

theorem renameExisting_eq (files : FileSystem) (src dst : Bytes) :
    renameExisting files src dst = files.rename src dst := by
  rw [renameExisting]
  split
  · rfl
  · next h => rw [Files.rename_of_none dst (by simpa using h)]

/-- The loop and the renaming after it are one loop over the chain. -/
theorem renameArchives_eq (path : Bytes) (k : Nat) (files : FileSystem) :
    renameExisting (renameArchives path k files) path (archivePath path 1) =
      Files.shiftDown (nameAt path) (k + 1) files := by
  induction k generalizing files with
  | zero => rw [renameArchives, renameExisting_eq]; rfl
  | succ k ih =>
      rw [renameArchives, ih, renameExisting_eq]
      rfl

theorem rotateFiles_eq (s : RotatingFileSink ω) :
    s.rotateFiles =
      { s with files := Files.shiftDown (nameAt s.path) s.keep.toNat s.files } := by
  rw [rotateFiles]
  split
  · next h =>
      rw [Int.toNat_eq_zero.2 h]
      rfl
  · next h =>
      have hk : s.keep.toNat = (s.keep - 1).toNat + 1 := by omega
      rw [hk, ← renameArchives_eq]

/-- A rotation starts the active file anew behind a shift of the chain. -/
theorem rotateIfNeeded_eq {s : RotatingFileSink ω} (h : s.Open) {incoming : UInt64} {today : Bytes}
    {w : ω} (hr : s.rotates incoming today w = true) :
    s.rotateIfNeeded incoming today w =
      { s with
        files := Files.rotate (nameAt s.path) s.keep.toNat s.contents
        openedDay := today
        currentSize := 0
        ofs := some [] } := by
  obtain ⟨kept, hkept⟩ := h.ofs_eq
  have hclosed : s.closeStream = { s with files := s.contents, ofs := none } := by
    simp [closeStream, contents, hkept]
  rw [rotateIfNeeded, if_pos hr, hclosed, rotateFiles_eq]
  rfl

/-! ## Calls -/

/-- The calls of the sink, and the stream handing bytes over in between. -/
inductive Call (ω : Type) where
  | write (data today : Bytes) (w : ω)
  | flush
  | spill (n : Nat)

/-- What the call adds to the log. -/
def Call.records : Call ω → List Bytes
  | .write data _ _ => [data]
  | .flush => []
  | .spill _ => []

/-- The call is a write that rotates. -/
def Call.rotates (s : RotatingFileSink ω) : Call ω → Bool
  | .write data today w => s.rotates data.length.toUInt64 today w
  | .flush => false
  | .spill _ => false

def act (s : RotatingFileSink ω) : Call ω → RotatingFileSink ω
  | .write data today w => s.write data today w
  | .flush => s.flush
  | .spill n => s.spill n

theorem spill_of_open {s : RotatingFileSink ω} (h : s.Open) (n : Nat) :
    (s.spill n).Open ∧ (s.spill n).contents = s.contents := by
  obtain ⟨kept, hkept⟩ := h.ofs_eq
  have hs : s.spill n =
      { s with files := s.files.append s.path (kept.take n), ofs := some (kept.drop n) } := by
    simp [spill, hkept]
  rw [hs]
  refine ⟨⟨rfl, by simp [Files.append]⟩, ?_⟩
  simp [contents, hkept, Files.append_append]

/-- After a flush the files hold everything. -/
theorem flush_of_open {s : RotatingFileSink ω} (h : s.Open) :
    s.flush.Open ∧ s.flush.files = s.contents ∧ s.flush.contents = s.contents := by
  obtain ⟨kept, hkept⟩ := h.ofs_eq
  have hs : s.flush = { s with files := s.files.append s.path kept, ofs := some [] } := by
    simp [flush, hkept]
  rw [hs]
  refine ⟨⟨rfl, by simp [Files.append]⟩, by simp [contents, hkept], ?_⟩
  simp [contents, hkept, Files.append_append]

theorem write_of_open {s : RotatingFileSink ω} (h : s.Open) (data today : Bytes) (w : ω) :
    (s.write data today w).Open ∧ (s.write data today w).path = s.path ∧
      (s.write data today w).rotation = s.rotation ∧
      (s.write data today w).contents =
        (if s.rotates data.length.toUInt64 today w then
          Files.rotate (nameAt s.path) s.keep.toNat s.contents else s.contents).append s.path
            data := by
  obtain ⟨kept, hkept⟩ := h.ofs_eq
  have hopen : (if s.ofs.isNone then s.openIfNeeded today else s) = s := by simp [hkept]
  rw [write, hopen]
  by_cases hr : s.rotates data.length.toUInt64 today w = true
  · rw [rotateIfNeeded_eq h hr, if_pos hr]
    exact ⟨⟨rfl, by simp [Files.rotate]⟩, rfl, rfl, rfl⟩
  · rw [rotateIfNeeded, if_neg hr, if_neg hr]
    refine ⟨⟨by simp [hkept], h.file⟩, rfl, rfl, ?_⟩
    simp [contents, hkept, Files.append_append]

/-- **One call.** The sink stays open, keeps its path and its mode, and its contents are what they
    were, rotated first if the call rotates, with what is written at the end of the active file. -/
theorem act_of_open {s : RotatingFileSink ω} (h : s.Open) (call : Call ω) :
    (s.act call).Open ∧ (s.act call).path = s.path ∧ (s.act call).keep = s.keep ∧
      (s.act call).contents =
        (if call.rotates s then
          Files.rotate (nameAt s.path) s.keep.toNat s.contents else s.contents).append s.path
            call.records.flatten := by
  have hfile : (s.contents s.path).isSome := by simp [contents, Files.append]
  have hsame : s.contents.append s.path [] = s.contents := Files.append_nil _ _ hfile
  cases call with
  | write data today w =>
      obtain ⟨hopen, hpath, hrotation, hcontents⟩ := write_of_open h data today w
      refine ⟨hopen, hpath, by simp [act, keep, hrotation], ?_⟩
      simpa [act, Call.rotates, Call.records] using hcontents
  | flush =>
      obtain ⟨hopen, -, hcontents⟩ := flush_of_open h
      obtain ⟨kept, hkept⟩ := h.ofs_eq
      refine ⟨hopen, by simp [act, flush, hkept], by simp [act, flush, hkept, keep], ?_⟩
      simpa [act, Call.rotates, Call.records, hsame] using hcontents
  | spill n =>
      obtain ⟨hopen, hcontents⟩ := spill_of_open h n
      obtain ⟨kept, hkept⟩ := h.ofs_eq
      refine ⟨hopen, by simp [act, spill, hkept], by simp [act, spill, hkept, keep], ?_⟩
      simpa [act, Call.rotates, Call.records, hsame] using hcontents

/-! ## Runs -/

/-- The sink after a sequence of calls. -/
def runCalls (s : RotatingFileSink ω) (calls : List (Call ω)) : RotatingFileSink ω :=
  calls.foldl act s

/-- What was written, one byte string for each write. -/
def written (calls : List (Call ω)) : List Bytes := calls.flatMap Call.records

/-- Each file of the initial state as one record. -/
def asRecords (files : FileSystem) : Files Bytes Bytes := fun n => (files n).map (fun c => [c])

/-- The files are made of whole records, and those along the chain are the last ones of `log`. -/
def MadeOf (s : RotatingFileSink ω) (log : List Bytes) : Prop :=
  ∃ records : Files Bytes Bytes, s.contents = Files.mapContents List.flatten records ∧
    Files.chain (nameAt s.path) s.keep.toNat records <:+ log

theorem construct_open (files : FileSystem) (path : Bytes) (rotation : Option (RotationMode ω))
    (today : Bytes) : (construct files path rotation today).Open :=
  ⟨rfl, by simp [construct, openIfNeeded, openAppend, Files.append]⟩

theorem construct_contents (files : FileSystem) (path : Bytes) (rotation : Option (RotationMode ω))
    (today : Bytes) : (construct files path rotation today).contents = files.append path [] := by
  rw [construct, openIfNeeded, openAppend, contents]
  exact Files.append_append files path [] []

/-- A sink that is opened on files of whole records. -/
theorem construct_madeOf_records {files : FileSystem} {records : Files Bytes Bytes}
    (hflat : files = Files.mapContents List.flatten records) (path : Bytes)
    (rotation : Option (RotationMode ω)) (today : Bytes) (k : Nat)
    (hk : (construct files path rotation today).keep.toNat = k) :
    (construct files path rotation today).MadeOf (Files.chain (nameAt path) k records) := by
  refine ⟨records.append path [], ?_, ?_⟩
  · rw [construct_contents, ← Files.append_mapContents List.flatten rfl (by simp), ← hflat]
    rfl
  · rw [hk]
    show Files.chain (nameAt path) k (records.append (nameAt path 0) []) <:+ _
    rw [Files.chain_append (nameAt_injective path), List.append_nil]

theorem construct_madeOf (files : FileSystem) (path : Bytes) (rotation : Option (RotationMode ω))
    (today : Bytes) (k : Nat) (hk : (construct files path rotation today).keep.toNat = k) :
    (construct files path rotation today).MadeOf
      (Files.chain (nameAt path) k (asRecords files)) := by
  have hflat : files = Files.mapContents List.flatten (asRecords files) := by
    funext n
    cases h : files n <;> simp [Files.mapContents, asRecords, h]
  exact construct_madeOf_records hflat path rotation today k hk

/-- A call adds its records at the new end and at most takes away at the old end. -/
theorem act_madeOf {s : RotatingFileSink ω} (h : s.Open) {log : List Bytes} (hlog : s.MadeOf log)
    (call : Call ω) : (s.act call).MadeOf (log ++ call.records) := by
  obtain ⟨records, hcontents, hend⟩ := hlog
  obtain ⟨-, hpath, hkeep, hact⟩ := act_of_open h call
  set rotated := if call.rotates s then
    Files.rotate (nameAt s.path) s.keep.toNat records else records with hrotated
  have hrot : Files.chain (nameAt s.path) s.keep.toNat rotated <:+ log := by
    rw [hrotated]
    split
    · exact (Files.chain_rotate_suffix (nameAt_injective s.path) _ _).trans hend
    · exact hend
  have hmap : (if call.rotates s then
      Files.rotate (nameAt s.path) s.keep.toNat s.contents else s.contents) =
        Files.mapContents List.flatten rotated := by
    rw [hrotated, hcontents]
    split
    · exact Files.rotate_mapContents List.flatten rfl _ _
    · rfl
  refine ⟨rotated.append s.path call.records, ?_, ?_⟩
  · rw [hact, hmap, Files.append_mapContents List.flatten rfl (by simp)]
  · rw [hpath, hkeep]
    have happend := Files.chain_append (nameAt_injective s.path) s.keep.toNat rotated call.records
    rw [nameAt_zero] at happend
    rw [happend]
    obtain ⟨lost, hlost⟩ := hrot
    exact ⟨lost, by rw [← hlost, List.append_assoc]⟩

theorem run_of_open {s : RotatingFileSink ω} (h : s.Open) {log : List Bytes} (hlog : s.MadeOf log)
    (calls : List (Call ω)) :
    (s.runCalls calls).Open ∧ (s.runCalls calls).path = s.path ∧
      (s.runCalls calls).keep = s.keep ∧ (s.runCalls calls).MadeOf (log ++ written calls) := by
  induction calls generalizing s log with
  | nil => exact ⟨h, rfl, rfl, by simpa [runCalls, written] using hlog⟩
  | cons call calls ih =>
      obtain ⟨hopen, hpath, hkeep, -⟩ := act_of_open h call
      obtain ⟨ho, hp, hk, hm⟩ := ih hopen (act_madeOf h hlog call)
      refine ⟨ho, hp.trans hpath, hk.trans hkeep, ?_⟩
      simpa [runCalls, written] using hm

/-- With archives, a call loses nothing, or it is a rotation that puts a file under the last name
    and loses what was there. -/
theorem history_act {s : RotatingFileSink ω} (h : s.Open) (call : Call ω) (hk : 0 < s.keep) :
    (s.act call).history = s.history ++ call.records.flatten ∨
      ∃ oldest rest, call.rotates s = true ∧
        s.contents (nameAt s.path s.keep.toNat) = some oldest ∧
        (s.contents (nameAt s.path (s.keep.toNat - 1))).isSome ∧ s.history = oldest ++ rest ∧
        (s.act call).history = rest ++ call.records.flatten := by
  obtain ⟨-, hpath, hkeep, hact⟩ := act_of_open h call
  obtain ⟨k, hk⟩ : ∃ k, s.keep.toNat = k + 1 := ⟨s.keep.toNat - 1, by omega⟩
  have hhistory : (s.act call).history = Files.chain (nameAt s.path) (k + 1)
      (if call.rotates s then Files.rotate (nameAt s.path) (k + 1) s.contents else s.contents) ++
        call.records.flatten := by
    rw [history, hpath, hkeep, hact, hk]
    exact Files.chain_append (nameAt_injective s.path) _ _ _
  have hbefore : s.history = s.contents.content (nameAt s.path (k + 1)) ++
      Files.chain (nameAt s.path) k s.contents := by
    rw [history, hk]
    rfl
  rw [hhistory, hbefore, hk]
  by_cases hr : call.rotates s = true
  · rw [if_pos hr, Files.chain_rotate (nameAt_injective s.path)]
    by_cases hnext : (s.contents (nameAt s.path k)).isSome
    · cases hold : s.contents (nameAt s.path (k + 1)) with
      | none => exact Or.inl (by simp [Files.content, hold])
      | some oldest =>
          exact Or.inr ⟨oldest, Files.chain (nameAt s.path) k s.contents, hr, rfl, hnext,
            by simp [Files.content, hold], by simp [hnext]⟩
    · exact Or.inl (by simp [hnext])
  · exact Or.inl (by simp [hr, Files.chain])

end RotatingFileSink

open RotatingFileSink in
/-- **A rotation loses only the oldest data.** Whatever the mode decides and however many archives
    it keeps, after any calls the files `.k`, …, `.1`, active hold the end of what they held at
    first followed by what was written, each write in one piece in one file; and with `k ≥ 1` a
    call takes bytes away only where a rotation puts a file in the place of `.k`. -/
theorem rotation_loses_oldest {ω : Type} (files : FileSystem) (path : Bytes)
    (rotation : Option (RotationMode ω)) (today : Bytes) (calls : List (Call ω)) :
    let k := (rotation.getD .never).maxArchivedFiles
    let s := (construct files path rotation today).runCalls calls
    s.history <:+ Files.chain (nameAt path) k.toNat files ++ (written calls).flatten ∧
    s.MadeOf (Files.chain (nameAt path) k.toNat (asRecords files) ++ written calls) ∧
    (1 ≤ k → ∀ call : Call ω,
      (s.act call).history = s.history ++ call.records.flatten ∨
      ∃ oldest rest, call.rotates s = true ∧ s.contents (nameAt path k.toNat) = some oldest ∧
        (s.contents (nameAt path (k.toNat - 1))).isSome ∧ s.history = oldest ++ rest ∧
        (s.act call).history = rest ++ call.records.flatten) := by
  intro k s
  have hconstruct : (construct files path rotation today).keep = k := rfl
  obtain ⟨hopen, hpath, hkeep, hmade⟩ := run_of_open (construct_open files path rotation today)
    (construct_madeOf files path rotation today k.toNat (by rw [hconstruct])) calls
  replace hkeep : s.keep = k := hkeep
  replace hpath : s.path = path := hpath
  refine ⟨?_, hmade, ?_⟩
  · obtain ⟨records, hcontents, lost, hlost⟩ := hmade
    have hfiles : Files.chain (nameAt path) k.toNat files =
        (Files.chain (nameAt path) k.toNat (asRecords files)).flatten := by
      rw [← Files.chain_mapContents List.flatten rfl (by simp)]
      refine Files.chain_congr _ (fun i _ => ?_)
      cases h : files (nameAt path i) <;> simp [Files.mapContents, asRecords, h]
    rw [hfiles, ← List.flatten_append, ← hlost, List.flatten_append, history, hcontents,
      Files.chain_mapContents List.flatten rfl (by simp)]
    exact List.suffix_append _ _
  · intro hk call
    have h := history_act hopen call (by rw [hkeep]; omega)
    rw [hkeep, hpath] at h
    exact h

end SyLog
