import SyLog.Sinks.RotatingFileSink

set_option autoImplicit false

/-! # Rotations with failed renamings

`rotate_files` passes an error code to every `rename` and never looks at it. The functions below are
those of the sink with an outcome for each of the renamings: `fails i` is that of the file `.i`, and
`fails 0` that of the active file. The rotation goes on after a failure: the next file is moved to
the place that did not become free, and at the end the active file is truncated. -/

namespace SyLog

namespace RotatingFileSink

variable {ω : Type}

/-- `if (exists(from, ec)) rename(from, to, ec);`, without effect where it fails. -/
def tryRenameExisting (fails : Bool) (files : FileSystem) (src dst : Bytes) : FileSystem :=
  if (files src).isSome then if fails then files else files.rename src dst else files

/-- The loop of `rotate_files`, from the given `i` down to 1. -/
def tryRenameArchives (path : Bytes) (fails : Nat → Bool) : Nat → FileSystem → FileSystem
  | 0, files => files
  | i + 1, files =>
      tryRenameArchives path fails i
        (tryRenameExisting (fails (i + 1)) files (archivePath path (i + 1))
          (archivePath path (i + 2)))

def tryRotateFiles (fails : Nat → Bool) (s : RotatingFileSink ω) : RotatingFileSink ω :=
  if s.keep ≤ 0 then s
  else
    let files := tryRenameArchives s.path fails (s.keep - 1).toNat s.files
    { s with files := tryRenameExisting (fails 0) files s.path (archivePath s.path 1) }

def tryRotateIfNeeded (fails : Nat → Bool) (s : RotatingFileSink ω) (incoming : UInt64)
    (today : Bytes) (w : ω) : RotatingFileSink ω :=
  if s.rotates incoming today w then
    { openTrunc { tryRotateFiles fails s.closeStream with openedDay := today } with
      currentSize := 0 }
  else s

theorem tryRenameExisting_eq (fails : Bool) (files : FileSystem) (src dst : Bytes) :
    tryRenameExisting fails files src dst = if fails then files else files.rename src dst := by
  rw [tryRenameExisting]
  split
  · rfl
  · next h => rw [Files.rename_of_none dst (by simpa using h), ite_self]

theorem tryRenameArchives_eq (path : Bytes) (fails : Nat → Bool) (k : Nat) (files : FileSystem) :
    tryRenameExisting (fails 0) (tryRenameArchives path fails k files) path (archivePath path 1) =
      Files.tryShiftDown (nameAt path) fails (k + 1) files := by
  induction k generalizing files with
  | zero =>
      rw [tryRenameArchives, tryRenameExisting_eq]
      rfl
  | succ k ih =>
      rw [tryRenameArchives, ih, tryRenameExisting_eq]
      rfl

theorem tryRotateFiles_eq (fails : Nat → Bool) (s : RotatingFileSink ω) :
    s.tryRotateFiles fails =
      { s with files := Files.tryShiftDown (nameAt s.path) fails s.keep.toNat s.files } := by
  rw [tryRotateFiles]
  split
  · next h =>
      rw [Int.toNat_eq_zero.2 h]
      rfl
  · next h =>
      have hk : s.keep.toNat = (s.keep - 1).toNat + 1 := by omega
      rw [hk, ← tryRenameArchives_eq]

/-- The files after a rotation of an open stream. -/
theorem contents_tryRotateIfNeeded (fails : Nat → Bool) {s : RotatingFileSink ω}
    (hopen : s.ofs.isSome) {incoming : UInt64} {today : Bytes} {w : ω}
    (hr : s.rotates incoming today w = true) :
    (s.tryRotateIfNeeded fails incoming today w).contents =
      Files.tryRotate (nameAt s.path) fails s.keep.toNat s.contents := by
  obtain ⟨kept, hkept⟩ := Option.isSome_iff_exists.1 hopen
  have hclosed : s.closeStream = { s with files := s.contents, ofs := none } := by
    simp [closeStream, contents, hkept]
  rw [tryRotateIfNeeded, if_pos hr, hclosed, tryRotateFiles_eq]
  exact Files.append_nil _ _ (by simp [openTrunc])

/-- Where no renaming fails it is the rotation of the sink. -/
theorem tryRotateIfNeeded_of_none (fails : Nat → Bool) (h : ∀ i, fails i = false)
    (s : RotatingFileSink ω) (incoming : UInt64) (today : Bytes) (w : ω) :
    s.tryRotateIfNeeded fails incoming today w = s.rotateIfNeeded incoming today w := by
  have hfiles : s.closeStream.tryRotateFiles fails = s.closeStream.rotateFiles := by
    rw [tryRotateFiles_eq, rotateFiles_eq, Files.tryShiftDown_of_none fails h]
  rw [tryRotateIfNeeded, rotateIfNeeded, hfiles]

/-- Every content of the chain but that of the last archive is the content of a file of the chain
    afterwards. -/
def KeepsContents (k : Nat) (s s' : RotatingFileSink ω) : Prop :=
  ∀ j < k, ∀ data, s.contents (nameAt s.path j) = some data →
    ∃ p ≤ k, s'.contents (nameAt s.path p) = some data

end RotatingFileSink

open RotatingFileSink in
/-- **When failed renamings destroy data.** A file whose own renaming fails is overwritten if it is
    the active one, or if the file before it is moved to its place. The rotation keeps every content
    but the oldest exactly if each overwritten file is empty or has the content of a file that is
    not; where the contents differ from each other and from the empty one, if no file is
    overwritten. -/
theorem failed_renames_keep_contents {ω : Type} (s : RotatingFileSink ω) (fails : Nat → Bool)
    (incoming : UInt64) (today : Bytes) (w : ω) (hopen : s.ofs.isSome)
    (hr : s.rotates incoming today w = true) (hk : 1 ≤ s.keep) :
    let overwritten := Files.Overwritten (nameAt s.path) fails s.keep.toNat s.contents
    let after := s.tryRotateIfNeeded fails incoming today w
    (KeepsContents s.keep.toNat s after ↔
      ∀ j < s.keep.toNat, overwritten j → ∀ data, s.contents (nameAt s.path j) = some data →
        data = [] ∨
          ∃ i ≤ s.keep.toNat, s.contents (nameAt s.path i) = some data ∧ ¬ overwritten i) ∧
    ((∀ i ≤ s.keep.toNat, ∀ j ≤ s.keep.toNat, ∀ data, s.contents (nameAt s.path i) = some data →
        s.contents (nameAt s.path j) = some data → data ≠ [] ∧ i = j) →
      (KeepsContents s.keep.toNat s after ↔
        ∀ j < s.keep.toNat, (s.contents (nameAt s.path j)).isSome → ¬ overwritten j)) := by
  intro overwritten after
  obtain ⟨k, hkeep⟩ : ∃ k, s.keep.toNat = k + 1 := ⟨s.keep.toNat - 1, by omega⟩
  have hafter : ∀ data, (∃ p ≤ s.keep.toNat, after.contents (nameAt s.path p) = some data) ↔
      data = [] ∨
        ∃ i ≤ s.keep.toNat, s.contents (nameAt s.path i) = some data ∧ ¬ overwritten i := by
    intro data
    show (∃ p ≤ s.keep.toNat,
      (s.tryRotateIfNeeded fails incoming today w).contents (nameAt s.path p) = some data) ↔ _
    rw [contents_tryRotateIfNeeded fails hopen hr]
    simp only [overwritten, hkeep]
    exact Files.tryRotate_holds_iff (nameAt_injective s.path) fails k s.contents data
  have hmain : KeepsContents s.keep.toNat s after ↔
      ∀ j < s.keep.toNat, overwritten j → ∀ data, s.contents (nameAt s.path j) = some data →
        data = [] ∨
          ∃ i ≤ s.keep.toNat, s.contents (nameAt s.path i) = some data ∧ ¬ overwritten i := by
    constructor
    · intro hkeeps j hj _ data hdata
      exact (hafter data).1 (hkeeps j hj data hdata)
    · intro hcond j hj data hdata
      rw [hafter]
      by_cases ho : overwritten j
      · exact hcond j hj ho data hdata
      · exact Or.inr ⟨j, Nat.le_of_lt hj, hdata, ho⟩
  refine ⟨hmain, fun hdistinct => hmain.trans ⟨?_, ?_⟩⟩
  · intro hcond j hj hfile ho
    obtain ⟨data, hdata⟩ := Option.isSome_iff_exists.1 hfile
    have hj' : j ≤ s.keep.toNat := Nat.le_of_lt hj
    rcases hcond j hj ho data hdata with hnil | ⟨i, hi, hsame, hkept⟩
    · exact (hdistinct j hj' j hj' data hdata hdata).1 hnil
    · rw [(hdistinct i hi j hj' data hsame hdata).2] at hkept
      exact hkept ho
  · intro hcond j hj ho data hdata
    exact absurd ho (hcond j hj (by simp [hdata]))

/-- A sink that keeps three archives, with one byte in the active file and one in `a.2`, at a write
    that rotates. -/
def gapSink : RotatingFileSink Unit :=
  RotatingFileSink.construct
    (Files.store (Files.store (fun _ => none) (bytes "a") [120]) (archivePath (bytes "a") 2) [121])
    (bytes "a") (some (.fileSizeExceeds 1 3)) []

open RotatingFileSink in
/-- The rename of `a.2` fails, and nothing is moved to its place. -/
theorem failed_renames_keep_contents_gap :
    KeepsContents 3 gapSink (gapSink.tryRotateIfNeeded (fun i => i == 2) 1 [] ()) := by
  have hgap : gapSink.contents (nameAt gapSink.path 1) = none := by decide
  refine (failed_renames_keep_contents gapSink (fun i => i == 2) 1 [] () rfl (by decide)
    (by decide)).1.2 (fun j hj ho => ?_)
  have hj' : j < 3 := hj
  rcases j with _ | _ | _ | j
  · exact absurd (show ((0 : Nat) == 2) = true from ho) (by decide)
  · exact absurd (ho.2.2 (by decide)) (by decide)
  · simp [hgap, Files.Overwritten] at ho
  · omega

/-- A sink that keeps one archive, with one byte in the active file, at a write that rotates. -/
def oneByteSink : RotatingFileSink Unit :=
  RotatingFileSink.construct (Files.store (fun _ => none) (bytes "a") [120]) (bytes "a")
    (some (.fileSizeExceeds 1 1)) []

open RotatingFileSink in
/-- The one rename of a rotation fails, and the truncating open destroys the active file. -/
theorem failed_rename_destroys_active :
    oneByteSink.rotates 1 [] () = true ∧
      ¬ KeepsContents 1 oneByteSink (oneByteSink.tryRotateIfNeeded (fun _ => true) 1 [] ()) := by
  refine ⟨by decide, fun hkeeps => ?_⟩
  have hbyte : oneByteSink.contents (nameAt oneByteSink.path 0) = some [120] := by decide
  obtain ⟨p, hp, hdata⟩ := hkeeps 0 (by omega) [120] hbyte
  rw [contents_tryRotateIfNeeded (fun _ => true) rfl (by decide)] at hdata
  have hheld := (Files.tryRotate_holds_iff (nameAt_injective oneByteSink.path) (fun _ => true) 0
    oneByteSink.contents [120]).1 ⟨p, hp, hdata⟩
  rcases hheld with hnil | ⟨i, hi, hsame, hkept⟩
  · cases hnil
  · cases i with
    | zero => exact hkept rfl
    | succ i =>
        have hne : nameAt (bytes "a") (i + 1) ≠ bytes "a" := fun heq => by
          have := nameAt_injective (bytes "a") (heq.trans (nameAt_zero (bytes "a")).symm)
          omega
        simp [contents, oneByteSink, construct, openIfNeeded, openAppend, Files.append,
          hne] at hsame

end SyLog
