import SyLog.Sinks.RotatingFileSink

set_option autoImplicit false

/-! # Rotation by size

`current_size` is kept beside the file: set when the file is opened, to zero when it is truncated,
and raised at each write. It is the size of the active file, what the stream keeps back included,
and so `file_size_exceeds` bounds the file. What it does not do is look at the active file before
giving up an archive for it. -/

namespace SyLog

namespace RotatingFileSink

variable {ω : Type}

/-- What the active file holds once the stream has handed everything over. -/
def active (s : RotatingFileSink ω) : Bytes := s.contents.content s.path

/-- `current_size` is the size of the active file, as a `std::size_t`. -/
def Sized (s : RotatingFileSink ω) : Prop := s.currentSize = s.active.length.toUInt64

/-! ## One call -/

theorem active_act {s : RotatingFileSink ω} (h : s.Open) (call : Call ω) :
    (s.act call).active =
      (if call.rotates s then [] else s.active) ++ call.records.flatten := by
  obtain ⟨-, hpath, -, hcontents⟩ := act_of_open h call
  rw [active, hpath, hcontents, Files.append, Files.content_store]
  split
  · rw [Files.rotate, nameAt_zero, Files.content_store]
  · rfl

theorem currentSize_write {s : RotatingFileSink ω} (h : s.Open) (data today : Bytes) (w : ω) :
    (s.write data today w).currentSize =
      (if s.rotates data.length.toUInt64 today w then 0 else s.currentSize) +
        data.length.toUInt64 := by
  obtain ⟨kept, hkept⟩ := h.ofs_eq
  have hopen : (if s.ofs.isNone then s.openIfNeeded today else s) = s := by simp [hkept]
  rw [write, hopen]
  by_cases hr : s.rotates data.length.toUInt64 today w = true
  · rw [rotateIfNeeded_eq h hr, if_pos hr]
  · rw [rotateIfNeeded, if_neg hr, if_neg hr]

theorem rotation_act {s : RotatingFileSink ω} (h : s.Open) (call : Call ω) :
    (s.act call).rotation = s.rotation := by
  obtain ⟨kept, hkept⟩ := h.ofs_eq
  cases call with
  | write data today w => exact (write_of_open h data today w).2.2.1
  | flush => simp [act, flush, hkept]
  | spill n => simp [act, spill, hkept]

theorem act_sized {s : RotatingFileSink ω} (h : s.Open) (hs : s.Sized) (call : Call ω) :
    (s.act call).Sized := by
  rw [Sized, active_act h call]
  cases call with
  | write data today w =>
      rw [act, currentSize_write h, List.length_append, Call.records, List.flatten_singleton]
      by_cases hr : s.rotates data.length.toUInt64 today w = true
      · simp [Call.rotates, hr]
      · rw [Call.rotates, if_neg hr, if_neg hr, hs, Nat.toUInt64_eq, Nat.toUInt64_eq,
          Nat.toUInt64_eq, UInt64.ofNat_add]
  | flush =>
      obtain ⟨kept, hkept⟩ := h.ofs_eq
      simpa [act, flush, hkept, Call.rotates, Call.records, Sized] using hs
  | spill n =>
      obtain ⟨kept, hkept⟩ := h.ofs_eq
      simpa [act, spill, hkept, Call.rotates, Call.records, Sized] using hs

/-! ## Runs -/

/-- A sink after its construction: open, with the path and the mode that it was given, and with the
    right size. -/
structure InUse (path : Bytes) (mode : RotationMode ω) (s : RotatingFileSink ω) : Prop where
  opened : s.Open
  path_eq : s.path = path
  mode_eq : s.rotation = some mode
  sized : s.Sized

variable {path : Bytes} {mode : RotationMode ω}

theorem construct_inUse (files : FileSystem) (path : Bytes) (mode : RotationMode ω)
    (today : Bytes) : InUse path mode (construct files path (some mode) today) where
  opened := construct_open files path (some mode) today
  path_eq := rfl
  mode_eq := rfl
  sized := by
    rw [Sized, active, construct_contents]
    rfl

theorem active_construct (files : FileSystem) (path : Bytes) (mode : Option (RotationMode ω))
    (today : Bytes) : (construct files path mode today).active = files.content path := by
  rw [active, construct_contents]
  show (files.append path []).content path = files.content path
  rw [Files.append, Files.content_store, List.append_nil]

theorem InUse.act {s : RotatingFileSink ω} (h : InUse path mode s) (call : Call ω) :
    InUse path mode (s.act call) where
  opened := (act_of_open h.opened call).1
  path_eq := (act_of_open h.opened call).2.1.trans h.path_eq
  mode_eq := (rotation_act h.opened call).trans h.mode_eq
  sized := act_sized h.opened h.sized call

theorem InUse.runCalls {s : RotatingFileSink ω} (h : InUse path mode s) (calls : List (Call ω)) :
    InUse path mode (s.runCalls calls) := by
  induction calls generalizing s with
  | nil => exact h
  | cons call calls ih => exact ih (h.act call)

theorem InUse.keep_eq {s : RotatingFileSink ω} (h : InUse path mode s) :
    s.keep = mode.maxArchivedFiles := by
  rw [keep, h.mode_eq]

theorem runCalls_concat (s : RotatingFileSink ω) (calls : List (Call ω)) (call : Call ω) :
    s.runCalls (calls ++ [call]) = (s.runCalls calls).act call := by
  simp [runCalls]

theorem written_concat (calls : List (Call ω)) (call : Call ω) :
    written (calls ++ [call]) = written calls ++ call.records := by
  simp [written]

/-! ## What the archives are -/

/-- An archive after a rotation was an archive before it, or is the file that was active. -/
theorem InUse.archive_act {s : RotatingFileSink ω} (h : InUse path mode s) (call : Call ω)
    (i : Nat) {data : Bytes} (hdata : (s.act call).contents (nameAt path (i + 1)) = some data) :
    s.contents (nameAt path (i + 1)) = some data ∨
      call.rotates s = true ∧ s.contents (nameAt path i) = some data := by
  obtain rfl := h.path_eq
  obtain ⟨-, -, -, hcontents⟩ := act_of_open h.opened call
  have hne : nameAt s.path (i + 1) ≠ s.path := fun heq => by
    have := nameAt_injective s.path (heq.trans (nameAt_zero s.path).symm)
    omega
  rw [hcontents, Files.append, Files.store_of_ne _ _ hne] at hdata
  split at hdata
  · next hr =>
      rw [Files.rotate, nameAt_zero, Files.store_of_ne _ _ hne] at hdata
      by_cases hi : i < s.keep.toNat
      · rw [← Files.tryShiftDown_of_none (fun _ => false) (fun _ => rfl),
          Files.tryShiftDown_next (nameAt_injective s.path) _ _ _ hi] at hdata
        split at hdata
        · exact Or.inr ⟨hr, hdata⟩
        · split at hdata
          · cases hdata
          · exact Or.inl hdata
      · rw [Files.shiftDown_of_ne _ _ (fun j hj heq => by
          have := nameAt_injective s.path heq
          omega)] at hdata
        exact Or.inl hdata
  · exact Or.inl hdata

/-- **Where an archive comes from**: it was there at first, or it was the active file at one of the
    rotations, and no byte of it changed since. -/
theorem archive_origin (files : FileSystem) (mode : RotationMode ω) (today : Bytes)
    (calls : List (Call ω)) (i : Nat) {data : Bytes}
    (hdata : ((construct files path (some mode) today).runCalls calls).contents
      (nameAt path (i + 1)) = some data) :
    (∃ j, files (nameAt path (j + 1)) = some data) ∨
      ∃ pre call, pre ++ [call] <+: calls ∧
        call.rotates ((construct files path (some mode) today).runCalls pre) = true ∧
        ((construct files path (some mode) today).runCalls pre).active = data := by
  induction calls using List.reverseRecOn generalizing i with
  | nil =>
      left
      refine ⟨i, ?_⟩
      have hne : nameAt path (i + 1) ≠ path := fun heq => by
        have := nameAt_injective path (heq.trans (nameAt_zero path).symm)
        omega
      have hcontents := construct_contents files path (some mode) today
      rw [runCalls, List.foldl_nil, hcontents, Files.append, Files.store_of_ne _ _ hne] at hdata
      exact hdata
  | append_singleton calls call ih =>
      have hs := (construct_inUse files path mode today).runCalls calls
      rw [runCalls_concat] at hdata
      -- an archive of the state before has its origin by the induction
      have hbefore : ∀ j, ((construct files path (some mode) today).runCalls calls).contents
          (nameAt path (j + 1)) = some data →
          (∃ j, files (nameAt path (j + 1)) = some data) ∨
          ∃ pre call', pre ++ [call'] <+: calls ++ [call] ∧
            call'.rotates ((construct files path (some mode) today).runCalls pre) = true ∧
            ((construct files path (some mode) today).runCalls pre).active = data := by
        intro j hj
        rcases ih j hj with hinit | ⟨pre, call', hpre, hrest⟩
        · exact Or.inl hinit
        · exact Or.inr ⟨pre, call', hpre.trans (List.prefix_append _ _), hrest⟩
      rcases hs.archive_act call i hdata with hold | ⟨hr, hmoved⟩
      · exact hbefore i hold
      · cases i with
        | zero =>
            refine Or.inr ⟨calls, call, List.prefix_refl _, hr, ?_⟩
            rw [nameAt_zero] at hmoved
            rw [active, hs.path_eq, Files.content, hmoved, Option.getD_some]
        | succ i => exact hbefore i hmoved

/-! ## The bound -/

variable {maxBytes : UInt64} {keepFiles : Int}

theorem rotates_fileSizeExceeds {s : RotatingFileSink ω}
    (h : s.rotation = some (.fileSizeExceeds maxBytes keepFiles)) (incoming : UInt64)
    (today : Bytes) (w : ω) :
    s.rotates incoming today w = decide (maxBytes < s.currentSize + incoming) := by
  rw [rotates, h]
  rfl

/-- The size of a file that `std::size_t` can hold. -/
theorem Sized.toNat_currentSize {s : RotatingFileSink ω} (hs : s.Sized)
    (hlen : s.active.length < 2 ^ 64) : s.currentSize.toNat = s.active.length := by
  rw [hs, Nat.toUInt64_eq, UInt64.toNat_ofNat']
  exact Nat.mod_eq_of_lt hlen

/-- A write leaves no more than the larger of the limit and itself in the active file. -/
theorem active_write_le {s : RotatingFileSink ω}
    (h : InUse path (.fileSizeExceeds maxBytes keepFiles) s) (data today : Bytes) (w : ω)
    (hlen : s.active.length < 2 ^ 64) (hfits : s.currentSize.toNat + data.length < 2 ^ 64) :
    (s.write data today w).active.length ≤ max maxBytes.toNat data.length ∧
      (s.write data today w).active.length < 2 ^ 64 := by
  have hactive := active_act h.opened (.write data today w)
  rw [act, Call.records, List.flatten_singleton, Call.rotates] at hactive
  rw [hactive, List.length_append]
  by_cases hr : s.rotates data.length.toUInt64 today w = true
  · rw [if_pos hr, List.length_nil, Nat.zero_add]
    exact ⟨Nat.le_max_right _ _, by omega⟩
  · rw [if_neg hr]
    rw [rotates_fileSizeExceeds h.mode_eq, decide_eq_true_eq, UInt64.not_lt,
      UInt64.le_iff_toNat_le, UInt64.toNat_add, Nat.toUInt64_eq, UInt64.toNat_ofNat',
      Nat.mod_eq_of_lt (show data.length < 2 ^ 64 by omega), Nat.mod_eq_of_lt hfits,
      h.sized.toNat_currentSize hlen] at hr
    rw [h.sized.toNat_currentSize hlen] at hfits
    exact ⟨hr.trans (Nat.le_max_left _ _), hfits⟩

/-- In no write of the run does the size reach `2 ^ 64`. -/
def Fits (s : RotatingFileSink ω) (calls : List (Call ω)) : Prop :=
  ∀ pre data today w, pre ++ [.write data today w] <+: calls →
    (s.runCalls pre).currentSize.toNat + data.length < 2 ^ 64

/-- The active file is the first one, as it was, or bounded by a write. -/
def ActiveBounded (maxBytes : UInt64) (initial : Bytes) (calls : List (Call ω))
    (s : RotatingFileSink ω) : Prop :=
  written calls = [] ∧ s.active = initial ∨
    ∃ data ∈ written calls, s.active.length ≤ max maxBytes.toNat data.length

theorem run_bounded (files : FileSystem) (today : Bytes) (calls : List (Call ω))
    (hfile : (files.content path).length < 2 ^ 64)
    (hfits : Fits (construct files path (some (.fileSizeExceeds maxBytes keepFiles)) today)
      calls) :
    let s := (construct files path (some (.fileSizeExceeds maxBytes keepFiles)) today).runCalls
      calls
    s.active.length < 2 ^ 64 ∧ ActiveBounded maxBytes (files.content path) calls s := by
  intro s
  induction calls using List.reverseRecOn with
  | nil =>
      have hactive : s.active = files.content path := active_construct _ _ _ _
      exact ⟨by rwa [hactive], Or.inl ⟨rfl, hactive⟩⟩
  | append_singleton calls call ih =>
      obtain ⟨hlen, hbound⟩ := ih (fun pre data day w hpre =>
        hfits pre data day w (hpre.trans (List.prefix_append _ _)))
      set before :=
        (construct files path (some (.fileSizeExceeds maxBytes keepFiles)) today).runCalls calls
        with hbefore
      have hin : InUse path (.fileSizeExceeds maxBytes keepFiles) before :=
        (construct_inUse files path _ today).runCalls calls
      have hs : s = before.act call := runCalls_concat _ calls call
      -- a call that writes nothing leaves the active file as it is
      have hquiet : ∀ call : Call ω, call.records = [] → call.rotates before = false →
          (before.act call).active.length < 2 ^ 64 ∧
            ActiveBounded maxBytes (files.content path) (calls ++ [call]) (before.act call) := by
        intro call hrecords hrotates
        have hsame : (before.act call).active = before.active := by
          rw [active_act hin.opened, hrecords, hrotates]
          simp
        rw [ActiveBounded, written_concat, hrecords, List.append_nil, hsame]
        exact ⟨hlen, hbound⟩
      rw [hs]
      cases call with
      | write data day w =>
          obtain ⟨hle, hlt⟩ := active_write_le hin data day w hlen
            (hfits calls data day w (List.prefix_refl _))
          refine ⟨hlt, Or.inr ⟨data, ?_, hle⟩⟩
          rw [written_concat]
          exact List.mem_append_right _ (List.mem_singleton.2 rfl)
      | flush => exact hquiet .flush rfl rfl
      | spill n => exact hquiet (.spill n) rfl rfl

/-! ## What an archive slot is spent on -/

/-- The rotation of this call moves a non-empty active file to `.1`. -/
def ArchivesSomething (s : RotatingFileSink ω) (call : Call ω) : Prop :=
  s.active ≠ [] ∧ (s.act call).contents (archivePath s.path 1) = some s.active

theorem contents_first_archive {s : RotatingFileSink ω} (h : s.Open) (hk : 1 ≤ s.keep)
    {call : Call ω} (hr : call.rotates s = true) :
    (s.act call).contents (archivePath s.path 1) = some s.active := by
  obtain ⟨-, -, -, hcontents⟩ := act_of_open h call
  have hne : nameAt s.path 1 ≠ s.path := fun heq => by
    have := nameAt_injective s.path (heq.trans (nameAt_zero s.path).symm)
    omega
  have hfile : s.contents (nameAt s.path 0) = some s.active := by
    rw [nameAt_zero, active, contents, Files.append, Files.content_store, Files.store_self]
  show (s.act call).contents (nameAt s.path (0 + 1)) = some s.active
  rw [hcontents, if_pos hr, Files.append, Files.store_of_ne _ _ hne, Files.rotate, nameAt_zero,
    Files.store_of_ne _ _ hne, ← Files.tryShiftDown_of_none (fun _ => false) (fun _ => rfl),
    Files.tryShiftDown_next (nameAt_injective s.path) _ _ _ (by omega),
    if_pos ⟨by rw [hfile, Option.isSome_some], rfl⟩, hfile]

end RotatingFileSink

open RotatingFileSink in
/-- **Rotation by size bounds every file.** `current_size` is the size of the active file. A write
    of `n` bytes leaves at most the larger of the limit and `n` in it. What a rotation moves to `.1`
    is the first file, if nothing has been written to it, and otherwise no larger than the limit or
    some write; and an archive is one that was there at first or came from such a rotation. -/
theorem size_rotation_bounds_files {ω : Type} (files : FileSystem) (path today : Bytes)
    (maxBytes : UInt64) (keepFiles : Int) (calls : List (Call ω))
    (hfile : (files.content path).length < 2 ^ 64)
    (hfits : Fits (construct files path (some (.fileSizeExceeds maxBytes keepFiles)) today)
      calls) :
    let sink := construct files path (some (.fileSizeExceeds maxBytes keepFiles)) today
    (sink.runCalls calls).currentSize.toNat = (sink.runCalls calls).active.length ∧
    (∀ pre data day w, calls = pre ++ [.write data day w] →
      (sink.runCalls calls).active.length ≤ max maxBytes.toNat data.length) ∧
    (∀ pre call, pre ++ [call] <+: calls → call.rotates (sink.runCalls pre) = true →
      ActiveBounded maxBytes (files.content path) pre (sink.runCalls pre)) ∧
    (∀ i data, (sink.runCalls calls).contents (archivePath path (i + 1)) = some data →
      (∃ j, files (archivePath path (j + 1)) = some data) ∨
        ∃ pre call, pre ++ [call] <+: calls ∧ call.rotates (sink.runCalls pre) = true ∧
          (sink.runCalls pre).active = data) := by
  intro sink
  have hin : ∀ pre, InUse path (.fileSizeExceeds maxBytes keepFiles) (sink.runCalls pre) :=
    fun pre => (construct_inUse files path _ today).runCalls pre
  have hpre : ∀ pre, pre <+: calls → (sink.runCalls pre).active.length < 2 ^ 64 ∧
      ActiveBounded maxBytes (files.content path) pre (sink.runCalls pre) := by
    intro pre hpre
    exact run_bounded files today pre hfile
      (fun pre' data day w h => hfits pre' data day w (h.trans hpre))
  refine ⟨?_, ?_, ?_, ?_⟩
  · exact (hin calls).sized.toNat_currentSize (hpre calls (List.prefix_refl _)).1
  · intro pre data day w hcalls
    have hlen := (hpre pre (hcalls ▸ List.prefix_append _ _)).1
    rw [hcalls, runCalls_concat]
    exact (active_write_le (hin pre) data day w hlen
      (hfits pre data day w (hcalls ▸ List.prefix_refl _))).1
  · intro pre call hmade _
    exact (hpre pre ((List.prefix_append pre [call]).trans hmade)).2
  · intro i data hdata
    exact archive_origin files _ today calls i hdata

open RotatingFileSink in
theorem size_rotation_bounds_one_write :
    let sink : RotatingFileSink Unit :=
      construct (Files.store (fun _ => none) (bytes "a") [120]) (bytes "a")
        (some (.fileSizeExceeds 1 1)) []
    (sink.runCalls [.write [121] [] ()]).active.length ≤ max (UInt64.toNat 1) 1 :=
  (size_rotation_bounds_files (Files.store (fun _ => none) (bytes "a") [120]) (bytes "a") [] 1 1
    [.write [121] [] ()] (by decide) (by
      intro pre data today w ⟨post, hpost⟩
      cases pre with
      | nil =>
          obtain ⟨⟨rfl, -⟩, -⟩ : (data = [121] ∧ today = []) ∧ post = [] := by simpa using hpost
          decide
      | cons call pre => simp at hpost)).2.1 [] [121] [] () rfl

open RotatingFileSink in
/-- **When a rotation by size archives nothing.** With at least one archive, every rotation of a run
    moves a non-empty file to `.1` exactly if no record larger than the limit is written while the
    active file is empty. -/
theorem size_rotation_archives_something {ω : Type} (files : FileSystem) (path today : Bytes)
    (maxBytes : UInt64) (keepFiles : Int) (hk : 1 ≤ keepFiles) (calls : List (Call ω)) :
    let sink := construct files path (some (.fileSizeExceeds maxBytes keepFiles)) today
    (∀ pre call, pre ++ [call] <+: calls → call.rotates (sink.runCalls pre) = true →
      ArchivesSomething (sink.runCalls pre) call) ↔
    (∀ pre data day w, pre ++ [.write data day w] <+: calls →
      (sink.runCalls pre).active = [] → ¬ maxBytes < data.length.toUInt64) := by
  intro sink
  have hin : ∀ pre, InUse path (.fileSizeExceeds maxBytes keepFiles) (sink.runCalls pre) :=
    fun pre => (construct_inUse files path _ today).runCalls pre
  have hempty : ∀ pre, (sink.runCalls pre).active = [] → (sink.runCalls pre).currentSize = 0 := by
    intro pre h
    rw [(hin pre).sized, h]
    rfl
  constructor
  · intro hall pre data day w hmade hactive hlarge
    have hr : (sink.runCalls pre).rotates data.length.toUInt64 day w = true := by
      rw [rotates_fileSizeExceeds (hin pre).mode_eq, hempty pre hactive, UInt64.zero_add]
      exact decide_eq_true hlarge
    exact (hall pre (.write data day w) hmade hr).1 hactive
  · intro hcond pre call hmade hr
    refine ⟨fun hactive => ?_, ?_⟩
    · cases call with
      | write data day w =>
          rw [Call.rotates, rotates_fileSizeExceeds (hin pre).mode_eq, hempty pre hactive,
            UInt64.zero_add, decide_eq_true_eq] at hr
          exact hcond pre data day w hmade hactive hr
      | flush => cases hr
      | spill n => cases hr
    · exact contents_first_archive (hin pre).opened (by rw [(hin pre).keep_eq]; exact hk) hr

open RotatingFileSink in
theorem size_rotation_archives_something_one_byte :
    let sink : RotatingFileSink Unit :=
      construct (Files.store (fun _ => none) (bytes "a") [120]) (bytes "a")
        (some (.fileSizeExceeds 1 1)) []
    ArchivesSomething sink (.write [121, 122] [] ()) :=
  (size_rotation_archives_something (Files.store (fun _ => none) (bytes "a") [120])
    (bytes "a") [] 1 1 (by decide) [.write [121, 122] [] ()]).2 (by
      intro pre data today w ⟨post, hpost⟩ hactive
      cases pre with
      | nil => exact absurd hactive (by decide)
      | cons call pre => simp at hpost) [] _ (List.prefix_refl _) (by decide)

open RotatingFileSink in
/-- A record larger than the limit at an empty active file: the only archive makes room for an empty
    one. -/
theorem oversized_record_archives_nothing :
    let files : FileSystem := Files.store (fun _ => none) (archivePath (bytes "a") 1) [120]
    let sink : RotatingFileSink Unit := construct files (bytes "a") (some (.fileSizeExceeds 1 1)) []
    Call.rotates sink (.write [121, 122] [] ()) = true ∧
      ¬ ArchivesSomething sink (.write [121, 122] [] ()) ∧
      files (archivePath (bytes "a") 1) = some [120] ∧
      (sink.act (.write [121, 122] [] ())).contents (archivePath (bytes "a") 1) = some [] := by
  intro files sink
  have hne : bytes "a" ≠ archivePath (bytes "a") 1 := fun heq => by
    have := nameAt_injective (bytes "a") (show nameAt (bytes "a") 0 = nameAt (bytes "a") 1 from heq)
    omega
  have hactive : sink.active = [] := by
    have hfile : files (bytes "a") = none := Files.store_of_ne _ _ hne
    rw [active_construct, Files.content, hfile, Option.getD_none]
  have hin : InUse (bytes "a") (.fileSizeExceeds 1 1) sink := construct_inUse files _ _ []
  have hr : Call.rotates sink (.write [121, 122] [] ()) = true := by
    rw [Call.rotates, rotates_fileSizeExceeds hin.mode_eq, hin.sized, hactive]
    decide
  have harchive := contents_first_archive hin.opened (by decide) hr
  rw [hactive] at harchive
  exact ⟨hr, fun h => h.1 hactive, Files.store_self _ _ _, harchive⟩

end SyLog
