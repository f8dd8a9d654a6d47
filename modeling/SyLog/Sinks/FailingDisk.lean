import SyLog.Sinks.CrashSafety
import SyLog.Sinks.FailedRenames
import SyLog.Sinks.FailedStreams

set_option autoImplicit false

/-! # A disk on which everything may fail

One process after another opens a sink on a path, and each opening, renaming, write, flush and
closing may fail. Of a stream operation that fails nothing is assumed but that the file still has
what was handed over before: then comes a beginning of what the stream kept, and anything after
that, at once or when the stream is closed. A process that dies is one whose closing fails.

What is on the disk then has gaps, torn records, and what failed operations left behind, but no
record is there twice or out of order, and each failure tears at most one
(`failing_disk_keeps_order`). -/

namespace SyLog

open RotatingFileSink

variable {ω : Type} {k : Int}

/-! ## Operations that fail -/

/-- Of what the stream keeps, the file gets the first `handed` bytes, and then `garbage`; the stream
    keeps `left` from then on. -/
structure Failure where
  handed : Nat
  garbage : Bytes := []
  left : Bytes := []
  deriving DecidableEq, Repr

/-- What the file gets. -/
def Failure.into (f : Failure) (kept : Bytes) : Bytes := kept.take f.handed ++ f.garbage

/-- `ofs.close()`, which drops what the stream keeps. -/
def RotatingFileSink.tryCloseStream (closes : Option Failure) (s : RotatingFileSink ω) :
    RotatingFileSink ω :=
  match closes, s.ofs with
  | some f, some kept => { s with files := s.files.append s.path (f.into kept), ofs := none }
  | _, _ => s.closeStream

/-- What becomes of the operations of a write: of the opening in `open_if_needed`, of the closing,
    the renamings and the opening in `rotate_if_needed`, and of the write of the stream. -/
structure DiskOutcomes where
  opens : Bool := true
  closes : Option Failure := none
  fails : Nat → Bool := fun _ => false
  reopens : Bool := true
  writes : Option Failure := none

namespace FaultySink

/-- `rotate_if_needed`: whatever becomes of the closing is ignored, and the opening clears the error
    state. -/
def rotateFailing (o : DiskOutcomes) (s : FaultySink ω) (incoming : UInt64) (today : Bytes)
    (w : ω) : FaultySink ω :=
  if s.rotates incoming today w then
    let r := { tryRotateFiles o.fails (s.tryCloseStream o.closes) with openedDay := today }
    { (if o.reopens then r.openTrunc else r) with currentSize := 0, failed := !o.reopens }
  else s

/-- An operation on a stream that keeps `kept` sets the error state. -/
def fail (f : Failure) (kept : Bytes) (s : FaultySink ω) : FaultySink ω :=
  { s with files := s.files.append s.path (f.into kept), ofs := some f.left, failed := true }

/-- `ofs.write(bytes.data(), bytes.size())` -/
def putFailing (writes : Option Failure) (s : FaultySink ω) (data : Bytes) : FaultySink ω :=
  if s.failed then s
  else match s.ofs with
    | none => s
    | some kept =>
      match writes with
      | none => { s with ofs := some (kept ++ data) }
      | some f => s.fail f (kept ++ data)

def writeFailing (o : DiskOutcomes) (s : FaultySink ω) (data today : Bytes) (w : ω) :
    FaultySink ω :=
  let s := if s.ofs.isNone then s.tryOpenIfNeeded o.opens today else s
  if s.failed then s
  else
    let s := (s.rotateFailing o data.length.toUInt64 today w).putFailing o.writes data
    { s with currentSize := s.currentSize + data.length.toUInt64 }

/-- `if (ofs) ofs.flush()` -/
def flushFailing (flushes : Option Failure) (s : FaultySink ω) : FaultySink ω :=
  if s.failed then s
  else match s.ofs with
    | none => s
    | some kept =>
      match flushes with
      | none => { s with files := s.files.append s.path kept, ofs := some [] }
      | some f => s.fail f kept

/-- The process ends, which closes its stream, and another one opens the sink. -/
def reopen (closes : Option Failure) (opens : Bool) (s : FaultySink ω) (mode : KeepsArchives ω k)
    (today : Bytes) : FaultySink ω :=
  construct opens (s.tryCloseStream closes).files s.path mode.1 today

/-- What a write of the stream can do. -/
theorem putFailing_cases (writes : Option Failure) (s : FaultySink ω) (data : Bytes) :
    s.putFailing writes data = s ∨ ∃ kept, s.ofs = some kept ∧
      ((writes = none ∧ s.putFailing writes data = { s with ofs := some (kept ++ data) }) ∨
        ∃ f, writes = some f ∧ s.putFailing writes data = s.fail f (kept ++ data)) := by
  cases hfailed : s.failed with
  | true => exact Or.inl (by simp [putFailing, hfailed])
  | false =>
      cases hofs : s.ofs with
      | none => exact Or.inl (by simp [putFailing, hofs])
      | some kept =>
          refine Or.inr ⟨kept, rfl, ?_⟩
          cases writes with
          | none => exact Or.inl ⟨rfl, by simp [putFailing, hfailed, hofs]⟩
          | some f => exact Or.inr ⟨f, rfl, by simp [putFailing, hfailed, hofs]⟩

/-- What a flush can do. -/
theorem flushFailing_cases (flushes : Option Failure) (s : FaultySink ω) :
    s.flushFailing flushes = s ∨ ∃ kept, s.ofs = some kept ∧
      ((flushes = none ∧ s.flushFailing flushes
          = { s with files := s.files.append s.path kept, ofs := some [] }) ∨
        ∃ f, flushes = some f ∧ s.flushFailing flushes = s.fail f kept) := by
  cases hfailed : s.failed with
  | true => exact Or.inl (by simp [flushFailing, hfailed])
  | false =>
      cases hofs : s.ofs with
      | none => exact Or.inl (by simp [flushFailing, hofs])
      | some kept =>
          refine Or.inr ⟨kept, rfl, ?_⟩
          cases flushes with
          | none => exact Or.inl ⟨rfl, by simp [flushFailing, hfailed, hofs]⟩
          | some f => exact Or.inr ⟨f, rfl, by simp [flushFailing, hfailed, hofs]⟩

/-- Where only openings fail it is the write of the faulty sink. -/
theorem writeFailing_of_succeeds {o : DiskOutcomes} (hcloses : o.closes = none)
    (hfails : ∀ i, o.fails i = false) (hwrites : o.writes = none) (s : FaultySink ω)
    (data today : Bytes) (w : ω) :
    s.writeFailing o data today w
      = s.write { opens := o.opens, reopens := o.reopens } data today w := by
  have hrotate : ∀ t : FaultySink ω, t.rotateFailing o data.length.toUInt64 today w
      = t.tryRotateIfNeeded o.reopens data.length.toUInt64 today w := by
    intro t
    have hclose : t.tryCloseStream o.closes = t.closeStream := by rw [hcloses]; rfl
    rw [rotateFailing, tryRotateIfNeeded, hclose, tryRotateFiles_eq, rotateFiles_eq,
      Files.tryShiftDown_of_none o.fails hfails]
  have hput : ∀ t : FaultySink ω, t.putFailing o.writes data = t.put none data := by
    rintro ⟨⟨files, path, rotation, openedDay, currentSize, ofs⟩, failed⟩
    rw [hwrites]
    cases failed <;> cases ofs <;> rfl
  simp only [writeFailing, write, hrotate, hput]

end FaultySink

inductive DiskStep (ω : Type) (k : Int) where
  | write (data today : Bytes) (w : ω) (outcomes : DiskOutcomes)
  | flush (flushes : Option Failure)
  | restart (closes : Option Failure) (mode : KeepsArchives ω k) (opens : Bool) (today : Bytes)

def FaultySink.diskStep (s : FaultySink ω) : DiskStep ω k → FaultySink ω
  | .write data today w outcomes => s.writeFailing outcomes data today w
  | .flush flushes => s.flushFailing flushes
  | .restart closes mode opens today => s.reopen closes opens mode today

def FaultySink.runDisk (s : FaultySink ω) (steps : List (DiskStep ω k)) : FaultySink ω :=
  steps.foldl diskStep s

/-! ## What a step may leave in the files -/

inductive Entry where
  | record (data : Bytes)
  /-- what a failed operation leaves behind -/
  | junk (data : Bytes)
  deriving DecidableEq, Repr

def Entry.data : Entry → Bytes
  | .record data => data
  | .junk data => data

def Entry.isJunk : Entry → Bool
  | .record _ => false
  | .junk _ => true

/-- What a failed closing leaves. -/
def closingJunk : Option Failure → List Entry
  | none => []
  | some f => [.junk f.garbage]

/-- What a failed write or flush leaves; the rest of it comes when the stream is closed. -/
def streamJunk : Option Failure → List Entry
  | none => []
  | some f => [.junk (f.garbage ++ f.left)]

/-- The record that the step writes, and one piece of junk for each operation of the stream that
    fails. -/
def DiskStep.entries : DiskStep ω k → List Entry
  | .write data _ _ o => closingJunk o.closes ++ (.record data :: streamJunk o.writes)
  | .flush flushes => streamJunk flushes
  | .restart closes _ _ _ => closingJunk closes

/-! ## Fragments -/

/-- An entry, and how many of its bytes are there. -/
structure Fragment where
  entry : Entry
  taken : Nat

def Fragment.text (p : Fragment) : Bytes := p.entry.data.take p.taken

def Fragment.torn (p : Fragment) : Bool := decide (p.taken < p.entry.data.length)

def Fragment.whole (entry : Entry) : Fragment := ⟨entry, entry.data.length⟩

@[simp] theorem Fragment.whole_text (entry : Entry) :
    (Fragment.whole entry).text = entry.data := List.take_length

@[simp] theorem Fragment.whole_torn (entry : Entry) : (Fragment.whole entry).torn = false := by
  simp [torn, whole]

def texts (fragments : List Fragment) : Bytes := fragments.flatMap Fragment.text

theorem texts_cons (p : Fragment) (fragments : List Fragment) :
    texts (p :: fragments) = p.text ++ texts fragments := rfl

theorem texts_append (fragments fragments' : List Fragment) :
    texts (fragments ++ fragments') = texts fragments ++ texts fragments' := List.flatMap_append

/-- The fragments of the first `n` bytes. -/
def cut : Nat → List Fragment → List Fragment
  | _, [] => []
  | n, p :: fragments =>
    if p.text.length ≤ n then p :: cut (n - p.text.length) fragments else [{ p with taken := n }]

/-- A cut tears at most one fragment and takes the others from the end. -/
theorem cut_spec (n : Nat) (fragments : List Fragment) :
    texts (cut n fragments) = (texts fragments).take n ∧
      (cut n fragments).map Fragment.entry <+: fragments.map Fragment.entry ∧
      (cut n fragments).countP Fragment.torn ≤ fragments.countP Fragment.torn + 1 := by
  induction fragments generalizing n with
  | nil => simp [cut, texts]
  | cons p fragments ih =>
      rw [cut]
      by_cases hp : p.text.length ≤ n
      · obtain ⟨htexts, hentries, htorn⟩ := ih (n - p.text.length)
        rw [if_pos hp]
        refine ⟨?_, ?_, ?_⟩
        · rw [texts_cons, htexts, texts_cons, List.take_append, List.take_of_length_le hp]
        · rw [List.map_cons, List.map_cons]
          exact List.cons_prefix_cons.2 ⟨rfl, hentries⟩
        · rw [List.countP_cons, List.countP_cons]
          omega
      · rw [if_neg hp]
        have hn : n < p.text.length := by omega
        refine ⟨?_, ?_, ?_⟩
        · have htaken : n ≤ p.taken := by
            rw [Fragment.text, List.length_take] at hn
            omega
          have hfirst : p.text.take n = p.entry.data.take n := by
            rw [Fragment.text, List.take_take, Nat.min_eq_left htaken]
          rw [texts_cons, texts_cons, List.take_append_of_le_length (Nat.le_of_lt hn), hfirst]
          exact List.append_nil _
        · exact ⟨fragments.map Fragment.entry, rfl⟩
        · have hone := List.countP_le_length (p := Fragment.torn) (l := [{ p with taken := n }])
          rw [List.length_singleton] at hone
          omega

/-- The files are made of fragments; those along the chain are of entries of `log`, in this order
    and each at most once, and no more of them are torn than operations of the stream failed. -/
def InFragments (path : Bytes) (k : Nat) (log : List Entry) (files : FileSystem) : Prop :=
  ∃ fragments : Files Bytes Fragment, files = Files.mapContents texts fragments ∧
    ((Files.chain (nameAt path) k fragments).map Fragment.entry).Sublist log ∧
    (Files.chain (nameAt path) k fragments).countP Fragment.torn ≤ log.countP Entry.isJunk

namespace InFragments

variable {path : Bytes} {k : Nat} {log : List Entry} {files : FileSystem}

theorem mono (h : InFragments path k log files) {log' : List Entry} (hlog : log.Sublist log') :
    InFragments path k log' files := by
  obtain ⟨fragments, hfiles, hsub, htorn⟩ := h
  exact ⟨fragments, hfiles, hsub.trans hlog, htorn.trans hlog.countP_le⟩

/-- Other files, of which the chain has no more fragments. -/
theorem of_sublist {fragments fragments' : Files Bytes Fragment}
    (hchain : (Files.chain (nameAt path) k fragments').Sublist
      (Files.chain (nameAt path) k fragments))
    (hsub : ((Files.chain (nameAt path) k fragments).map Fragment.entry).Sublist log)
    (htorn : (Files.chain (nameAt path) k fragments).countP Fragment.torn
      ≤ log.countP Entry.isJunk) :
    InFragments path k log (Files.mapContents texts fragments') :=
  ⟨fragments', rfl, (hchain.map _).trans hsub, hchain.countP_le.trans htorn⟩

theorem tryShiftDown (h : InFragments path k log files) (fails : Nat → Bool) :
    InFragments path k log (Files.tryShiftDown (nameAt path) fails k files) := by
  obtain ⟨fragments, rfl, hsub, htorn⟩ := h
  rw [Files.tryShiftDown_mapContents]
  exact of_sublist (Files.chain_tryShiftDown_sublist (nameAt_injective path) fails k fragments)
    hsub htorn

theorem truncate (h : InFragments path k log files) :
    InFragments path k log (files.store path []) := by
  obtain ⟨fragments, rfl, hsub, htorn⟩ := h
  have hstore := Files.store_mapContents texts fragments path []
  rw [show texts [] = [] from rfl] at hstore
  rw [hstore]
  exact of_sublist (Files.chain_store_nil_sublist (nameAt_injective path) k fragments) hsub htorn

/-- An entry is written. -/
theorem append (h : InFragments path k log files) (entry : Entry) :
    InFragments path k (log ++ [entry]) (files.append path entry.data) := by
  obtain ⟨fragments, rfl, hsub, htorn⟩ := h
  have happend := Files.append_mapContents texts rfl texts_append fragments path [.whole entry]
  rw [show texts [.whole entry] = entry.data by simp [texts]] at happend
  have hchain := Files.chain_append (nameAt_injective path) k fragments [.whole entry]
  rw [nameAt_zero] at hchain
  refine ⟨fragments.append path [.whole entry], happend, ?_, ?_⟩
  · rw [hchain, List.map_append]
    exact hsub.append (List.Sublist.refl _)
  · rw [hchain, List.countP_append, List.countP_append]
    simpa using Nat.le_add_right_of_le htorn

theorem create (h : InFragments path k log files) :
    InFragments path k log (files.append path []) := by
  obtain ⟨fragments, rfl, hsub, htorn⟩ := h
  have happend := Files.append_mapContents texts rfl texts_append fragments path []
  rw [show texts [] = [] from rfl] at happend
  have hchain := Files.chain_append (nameAt_injective path) k fragments []
  rw [nameAt_zero, List.append_nil] at hchain
  rw [happend]
  exact of_sublist (hchain ▸ List.Sublist.refl _) hsub htorn

/-- Instead of `kept` the active file gets a beginning of it, and then junk. -/
theorem damage {kept : Bytes} (h : InFragments path k log (files.append path kept)) (n : Nat)
    (junk : Bytes) :
    InFragments path k (log ++ [.junk junk]) (files.append path (kept.take n ++ junk)) := by
  obtain ⟨fragments, hfiles, hsub, htorn⟩ := h
  have hactive : texts (fragments.content path) = files.content path ++ kept := by
    rw [← Files.content_mapContents texts rfl, ← hfiles, Files.append, Files.content_store]
  -- the active file up to there
  let m := (files.content path).length + n
  obtain ⟨htexts, hentries, hcut⟩ := cut_spec m (fragments.content path)
  let replaced := cut m (fragments.content path) ++ [.whole (.junk junk)]
  have hreplaced : texts replaced = files.content path ++ (kept.take n ++ junk) := by
    rw [texts_append, htexts, hactive, List.take_length_add_append, List.append_assoc]
    simp [texts, Entry.data]
  obtain ⟨archives, hchain, hstore⟩ := Files.chain_store (nameAt_injective path) k fragments
  rw [nameAt_zero] at hchain hstore
  rw [hchain, List.map_append] at hsub
  rw [hchain, List.countP_append] at htorn
  refine ⟨fragments.store path replaced, ?_, ?_, ?_⟩
  · rw [← Files.store_mapContents, ← hfiles, hreplaced, Files.append, Files.append,
      Files.store_store]
  · rw [hstore, List.map_append, List.map_append, ← List.append_assoc]
    have hkept := ((List.Sublist.refl (archives.map Fragment.entry)).append hentries.sublist).trans
      hsub
    exact hkept.append (List.Sublist.refl _)
  · rw [hstore, List.countP_append, List.countP_append, List.countP_append]
    have hjunk : [Fragment.whole (.junk junk)].countP Fragment.torn = 0 := by simp
    have hone : [Entry.junk junk].countP Entry.isJunk = 1 := rfl
    omega

/-- At first each file is taken as one record. -/
theorem first (path : Bytes) (k : Nat) (files : FileSystem) :
    InFragments path k ((Files.chain (nameAt path) k (asRecords files)).map .record) files := by
  let fragments : Files Bytes Fragment :=
    Files.mapContents (List.map (fun c => .whole (.record c))) (asRecords files)
  have hchain : Files.chain (nameAt path) k fragments
      = (Files.chain (nameAt path) k (asRecords files)).map (fun c => .whole (.record c)) :=
    Files.chain_mapContents _ rfl (fun x y => List.map_append) _ _
  refine ⟨fragments, ?_, ?_, ?_⟩
  · funext name
    cases hfile : files name <;>
      simp [fragments, Files.mapContents, asRecords, hfile, texts, Entry.data]
  · rw [hchain, List.map_map]
    exact List.Sublist.refl _
  · rw [hchain, List.countP_map, List.countP_eq_zero.2 (fun c _ => by simp)]
    exact Nat.zero_le _

end InFragments

/-! ## The faulty sink -/

/-- What a sink and its files are after the steps that left `log`. -/
structure OnDisk (path : Bytes) (k : Int) (log : List Entry) (s : FaultySink ω) : Prop where
  path_eq : s.path = path
  keep_eq : s.keep = k
  fragments : InFragments path k.toNat log s.contents

variable {path : Bytes} {log : List Entry} {s : FaultySink ω}

theorem contents_of_some {s : RotatingFileSink ω} {kept : Bytes} (h : s.ofs = some kept) :
    s.contents = s.files.append s.path kept := by
  rw [contents, h]
  rfl

theorem tryCloseStream_frame (closes : Option Failure) (s : RotatingFileSink ω) :
    (s.tryCloseStream closes).path = s.path ∧ (s.tryCloseStream closes).rotation = s.rotation ∧
      (s.tryCloseStream closes).ofs = none := by
  cases hofs : s.ofs with
  | none => cases closes <;> simp [tryCloseStream, closeStream, hofs]
  | some kept => cases closes <;> simp [tryCloseStream, closeStream, hofs]

/-- The closing of an open stream, in order or not. -/
theorem InFragments.close {s : RotatingFileSink ω} (h : InFragments path k.toNat log s.contents)
    (hpath : s.path = path) (hopen : s.ofs.isSome) (closes : Option Failure) :
    InFragments path k.toNat (log ++ closingJunk closes) (s.tryCloseStream closes).files := by
  obtain ⟨kept, hofs⟩ := Option.isSome_iff_exists.1 hopen
  have hcontents := contents_of_some hofs
  rw [hpath] at hcontents
  rw [hcontents] at h
  cases closes with
  | none =>
      have hfiles : (s.tryCloseStream none).files = s.files.append path kept := by
        simp [tryCloseStream, closeStream, hofs, hpath]
      rw [hfiles, closingJunk, List.append_nil]
      exact h
  | some f =>
      have hfiles : (s.tryCloseStream (some f)).files = s.files.append path (f.into kept) := by
        simp [tryCloseStream, hofs, hpath]
      rw [hfiles]
      exact h.damage f.handed f.garbage

namespace OnDisk

/-- A step that only appends to the log. -/
theorem mono (h : OnDisk path k log s) {log' : List Entry} (hlog : log.Sublist log') :
    OnDisk path k log' s :=
  ⟨h.path_eq, h.keep_eq, h.fragments.mono hlog⟩

/-- The opening at the beginning of a write changes no contents, and succeeds or sets the error
    state. -/
theorem opening (h : OnDisk path k log s) (opens : Bool) (today : Bytes) :
    let t := if s.ofs.isNone then s.tryOpenIfNeeded opens today else s
    OnDisk path k log t ∧ (t.failed = false → t.ofs.isSome) := by
  intro t
  cases hofs : s.ofs with
  | some kept =>
      have ht : t = s := by simp [t, hofs]
      rw [ht]
      exact ⟨h, fun _ => by simp [hofs]⟩
  | none =>
      have ht : t = s.tryOpenIfNeeded opens today := by simp [t, hofs]
      rw [ht]
      cases opens with
      | false => exact ⟨⟨h.path_eq, h.keep_eq, h.fragments⟩, fun hf => by cases hf⟩
      | true =>
          have hcontents : (s.tryOpenIfNeeded true today).contents = s.contents := by
            rw [contents, contents, hofs]
            exact Files.append_append s.files s.path [] []
          exact ⟨⟨h.path_eq, h.keep_eq, hcontents ▸ h.fragments⟩, fun _ => rfl⟩

/-- A rotation of an open stream. -/
theorem rotate (h : OnDisk path k log s) (hopen : s.ofs.isSome) (o : DiskOutcomes)
    (incoming : UInt64) (today : Bytes) (w : ω) :
    OnDisk path k (log ++ closingJunk o.closes) (s.rotateFailing o incoming today w) := by
  by_cases hr : s.rotates incoming today w = true
  · obtain ⟨hpath, hrotation, hofs⟩ := tryCloseStream_frame o.closes s.toRotatingFileSink
    have hkeep : (s.tryCloseStream o.closes).keep = k := by
      rw [keep, hrotation]
      exact h.keep_eq
    have hshift := (h.fragments.close h.path_eq hopen o.closes).tryShiftDown o.fails
    rw [FaultySink.rotateFailing, if_pos hr, tryRotateFiles_eq, hkeep, hpath, h.path_eq]
    cases o.reopens with
    | true => exact ⟨rfl, hkeep, hshift.truncate.create⟩
    | false =>
        refine ⟨rfl, hkeep, ?_⟩
        show InFragments path k.toNat _
          (Files.append _ path ((s.tryCloseStream o.closes).ofs.getD []))
        rw [hofs]
        exact hshift.create
  · rw [FaultySink.rotateFailing, if_neg hr]
    exact h.mono (List.sublist_append_left _ _)

/-- A failing operation of a stream that would leave `kept` after the files. -/
theorem fail {kept : Bytes} (hpath : s.path = path) (hkeep : s.keep = k)
    (h : InFragments path k.toNat log (s.files.append path kept)) (f : Failure) :
    OnDisk path k (log ++ streamJunk (some f)) (s.fail f kept) := by
  have hdamage := h.damage f.handed (f.garbage ++ f.left)
  have hcontents : (s.fail f kept).contents
      = s.files.append path (kept.take f.handed ++ (f.garbage ++ f.left)) := by
    rw [contents, ← List.append_assoc, ← Files.append_append, ← hpath]
    rfl
  exact ⟨hpath, hkeep, hcontents ▸ hdamage⟩

/-- The write of the stream. -/
theorem put (h : OnDisk path k log s) (writes : Option Failure) (data : Bytes) :
    OnDisk path k (log ++ (.record data :: streamJunk writes)) (s.putFailing writes data) := by
  rcases s.putFailing_cases writes data with hskip | ⟨kept, hofs, hput⟩
  · rw [hskip]
    exact h.mono (List.sublist_append_left _ _)
  · have hrecord : InFragments path k.toNat (log ++ [.record data])
        (s.files.append path (kept ++ data)) := by
      rw [← Files.append_append, ← h.path_eq, ← contents_of_some hofs, h.path_eq]
      exact h.fragments.append (.record data)
    rw [List.append_cons]
    rcases hput with ⟨rfl, hput⟩ | ⟨f, rfl, hput⟩
    · rw [hput, streamJunk, List.append_nil]
      refine ⟨h.path_eq, h.keep_eq, ?_⟩
      rw [contents_of_some rfl]
      exact h.path_eq ▸ hrecord
    · rw [hput]
      exact fail h.path_eq h.keep_eq hrecord f

theorem write (h : OnDisk path k log s) (o : DiskOutcomes) (data today : Bytes) (w : ω) :
    OnDisk path k (log ++ (closingJunk o.closes ++ (.record data :: streamJunk o.writes)))
      (s.writeFailing o data today w) := by
  obtain ⟨hopened, hopen⟩ := h.opening o.opens today
  rw [FaultySink.writeFailing]
  generalize (if s.ofs.isNone then s.tryOpenIfNeeded o.opens today else s) = t at hopened hopen ⊢
  cases hf : t.failed with
  | true => exact hopened.mono (List.sublist_append_left _ _)
  | false =>
      have hput := (hopened.rotate (hopen hf) o data.length.toUInt64 today w).put o.writes data
      rw [List.append_assoc] at hput
      exact ⟨hput.path_eq, hput.keep_eq, hput.fragments⟩

theorem flush (h : OnDisk path k log s) (flushes : Option Failure) :
    OnDisk path k (log ++ streamJunk flushes) (s.flushFailing flushes) := by
  rcases s.flushFailing_cases flushes with hskip | ⟨kept, hofs, hflush⟩
  · rw [hskip]
    exact h.mono (List.sublist_append_left _ _)
  · have hkept := h.fragments
    rw [contents_of_some hofs, h.path_eq] at hkept
    rcases hflush with ⟨rfl, hflush⟩ | ⟨f, rfl, hflush⟩
    · rw [hflush, streamJunk, List.append_nil]
      refine ⟨h.path_eq, h.keep_eq, ?_⟩
      rw [contents_of_some rfl, Files.append_append, List.append_nil, h.path_eq]
      exact hkept
    · rw [hflush]
      exact fail h.path_eq h.keep_eq hkept f

theorem construct {files : FileSystem} (h : InFragments path k.toNat log (files.append path []))
    (opens : Bool) (mode : KeepsArchives ω k) (today : Bytes) :
    OnDisk path k log (FaultySink.construct opens files path mode.1 today) := by
  have hcontents : (FaultySink.construct opens files path mode.1 today).contents
      = files.append path [] := by
    cases opens with
    | true => exact Files.append_append files path [] []
    | false => rfl
  refine ⟨?_, ?_, hcontents ▸ h⟩
  · cases opens <;> rfl
  · cases opens <;> exact mode.2

/-- Where a process ends, another one finds what the closing has left. -/
theorem restart (h : OnDisk path k log s) (closes : Option Failure) (mode : KeepsArchives ω k)
    (opens : Bool) (today : Bytes) :
    OnDisk path k (log ++ closingJunk closes) (s.reopen closes opens mode today) := by
  have hfound : InFragments path k.toNat (log ++ closingJunk closes)
      ((s.tryCloseStream closes).files.append path []) := by
    cases hofs : s.ofs with
    | none =>
        have hfiles : (s.tryCloseStream closes).files = s.files := by
          cases closes <;> simp [tryCloseStream, closeStream, hofs]
        have hfragments := h.fragments
        rw [contents, hofs, h.path_eq] at hfragments
        rw [hfiles]
        exact hfragments.mono (List.sublist_append_left _ _)
    | some kept => exact (h.fragments.close h.path_eq (by simp [hofs]) closes).create
  rw [FaultySink.reopen, h.path_eq]
  exact construct hfound opens mode today

/-- **Step lemma.** -/
theorem step (h : OnDisk path k log s) (step : DiskStep ω k) :
    OnDisk path k (log ++ step.entries) (s.diskStep step) := by
  cases step with
  | write data today w outcomes => exact h.write outcomes data today w
  | flush flushes => exact h.flush flushes
  | restart closes mode opens today => exact h.restart closes mode opens today

theorem run (h : OnDisk path k log s) (steps : List (DiskStep ω k)) :
    OnDisk path k (log ++ steps.flatMap DiskStep.entries) (s.runDisk steps) := by
  induction steps generalizing log s with
  | nil => simpa [FaultySink.runDisk] using h
  | cons step steps ih =>
      have hrest := ih (h.step step)
      rwa [List.append_assoc] at hrest

end OnDisk

/-- **A failing disk keeps the order.** Whatever fails, the files of the path, together with what
    the stream keeps, are made of fragments. Along the chain these are of what was there first, and
    then of the records that were written and the junk that failed operations left, in the order of
    the steps and each at most once; and no more of them are torn than operations of the stream
    failed. -/
theorem failing_disk_keeps_order (opens : Bool) (files : FileSystem) (path : Bytes)
    (mode : KeepsArchives ω k) (today : Bytes) (steps : List (DiskStep ω k)) :
    let s := (FaultySink.construct opens files path mode.1 today).runDisk steps
    ∃ fragments : Files Bytes Fragment, s.contents = Files.mapContents texts fragments ∧
      ((Files.chain (nameAt path) k.toNat fragments).map Fragment.entry).Sublist
        ((Files.chain (nameAt path) k.toNat (asRecords files)).map .record
          ++ steps.flatMap DiskStep.entries) ∧
      (Files.chain (nameAt path) k.toNat fragments).countP Fragment.torn
        ≤ (steps.flatMap DiskStep.entries).countP Entry.isJunk := by
  intro s
  have hfirst := (InFragments.first path k.toNat files).create
  obtain ⟨-, -, fragments, hcontents, hsub, htorn⟩ :=
    (OnDisk.construct hfirst opens mode today).run steps
  refine ⟨fragments, hcontents, hsub, htorn.trans (Nat.le_of_eq ?_)⟩
  have hrecords : ∀ c, ¬ (Entry.isJunk ∘ Entry.record) c := by simp [Entry.isJunk]
  rw [List.countP_append, List.countP_map, List.countP_eq_zero.2 (fun c _ => hrecords c),
    Nat.zero_add]

/-- A write that fails after four bytes, of a stream that is closed in order at the end and then
    writes what it kept once more. -/
example :
    let start : FaultySink Unit := FaultySink.construct true (fun _ => none) (bytes "a") none []
    let steps : List (DiskStep Unit 5) := [.write (bytes "111") [] () {},
      .write (bytes "222") [] () { writes := some { handed := 4, left := bytes "111222" } },
      .restart none ⟨none, rfl⟩ true []]
    (start.runDisk steps).files (bytes "a") = some (bytes "1112111222") := by
  decide

end SyLog
