import SyLog.Sinks.SizeRotation

set_option autoImplicit false

/-! # Failures of the stream

The sink with the error state of its `std::ofstream`, where each opening and each write of the
stream may fail. A failed opening leaves the stream closed, and the next write tries again. A
failed write leaves it open: `write` then neither opens it, since it is open, nor writes, since it
is in the error state. -/

namespace SyLog

/-- The sink and the error state of its stream. -/
structure FaultySink (ω : Type) extends RotatingFileSink ω where
  failed : Bool

/-- What becomes of the operations of a call: of the opening in `open_if_needed`, of the opening in
    `rotate_if_needed`, and of the write, which succeeds or takes some bytes only. -/
structure Outcomes where
  opens : Bool := true
  reopens : Bool := true
  takes : Option Nat := none
  deriving DecidableEq, Repr

namespace FaultySink

open RotatingFileSink

variable {ω : Type}

def tryOpenIfNeeded (opens : Bool) (s : FaultySink ω) (today : Bytes) : FaultySink ω :=
  if opens then { s.toRotatingFileSink.openIfNeeded today with failed := false }
  else { s with openedDay := today, currentSize := fileSizeOrZero s.files s.path, failed := true }

def tryRotateIfNeeded (reopens : Bool) (s : FaultySink ω) (incoming : UInt64) (today : Bytes)
    (w : ω) : FaultySink ω :=
  if s.rotates incoming today w then
    let r := { rotateFiles s.closeStream with openedDay := today }
    { (if reopens then r.openTrunc else r) with currentSize := 0, failed := !reopens }
  else s

/-- `ofs.write(bytes.data(), bytes.size())`. A stream in the error state takes nothing. -/
def put (takes : Option Nat) (s : FaultySink ω) (data : Bytes) : FaultySink ω :=
  if s.failed then s
  else match takes with
    | none => { s with ofs := s.ofs.map (· ++ data) }
    | some n => { s with ofs := s.ofs.map (· ++ data.take n), failed := true }

/-- The constructor. -/
def construct (opens : Bool) (files : FileSystem) (path : Bytes)
    (rotation : Option (RotationMode ω)) (today : Bytes) : FaultySink ω :=
  tryOpenIfNeeded opens
    { files, path, rotation := some (rotation.getD .never), failed := false } today

/-- The size is raised whatever became of the write. -/
def write (o : Outcomes) (s : FaultySink ω) (data today : Bytes) (w : ω) : FaultySink ω :=
  let s := if s.ofs.isNone then s.tryOpenIfNeeded o.opens today else s
  if s.failed then s
  else
    let s := (s.tryRotateIfNeeded o.reopens data.length.toUInt64 today w).put o.takes data
    { s with currentSize := s.currentSize + data.length.toUInt64 }

/-- A write with the outcomes of its operations. -/
structure WriteCall (ω : Type) where
  data : Bytes
  today : Bytes
  w : ω
  outcomes : Outcomes := {}

def act (s : FaultySink ω) (c : WriteCall ω) : FaultySink ω :=
  s.write c.outcomes c.data c.today c.w

def runCalls (s : FaultySink ω) (calls : List (WriteCall ω)) : FaultySink ω := calls.foldl act s

/-! ## The states of the stream -/

/-- Open and in the error state. -/
def Stuck (s : FaultySink ω) : Prop := s.ofs.isSome ∧ s.failed = true

/-- Open, in no error state, with the size of the active file. -/
structure Good (s : FaultySink ω) : Prop where
  opened : s.Open
  sized : s.Sized
  clear : s.failed = false

/-- Closed, and in the error state. -/
def Closed (s : FaultySink ω) : Prop := s.ofs = none ∧ s.failed = true

/-- No call gets a stuck sink out of its state. -/
theorem write_of_stuck {s : FaultySink ω} (h : s.Stuck) (o : Outcomes) (data today : Bytes)
    (w : ω) : s.write o data today w = s := by
  obtain ⟨kept, hkept⟩ := Option.isSome_iff_exists.1 h.1
  simp [write, hkept, h.2]

/-- An opening that succeeds brings the sink to a good state, whatever the size said before. -/
theorem tryOpenIfNeeded_good (s : FaultySink ω) (today : Bytes) :
    (s.tryOpenIfNeeded true today).Good where
  opened := ⟨rfl, by simp [tryOpenIfNeeded, openIfNeeded, openAppend, Files.append]⟩
  sized := by
    have hfile : ((s.files.append s.path []) s.path).isSome := by simp [Files.append]
    simp [tryOpenIfNeeded, openIfNeeded, openAppend, Sized, active, contents,
      Files.append_nil _ _ hfile, fileSizeOrZero]
  clear := rfl

theorem tryOpenIfNeeded_closed {s : FaultySink ω} (h : s.ofs = none) (today : Bytes) :
    (s.tryOpenIfNeeded false today).Closed :=
  ⟨h, rfl⟩

/-- Where every operation succeeds, a write is that of the sink. -/
theorem write_of_good {s : FaultySink ω} (h : s.Good) (data today : Bytes) (w : ω) :
    (s.write {} data today w).toRotatingFileSink = s.toRotatingFileSink.write data today w ∧
      (s.write {} data today w).failed = false := by
  obtain ⟨kept, hkept⟩ := h.opened.ofs_eq
  have hopen : (if s.ofs.isNone then s.tryOpenIfNeeded true today else s) = s := by simp [hkept]
  have hopen' : (if s.ofs.isNone then s.toRotatingFileSink.openIfNeeded today
      else s.toRotatingFileSink) = s.toRotatingFileSink := by simp [hkept]
  rw [write, RotatingFileSink.write, hopen, hopen', h.clear]
  by_cases hr : s.rotates data.length.toUInt64 today w = true
  · simp [tryRotateIfNeeded, rotateIfNeeded, hr, put]
  · simp [tryRotateIfNeeded, rotateIfNeeded, hr, put, h.clear]

theorem write_good {s : FaultySink ω} (h : s.Good) (data today : Bytes) (w : ω) :
    (s.write {} data today w).Good := by
  obtain ⟨hsink, hfailed⟩ := write_of_good h data today w
  have hopened := (act_of_open h.opened (.write data today w)).1
  have hsized := act_sized h.opened h.sized (.write data today w)
  rw [RotatingFileSink.act, ← hsink] at hopened hsized
  exact ⟨hopened, hsized, hfailed⟩

/-- The sink that a write finds once its stream is open. -/
def opened (s : FaultySink ω) (today : Bytes) : RotatingFileSink ω :=
  if s.ofs.isSome then s.toRotatingFileSink else s.toRotatingFileSink.openIfNeeded today

/-- The call gets as far as the write of the stream, and that fails. -/
def WriteFails (s : FaultySink ω) (c : WriteCall ω) : Prop :=
  c.outcomes.takes.isSome ∧ (if s.ofs.isSome then s.failed = false else c.outcomes.opens = true) ∧
    ((s.opened c.today).rotates c.data.length.toUInt64 c.today c.w = true →
      c.outcomes.reopens = true)

/-- A write of a closed sink is, after the opening, a write of the good one. -/
theorem write_of_closed {s : FaultySink ω} (h : s.Closed) {o : Outcomes} (ho : o.opens = true)
    (data today : Bytes) (w : ω) :
    s.write o data today w = (s.tryOpenIfNeeded true today).write o data today w := by
  have hsome : (s.tryOpenIfNeeded true today).ofs.isNone = false := rfl
  rw [write, write, hsome, ho, h.1]
  rfl

/-- A write of a good sink, by what becomes of its operations. -/
theorem act_of_good {s : FaultySink ω} (h : s.Good) (c : WriteCall ω) :
    (¬ s.WriteFails c → (s.act c).Good ∨ (s.act c).Closed) ∧
      (s.WriteFails c → (s.act c).Stuck) := by
  obtain ⟨kept, hkept⟩ := h.opened.ofs_eq
  obtain ⟨data, today, w, o⟩ := c
  have hopen : (if s.ofs.isNone then s.tryOpenIfNeeded o.opens today else s) = s := by simp [hkept]
  have hopened : s.opened today = s.toRotatingFileSink := by simp [opened, hkept]
  have hfails : s.WriteFails ⟨data, today, w, o⟩ ↔ o.takes.isSome ∧
      (s.rotates data.length.toUInt64 today w = true → o.reopens = true) := by
    simp [WriteFails, hkept, h.clear, hopened]
  rw [hfails, act]
  by_cases hlost : s.rotates data.length.toUInt64 today w = true ∧ o.reopens = false
  · -- the rotation closes the stream and cannot open it again
    have hclosed : (s.write o data today w).Closed := by
      rw [write, hopen, if_neg (by simp [h.clear]), tryRotateIfNeeded, if_pos hlost.1, hlost.2]
      simp [put, Closed, rotateFiles_eq, closeStream, hkept]
    exact ⟨fun _ => Or.inr hclosed, fun hf => by simp [hf.2 hlost.1] at hlost⟩
  · have hreopens : s.rotates data.length.toUInt64 today w = true → o.reopens = true := by
      intro hr
      by_contra hne
      exact hlost ⟨hr, by simpa using hne⟩
    cases htakes : o.takes with
    | none =>
        have hsame : s.write o data today w = s.write {} data today w := by
          rw [write, write, hopen]
          have hopen' : (if s.ofs.isNone then s.tryOpenIfNeeded true today else s) = s := by
            simp [hkept]
          rw [hopen', if_neg (by simp [h.clear]), if_neg (by simp [h.clear]), htakes]
          by_cases hr : s.rotates data.length.toUInt64 today w = true
          · rw [hreopens hr]
          · rw [tryRotateIfNeeded, tryRotateIfNeeded, if_neg hr, if_neg hr]
        refine ⟨fun _ => Or.inl ?_, fun hf => by simp at hf⟩
        rw [hsame]
        exact write_good h data today w
    | some n =>
        refine ⟨fun hne => absurd ⟨rfl, hreopens⟩ hne, fun _ => ?_⟩
        rw [write, hopen, if_neg (by simp [h.clear]), htakes]
        by_cases hr : s.rotates data.length.toUInt64 today w = true
        · rw [tryRotateIfNeeded, if_pos hr, hreopens hr]
          simp [put, Stuck, openTrunc]
        · rw [tryRotateIfNeeded, if_neg hr]
          simp [put, Stuck, h.clear, hkept]

/-- **One write.** From a good or a closed sink a write ends in one of these unless the write of the
    stream fails, and then in a stuck one. -/
theorem act_step {s : FaultySink ω} (h : s.Good ∨ s.Closed) (c : WriteCall ω) :
    (¬ s.WriteFails c → (s.act c).Good ∨ (s.act c).Closed) ∧
      (s.WriteFails c → (s.act c).Stuck) := by
  rcases h with hgood | hclosed
  · exact act_of_good hgood c
  · by_cases ho : c.outcomes.opens = true
    · have hact : s.act c = (s.tryOpenIfNeeded true c.today).act c :=
        write_of_closed hclosed ho _ _ _
      have hfails : s.WriteFails c ↔ (s.tryOpenIfNeeded true c.today).WriteFails c := by
        have hopened : (s.tryOpenIfNeeded true c.today).opened c.today = s.opened c.today := by
          simp [opened, tryOpenIfNeeded, openIfNeeded, openAppend, hclosed.1]
        rw [WriteFails, WriteFails, hopened]
        simp [hclosed.1, ho, tryOpenIfNeeded, openIfNeeded, openAppend]
      rw [hact, hfails]
      exact act_of_good (tryOpenIfNeeded_good s c.today) c
    · have hshut := tryOpenIfNeeded_closed hclosed.1 c.today
      have hopen : (if s.ofs.isNone then s.tryOpenIfNeeded c.outcomes.opens c.today else s) =
          s.tryOpenIfNeeded false c.today := by
        rw [hclosed.1, Bool.eq_false_iff.2 ho]
        rfl
      have hact : (s.act c).Closed := by
        rw [act, write, hopen, if_pos hshut.2]
        exact hshut
      refine ⟨fun _ => Or.inr hact, fun hf => absurd hf.2.1 ?_⟩
      simpa [hclosed.1] using ho

/-! ## Runs -/

theorem construct_good_or_closed (opens : Bool) (files : FileSystem) (path : Bytes)
    (rotation : Option (RotationMode ω)) (today : Bytes) :
    (construct opens files path rotation today).Good ∨
      (construct opens files path rotation today).Closed := by
  cases opens with
  | true => exact Or.inl (tryOpenIfNeeded_good _ today)
  | false => exact Or.inr (tryOpenIfNeeded_closed rfl today)

theorem runCalls_of_stuck {s : FaultySink ω} (h : s.Stuck) (calls : List (WriteCall ω)) :
    s.runCalls calls = s := by
  induction calls with
  | nil => rfl
  | cons c calls ih =>
      rw [runCalls, List.foldl_cons, act, write_of_stuck h]
      exact ih

theorem runCalls_concat (s : FaultySink ω) (calls : List (WriteCall ω)) (c : WriteCall ω) :
    s.runCalls (calls ++ [c]) = (s.runCalls calls).act c := by
  simp [runCalls]

/-- The write of the stream fails in no call of the run. -/
def NoWriteFails (s : FaultySink ω) (calls : List (WriteCall ω)) : Prop :=
  ∀ pre c, pre ++ [c] <+: calls → ¬ (s.runCalls pre).WriteFails c

/-- **A run.** It ends in a good or a closed sink as long as no write of the stream fails, and in a
    stuck one from the first that does. -/
theorem runCalls_state {s : FaultySink ω} (h : s.Good ∨ s.Closed) (calls : List (WriteCall ω)) :
    (s.NoWriteFails calls → (s.runCalls calls).Good ∨ (s.runCalls calls).Closed) ∧
      (¬ s.NoWriteFails calls → (s.runCalls calls).Stuck) := by
  induction calls using List.reverseRecOn with
  | nil =>
      refine ⟨fun _ => h, fun hne => absurd ?_ hne⟩
      intro pre c hpre
      simp at hpre
  | append_singleton calls c ih =>
      rw [runCalls_concat]
      by_cases hbefore : s.NoWriteFails calls
      · obtain ⟨hkeeps, hbreaks⟩ := act_step (ih.1 hbefore) c
        refine ⟨fun hall => hkeeps (hall calls c (List.prefix_refl _)), fun hne => hbreaks ?_⟩
        by_contra hlast
        refine hne fun pre c' hpre => ?_
        rcases List.prefix_concat_iff.1 hpre with heq | hpre
        · obtain ⟨rfl, heq⟩ := List.append_inj' heq rfl
          obtain rfl : c' = c := by simpa using heq
          exact hlast
        · exact hbefore pre c' hpre
      · have hstuck := ih.2 hbefore
        rw [act, write_of_stuck hstuck]
        refine ⟨fun hall => absurd (fun pre c' hpre => ?_) hbefore, fun _ => hstuck⟩
        exact hall pre c' (hpre.trans (List.prefix_append _ _))

/-- From here on, as long as nothing fails, each write is at the end of the active file and the size
    is that of the file. -/
def Recovers (s : FaultySink ω) : Prop :=
  ∀ later : List (WriteCall ω), (∀ c ∈ later, c.outcomes = {}) → ∀ data today w,
    let t := s.runCalls later
    let t' := t.write {} data today w
    t'.active = (if (t.opened today).rotates data.length.toUInt64 today w then [] else t.active) ++
      data ∧ t'.Sized

theorem noWriteFails_of_succeeds (s : FaultySink ω) {calls : List (WriteCall ω)}
    (h : ∀ c ∈ calls, c.outcomes = {}) : s.NoWriteFails calls := by
  intro pre c hpre hf
  have hc : c ∈ calls := hpre.subset (by simp)
  have htakes := hf.1
  rw [h c hc] at htakes
  cases htakes

theorem write_appends_of_good {s : FaultySink ω} (h : s.Good) (data today : Bytes) (w : ω) :
    (s.write {} data today w).active =
      (if s.rotates data.length.toUInt64 today w then [] else s.active) ++ data := by
  rw [(write_of_good h data today w).1]
  have hactive := active_act h.opened (.write data today w)
  rw [Call.records, List.flatten_singleton] at hactive
  exact hactive

theorem recovers_of_good_or_closed {s : FaultySink ω} (h : s.Good ∨ s.Closed) : s.Recovers := by
  intro later hlater data today w t t'
  have ht : t.Good ∨ t.Closed := (runCalls_state h later).1 (noWriteFails_of_succeeds s hlater)
  rcases ht with hgood | hclosed
  · have hopened : t.opened today = t.toRotatingFileSink := by
      rw [opened, if_pos hgood.opened.stream]
    rw [hopened]
    exact ⟨write_appends_of_good hgood data today w, (write_good hgood data today w).sized⟩
  · have hgood := tryOpenIfNeeded_good t today
    have hwrite : t' = (t.tryOpenIfNeeded true today).write {} data today w :=
      write_of_closed hclosed rfl data today w
    have hopened : t.opened today = (t.tryOpenIfNeeded true today).toRotatingFileSink := by
      simp [opened, hclosed.1, tryOpenIfNeeded]
    have hactive : (t.tryOpenIfNeeded true today).active = t.active := by
      simp [tryOpenIfNeeded, openIfNeeded, openAppend, active, contents, Files.append, hclosed.1]
    rw [hwrite, hopened, ← hactive]
    exact ⟨write_appends_of_good hgood data today w, (write_good hgood data today w).sized⟩

theorem not_recovers_of_stuck {s : FaultySink ω} (h : s.Stuck) (w : ω) : ¬ s.Recovers := by
  intro hrec
  have hwrite := (hrec [] (by simp) (0 :: s.active) [] w).1
  rw [runCalls_of_stuck h, write_of_stuck h] at hwrite
  have hlen := congrArg List.length hwrite
  rw [List.length_append, List.length_cons] at hlen
  omega

end FaultySink

open FaultySink in
/-- **What disables a file sink.** Whatever failed before, once nothing fails any more every write
    is at the end of the active file and the size is that of the file, exactly if no write of the
    stream failed: a sink recovers from every failure of an opening, in the constructor, at a write
    or in the middle of a rotation, and from no failure of a write. -/
theorem sink_recovers_iff {ω : Type} (opens : Bool) (files : FileSystem) (path : Bytes)
    (rotation : Option (RotationMode ω)) (today : Bytes) (calls : List (WriteCall ω)) :
    ((construct opens files path rotation today).runCalls calls).Recovers ↔
      (construct opens files path rotation today).NoWriteFails calls := by
  have hstart := construct_good_or_closed opens files path rotation today
  obtain ⟨hkeeps, hbreaks⟩ := runCalls_state hstart calls
  constructor
  · intro hrec
    by_contra hne
    have hstuck := hbreaks hne
    rw [NoWriteFails] at hne
    push Not at hne
    obtain ⟨-, c, -, -⟩ := hne
    exact not_recovers_of_stuck hstuck c.w hrec
  · intro hall
    exact recovers_of_good_or_closed (hkeeps hall)

open FaultySink in
/-- A record longer than the buffer of the stream, whose write fails, and the next record is not
    written. -/
theorem failed_write_disables_sink :
    let sink : FaultySink Unit := construct true (fun _ => none) (bytes "a") none []
    let s := sink.runCalls [⟨List.replicate 10000 120, [], (), { takes := some 0 }⟩]
    (s.write {} [121] [] ()).active = [] ∧ ¬ s.Recovers := by
  intro sink s
  have hstuck : s.Stuck := (act_of_good (tryOpenIfNeeded_good _ []) _).2 ⟨rfl, rfl, fun _ => rfl⟩
  have hactive : ∀ data : Bytes,
      (sink.act ⟨data, [], (), { takes := some 0 }⟩).active = [] := fun _ => rfl
  refine ⟨?_, not_recovers_of_stuck hstuck ()⟩
  rw [write_of_stuck hstuck]
  exact hactive (List.replicate 10000 120)

end SyLog
