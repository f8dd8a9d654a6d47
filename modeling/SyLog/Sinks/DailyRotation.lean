import SyLog.Sinks.SizeRotation

set_option autoImplicit false

/-! # Rotation by day

Sinks that are opened one after another on one path, each rotating when a new day begins. Each byte
of the files is stamped with the date of the write that it is from; the stamps move with the bytes
and nothing looks at them. `opened_day` is the date on which the stream was opened, and a sink that
finds a file of an earlier day takes its bytes for those of its own first day. -/

namespace SyLog

/-- The local date that the clock shows. -/
structure LocalDate where
  year : Int
  month : Nat
  day : Nat
  month_le : month ≤ 12
  day_le : day ≤ 31
  deriving DecidableEq

/-- `today_ymd`, `std::format("{:04d}{:02d}{:02d}", …)` -/
def todayYmd (d : LocalDate) : Bytes :=
  formatPadded 4 d.year ++ formatPadded 2 d.month ++ formatPadded 2 d.day

namespace LocalDate

/-- The date as a number, in the order of the calendar. -/
def number (d : LocalDate) : Int := d.year * 10000 + d.month * 100 + d.day

instance : LE LocalDate := ⟨fun d d' => d.number ≤ d'.number⟩

theorem number_injective : Function.Injective number := by
  intro d d' h
  obtain ⟨year, month, day, hm, hd⟩ := d
  obtain ⟨year', month', day', hm', hd'⟩ := d'
  simp only [number] at h
  obtain rfl : year = year' := by omega
  obtain rfl : month = month' := by omega
  obtain rfl : day = day' := by omega
  rfl

theorem eq_of_le_of_le {d d' : LocalDate} (h : d ≤ d') (h' : d' ≤ d) : d = d' :=
  number_injective (Int.le_antisymm h h')

end LocalDate

/-- Two dates are written differently. -/
theorem todayYmd_injective : Function.Injective todayYmd := by
  intro d d' h
  have hday : ∀ e : LocalDate, (formatPadded 2 e.day).length = 2 := fun e =>
    length_formatPadded_two (by have := e.day_le; omega)
  have hmonth : ∀ e : LocalDate, (formatPadded 2 e.month).length = 2 := fun e =>
    length_formatPadded_two (by have := e.month_le; omega)
  obtain ⟨hfront, hd⟩ := List.append_inj' h (by rw [hday, hday])
  obtain ⟨hy, hm⟩ := List.append_inj' hfront (by rw [hmonth, hmonth])
  have hyear := formatPadded_injective 4 hy
  have hmonths : (d.month : Int) = d'.month := formatPadded_injective 2 hm
  have hdays : (d.day : Int) = d'.day := formatPadded_injective 2 hd
  refine LocalDate.number_injective ?_
  rw [LocalDate.number, LocalDate.number, hyear, hmonths, hdays]

theorem todayYmd_ne_nil (d : LocalDate) : todayYmd d ≠ [] := by
  intro h
  have hday : (formatPadded 2 d.day).length = 2 :=
    length_formatPadded_two (by have := d.day_le; omega)
  have hlen := congrArg List.length h
  rw [todayYmd, List.length_append, hday] at hlen
  simp at hlen

/-- What happens on the path. A sink is opened in place of the one before it, which is destroyed;
    the open one is written to or flushed, or its stream hands bytes over. -/
inductive DailyStep where
  | opens (keepFiles : Int) (date : LocalDate)
  | write (data : Bytes) (date : LocalDate)
  | flush
  | spill (n : Nat)

namespace DailyStep

/-- The dates that the clock shows in the steps. -/
def dates : List DailyStep → List LocalDate
  | [] => []
  | .opens _ date :: steps => date :: dates steps
  | .write _ date :: steps => date :: dates steps
  | .flush :: steps => dates steps
  | .spill _ :: steps => dates steps

/-- The step is one of the open sink. -/
def InSession : DailyStep → Prop
  | .opens _ _ => False
  | .write _ _ => True
  | .flush => True
  | .spill _ => True

theorem dates_append (steps steps' : List DailyStep) :
    dates (steps ++ steps') = dates steps ++ dates steps' := by
  induction steps with
  | nil => rfl
  | cons step steps ih => cases step <;> simp [dates, ih]

end DailyStep

/-- A byte and the date of the write that it is from. -/
abbrev StampedByte := UInt8 × LocalDate

/-- The sink on the path, the files with their stamps, and the date of `opened_day`. -/
structure DailySink where
  sink : RotatingFileSink Unit
  stamped : Files Bytes StampedByte
  day : LocalDate

namespace DailySink

open RotatingFileSink

/-- The first sink, where there are no files. -/
def start (path : Bytes) (keepFiles : Int) (date : LocalDate) : DailySink where
  sink := construct (fun _ => none) path (some (.newDayBegins keepFiles)) (todayYmd date)
  stamped := Files.store (fun _ => none) path []
  day := date

def act (s : DailySink) : DailyStep → DailySink
  | .opens keepFiles date =>
      { sink := construct s.sink.closeStream.files s.sink.path (some (.newDayBegins keepFiles))
          (todayYmd date)
        stamped := s.stamped
        day := date }
  | .write data date =>
      let rotates := s.sink.rotates data.length.toUInt64 (todayYmd date) ()
      { sink := s.sink.write data (todayYmd date) ()
        stamped :=
          (if rotates then Files.rotate (nameAt s.sink.path) s.sink.keep.toNat s.stamped
            else s.stamped).append s.sink.path (data.map (·, date))
        day := if rotates then date else s.day }
  | .flush => { s with sink := s.sink.flush }
  | .spill n => { s with sink := s.sink.spill n }

def runSteps (s : DailySink) (steps : List DailyStep) : DailySink := steps.foldl act s

/-- The active file with its stamps. -/
def active (s : DailySink) : List StampedByte := s.stamped.content s.sink.path

/-- No file holds bytes of two dates. -/
def Separate (s : DailySink) : Prop :=
  ∀ n bytes, s.stamped n = some bytes → ∀ b ∈ bytes, ∀ b' ∈ bytes, b.2 = b'.2

/-- The sink is open and rotates by day, its files are the stamped ones, and `opened_day` is the
    date that the state says. -/
structure Consistent (path : Bytes) (s : DailySink) : Prop where
  opened : s.sink.Open
  path_eq : s.sink.path = path
  mode_eq : ∃ keepFiles, s.sink.rotation = some (.newDayBegins keepFiles)
  day_eq : s.sink.openedDay = todayYmd s.day
  stamps : Files.mapContents (List.map Prod.fst) s.stamped = s.sink.contents

variable {path : Bytes}

/-- A sink rotates at a write on any day but that of its stream. -/
theorem Consistent.rotates_iff {s : DailySink} (h : Consistent path s) (incoming : UInt64)
    (date : LocalDate) : s.sink.rotates incoming (todayYmd date) () = true ↔ date ≠ s.day := by
  obtain ⟨keepFiles, hmode⟩ := h.mode_eq
  have hday : (todayYmd s.day).isEmpty = false := by simpa using todayYmd_ne_nil s.day
  have hdate : (todayYmd date).isEmpty = false := by simpa using todayYmd_ne_nil date
  rw [RotatingFileSink.rotates, hmode]
  show (RotationMode.newDayBegins keepFiles).shouldRotate () _ = true ↔ _
  simp only [RotationMode.newDayBegins, h.day_eq, hday, hdate, Bool.not_false, Bool.true_and,
    decide_eq_true_eq]
  rw [ne_comm, todayYmd_injective.ne_iff]

theorem start_consistent (path : Bytes) (keepFiles : Int) (date : LocalDate) :
    Consistent path (start path keepFiles date) where
  opened := construct_open _ path _ _
  path_eq := rfl
  mode_eq := ⟨keepFiles, rfl⟩
  day_eq := rfl
  stamps := by
    rw [start, construct_contents, ← Files.store_mapContents]
    rfl

theorem openedDay_write {s : RotatingFileSink Unit} (h : s.Open) (data today : Bytes) :
    (s.write data today ()).openedDay =
      if s.rotates data.length.toUInt64 today () then today else s.openedDay := by
  obtain ⟨kept, hkept⟩ := h.ofs_eq
  have hopen : (if s.ofs.isNone then s.openIfNeeded today else s) = s := by simp [hkept]
  rw [RotatingFileSink.write, hopen]
  by_cases hr : s.rotates data.length.toUInt64 today () = true
  · rw [rotateIfNeeded_eq h hr, if_pos hr]
  · rw [rotateIfNeeded, if_neg hr, if_neg hr]

theorem act_consistent {s : DailySink} (h : Consistent path s) (step : DailyStep) :
    Consistent path (s.act step) := by
  obtain ⟨kept, hkept⟩ := h.opened.ofs_eq
  cases step with
  | opens keepFiles date =>
      refine ⟨construct_open _ _ _ _, h.path_eq, ⟨keepFiles, rfl⟩, rfl, ?_⟩
      have hclosed : s.sink.closeStream.files = s.sink.contents := by
        simp [closeStream, contents, hkept]
      have hfile : (s.sink.contents s.sink.path).isSome := by simp [contents, Files.append]
      rw [act, construct_contents, hclosed, Files.append_nil _ _ hfile]
      exact h.stamps
  | write data date =>
      obtain ⟨hopen, hpath, hmode, hcontents⟩ := write_of_open h.opened data (todayYmd date) ()
      refine ⟨hopen, hpath.trans h.path_eq, ?_, ?_, ?_⟩
      · rw [act, hmode]
        exact h.mode_eq
      · rw [act, openedDay_write h.opened, h.day_eq]
        split <;> rfl
      · rw [act, hcontents]
        have hdata : data = (data.map (·, date)).map Prod.fst := by
          rw [List.map_map]
          exact (List.map_id data).symm
        have hrotated : ∀ fs : Files Bytes StampedByte,
            Files.mapContents (List.map Prod.fst) (fs.append s.sink.path (data.map (·, date))) =
              (Files.mapContents (List.map Prod.fst) fs).append s.sink.path data := by
          intro fs
          rw [← Files.append_mapContents (List.map Prod.fst) rfl (by simp), ← hdata]
        rw [hrotated]
        split
        · rw [← Files.rotate_mapContents (List.map Prod.fst) rfl, h.stamps]
        · rw [h.stamps]
  | flush =>
      obtain ⟨hopen, -, hcontents⟩ := flush_of_open h.opened
      have hflush : s.sink.flush =
          { s.sink with files := s.sink.files.append s.sink.path kept, ofs := some [] } := by
        simp [flush, hkept]
      refine ⟨hopen, ?_, ?_, ?_, h.stamps.trans hcontents.symm⟩ <;> rw [act, hflush]
      · exact h.path_eq
      · exact h.mode_eq
      · exact h.day_eq
  | spill n =>
      obtain ⟨hopen, hcontents⟩ := spill_of_open h.opened n
      have hspill : s.sink.spill n =
          { s.sink with
            files := s.sink.files.append s.sink.path (kept.take n)
            ofs := some (kept.drop n) } := by
        simp [spill, hkept]
      refine ⟨hopen, ?_, ?_, ?_, h.stamps.trans hcontents.symm⟩ <;> rw [act, hspill]
      · exact h.path_eq
      · exact h.mode_eq
      · exact h.day_eq

theorem run_consistent {s : DailySink} (h : Consistent path s) (steps : List DailyStep) :
    Consistent path (s.runSteps steps) := by
  induction steps generalizing s with
  | nil => exact h
  | cons step steps ih => exact ih (act_consistent h step)

theorem runSteps_append (s : DailySink) (steps steps' : List DailyStep) :
    s.runSteps (steps ++ steps') = (s.runSteps steps).runSteps steps' := by
  simp [runSteps]

theorem runSteps_concat (s : DailySink) (steps : List DailyStep) (step : DailyStep) :
    s.runSteps (steps ++ [step]) = (s.runSteps steps).act step := by
  simp [runSteps]

/-! ## What a step does to the active file -/

/-- A write on the date of the stream is at the end of the active file. -/
theorem active_write_same {s : DailySink} (h : Consistent path s) (data : Bytes) :
    (s.act (.write data s.day)).active = s.active ++ data.map (·, s.day) ∧
      (s.act (.write data s.day)).day = s.day := by
  have hr : ¬ s.sink.rotates data.length.toUInt64 (todayYmd s.day) () = true := by
    rw [h.rotates_iff]
    exact fun hne => hne rfl
  have hpath := (write_of_open h.opened data (todayYmd s.day) ()).2.1
  rw [act, active, hpath, if_neg hr, if_neg hr, Files.append, Files.content_store]
  exact ⟨rfl, rfl⟩

/-- A write on another date is alone in the active file. -/
theorem active_write_new {s : DailySink} (h : Consistent path s) (data : Bytes) {date : LocalDate}
    (hdate : date ≠ s.day) :
    (s.act (.write data date)).active = data.map (·, date) ∧
      (s.act (.write data date)).day = date := by
  have hr := (h.rotates_iff data.length.toUInt64 date).2 hdate
  have hpath := (write_of_open h.opened data (todayYmd date) ()).2.1
  rw [act, active, hpath, if_pos hr, if_pos hr, Files.append, Files.content_store, Files.rotate,
    nameAt_zero, Files.content_store, List.nil_append]
  exact ⟨rfl, rfl⟩

theorem active_flush {s : DailySink} (h : Consistent path s) :
    (s.act .flush).active = s.active := by
  obtain ⟨kept, hkept⟩ := h.opened.ofs_eq
  simp [act, active, flush, hkept]

theorem active_spill {s : DailySink} (h : Consistent path s) (n : Nat) :
    (s.act (.spill n)).active = s.active := by
  obtain ⟨kept, hkept⟩ := h.opened.ofs_eq
  simp [act, active, spill, hkept]

theorem Separate.active {s : DailySink} (hs : s.Separate) {b c : StampedByte}
    (hb : b ∈ s.active) (hc : c ∈ s.active) : b.2 = c.2 := by
  rw [DailySink.active, Files.content] at hb hc
  cases hfile : s.stamped s.sink.path with
  | none => simp [hfile] at hb
  | some bytes =>
      rw [hfile, Option.getD_some] at hb hc
      exact hs s.sink.path bytes hfile b hb c hc

theorem separate_start (path : Bytes) (keepFiles : Int) (date : LocalDate) :
    (start path keepFiles date).Separate := by
  intro n bytes hbytes b hb
  replace hbytes : Files.store (fun _ => none) path [] n = some bytes := hbytes
  by_cases hn : n = path
  · rw [hn, Files.store_self, Option.some.injEq] at hbytes
    rw [← hbytes] at hb
    cases hb
  · rw [Files.store_of_ne _ _ hn] at hbytes
    cases hbytes

theorem active_start (path : Bytes) (keepFiles : Int) (date : LocalDate) :
    (start path keepFiles date).active = [] :=
  Files.content_store _ _ _

/-- A write keeps the files separate, unless it adds to a file of other dates. -/
theorem separate_write {s : DailySink} (h : Consistent path s) (hs : s.Separate) {data : Bytes}
    {date : LocalDate} (hsame : date = s.day → data ≠ [] → ∀ b ∈ s.active, b.2 = date) :
    (s.act (.write data date)).Separate := by
  intro n bytes hbytes
  have hstamp : ∀ b ∈ data.map (·, date), b.2 = date := by
    intro b hb
    obtain ⟨byte, -, rfl⟩ := List.mem_map.1 hb
    rfl
  have hpath : (s.act (.write data date)).sink.path = s.sink.path :=
    (write_of_open h.opened data (todayYmd date) ()).2.1
  by_cases hn : n = s.sink.path
  · -- the active file
    have hactive : (s.act (.write data date)).active = bytes := by
      rw [active, hpath, ← hn, Files.content, hbytes, Option.getD_some]
    rw [← hactive]
    by_cases hdate : date = s.day
    · subst hdate
      rw [(active_write_same h data).1]
      by_cases hdata : data = []
      · subst hdata
        rw [List.map_nil, List.append_nil]
        cases hold : s.stamped s.sink.path with
        | none =>
            intro b hb
            simp [active, Files.content, hold] at hb
        | some old =>
            have hcontent : s.active = old := by simp [active, Files.content, hold]
            rw [hcontent]
            exact hs s.sink.path old hold
      · have hall : ∀ b ∈ s.active ++ data.map (·, s.day), b.2 = s.day := by
          intro b hb
          rcases List.mem_append.1 hb with hb | hb
          · exact hsame rfl hdata b hb
          · exact hstamp b hb
        exact fun b hb b' hb' => (hall b hb).trans (hall b' hb').symm
    · rw [(active_write_new h data hdate).1]
      exact fun b hb b' hb' => (hstamp b hb).trans (hstamp b' hb').symm
  · -- an archive, which was a file before
    have hbefore : (if s.sink.rotates data.length.toUInt64 (todayYmd date) () then
        Files.rotate (nameAt s.sink.path) s.sink.keep.toNat s.stamped else s.stamped) n =
          some bytes :=
      (Files.store_of_ne _ _ hn).symm.trans hbytes
    split at hbefore
    · rcases Files.rotate_movedFrom _ _ _ n bytes hbefore with hnil | ⟨m, hm⟩
      · subst hnil
        intro b hb
        cases hb
      · exact hs m bytes hm
    · exact hs n bytes hbefore

/-! ## What a session finds -/

/-- No sink that finds bytes of another date in the active file is written to on the date on which
    it was opened. -/
def NoMixedOpening (s : DailySink) (steps : List DailyStep) : Prop :=
  ∀ pre keepFiles date session data,
    pre ++ .opens keepFiles date :: session ++ [.write data date] <+: steps →
    (∀ step ∈ session, step.InSession) → data ≠ [] → ∀ b ∈ (s.runSteps pre).active, b.2 = date

/-- The bytes of the active file are from the date of the stream, or the sink found them there. -/
def ActiveFrom (s : DailySink) (steps : List DailyStep) : Prop :=
  (∀ b ∈ (s.runSteps steps).active, b.2 = (s.runSteps steps).day) ∨
    ∃ pre keepFiles session, steps = pre ++ .opens keepFiles (s.runSteps steps).day :: session ∧
      (∀ step ∈ session, step.InSession) ∧
      ∀ b ∈ (s.runSteps steps).active,
        b.2 = (s.runSteps steps).day ∨ b ∈ (s.runSteps pre).active

/-- A step of the session that keeps the date, and adds to the active file only bytes of it. -/
theorem ActiveFrom.extend {s : DailySink} {steps : List DailyStep} (h : s.ActiveFrom steps)
    {step : DailyStep} (hstep : step.InSession)
    (hday : ((s.runSteps steps).act step).day = (s.runSteps steps).day)
    (hactive : ∀ b ∈ ((s.runSteps steps).act step).active,
      b.2 = (s.runSteps steps).day ∨ b ∈ (s.runSteps steps).active) :
    s.ActiveFrom (steps ++ [step]) := by
  rw [ActiveFrom, runSteps_concat, hday]
  rcases h with hall | ⟨pre, keepFiles, session, hsteps, hsession, hbytes⟩
  · left
    intro b hb
    rcases hactive b hb with hnew | hold
    · exact hnew
    · exact hall b hold
  · refine Or.inr ⟨pre, keepFiles, session ++ [step], ?_, ?_, ?_⟩
    · rw [← List.cons_append, ← List.append_assoc, ← hsteps]
    · intro step' hmem
      rcases List.mem_append.1 hmem with hmem | hmem
      · exact hsession step' hmem
      · rw [List.mem_singleton.1 hmem]
        exact hstep
    · intro b hb
      rcases hactive b hb with hnew | hold
      · exact Or.inl hnew
      · exact hbytes b hold

/-- **One step** of a run in which no opening mixes dates. -/
theorem separate_step {s : DailySink} {steps : List DailyStep} (step : DailyStep)
    (h : Consistent path (s.runSteps steps)) (hs : (s.runSteps steps).Separate)
    (hfrom : s.ActiveFrom steps) (hopening : s.NoMixedOpening (steps ++ [step])) :
    (s.runSteps (steps ++ [step])).Separate ∧ s.ActiveFrom (steps ++ [step]) := by
  rw [runSteps_concat]
  cases step with
  | opens keepFiles date =>
      refine ⟨hs, Or.inr ⟨steps, keepFiles, [], ?_, by simp, ?_⟩⟩
      · rw [runSteps_concat]
        rfl
      · intro b hb
        rw [runSteps_concat] at hb
        exact Or.inr hb
  | write data date =>
      refine ⟨separate_write h hs fun hdate hdata => ?_, ?_⟩
      · rcases hfrom with hall | ⟨pre, keepFiles, session, hsteps, hsession, hbytes⟩
        · rw [hdate]
          exact hall
        · -- the bytes that the sink found are of its date too, by the assumption
          have hfound := hopening pre keepFiles date session data
            (by rw [hdate, ← hsteps]) hsession hdata
          intro b hb
          rcases hbytes b hb with hday | hold
          · exact hday.trans hdate.symm
          · exact hfound b hold
      · by_cases hdate : date = (s.runSteps steps).day
        · subst hdate
          obtain ⟨hactive, hday⟩ := active_write_same h data
          refine hfrom.extend trivial hday fun b hb => ?_
          rw [hactive] at hb
          rcases List.mem_append.1 hb with hb | hb
          · exact Or.inr hb
          · obtain ⟨byte, -, rfl⟩ := List.mem_map.1 hb
            exact Or.inl rfl
        · obtain ⟨hactive, hday⟩ := active_write_new h data hdate
          left
          rw [runSteps_concat, hactive, hday]
          intro b hb
          obtain ⟨byte, -, rfl⟩ := List.mem_map.1 hb
          rfl
  | flush =>
      refine ⟨hs, hfrom.extend trivial rfl fun b hb => Or.inr ?_⟩
      rwa [active_flush h] at hb
  | spill n =>
      refine ⟨hs, hfrom.extend trivial rfl fun b hb => Or.inr ?_⟩
      rwa [active_spill h] at hb

/-- Within a session all of whose writes are of the date of the stream, nothing leaves the active
    file. -/
theorem active_session {s : DailySink} (h : Consistent path s) (session : List DailyStep)
    (hsession : ∀ step ∈ session, step.InSession)
    (hdates : ∀ date ∈ DailyStep.dates session, date = s.day) :
    s.active <+: (s.runSteps session).active ∧ (s.runSteps session).day = s.day := by
  induction session generalizing s with
  | nil => exact ⟨List.prefix_refl _, rfl⟩
  | cons step session ih =>
      have hnext : s.active <+: (s.act step).active ∧ (s.act step).day = s.day ∧
          ∀ date ∈ DailyStep.dates session, date = s.day := by
        cases step with
        | opens keepFiles date => exact (hsession _ List.mem_cons_self).elim
        | write data date =>
            obtain rfl : date = s.day := hdates date List.mem_cons_self
            obtain ⟨hactive, hday⟩ := active_write_same h data
            rw [hactive]
            exact ⟨List.prefix_append _ _, hday,
              fun d hd => hdates d (List.mem_cons_of_mem _ hd)⟩
        | flush =>
            rw [active_flush h]
            exact ⟨List.prefix_refl _, rfl, hdates⟩
        | spill n =>
            rw [active_spill h]
            exact ⟨List.prefix_refl _, rfl, hdates⟩
      obtain ⟨hstart, hday, hrest⟩ := hnext
      obtain ⟨htail, hdays⟩ := ih (act_consistent h step)
        (fun step' hmem => hsession step' (List.mem_cons_of_mem _ hmem))
        (fun d hd => (hrest d hd).trans hday.symm)
      exact ⟨hstart.trans htail, hdays.trans hday⟩

/-- Between two equal dates of a run that never goes back there is no other. -/
theorem dates_between {date : LocalDate} {dates : List LocalDate}
    (h : (date :: dates ++ [date]).Pairwise (· ≤ ·)) : ∀ d ∈ dates, d = date := by
  intro d hd
  rw [List.cons_append, List.pairwise_cons] at h
  have hlast := (List.pairwise_append.1 h.2).2.2 d hd date (List.mem_singleton_self date)
  exact LocalDate.eq_of_le_of_le hlast (h.1 d (List.mem_append_left _ hd))

end DailySink

open DailySink in
/-- **When rotation by day separates days.** In a run of sinks on one path that starts from no
    files, on dates that never go back, no file ever holds bytes written on two dates exactly if no
    sink that was opened on a file with bytes of an earlier date is written to on the date of its
    opening. The bytes are those of the sink's files. -/
theorem daily_files_separate_iff (path : Bytes) (keepFiles : Int) (date : LocalDate)
    (steps : List DailyStep)
    (hdates : (date :: DailyStep.dates steps).Pairwise (· ≤ ·)) :
    ((∀ pre, pre <+: steps → ((start path keepFiles date).runSteps pre).Separate) ↔
      (start path keepFiles date).NoMixedOpening steps) ∧
    ∀ pre,
      Files.mapContents (List.map Prod.fst) ((start path keepFiles date).runSteps pre).stamped =
        ((start path keepFiles date).runSteps pre).sink.contents := by
  have hconsistent : ∀ pre, Consistent path ((start path keepFiles date).runSteps pre) :=
    run_consistent (start_consistent path keepFiles date)
  refine ⟨⟨?_, ?_⟩, fun pre => (hconsistent pre).stamps⟩
  · intro hall pre keepFiles' day session data hpre hsession hdata b hb
    have hwrite := hall _ hpre
    -- the dates from the opening to the write are those of one day
    have hbetween : ∀ d ∈ DailyStep.dates session, d = day := by
      refine dates_between (hdates.sublist ?_)
      obtain ⟨post, rfl⟩ := hpre
      simp only [DailyStep.dates_append, DailyStep.dates, List.append_assoc, List.cons_append]
      refine List.Sublist.cons _ ((List.Sublist.trans ?_ (List.sublist_append_right _ _)))
      exact List.Sublist.cons_cons _ (List.Sublist.append_left (List.Sublist.cons_cons _
        (List.nil_sublist _)) _)
    obtain ⟨hstart, hday⟩ := active_session
      (act_consistent (hconsistent pre) (.opens keepFiles' day)) session hsession hbetween
    set opened := ((start path keepFiles date).runSteps pre).act (.opens keepFiles' day)
    have hrun : (start path keepFiles date).runSteps
        (pre ++ .opens keepFiles' day :: session ++ [.write data day]) =
          (opened.runSteps session).act (.write data day) := by
      rw [runSteps_concat, runSteps_append]
      rfl
    have hday' : (opened.runSteps session).day = day := hday
    have hactive := (active_write_same
      (run_consistent (act_consistent (hconsistent pre) (.opens keepFiles' day)) session) data).1
    rw [hday'] at hactive
    rw [hrun] at hwrite
    obtain ⟨byte, hbyte⟩ := List.exists_mem_of_ne_nil data hdata
    refine hwrite.active (b := b) (c := (byte, day)) ?_ ?_
    · rw [hactive]
      exact List.mem_append_left _ (hstart.subset hb)
    · rw [hactive]
      exact List.mem_append_right _ (List.mem_map_of_mem hbyte)
  · intro hopening pre
    suffices h : pre <+: steps → ((start path keepFiles date).runSteps pre).Separate ∧
        (start path keepFiles date).ActiveFrom pre from fun hpre => (h hpre).1
    induction pre using List.reverseRecOn with
    | nil =>
        intro _
        refine ⟨separate_start path keepFiles date, Or.inl fun b hb => ?_⟩
        rw [runSteps, List.foldl_nil, active_start] at hb
        cases hb
    | append_singleton pre step ih =>
        intro hpre
        obtain ⟨hs, hfrom⟩ := ih ((List.prefix_append _ _).trans hpre)
        exact separate_step step (hconsistent pre) hs hfrom
          (fun p k d session data h => hopening p k d session data (h.trans hpre))

/-- The days of a restart. -/
def dayOne : LocalDate := ⟨2024, 1, 1, by decide, by decide⟩

def dayTwo : LocalDate := ⟨2024, 1, 2, by decide, by decide⟩

open DailySink in
theorem daily_files_separate_one_sink :
    (dayOne :: DailyStep.dates [.write [120] dayOne, .write [121] dayTwo]).Pairwise (· ≤ ·) ∧
      ∀ pre, pre <+: [DailyStep.write [120] dayOne, .write [121] dayTwo] →
        ((start (bytes "a") 2 dayOne).runSteps pre).Separate := by
  have hdates : (dayOne :: DailyStep.dates
      [.write [120] dayOne, .write [121] dayTwo]).Pairwise (· ≤ ·) := by decide
  refine ⟨hdates, (daily_files_separate_iff (bytes "a") 2 dayOne _ hdates).1.2 ?_⟩
  intro pre keepFiles date session data hpre
  have hmem : DailyStep.opens keepFiles date ∈
      [DailyStep.write [120] dayOne, .write [121] dayTwo] := hpre.subset (by simp)
  simp at hmem

open DailySink in
/-- The sink of the second day appends to the file of the first. -/
theorem restart_mixes_days :
    let steps : List DailyStep :=
      [.write [120] dayOne, .opens 2 dayTwo, .write [121] dayTwo]
    (dayOne :: DailyStep.dates steps).Pairwise (· ≤ ·) ∧
      ((start (bytes "a") 2 dayOne).runSteps steps).active = [(120, dayOne), (121, dayTwo)] ∧
      ¬ ((start (bytes "a") 2 dayOne).runSteps steps).Separate := by
  intro steps
  have hfirst := start_consistent (bytes "a") 2 dayOne
  have hsecond := act_consistent (act_consistent hfirst (.write [120] dayOne)) (.opens 2 dayTwo)
  have hone := (active_write_same hfirst [120]).1
  have htwo := (active_write_same hsecond [121]).1
  have hactive : ((start (bytes "a") 2 dayOne).runSteps steps).active =
      [(120, dayOne), (121, dayTwo)] := by
    refine htwo.trans ?_
    show ((start (bytes "a") 2 dayOne).act
      (.write [120] (start (bytes "a") 2 dayOne).day)).active ++ _ = _
    rw [hone, active_start]
    rfl
  refine ⟨by decide, hactive, fun hs => ?_⟩
  have hold : (120, dayOne) ∈ ((start (bytes "a") 2 dayOne).runSteps steps).active := by
    rw [hactive]
    exact List.mem_cons_self
  have hnew : (121, dayTwo) ∈ ((start (bytes "a") 2 dayOne).runSteps steps).active := by
    rw [hactive]
    exact List.mem_cons_of_mem _ List.mem_cons_self
  have hdays : dayOne = dayTwo := hs.active hold hnew
  exact absurd hdays (by decide)

end SyLog
