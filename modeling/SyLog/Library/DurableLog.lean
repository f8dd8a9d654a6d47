import Mathlib.Data.List.Infix
import SyLog.Library.Lines

set_option autoImplicit false

/-! # Logs that survive crashes

A log that is written at its end. What has been written since the last sync is **recent**: a crash
cuts it anywhere, and may leave all of it. Everything before is **safe**. Where each write is a
line, each crash damages at most one line (`Run.holdsLines`). -/

universe u

structure DurableLog (α : Type u) where
  safe : List α := []
  recent : List α := []

namespace DurableLog

variable {α : Type u} {l l' m : DurableLog α}

/-- What there is as long as nothing crashes. -/
def all (l : DurableLog α) : List α := l.safe ++ l.recent

inductive Act (α : Type u) where
  | write (data : List α)
  | sync
  | crash

/-- What the act adds at the end. -/
def Act.data : Act α → List α
  | .write data => data
  | .sync => []
  | .crash => []

inductive Step : DurableLog α → Act α → DurableLog α → Prop
  | write {l : DurableLog α} (data : List α) : Step l (.write data) ⟨l.safe, l.recent ++ data⟩
  | sync {l : DurableLog α} : Step l .sync ⟨l.all, []⟩
  | crash {l : DurableLog α} (left : List α) (h : left <+: l.recent) :
      Step l .crash ⟨l.safe ++ left, []⟩

inductive Run : DurableLog α → List (Act α) → DurableLog α → Prop
  | nil {l : DurableLog α} : Run l [] l
  | cons {l m l' : DurableLog α} {a : Act α} {acts : List (Act α)} (h : Step l a m)
      (hrest : Run m acts l') : Run l (a :: acts) l'

theorem Run.append {acts acts' : List (Act α)} (h : Run l acts m) (h' : Run m acts' l') :
    Run l (acts ++ acts') l' := by
  induction h with
  | nil => exact h'
  | cons hstep _ ih => exact .cons hstep (ih h')

theorem Run.single {a : Act α} (h : Step l a l') : Run l [a] l' := .cons h .nil

/-- Without crashes everything is there. -/
theorem Run.all_eq {acts : List (Act α)} (h : Run l acts l') (hacts : Act.crash ∉ acts) :
    l'.all = l.all ++ acts.flatMap Act.data := by
  induction h with
  | nil => simp
  | cons hstep _ ih =>
      obtain ⟨hhead, htail⟩ := not_or.1 (fun h => hacts (List.mem_cons.2 h))
      rw [ih htail, List.flatMap_cons, ← List.append_assoc]
      refine congrArg (· ++ _) ?_
      cases hstep with
      | write data => simp [all, Act.data]
      | sync => simp [all, Act.data]
      | crash left hleft => exact absurd rfl hhead

/-! ## Torn lines -/

open Lines

variable {sep : α} {text more : List α} {old new : List (List α)} {n : Nat}

/-- All lines of the text but `n` are whole lines, in the order in which they were written and each
    as often as it was. An unended line counts as one of the `n`. -/
def HoldsLines (sep : α) (text : List α) (written : List (List α)) (n : Nat) : Prop :=
  ∃ (lines : List (List α)) (rest : List α) (whole : List (List α)), Splits sep text lines rest ∧
    whole.Sublist lines ∧ whole.Sublist written ∧
    lines.length + (if rest = [] then 0 else 1) ≤ whole.length + n

/-- What the act writes, in one piece. -/
def Act.written : Act α → List (List α)
  | .write data => [data]
  | .sync => []
  | .crash => []

def Act.isCrash : Act α → Bool
  | .write _ => false
  | .sync => false
  | .crash => true

theorem holdsLines_unsplit (h : ∀ line ∈ old, sep ∉ line) :
    HoldsLines sep (unsplit sep old) old 0 :=
  ⟨old, [], old, splits_unsplit h, .refl _, .refl _, by simp⟩

/-- A line behind a whole line is whole; a line behind a rest is not. -/
theorem HoldsLines.write {line : List α} (h : HoldsLines sep text old n) (hfree : sep ∉ line) :
    HoldsLines sep (text ++ (line ++ [sep])) (old ++ [line]) n := by
  obtain ⟨lines, rest, whole, hsplits, hlines, hold, hfew⟩ := h
  have hmore : Splits sep (rest ++ (line ++ [sep])) [rest ++ line] [] := by
    have hboth : sep ∉ rest ++ line := by simp [hsplits.rest_free, hfree]
    have hcons := Splits.nil.cons hboth
    rwa [List.append_assoc] at hcons
  have hall := hsplits.append hmore
  by_cases hrest : rest = []
  · subst hrest
    refine ⟨_, _, whole ++ [line], hall, hlines.append (.refl _), hold.append (.refl _), ?_⟩
    simp only [List.length_append, List.length_singleton, if_true] at hfew ⊢
    omega
  · refine ⟨_, _, whole, hall, hlines.trans (List.sublist_append_left _ _),
      hold.trans (List.sublist_append_left _ _), ?_⟩
    simp only [List.length_append, List.length_singleton, if_true, hrest, if_false] at hfew ⊢
    omega

/-- The lines of a beginning of the text. -/
theorem HoldsLines.lines_of_prefix [DecidableEq α] (h : HoldsLines sep (text ++ more) old n) :
    ∃ (lines : List (List α)) (rest : List α) (whole : List (List α)), Splits sep text lines rest ∧
      whole.Sublist lines ∧ whole.Sublist old ∧ lines.length ≤ whole.length + n := by
  obtain ⟨lines, rest, whole, hsplits, hlines, hold, hfew⟩ := h
  have hsplit := splits_split sep text
  obtain ⟨others, rfl⟩ := hsplits.lines_prefix hsplit
  obtain ⟨kept, gone, rfl, hkept, hgone⟩ := List.sublist_append_iff.1 hlines
  refine ⟨_, _, kept, hsplit, hkept, (List.sublist_append_left _ _).trans hold, ?_⟩
  -- a whole line behind the beginning is a line behind the beginning
  have hless := hgone.length_le
  simp only [List.length_append] at hfew
  omega

/-- In a beginning of the text the line that is cut is the only one to suffer. -/
theorem HoldsLines.cut [DecidableEq α] (h : HoldsLines sep (text ++ more) old n) :
    HoldsLines sep text old (n + 1) := by
  obtain ⟨lines, rest, whole, hsplits, hlines, hold, hfew⟩ := h.lines_of_prefix
  refine ⟨lines, rest, whole, hsplits, hlines, hold, ?_⟩
  have hone : (if rest = [] then 0 else 1) ≤ 1 := by split <;> simp
  omega

variable [DecidableEq α]

theorem Step.holdsLines {a : Act α} (h : Step l a l') (ha : a.written = new.map (· ++ [sep]))
    (hfree : ∀ line ∈ new, sep ∉ line) (hl : HoldsLines sep l.all old n) :
    HoldsLines sep l'.all (old ++ new) (n + a.isCrash.toNat) := by
  cases h with
  | write data =>
      obtain ⟨line, rfl, rfl⟩ : ∃ line, new = [line] ∧ data = line ++ [sep] := by
        obtain ⟨line, rfl, hdata⟩ := List.map_eq_singleton_iff.1 ha.symm
        exact ⟨line, rfl, hdata.symm⟩
      have hwrite := hl.write (hfree line List.mem_cons_self)
      rw [all, List.append_assoc] at hwrite
      exact hwrite
  | sync =>
      obtain rfl := List.map_eq_nil_iff.1 ha.symm
      simpa [all, Act.isCrash] using hl
  | crash left hleft =>
      obtain rfl := List.map_eq_nil_iff.1 ha.symm
      obtain ⟨more, hmore⟩ := hleft
      have hall : l.all = (l.safe ++ left) ++ more := by rw [all, ← hmore, List.append_assoc]
      simpa [all, Act.isCrash] using (hall ▸ hl).cut

/-- **Each crash damages at most one line**; the others are there, whole and in order. -/
theorem Run.holdsLines {acts : List (Act α)} (h : Run l acts l')
    (hacts : acts.flatMap Act.written = new.map (· ++ [sep])) (hfree : ∀ line ∈ new, sep ∉ line)
    (hl : HoldsLines sep l.all old n) :
    HoldsLines sep l'.all (old ++ new) (n + acts.countP Act.isCrash) := by
  induction h generalizing old new n with
  | nil =>
      obtain rfl := List.map_eq_nil_iff.1 hacts.symm
      simpa using hl
  | @cons l m l' a acts hstep _ ih =>
      rw [List.flatMap_cons] at hacts
      obtain ⟨first, others, rfl, hfirst, hothers⟩ := List.map_eq_append_iff.1 hacts.symm
      have hm := hstep.holdsLines hfirst.symm
        (fun line hline => hfree line (List.mem_append_left _ hline)) hl
      have hrest := ih hothers.symm
        (fun line hline => hfree line (List.mem_append_right _ hline)) hm
      have hcount : n + a.isCrash.toNat + acts.countP Act.isCrash
          = n + (a :: acts).countP Act.isCrash := by
        rw [List.countP_cons]
        cases a <;> simp [Act.isCrash, Nat.add_assoc, Nat.add_comm]
      rwa [List.append_assoc, hcount] at hrest

end DurableLog
