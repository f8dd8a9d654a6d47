import Mathlib.Data.List.Basic

set_option autoImplicit false

/-! # Lines

A text of lines, each of which is ended by a separator, with an unended rest behind the last one.
Every text is so in exactly one way (`splits_split`, `Splits.unique`). -/

universe u

namespace Lines

variable {α : Type u} {sep : α} {text more rest rest' : List α} {lines lines' : List (List α)}

/-- The lines, each with the separator behind it. -/
def unsplit (sep : α) (lines : List (List α)) : List α := lines.flatMap (· ++ [sep])

/-- One more byte before a text that has been split. -/
def push [DecidableEq α] (sep b : α) : List (List α) × List α → List (List α) × List α
  | ([], rest) => if b = sep then ([[]], rest) else ([], b :: rest)
  | (line :: lines, rest) =>
    if b = sep then ([] :: line :: lines, rest) else ((b :: line) :: lines, rest)

/-- The lines of a text and the rest. -/
def split [DecidableEq α] (sep : α) (text : List α) : List (List α) × List α :=
  text.foldr (push sep) ([], [])

structure Splits (sep : α) (text : List α) (lines : List (List α)) (rest : List α) : Prop where
  text_eq : text = unsplit sep lines ++ rest
  lines_free : ∀ line ∈ lines, sep ∉ line
  rest_free : sep ∉ rest

theorem unsplit_cons (line : List α) (lines : List (List α)) :
    unsplit sep (line :: lines) = line ++ sep :: unsplit sep lines := by
  rw [unsplit, List.flatMap_cons, List.append_assoc]
  rfl

theorem unsplit_append (lines lines' : List (List α)) :
    unsplit sep (lines ++ lines') = unsplit sep lines ++ unsplit sep lines' :=
  List.flatMap_append

theorem Splits.nil : Splits sep ([] : List α) [] [] := ⟨rfl, by simp, by simp⟩

theorem Splits.of_free (h : sep ∉ text) : Splits sep text [] text := ⟨rfl, by simp, h⟩

theorem Splits.cons {line : List α} (hline : sep ∉ line) (h : Splits sep text lines rest) :
    Splits sep (line ++ sep :: text) (line :: lines) rest := by
  refine ⟨?_, List.forall_mem_cons.2 ⟨hline, h.lines_free⟩, h.rest_free⟩
  rw [unsplit_cons, h.text_eq, List.append_assoc]
  rfl

theorem splits_unsplit (h : ∀ line ∈ lines, sep ∉ line) : Splits sep (unsplit sep lines) lines [] :=
  ⟨(List.append_nil _).symm, h, by simp⟩

/-- What comes behind a text goes on from its rest. -/
theorem Splits.append (h : Splits sep text lines rest)
    (h' : Splits sep (rest ++ more) lines' rest') :
    Splits sep (text ++ more) (lines ++ lines') rest' := by
  refine ⟨?_, fun line hline => ?_, h'.rest_free⟩
  · rw [h.text_eq, List.append_assoc, h'.text_eq, unsplit_append, List.append_assoc]
  · rcases List.mem_append.1 hline with hline | hline
    · exact h.lines_free line hline
    · exact h'.lines_free line hline

theorem Splits.push [DecidableEq α] {b : α} {found : List (List α) × List α}
    (h : Splits sep text found.1 found.2) :
    Splits sep (b :: text) (push sep b found).1 (push sep b found).2 := by
  obtain ⟨lines, rest⟩ := found
  by_cases hb : b = sep
  · subst hb
    have hempty : b ∉ ([] : List α) := List.not_mem_nil
    have hline : Splits b (b :: text) ([] :: lines) rest := h.cons hempty
    cases lines <;> simpa [Lines.push] using hline
  · cases lines with
    | nil =>
        obtain rfl : text = rest := by simpa [unsplit] using h.text_eq
        have hfree : Splits sep (b :: text) [] (b :: text) :=
          .of_free (by simp [Ne.symm hb, h.rest_free])
        simpa [Lines.push, hb] using hfree
    | cons line lines =>
        obtain ⟨hline, hlines⟩ := List.forall_mem_cons.1 h.lines_free
        refine ⟨?_, ?_, ?_⟩
        · simp [Lines.push, hb, h.text_eq, unsplit_cons]
        · simpa [Lines.push, hb, Ne.symm hb, hline] using hlines
        · simpa [Lines.push, hb] using h.rest_free

/-- **Splitting** finds the lines. -/
theorem splits_split [DecidableEq α] (sep : α) (text : List α) :
    Splits sep text (split sep text).1 (split sep text).2 := by
  induction text with
  | nil => exact .nil
  | cons b text ih => exact ih.push

/-- Up to the first separator. -/
theorem eq_of_append_sep {line line' : List α} (h : sep ∉ line) (h' : sep ∉ line')
    (heq : line ++ sep :: rest = line' ++ sep :: rest') : line = line' ∧ rest = rest' := by
  induction line generalizing line' with
  | nil =>
      cases line' with
      | nil => exact ⟨rfl, (List.cons.inj heq).2⟩
      | cons b line' => exact absurd (List.cons.inj heq).1 (fun hb => h' (by simp [hb]))
  | cons b line ih =>
      cases line' with
      | nil => exact absurd (List.cons.inj heq).1 (fun hb => h (by simp [hb]))
      | cons b' line' =>
          obtain ⟨rfl, htail⟩ := List.cons.inj heq
          obtain ⟨rfl, hrest⟩ := ih (List.not_mem_of_not_mem_cons h)
            (List.not_mem_of_not_mem_cons h') htail
          exact ⟨rfl, hrest⟩

/-- **Only so.** -/
theorem Splits.unique (h : Splits sep text lines rest) (h' : Splits sep text lines' rest') :
    lines = lines' ∧ rest = rest' := by
  induction lines generalizing text lines' with
  | nil =>
      cases lines' with
      | nil =>
          refine ⟨rfl, ?_⟩
          have heq := h.text_eq.symm.trans h'.text_eq
          simpa [unsplit] using heq
      | cons line' lines' =>
          have hrest : rest = text := by simpa [unsplit] using h.text_eq.symm
          refine absurd ?_ h.rest_free
          rw [hrest, h'.text_eq, unsplit_cons]
          simp
  | cons line lines ih =>
      cases lines' with
      | nil =>
          have hrest : rest' = text := by simpa [unsplit] using h'.text_eq.symm
          refine absurd ?_ h'.rest_free
          rw [hrest, h.text_eq, unsplit_cons]
          simp
      | cons line' lines' =>
          obtain ⟨hline, hlines⟩ := List.forall_mem_cons.1 h.lines_free
          obtain ⟨hline', hlines'⟩ := List.forall_mem_cons.1 h'.lines_free
          have heq := h.text_eq.symm.trans h'.text_eq
          rw [unsplit_cons, unsplit_cons, List.append_assoc, List.append_assoc] at heq
          obtain ⟨rfl, htail⟩ := eq_of_append_sep hline hline' heq
          obtain ⟨rfl, hrest⟩ := ih ⟨rfl, hlines, h.rest_free⟩ ⟨htail, hlines', h'.rest_free⟩
          exact ⟨rfl, hrest⟩

theorem Splits.split_eq [DecidableEq α] (h : Splits sep text lines rest) :
    split sep text = (lines, rest) := by
  obtain ⟨hlines, hrest⟩ := (splits_split sep text).unique h
  rw [← hlines, ← hrest]

/-- The lines of a beginning are the first lines of the text. -/
theorem Splits.lines_prefix [DecidableEq α] (h : Splits sep (text ++ more) lines rest)
    (h' : Splits sep text lines' rest') : lines' <+: lines := by
  have hall := h'.append (splits_split sep (rest' ++ more))
  exact ⟨_, (hall.unique h).1⟩

end Lines
