import Mathlib.Computability.StateTransition
import SyLog.Renderers.PatternRenderer

set_option autoImplicit false

/-! # The replace loop round by round

`replace_all` changes the buffer that it searches, and its cursor moves by the length of the value.
The state of the loop is the buffer and the cursor, a round is one `find` with the replacement after
it, and running the rounds until `find` gives `npos` is `StateTransition.eval`. Against it stands
the cut of the original buffer at the key: after `n` rounds the first `n` pieces are behind the
cursor with the value between them, and the rest of the original buffer is ahead of it. -/

namespace SyLog

/-- `out` and `pos` in `replace_all`. -/
structure ReplaceState where
  out : Bytes
  pos : Nat
  deriving DecidableEq, Repr

/-- `out.replace(pos, key.size(), val); pos += val.size();` -/
def ReplaceState.replaceAt (key val : Bytes) (s : ReplaceState) (pos : Nat) : ReplaceState :=
  { out := s.out.take pos ++ val ++ s.out.drop (pos + key.length)
    pos := pos + val.length }

/-- The test of the `while` and the body after it; `none` when `find` gives `npos`. -/
def replaceRound (key val : Bytes) (s : ReplaceState) : Option ReplaceState :=
  (Replace.find key (s.out.drop s.pos)).map (fun i => s.replaceAt key val (s.pos + i))

variable {key val : Bytes} {s t : ReplaceState}

/-! ## Fuel and rounds -/

/-- Each round costs the loop with fuel one unit. -/
theorem replaceLoop_succ (fuel : Nat) (s : ReplaceState) :
    Replace.replaceLoop key val (fuel + 1) s.pos s.out =
      ((replaceRound key val s).map
        (fun t => Replace.replaceLoop key val fuel t.pos t.out)).getD s.out := by
  rw [Replace.replaceLoop, replaceRound]
  cases hfind : Replace.find key (s.out.drop s.pos) with
  | none => rfl
  | some i => rfl

/-- Where the rounds end, the loop ends with the same buffer, for any fuel from some on. -/
theorem replaceLoop_of_reaches (h : StateTransition.Reaches (replaceRound key val) s t)
    (hend : replaceRound key val t = none) :
    ∃ n, ∀ fuel, n < fuel → Replace.replaceLoop key val fuel s.pos s.out = t.out := by
  induction h using Relation.ReflTransGen.head_induction_on with
  | refl =>
      refine ⟨0, fun fuel hfuel => ?_⟩
      obtain ⟨fuel, rfl⟩ := Nat.exists_eq_succ_of_ne_zero (Nat.ne_of_gt hfuel)
      rw [replaceLoop_succ, hend]
      rfl
  | head hround _ ih =>
      obtain ⟨n, hn⟩ := ih
      refine ⟨n + 1, fun fuel hfuel => ?_⟩
      obtain ⟨fuel, rfl⟩ := Nat.exists_eq_succ_of_ne_zero (Nat.ne_of_gt (Nat.zero_lt_of_lt hfuel))
      rw [replaceLoop_succ, Option.mem_def.1 hround]
      exact hn fuel (Nat.lt_of_succ_lt_succ hfuel)

/-- The fuel that `replaceAll` has is enough: the rounds end in its result. -/
theorem out_of_eval (hkey : key ≠ []) {out : Bytes}
    (h : t ∈ StateTransition.eval (replaceRound key val) ⟨out, 0⟩) :
    t.out = replaceAll key val out := by
  obtain ⟨hreach, hend⟩ := StateTransition.mem_eval.1 h
  obtain ⟨n, hn⟩ := replaceLoop_of_reaches hreach hend
  have hlong : Replace.replaceLoop key val (n + out.length + 1) 0 out = t.out := hn _ (by omega)
  rw [← hlong, replaceAll_eq_walk hkey,
    Replace.replaceLoop_eq val hkey _ 0 out (Nat.zero_le _) (by omega)]
  simp

/-! ## What is behind the cursor and what is ahead of it -/

/-- The pieces `done` are behind the cursor, each with the value after it, and the text ahead of the
    cursor is still to be cut into the pieces `rest`. -/
structure Scanned (key val : Bytes) (done rest : List Bytes) (s : ReplaceState) : Prop where
  inside : s.pos ≤ s.out.length
  behind : s.out.take s.pos = (done.map (· ++ val)).flatten
  ahead : Replace.Cut key (s.out.drop s.pos) rest

variable {out pre : Bytes} {done rest : List Bytes}

theorem scanned_start (hcut : Replace.Cut key out rest) : Scanned key val [] rest ⟨out, 0⟩ where
  inside := Nat.zero_le _
  behind := by simp
  ahead := by simpa using hcut

/-- A replacement puts the piece before it and the value behind the cursor and leaves what follows
    the key as it is. -/
theorem Scanned.replaceAt {tail : Bytes} (h : Scanned key val done (pre :: rest) s)
    (htext : s.out.drop s.pos = pre ++ key ++ tail) (htail : Replace.Cut key tail rest) :
    Scanned key val (done ++ [pre]) rest (s.replaceAt key val (s.pos + pre.length)) := by
  have hpos : (s.out.take s.pos).length = s.pos := List.length_take_of_le h.inside
  have htake : s.out.take (s.pos + pre.length) = s.out.take s.pos ++ pre := by
    rw [List.take_add, htext, List.append_assoc, List.take_left]
  have hdrop : s.out.drop (s.pos + pre.length + key.length) = tail := by
    rw [Nat.add_assoc, ← List.drop_drop, htext, ← List.length_append, List.drop_left]
  have hlen : s.pos + pre.length + val.length = (s.out.take s.pos ++ pre ++ val).length := by
    rw [List.length_append, List.length_append, hpos]
  have hat : s.replaceAt key val (s.pos + pre.length) =
      ⟨s.out.take s.pos ++ pre ++ val ++ tail, (s.out.take s.pos ++ pre ++ val).length⟩ := by
    rw [ReplaceState.replaceAt, hlen, htake, hdrop]
  rw [hat]
  constructor
  · exact (List.prefix_append _ tail).length_le
  · rw [List.take_left, h.behind]
    simp
  · rw [List.drop_left]
    exact htail

/-- **One round**: with one piece left the loop is over, and with more the key behind the next piece
    is replaced. -/
theorem Scanned.round (h : Scanned key val done rest s) :
    (replaceRound key val s = none ∧ rest = [s.out.drop s.pos]) ∨
      ∃ pre rest', rest = pre :: rest' ∧ key <+: s.out.drop (s.pos + pre.length) ∧
        replaceRound key val s = some (s.replaceAt key val (s.pos + pre.length)) ∧
        Scanned key val (done ++ [pre]) rest' (s.replaceAt key val (s.pos + pre.length)) := by
  have hahead := h.ahead
  generalize htext : s.out.drop s.pos = text at hahead
  cases hahead with
  | last habsent =>
      left
      refine ⟨?_, rfl⟩
      rw [replaceRound, htext, Replace.find_of_absent habsent]
      rfl
  | @found pre tail rest' hfirst htail =>
      right
      refine ⟨pre, rest', rfl, ?_, ?_, h.replaceAt htext htail⟩
      · rw [← List.drop_drop, htext, List.append_assoc, List.drop_left]
        exact List.prefix_append key tail
      · rw [replaceRound, htext, Replace.find_of_first hfirst]
        rfl

/-- **Every run** keeps the pieces, in their order. -/
theorem scanned_of_reaches {pieces : List Bytes} (hcut : Replace.Cut key out pieces)
    (h : StateTransition.Reaches (replaceRound key val) ⟨out, 0⟩ s) :
    ∃ done rest, pieces = done ++ rest ∧ Scanned key val done rest s := by
  induction h with
  | refl => exact ⟨[], pieces, rfl, scanned_start hcut⟩
  | tail _ hround ih =>
      obtain ⟨done, rest, hpieces, hs⟩ := ih
      rw [Option.mem_def] at hround
      rcases hs.round with ⟨hend, -⟩ | ⟨pre, rest', rfl, -, hnext, hs'⟩
      · rw [hend] at hround
        cases hround
      · rw [hnext, Option.some.injEq] at hround
        refine ⟨done ++ [pre], rest', ?_, hround ▸ hs'⟩
        rw [hpieces, List.append_assoc, List.singleton_append]

/-- **The loop ends**: each round uses up one piece of the text ahead. -/
theorem Scanned.eval_dom (h : Scanned key val done rest s) :
    (StateTransition.eval (replaceRound key val) s).Dom := by
  induction rest generalizing done s with
  | nil => exact absurd rfl h.ahead.ne_nil
  | cons piece rest ih =>
      rcases h.round with ⟨hend, -⟩ | ⟨pre, rest', hrest, -, hnext, hs'⟩
      · exact Part.dom_iff_mem.2
          ⟨s, StateTransition.mem_eval.2 ⟨Relation.ReflTransGen.refl, hend⟩⟩
      · obtain ⟨rfl, rfl⟩ := List.cons.inj hrest
        rw [StateTransition.reaches_eval (Relation.ReflTransGen.single (Option.mem_def.2 hnext))]
        exact ih hs'

/-- A round replaces an occurrence that lies in the end of the original buffer. -/
theorem Scanned.round_in_original (hcut : Replace.Cut key out (done ++ rest))
    (h : Scanned key val done rest s) (hround : replaceRound key val s = some t) :
    ∃ p, s.pos ≤ p ∧ key <+: s.out.drop p ∧ s.out.drop p <:+ out ∧
      t = s.replaceAt key val p := by
  rcases h.round with ⟨hend, -⟩ | ⟨pre, rest', rfl, hkey, hnext, -⟩
  · rw [hend] at hround
    cases hround
  · rw [hnext, Option.some.injEq] at hround
    refine ⟨s.pos + pre.length, Nat.le_add_right _ _, hkey, ?_, hround.symm⟩
    rw [← List.drop_drop]
    exact (List.drop_suffix _ _).trans (hcut.suffix_of_append h.ahead)

/-! ## The loop and the cut of the buffer -/

/-- **`replace_all` replaces the leftmost occurrences and nothing else.** The buffer has one cut at
    the key. The rounds end, with the value between the pieces of the cut. In every state on the way
    the pieces behind the cursor have their values, what is ahead is the end of the original buffer,
    and the next occurrence is found there. -/
theorem replaceAll_replaces_leftmost (key val out : Bytes) (hkey : key ≠ []) :
    (∀ pieces, Replace.Cut key out pieces ↔ pieces = Replace.split key out) ∧
      (∃ s ∈ StateTransition.eval (replaceRound key val) ⟨out, 0⟩,
        s.out = replaceAll key val out ∧
          s.out = List.intercalate val (Replace.split key out)) ∧
      ∀ s, StateTransition.Reaches (replaceRound key val) ⟨out, 0⟩ s →
        (∃ done rest, Replace.split key out = done ++ rest ∧ Scanned key val done rest s) ∧
          s.out.drop s.pos <:+ out ∧
          ∀ t, replaceRound key val s = some t →
            ∃ p, s.pos ≤ p ∧ key <+: s.out.drop p ∧ s.out.drop p <:+ out ∧
              t = s.replaceAt key val p := by
  have hcut := Replace.cut_split hkey out
  refine ⟨fun pieces => ⟨hcut.unique, fun h => h ▸ hcut⟩, ?_, fun s hs => ?_⟩
  · have hstart : Scanned key val [] (Replace.split key out) ⟨out, 0⟩ := scanned_start hcut
    obtain ⟨s, hs⟩ := Part.dom_iff_mem.1 hstart.eval_dom
    have hout := out_of_eval hkey hs
    refine ⟨s, hs, hout, ?_⟩
    rw [hout, replaceAll_eq_walk hkey, hcut.replaceAll_eq val hkey]
  · obtain ⟨done, rest, hpieces, hscanned⟩ := scanned_of_reaches hcut hs
    refine ⟨⟨done, rest, hpieces, hscanned⟩, ?_, fun t ht => ?_⟩
    · exact (hpieces ▸ hcut).suffix_of_append hscanned.ahead
    · exact hscanned.round_in_original (hpieces ▸ hcut) ht

/-- The value `a` ends in the first letter of the key `aa`, and `aaaaab` has two occurrences. -/
theorem replaceAll_value_in_key :
    ∃ s ∈ StateTransition.eval (replaceRound [97, 97] [97]) ⟨[97, 97, 97, 97, 97, 98], 0⟩,
      s.out = [97, 97, 97, 98] := by
  obtain ⟨-, ⟨s, hs, -, hout⟩, -⟩ :=
    replaceAll_replaces_leftmost [97, 97] [97] [97, 97, 97, 97, 97, 98] (by decide)
  exact ⟨s, hs, hout.trans (by decide)⟩

/-- An empty key would be found at the cursor for ever. -/
theorem empty_key_never_ends (val out : Bytes) :
    ¬ (StateTransition.eval (replaceRound [] val) ⟨out, 0⟩).Dom := by
  intro hdom
  obtain ⟨s, hs⟩ := Part.dom_iff_mem.1 hdom
  have hend := (StateTransition.mem_eval.1 hs).2
  rw [replaceRound, Option.map_eq_none_iff] at hend
  exact Replace.find_eq_none hend List.nil_infix

/-! ## The passes of `render` -/

/-- The loop ends in every pass, whatever the passes before it have made of the buffer. -/
theorem Token.pass_ends (t : Token) (val out : Bytes) :
    (StateTransition.eval (replaceRound t.text val) ⟨out, 0⟩).Dom :=
  (scanned_start (Replace.cut_split t.text_ne_nil out)).eval_dom

/-- A pass cuts the buffer at the text of its token and joins the pieces with the value. -/
theorem PatternRenderer.render_eq_intercalate (platform : Platform) (threadHash : Nat → UInt64)
    (pattern : Bytes) (e : Event) :
    render platform threadHash pattern e =
      endLine (Token.passes.foldl (fun out t =>
        List.intercalate (t.value platform threadHash e) (Replace.split t.text out)) pattern) := by
  have hpass : ∀ (out : Bytes) (t : Token),
      replaceAll t.text (t.value platform threadHash e) out =
        List.intercalate (t.value platform threadHash e) (Replace.split t.text out) := by
    intro out t
    rw [replaceAll_eq, (Replace.cut_split t.text_ne_nil out).replaceAll_eq _ t.text_ne_nil]
  simp only [render_eq, hpass]

end SyLog
