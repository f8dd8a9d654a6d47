import SyLog.Renderers.PatternRenderer

set_option autoImplicit false

/-! # The coloured renderer

`AnsiConsoleRenderer::render` renders the pattern and then looks for the name of the severity in
what it has rendered. It colours the first occurrence, wherever that comes from. -/

namespace SyLog

/-- `detail::ansi_for` -/
def ansiFor (priority : UInt16) : Bytes :=
  if priority ≥ Severity.fatal.priority then bytes "\x1b[35m"
  else if priority ≥ Severity.error.priority then bytes "\x1b[31m"
  else if priority ≥ Severity.warn.priority then bytes "\x1b[33m"
  else if priority ≥ Severity.info.priority then bytes "\x1b[32m"
  else if priority ≥ Severity.debug.priority then bytes "\x1b[36m"
  else bytes "\x1b[90m"

def ansiReset : Bytes := bytes "\x1b[0m"

/-- `AnsiConsoleRenderer::render` on what the inner renderer has made. -/
def colourFirst (priority : UInt16) (sev out : Bytes) : Bytes :=
  match Replace.find sev out with
  | none => out
  | some pos =>
      let colored := ansiFor priority ++ sev ++ ansiReset
      out.take pos ++ colored ++ out.drop (pos + sev.length)

/-- `AnsiConsoleRenderer::render` -/
def AnsiConsoleRenderer.render (platform : Platform) (threadHash : Nat → UInt64) (pattern : Bytes)
    (e : Event) : Bytes :=
  colourFirst e.severityPriority e.severityName
    (PatternRenderer.render platform threadHash pattern e)

/-! ## The codes -/

theorem ansiFor_eq (priority : UInt16) :
    ∃ a b, ansiFor priority = [27, 91, a, b, 109] ∧ a ≠ 48 := by
  rw [ansiFor]
  split_ifs
  · exact ⟨51, 53, rfl, by decide⟩
  · exact ⟨51, 49, rfl, by decide⟩
  · exact ⟨51, 51, rfl, by decide⟩
  · exact ⟨51, 50, rfl, by decide⟩
  · exact ⟨51, 54, rfl, by decide⟩
  · exact ⟨57, 48, rfl, by decide⟩

theorem ansiReset_eq : ansiReset = [27, 91, 48, 109] := rfl

/-- A name is not at both ends of itself between the codes. -/
theorem not_ends_of_colored (priority : UInt16) {sev : Bytes} (hne : sev ≠ [])
    (hstart : sev <+: ansiFor priority ++ sev ++ ansiReset)
    (hend : sev <:+ ansiFor priority ++ sev ++ ansiReset) : False := by
  obtain ⟨a, b, hcode, ha⟩ := ansiFor_eq priority
  rw [hcode, ansiReset_eq] at hstart hend
  have hdrop := List.suffix_iff_eq_drop.1 hend
  have hnine : ([27, 91, a, b, 109] ++ sev ++ [27, 91, 48, 109]).length - sev.length = 5 + 4 := by
    simp
    omega
  rw [hnine] at hdrop
  replace hdrop : sev = (sev ++ [27, 91, 48, 109]).drop 4 := hdrop
  -- by the number of bytes of the name
  rcases sev with _ | ⟨x₀, _ | ⟨x₁, _ | ⟨x₂, _ | ⟨x₃, _ | ⟨x₄, rest⟩⟩⟩⟩⟩
  · exact hne rfl
  all_goals simp [List.cons_prefix_cons] at hstart hdrop
  · exact absurd (hstart.symm.trans hdrop) (by decide)
  · exact absurd (hstart.1.symm.trans hdrop.1) (by decide)
  · exact absurd (hstart.1.symm.trans hdrop.1) (by decide)
  · exact ha (hstart.2.2.1.symm.trans hdrop.2.2.1)
  · obtain ⟨h₀, -, -, -, h₄, -⟩ := hstart
    exact absurd (h₀.symm.trans (hdrop.1.trans h₄)) (by decide)

/-- The two codes one after the other are no repetition of anything. -/
theorem eq_of_codes_commute (priority : UInt16) {p : Bytes}
    (hp : p <+: ansiFor priority ++ ansiReset) (hne : p ≠ [])
    (hcomm : ansiFor priority ++ ansiReset ++ p = p ++ (ansiFor priority ++ ansiReset)) :
    p = ansiFor priority ++ ansiReset := by
  obtain ⟨a, b, hcode, ha⟩ := ansiFor_eq priority
  rw [hcode, ansiReset_eq] at hp hcomm ⊢
  obtain ⟨rest, hrest⟩ := hp
  -- by the number of bytes of `p`
  rcases p with _ | ⟨x₀, _ | ⟨x₁, _ | ⟨x₂, _ | ⟨x₃, _ | ⟨x₄, _ | ⟨x₅, _ | ⟨x₆, _ | ⟨x₇, p⟩⟩⟩⟩⟩⟩⟩⟩
  · exact absurd rfl hne
  all_goals simp at hrest hcomm
  · exact absurd hcomm.2.2.2.2.2.1.symm ha
  · obtain ⟨rfl, rfl, rfl, rfl, rfl, rfl, rfl, rfl, hlast⟩ := hrest
    cases p with
    | nil => simp at hcomm
    | cons x p =>
        obtain ⟨rfl, hnil⟩ := List.cons.inj hlast
        rw [(List.append_eq_nil_iff.1 hnil).1]
        rfl

/-! ## The place of the token -/

variable (platform : Platform) (threadHash : Nat → UInt64)

/-- What the passes make of a part of a pattern. -/
def PatternRenderer.substituted (text : Bytes) (e : Event) : Bytes :=
  Token.passes.foldl (fun out t => replaceAll t.text (t.value platform threadHash e) out) text

theorem prefix_endLine (out : Bytes) : out <+: endLine out := by
  rw [endLine]
  split
  · exact List.prefix_append _ _
  · exact List.prefix_refl _

/-- A scan does not look beyond an opening brace. -/
theorem scanFrom_append (n : Nat) (text rest : Bytes) (hn : n ≤ text.length) :
    scanFrom n (text ++ openBrace :: rest) = scanFrom n text ++ scanFrom 0 (openBrace :: rest) := by
  induction text generalizing n with
  | nil =>
      obtain rfl : n = 0 := Nat.le_zero.1 hn
      rfl
  | cons b bs ih =>
      cases n with
      | succ n => exact ih n (Nat.le_of_succ_le_succ hn)
      | zero =>
          have hsame : ∀ t : Token,
              t.text <+: (b :: bs) ++ openBrace :: rest ↔ t.text <+: b :: bs := by
            intro t
            refine ⟨fun h => ?_, fun h => h.trans (List.prefix_append _ _)⟩
            rcases List.prefix_or_prefix_of_prefix h (List.prefix_append (b :: bs) _) with hp | hp
            · exact hp
            · -- otherwise the brace would be one in the middle of the token
              obtain ⟨tail, htail⟩ := hp
              rw [← htail, List.prefix_append_right_inj] at h
              cases tail with
              | nil =>
                  rw [List.append_nil] at htail
                  exact htail ▸ List.prefix_refl t.text
              | cons c tail =>
                  obtain rfl : c = openBrace := (List.cons_prefix_cons.1 h).1
                  have hmem : openBrace ∈ t.text.tail := by
                    rw [← htail, List.cons_append, List.tail_cons]
                    exact List.mem_append_right _ List.mem_cons_self
                  exact absurd hmem t.text_eq.2
          have htoken : tokenAt (b :: (bs ++ openBrace :: rest)) = tokenAt (b :: bs) := by
            rw [tokenAt, tokenAt]
            congr 1
            funext t
            exact decide_eq_decide.2 (hsame t)
          rw [List.cons_append, scanFrom, scanFrom, htoken]
          cases h : tokenAt (b :: bs) with
          | none => exact congrArg _ (ih 0 (Nat.zero_le _))
          | some t =>
              have hp : t.text <+: b :: bs := by simpa using List.find?_some h
              have hlen : t.text.length ≤ bs.length + 1 := hp.length_le
              exact congrArg _ (ih _ (by omega))

theorem scanFrom_eq (n : Nat) (text : Bytes) : scanFrom n text = scan (text.drop n) := by
  induction n generalizing text with
  | zero => rfl
  | succ n ih =>
      cases text with
      | nil => rfl
      | cons b bs => rw [scanFrom, ih, List.drop_succ_cons]

theorem scanFrom_text (t : Token) (rest : Bytes) :
    scanFrom 0 (t.text ++ rest) = .token t :: scan rest := by
  have htoken : tokenAt (t.text ++ rest) = some t := by
    cases h : tokenAt (t.text ++ rest) with
    | none =>
        have hnone := List.find?_eq_none.1 h t t.mem_passes
        simp at hnone
    | some u =>
        have hp : u.text <+: t.text ++ rest := by simpa using List.find?_some h
        rw [Token.eq_of_text_isPrefix_append hp]
  have hlen : t.text.length - 1 = t.text.tail.length := List.length_tail.symm
  rw [t.text_eq.1, List.cons_append] at htoken
  conv_lhs => rw [t.text_eq.1, List.cons_append, scanFrom]
  simp only [htoken, hlen, scanFrom_eq, List.drop_left]

/-- A token of the pattern splits its scan. -/
theorem scan_append (text rest : Bytes) (t : Token) :
    scan (text ++ (t.text ++ rest)) = scan text ++ .token t :: scan rest := by
  rw [scan, ← scanFrom_text, t.text_eq.1, List.cons_append, scanFrom_append _ _ _ (Nat.zero_le _)]
  rfl

theorem substituteAll_append (value : Token → Bytes) (ts : List Token) (ps qs : List Piece) :
    substituteAll value ts (ps ++ qs) = substituteAll value ts ps ++ substituteAll value ts qs := by
  induction ts generalizing ps qs with
  | nil => rfl
  | cons t ts ih =>
      show substituteAll value ts (substitute value t (ps ++ qs)) = _
      rw [substitute_append, ih]
      rfl

/-- Without stray texts the rendered text starts with what the pattern has before the token,
    rendered, and the name of the severity. -/
theorem prefix_render (text rest : Bytes) (e : Event)
    (h : ∀ t, ¬ Stray (Token.value platform threadHash e)
      (text ++ (Token.severity.text ++ rest)) t) :
    PatternRenderer.substituted platform threadHash text e ++ e.severityName <+:
      PatternRenderer.render platform threadHash (text ++ (Token.severity.text ++ rest)) e := by
  set value := Token.value platform threadHash e with hvalue
  have hscan := scan_append text rest .severity
  have hpart : ∀ t, ¬ Stray value text t := by
    rintro t ⟨hne, hstray⟩
    refine h t ⟨hne, ?_⟩
    rw [hscan, substituteAll_append]
    exact hstray.trans (List.prefix_append _ _).isInfix
  have hbefore :
      PatternRenderer.substituted platform threadHash text e = expand value (scan text) :=
    foldl_replaceAll_of_not_stray value hpart
  rw [PatternRenderer.render_eq, foldl_replaceAll_of_not_stray value h, hscan, hbefore,
    expand_append, expand_token]
  refine List.IsPrefix.trans ?_ (prefix_endLine _)
  rw [← List.append_assoc]
  exact List.prefix_append _ _

/-! ## Where the colour goes -/

/-- `out` is `inner`, which has the name of the severity behind `before`, with the codes around
    that name. -/
def Coloured (before sev code inner out : Bytes) : Prop :=
  ∃ rest, inner = before ++ sev ++ rest ∧ out = before ++ (code ++ sev ++ ansiReset) ++ rest

/-- The name of the severity is found at the place of its token, or it is empty and nothing but
    pairs of the two codes comes before. -/
def FoundAtToken (before sev code : Bytes) : Prop :=
  Replace.find sev (before ++ sev) = some before.length ∨
    sev = [] ∧ ∃ n, before = (List.replicate n (code ++ ansiReset)).flatten

theorem colourFirst_of_found (priority : UInt16) (before sev rest : Bytes)
    (h : Replace.find sev (before ++ sev) = some before.length) :
    colourFirst priority sev (before ++ sev ++ rest) =
      before ++ (ansiFor priority ++ sev ++ ansiReset) ++ rest := by
  have hfind := (Replace.find_append_iff before sev rest).2 h
  have hlen : before.length + sev.length = (before ++ sev).length := by rw [List.length_append]
  rw [colourFirst, hfind]
  simp only [hlen, List.drop_left]
  rw [List.append_assoc before sev rest, List.take_left]

theorem colourFirst_nil (priority : UInt16) (inner : Bytes) :
    colourFirst priority [] inner = ansiFor priority ++ ansiReset ++ inner := by
  have hfind : Replace.find [] inner = some 0 :=
    Replace.find_eq_some_iff.2 ⟨Nat.zero_le _, List.nil_prefix, fun j hj => absurd hj (by omega)⟩
  rw [colourFirst, hfind]
  simp

/-- Colour around an occurrence `u` earlier does not look the same. -/
theorem not_coloured_earlier (priority : UInt16) {u sev rest tail : Bytes} (hu : u ≠ [])
    (hsev : sev ≠ []) (htext : sev ++ tail = u ++ sev ++ rest)
    (hout : ansiFor priority ++ sev ++ ansiReset ++ tail =
      u ++ (ansiFor priority ++ sev ++ ansiReset) ++ rest) : False := by
  have hlen := congrArg List.length htext
  rw [List.length_append, List.length_append, List.length_append] at hlen
  have hrest : rest <:+ sev ++ tail := htext ▸ List.suffix_append _ _
  obtain ⟨v, rfl⟩ := List.suffix_of_suffix_length_le hrest (List.suffix_append sev tail) (by omega)
  rw [← List.append_assoc] at htext hout
  obtain ⟨hstart, hend⟩ := Replace.ends_of_marked_eq hu htext hout
  exact not_ends_of_colored priority hsev hstart hend

/-- **The first occurrence is coloured as the token's is** exactly if it is the token's. -/
theorem coloured_iff (priority : UInt16) (before sev inner : Bytes) :
    Coloured before sev (ansiFor priority) inner (colourFirst priority sev inner) ↔
      before ++ sev <+: inner ∧ FoundAtToken before sev (ansiFor priority) := by
  constructor
  · rintro ⟨rest, hinner, hout⟩
    refine ⟨⟨rest, hinner.symm⟩, ?_⟩
    by_cases hsev : sev = []
    · -- the codes are put in front, and are to be behind `before`
      subst hsev
      rw [colourFirst_nil, hinner] at hout
      refine Or.inr ⟨rfl, Replace.eq_replicate_of_commute ?_
        (fun p hp hne h => eq_of_codes_commute priority hp hne h) ?_⟩
      · rw [ansiReset_eq]
        simp
      · simp only [List.append_nil] at hout
        rw [← List.append_assoc, ← List.append_assoc] at hout
        exact (List.append_cancel_right hout).trans (List.append_assoc _ _ _)
    · left
      have hat : sev <+: inner.drop before.length := by
        rw [hinner, List.append_assoc, List.drop_left]
        exact List.prefix_append _ _
      obtain ⟨i, hi, hfind⟩ := Replace.find_of_prefix hat
      by_cases heq : i = before.length
      · rw [heq, hinner] at hfind
        exact (Replace.find_append_iff before sev rest).1 hfind
      · exfalso
        -- an earlier occurrence, `u` before that of the token
        obtain ⟨u, hudrop, hu⟩ : ∃ u, before.drop i = u ∧ before = before.take i ++ u :=
          ⟨_, rfl, (List.take_append_drop i _).symm⟩
        have hilen : (before.take i).length = i := by
          rw [List.length_take]
          omega
        have hune : u ≠ [] := by
          rintro rfl
          rw [List.append_nil] at hu
          have := congrArg List.length hu
          omega
        obtain ⟨tail, htail⟩ := (Replace.find_eq_some_iff.1 hfind).2.1
        have htake : inner.take i = before.take i := by
          rw [hinner, List.append_assoc, List.take_append_of_le_length hi]
        have hdrop : inner.drop i = u ++ sev ++ rest := by
          rw [hinner, List.append_assoc, List.drop_append_of_le_length hi, hudrop,
            List.append_assoc]
        have hbehind : inner.drop (i + sev.length) = tail := by
          rw [← List.drop_drop, ← htail, List.drop_left]
        refine not_coloured_earlier priority hune hsev (htail.trans hdrop) ?_
        rw [colourFirst, hfind] at hout
        simp only [htake, hbehind] at hout
        conv_rhs at hout => rw [hu]
        simpa only [List.append_assoc, List.append_cancel_left_eq] using hout
  · rintro ⟨⟨rest, rfl⟩, hfound | ⟨rfl, n, rfl⟩⟩
    · exact ⟨rest, rfl, colourFirst_of_found priority before sev rest hfound⟩
    · refine ⟨rest, rfl, ?_⟩
      have hcomm : ∀ z : Bytes, z ++ (List.replicate n z).flatten =
          (List.replicate n z).flatten ++ z := by
        intro z
        have hleft : (List.replicate (n + 1) z).flatten = z ++ (List.replicate n z).flatten := by
          rw [List.replicate_succ, List.flatten_cons]
        have hright : (List.replicate (n + 1) z).flatten = (List.replicate n z).flatten ++ z := by
          rw [List.replicate_succ', List.flatten_concat]
        rw [← hleft, hright]
      rw [colourFirst_nil, List.append_nil, List.append_nil, ← List.append_assoc, hcomm]

theorem colourFirst_eq_iff (priority : UInt16) (sev inner : Bytes) :
    colourFirst priority sev inner = inner ↔ ¬ sev <:+: inner := by
  cases hfind : Replace.find sev inner with
  | none =>
      rw [colourFirst, hfind]
      exact ⟨fun _ => Replace.find_eq_none hfind, fun _ => rfl⟩
  | some i =>
      obtain ⟨hi, ⟨tail, htail⟩, -⟩ := Replace.find_eq_some_iff.1 hfind
      have hinner : inner = inner.take i ++ (sev ++ tail) := by
        rw [htail, List.take_append_drop]
      refine iff_of_false (fun heq => ?_) (fun hne => hne ⟨inner.take i, tail, ?_⟩)
      · have hlen := congrArg List.length heq
        obtain ⟨a, b, hcode, -⟩ := ansiFor_eq priority
        rw [colourFirst, hfind] at hlen
        simp only [hcode, ansiReset_eq, List.length_append, List.length_take, List.length_drop,
          List.length_cons, List.length_nil] at hlen
        omega
      · rw [List.append_assoc]
        exact hinner.symm

/-- **When the colour marks the severity token.** Let `before` be what the renderer makes of the
    pattern up to its first severity token. The output is the inner one with the codes around the
    name that the token has become exactly if that name is in the inner output behind `before`, as
    it is where no text of a token arises from other text, and is found nowhere earlier. Without a
    severity token the output is the inner one exactly if the name is not in it. -/
theorem AnsiConsoleRenderer.render_coloured_iff (pattern : Bytes) (e : Event) :
    let inner := PatternRenderer.render platform threadHash pattern e
    let out := render platform threadHash pattern e
    let sev := e.severityName
    let code := ansiFor e.severityPriority
    (∀ text rest, pattern = text ++ (Token.severity.text ++ rest) →
      ¬ Token.severity.text <:+: text →
      let before := PatternRenderer.substituted platform threadHash text e
      (Coloured before sev code inner out ↔
        before ++ sev <+: inner ∧ FoundAtToken before sev code) ∧
      ((∀ t, ¬ Stray (Token.value platform threadHash e) pattern t) →
        before ++ sev <+: inner)) ∧
    (¬ Token.severity.text <:+: pattern → (out = inner ↔ ¬ sev <:+: inner)) := by
  intro inner out sev code
  refine ⟨?_, fun _ => colourFirst_eq_iff e.severityPriority sev inner⟩
  rintro text rest rfl -
  exact ⟨coloured_iff e.severityPriority _ sev inner, prefix_render platform threadHash text rest e⟩

/-- The name of the severity in the message is coloured in place of the token. -/
theorem AnsiConsoleRenderer.message_coloured :
    let platform : Platform := ⟨fun _ => ⟨70, 0, 1, 0, 0, 0⟩⟩
    let e : Event := { message := bytes "INFO x" }
    let text := braced "message" ++ bytes " "
    (∀ t u : Token, ¬ u.text <:+: Token.value platform (fun _ => 0) e t) ∧
      ¬ Coloured (PatternRenderer.substituted platform (fun _ => 0) text e) e.severityName
        (ansiFor e.severityPriority)
        (PatternRenderer.render platform (fun _ => 0) (text ++ (Token.severity.text ++ [])) e)
        (render platform (fun _ => 0) (text ++ (Token.severity.text ++ [])) e) := by
  intro platform e text
  refine ⟨fun t u hin => ?_, fun hcoloured => ?_⟩
  · have hmem : openBrace ∈ u.text := by simp [Token.text, braced]
    have hvalue := hin.subset hmem
    revert hvalue
    cases t <;> decide
  · rw [render, coloured_iff] at hcoloured
    rcases hcoloured.2 with hfind | ⟨hnil, -⟩
    · revert hfind
      decide
    · exact absurd hnil (by decide)

end SyLog
