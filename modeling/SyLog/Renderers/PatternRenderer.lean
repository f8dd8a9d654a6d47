import SyLog.Event
import SyLog.Library.Replace

set_option autoImplicit false

/-! # The pattern renderer

`PatternRenderer::render` replaces nine tokens by the values of an event, one token after the other
over the whole buffer, so a later pass sees what an earlier one has put in. Against it stands the
reading of the documentation: the pattern is scanned once, each token becomes its value and all
other text is copied.

The link between the two are lists of pieces, single bytes and tokens that are still to be replaced.
A pass over the buffer is a pass over the pieces (`expand_pass`), which goes wrong only where the
text of the token appears among the bytes. -/

namespace SyLog

/-- `'{'` -/
def openBrace : UInt8 := 123

/-- `'}'` -/
def closeBrace : UInt8 := 125

/-- The text of a token: its name in braces. -/
def braced (name : String) : Bytes := openBrace :: bytes name ++ [closeBrace]

/-- `replace_all` of `render`, on the buffer `out`. -/
def replaceAll (key val out : Bytes) : Bytes :=
  Replace.replaceLoop key val (out.length + 1) 0 out

/-- `if (!out.empty() && out.back() != '\\n') out.push_back('\\n');` -/
def endLine (out : Bytes) : Bytes :=
  if out ≠ [] ∧ out.getLast? ≠ some newline then out ++ [newline] else out

/-- `PatternRenderer::render`. `threadHash` is `std::hash<std::thread::id>`. -/
def PatternRenderer.render (platform : Platform) (threadHash : Nat → UInt64) (pattern : Bytes)
    (e : Event) : Bytes :=
  let out := pattern
  let timeS := formatTime platform e.timestamp
  let severityS := e.severityName
  let severityPriorityS := formatNat e.severityPriority.toNat
  let fileS := e.source.fileName
  let lineS := formatNat e.source.line.toNat
  let funcS := e.source.functionName
  let tidS := formatNat (threadHash e.threadId).toNat
  let out := replaceAll (braced "time") timeS out
  let out := replaceAll (braced "severity") severityS out
  let out := replaceAll (braced "severity_priority") severityPriorityS out
  let out := replaceAll (braced "endpoint") e.endpoint out
  let out := replaceAll (braced "message") e.message out
  let out := replaceAll (braced "file") fileS out
  let out := replaceAll (braced "line") lineS out
  let out := replaceAll (braced "func") funcS out
  let out := replaceAll (braced "tid") tidS out
  endLine out

/-! ## Tokens -/

inductive Token where
  | time
  | severity
  | severityPriority
  | endpoint
  | message
  | file
  | line
  | func
  | tid
  deriving DecidableEq, Repr

namespace Token

/-- The tokens in the order of the passes. -/
def passes : List Token :=
  [.time, .severity, .severityPriority, .endpoint, .message, .file, .line, .func, .tid]

def name : Token → String
  | .time => "time"
  | .severity => "severity"
  | .severityPriority => "severity_priority"
  | .endpoint => "endpoint"
  | .message => "message"
  | .file => "file"
  | .line => "line"
  | .func => "func"
  | .tid => "tid"

def text (t : Token) : Bytes := braced t.name

/-- The value of a token in an event. -/
def value (platform : Platform) (threadHash : Nat → UInt64) (e : Event) : Token → Bytes
  | .time => formatTime platform e.timestamp
  | .severity => e.severityName
  | .severityPriority => formatNat e.severityPriority.toNat
  | .endpoint => e.endpoint
  | .message => e.message
  | .file => e.source.fileName
  | .line => formatNat e.source.line.toNat
  | .func => e.source.functionName
  | .tid => formatNat (threadHash e.threadId).toNat

theorem mem_passes (t : Token) : t ∈ passes := by
  cases t <;> decide

/-- A text opens with the only opening brace in it. -/
theorem text_eq (t : Token) : t.text = openBrace :: t.text.tail ∧ openBrace ∉ t.text.tail := by
  cases t <;> decide

theorem eq_of_text_isPrefix {t u : Token} (h : t.text <+: u.text) : t = u := by
  revert h
  cases t <;> cases u <;> decide

/-- No text is the beginning of another one, whatever follows. -/
theorem eq_of_text_isPrefix_append {t u : Token} {rest : Bytes} (h : t.text <+: u.text ++ rest) :
    t = u := by
  rcases List.prefix_or_prefix_of_prefix h (List.prefix_append u.text rest) with hp | hp
  · exact eq_of_text_isPrefix hp
  · exact (eq_of_text_isPrefix hp).symm

end Token

/-- `render` makes the nine passes one after the other. -/
theorem PatternRenderer.render_eq (platform : Platform) (threadHash : Nat → UInt64)
    (pattern : Bytes) (e : Event) :
    render platform threadHash pattern e =
      endLine (Token.passes.foldl
        (fun out t => replaceAll t.text (t.value platform threadHash e) out) pattern) := by
  simp only [render, Token.passes, List.foldl_cons, List.foldl_nil, Token.text, Token.name,
    Token.value]

theorem Token.text_ne_nil (t : Token) : t.text ≠ [] := by
  simp [Token.text, braced]

/-- The loop has fuel enough. -/
theorem replaceAll_eq_walk {key : Bytes} (hkey : key ≠ []) (val out : Bytes) :
    replaceAll key val out = Replace.replaceAll key val out := by
  rw [replaceAll, Replace.replaceLoop_eq val hkey _ 0 out (Nat.zero_le _) (by omega)]
  simp

theorem replaceAll_eq (t : Token) (val out : Bytes) :
    replaceAll t.text val out = Replace.replaceAll t.text val out :=
  replaceAll_eq_walk t.text_ne_nil val out

/-! ## One scan of the pattern -/

/-- A byte to be copied or a token to be replaced. -/
inductive Piece where
  | lit (b : UInt8)
  | token (t : Token)
  deriving DecidableEq, Repr

/-- Bytes as pieces. -/
def literal (text : Bytes) : List Piece := text.map .lit

/-- The token whose text `text` begins with. -/
def tokenAt (text : Bytes) : Option Token := Token.passes.find? (fun t => decide (t.text <+: text))

def scanFrom : Nat → Bytes → List Piece
  | _, [] => []
  | n + 1, _ :: bs => scanFrom n bs
  | 0, b :: bs =>
      match tokenAt (b :: bs) with
      | some t => .token t :: scanFrom (t.text.length - 1) bs
      | none => .lit b :: scanFrom 0 bs

/-- The pieces of a pattern, found in one scan from left to right. -/
def scan (pattern : Bytes) : List Piece := scanFrom 0 pattern

/-- Copy the bytes, put values for the tokens. -/
def expand (value : Token → Bytes) (ps : List Piece) : Bytes :=
  ps.flatMap (fun p => match p with
    | .lit b => [b]
    | .token t => value t)

variable (value : Token → Bytes)

@[simp] theorem expand_nil : expand value [] = [] := rfl

@[simp] theorem expand_lit (b : UInt8) (ps : List Piece) :
    expand value (.lit b :: ps) = b :: expand value ps := rfl

@[simp] theorem expand_token (t : Token) (ps : List Piece) :
    expand value (.token t :: ps) = value t ++ expand value ps := rfl

@[simp] theorem expand_append (ps qs : List Piece) :
    expand value (ps ++ qs) = expand value ps ++ expand value qs := by
  simp [expand]

@[simp] theorem expand_literal (text : Bytes) : expand value (literal text) = text := by
  induction text with
  | nil => rfl
  | cons b bs ih => rw [literal, List.map_cons, expand_lit, ← literal, ih]

theorem expand_scanFrom (n : Nat) (text : Bytes) :
    expand Token.text (scanFrom n text) = text.drop n := by
  induction text generalizing n with
  | nil => cases n <;> rfl
  | cons b bs ih =>
      cases n with
      | succ n => rw [scanFrom, ih, List.drop_succ_cons]
      | zero =>
          rw [scanFrom]
          cases h : tokenAt (b :: bs) with
          | none => simp [ih]
          | some t =>
              have hp : t.text <+: b :: bs := by
                simpa using List.find?_some h
              obtain ⟨rest, hrest⟩ := hp
              have hcons := t.text_eq.1
              rw [hcons, List.cons_append] at hrest
              obtain ⟨rfl, rfl⟩ := List.cons.inj hrest
              rw [expand_token, ih, List.drop_zero, ← List.length_tail, List.drop_left]
              conv_lhs => rw [hcons]
              rfl

/-- The scan only cuts the pattern up. -/
theorem expand_scan (pattern : Bytes) : expand Token.text (scan pattern) = pattern := by
  rw [scan, expand_scanFrom, List.drop_zero]

/-! ## A pass over the pieces -/

/-- Put the value of `t` for the token `t`. -/
def substitute (t : Token) (ps : List Piece) : List Piece :=
  ps.flatMap (fun p => if p = .token t then literal (value t) else [p])

/-- What the pass for `t` does: it replaces the token, and its text among the bytes. -/
def pass (t : Token) (ps : List Piece) : List Piece :=
  substitute value t (Replace.replaceAll (literal t.text) (literal (value t)) ps)

@[simp] theorem substitute_nil (t : Token) : substitute value t [] = [] := rfl

@[simp] theorem substitute_lit (t : Token) (b : UInt8) (ps : List Piece) :
    substitute value t (.lit b :: ps) = .lit b :: substitute value t ps := by
  simp [substitute]

@[simp] theorem substitute_token_self (t : Token) (ps : List Piece) :
    substitute value t (.token t :: ps) = literal (value t) ++ substitute value t ps := by
  simp [substitute]

@[simp] theorem substitute_token_of_ne {t u : Token} (h : u ≠ t) (ps : List Piece) :
    substitute value t (.token u :: ps) = .token u :: substitute value t ps := by
  simp [substitute, h]

@[simp] theorem substitute_append (t : Token) (ps qs : List Piece) :
    substitute value t (ps ++ qs) = substitute value t ps ++ substitute value t qs := by
  simp [substitute]

@[simp] theorem substitute_literal (t : Token) (text : Bytes) :
    substitute value t (literal text) = literal text := by
  induction text with
  | nil => rfl
  | cons b bs ih => rw [literal, List.map_cons, substitute_lit, ← literal, ih]

/-- Bytes without an opening brace that the buffer begins with are bytes of the pieces. -/
theorem literal_isPrefix {w : Bytes} (hw : openBrace ∉ w) {ps : List Piece}
    (h : w <+: expand Token.text ps) : literal w <+: ps := by
  induction w generalizing ps with
  | nil => exact List.nil_prefix
  | cons c w ih =>
      rw [List.mem_cons, not_or] at hw
      cases ps with
      | nil => exact absurd (List.prefix_nil.1 h) (by simp)
      | cons p ps =>
          cases p with
          | lit b =>
              rw [expand_lit, List.cons_prefix_cons] at h
              obtain ⟨rfl, h⟩ := h
              exact List.cons_prefix_cons.2 ⟨rfl, ih hw.2 h⟩
          | token u =>
              rw [expand_token, u.text_eq.1, List.cons_append, List.cons_prefix_cons] at h
              exact absurd h.1.symm hw.1

/-- The pass for `t` leaves the text of any other token alone. -/
theorem replaceAll_text_append {t u : Token} (h : u ≠ t) (val rest : Bytes) :
    Replace.replaceAll t.text val (u.text ++ rest) =
      u.text ++ Replace.replaceAll t.text val rest := by
  have hnot : ¬ t.text <+: openBrace :: (u.text.tail ++ rest) := by
    rw [← List.cons_append, ← u.text_eq.1]
    exact fun hp => h (Token.eq_of_text_isPrefix_append hp).symm
  rw [u.text_eq.1, List.cons_append, Replace.replaceAll_cons_of_not val hnot, t.text_eq.1,
    Replace.replaceAll_append_of_notMem val u.text_eq.2]
  rfl

/-- **A pass over the buffer is a pass over the pieces.** -/
theorem expand_pass (t : Token) (ps : List Piece) :
    expand Token.text (pass value t ps) =
      Replace.replaceAll t.text (value t) (expand Token.text ps) := by
  have hkey : literal t.text ≠ [] := by simp [literal, Token.text, braced]
  have hkey' : t.text ≠ [] := by simp [Token.text, braced]
  induction ps using Replace.walk_induction hkey with
  | hnil => simp [pass]
  | hfound rest ih =>
      rw [pass] at ih
      rw [pass, Replace.replaceAll_key_append _ hkey, expand_append, expand_literal,
        Replace.replaceAll_key_append _ hkey', ← ih]
      simp
  | hpass p ps h ih =>
      rw [pass] at ih
      rw [pass, Replace.replaceAll_cons_of_not _ h]
      cases p with
      | lit b =>
          -- an occurrence in the buffer would end before the next token
          have hnot : ¬ t.text <+: b :: expand Token.text ps := by
            intro hp
            rw [t.text_eq.1, List.cons_prefix_cons] at hp
            obtain ⟨rfl, hp⟩ := hp
            refine h ?_
            rw [t.text_eq.1]
            exact List.cons_prefix_cons.2 ⟨rfl, literal_isPrefix t.text_eq.2 hp⟩
          rw [substitute_lit, expand_lit, expand_lit, Replace.replaceAll_cons_of_not _ hnot, ih]
      | token u =>
          by_cases hu : u = t
          · subst hu
            rw [substitute_token_self, expand_append, expand_literal, expand_token,
              Replace.replaceAll_key_append _ hkey', ih]
          · rw [substitute_token_of_ne value hu, expand_token, expand_token,
              replaceAll_text_append hu, ih]

/-! ## Stray texts -/

/-- The tokens whose passes come before that of `t`. -/
def Token.before (t : Token) : List Token := Token.passes.takeWhile (· ≠ t)

/-- The pieces with the values of `ts` put in. -/
def substituteAll (ts : List Token) (ps : List Piece) : List Piece :=
  ts.foldl (fun ps t => substitute value t ps) ps

/-- Before its pass the text of `t` appears among the bytes of the pattern and the values put in so
    far, and the pass changes it. -/
def Stray (pattern : Bytes) (t : Token) : Prop :=
  value t ≠ t.text ∧ literal t.text <:+: substituteAll value t.before (scan pattern)

theorem pass_eq_substitute {t : Token} {ps : List Piece}
    (h : ¬ (value t ≠ t.text ∧ literal t.text <:+: ps)) :
    pass value t ps = substitute value t ps := by
  have hkey : literal t.text ≠ [] := by simp [literal, Token.text, braced]
  rw [pass]
  by_cases hval : value t = t.text
  · rw [hval, Replace.replaceAll_self hkey]
  · rw [Replace.replaceAll_of_absent _ _ (fun hi => h ⟨hval, hi⟩)]

/-- Passes that meet no stray text put in the values and do nothing else. -/
theorem foldl_pass (ts : List Token) (ps : List Piece)
    (h : ∀ pre t suf, ts = pre ++ t :: suf →
      ¬ (value t ≠ t.text ∧ literal t.text <:+: substituteAll value pre ps)) :
    ts.foldl (fun ps t => pass value t ps) ps = substituteAll value ts ps := by
  induction ts generalizing ps with
  | nil => rfl
  | cons t ts ih =>
      have hpass : pass value t ps = substitute value t ps :=
        pass_eq_substitute value (h [] t ts rfl)
      rw [List.foldl_cons, hpass,
        ih _ (fun pre u suf hts => h (t :: pre) u suf (by rw [hts, List.cons_append]))]
      rfl

theorem expand_foldl_pass (ts : List Token) (ps : List Piece) :
    expand Token.text (ts.foldl (fun ps t => pass value t ps) ps) =
      ts.foldl (fun out t => replaceAll t.text (value t) out) (expand Token.text ps) := by
  induction ts generalizing ps with
  | nil => rfl
  | cons t ts ih => rw [List.foldl_cons, List.foldl_cons, ih, expand_pass, replaceAll_eq]

theorem expand_substitute (g : Token → Bytes) (t : Token) (ps : List Piece) :
    expand g (substitute value t ps) = expand (Function.update g t (value t)) ps := by
  induction ps with
  | nil => rfl
  | cons p ps ih =>
      cases p with
      | lit b => rw [substitute_lit, expand_lit, expand_lit, ih]
      | token u =>
          by_cases hu : u = t
          · subst hu
            rw [substitute_token_self, expand_append, expand_literal, expand_token, ih]
            simp
          · rw [substitute_token_of_ne value hu, expand_token, expand_token, ih]
            simp [hu]

theorem expand_substituteAll (g : Token → Bytes) (ts : List Token) (ps : List Piece) :
    expand g (substituteAll value ts ps) =
      expand (fun t => if t ∈ ts then value t else g t) ps := by
  induction ts generalizing ps with
  | nil => simp [substituteAll]
  | cons t ts ih =>
      have hmix : Function.update (fun u => if u ∈ ts then value u else g u) t (value t) =
          fun u => if u ∈ t :: ts then value u else g u := by
        funext u
        by_cases hu : u = t
        · subst hu
          simp
        · simp [hu]
      show expand g (substituteAll value ts (substitute value t ps)) = _
      rw [ih, expand_substitute, hmix]

/-- With all values put in nothing but the expansion of the pattern is left. -/
theorem expand_substituteAll_passes (ps : List Piece) :
    expand Token.text (substituteAll value Token.passes ps) = expand value ps := by
  rw [expand_substituteAll]
  simp [Token.mem_passes]

/-- The passes split at `t`. -/
theorem Token.passes_split {t : Token} {pre suf : List Token}
    (h : Token.passes = pre ++ t :: suf) : t.before = pre ∧ ∀ u, u ∈ suf → u ∉ t.before := by
  have hnodup : (pre ++ t :: suf).Nodup := by
    rw [← h]
    decide
  have hpre : ∀ u ∈ pre, u ≠ t := by
    intro u hu heq
    exact (List.nodup_append.1 hnodup).2.2 u hu t List.mem_cons_self heq
  have hbefore : t.before = pre := by
    rw [Token.before, h, List.takeWhile_append_of_pos (by simpa using hpre),
      List.takeWhile_cons_of_neg (by simp), List.append_nil]
  refine ⟨hbefore, fun u hu hmem => ?_⟩
  rw [hbefore] at hmem
  exact (List.nodup_append.1 hnodup).2.2 u hmem u (List.mem_cons_of_mem t hu) rfl

theorem Token.notMem_before (t : Token) : t ∉ t.before := by
  cases t <;> decide

theorem Token.passes_eq (t : Token) :
    Token.passes = t.before ++ t :: (Token.passes.drop (t.before.length + 1)) := by
  cases t <;> decide

/-- Without stray texts the passes give the expansion of the pattern. -/
theorem foldl_replaceAll_of_not_stray {pattern : Bytes} (h : ∀ t, ¬ Stray value pattern t) :
    Token.passes.foldl (fun out t => replaceAll t.text (value t) out) pattern =
      expand value (scan pattern) := by
  have hsub := foldl_pass value Token.passes (scan pattern) (fun pre t suf hts => by
    rw [← (Token.passes_split hts).1]
    exact h t)
  rw [← expand_substituteAll_passes, ← hsub, expand_foldl_pass, expand_scan]

/-! ## Counting opening braces

A value without an opening brace cannot make up for a stray text that its pass has taken out, nor
can later values of this kind. -/

/-- The opening braces among the bytes of the pieces. -/
def opened (ps : List Piece) : Nat := ps.count (.lit openBrace)

theorem lit_mem_literal {b : UInt8} {text : Bytes} : Piece.lit b ∈ literal text ↔ b ∈ text := by
  simp [literal]

theorem opened_substitute {t : Token} (h : openBrace ∉ value t) (ps : List Piece) :
    opened (substitute value t ps) = opened ps := by
  have hval : opened (literal (value t)) = 0 :=
    List.count_eq_zero_of_not_mem (fun hm => h (lit_mem_literal.1 hm))
  rw [opened] at hval ⊢
  rw [opened]
  induction ps with
  | nil => rfl
  | cons p ps ih =>
      cases p with
      | lit b => rw [substitute_lit, List.count_cons, List.count_cons, ih]
      | token u =>
          by_cases hu : u = t
          · subst hu
            rw [substitute_token_self, List.count_append, hval, ih, List.count_cons]
            simp
          · rw [substitute_token_of_ne value hu, List.count_cons, List.count_cons, ih]

theorem opened_substituteAll {ts : List Token} (h : ∀ t ∈ ts, openBrace ∉ value t)
    (ps : List Piece) : opened (substituteAll value ts ps) = opened ps := by
  induction ts generalizing ps with
  | nil => rfl
  | cons t ts ih =>
      show opened (substituteAll value ts (substitute value t ps)) = _
      rw [ih (fun u hu => h u (List.mem_cons_of_mem t hu)),
        opened_substitute value (h t List.mem_cons_self)]

theorem openBrace_mem_literal_text (t : Token) : Piece.lit openBrace ∈ literal t.text :=
  lit_mem_literal.2 (by simp [Token.text, braced])

theorem opened_pass_le {t : Token} (h : openBrace ∉ value t) (ps : List Piece) :
    opened (pass value t ps) ≤ opened ps := by
  rw [pass, opened_substitute value h]
  exact Replace.count_replaceAll_le _ (List.ne_nil_of_mem (openBrace_mem_literal_text t))
    (fun hm => h (lit_mem_literal.1 hm)) ps

theorem opened_foldl_pass_le {ts : List Token} (h : ∀ t ∈ ts, openBrace ∉ value t)
    (ps : List Piece) : opened (ts.foldl (fun ps t => pass value t ps) ps) ≤ opened ps := by
  induction ts generalizing ps with
  | nil => exact Nat.le_refl _
  | cons t ts ih =>
      rw [List.foldl_cons]
      exact (ih (fun u hu => h u (List.mem_cons_of_mem t hu)) _).trans
        (opened_pass_le value (h t List.mem_cons_self) ps)

/-- A pass that meets a stray text takes an opening brace away. -/
theorem opened_pass_lt {t : Token} (h : openBrace ∉ value t) {ps : List Piece}
    (hstray : literal t.text <:+: ps) : opened (pass value t ps) < opened ps := by
  rw [pass, opened_substitute value h]
  exact Replace.count_replaceAll_lt _ (openBrace_mem_literal_text t)
    (fun hm => h (lit_mem_literal.1 hm)) hstray

/-! ### No token is left -/

theorem token_mem_substitute {t u : Token} {ps : List Piece} :
    .token u ∈ substitute value t ps ↔ .token u ∈ ps ∧ u ≠ t := by
  induction ps with
  | nil => simp
  | cons p ps ih =>
      cases p with
      | lit b => simp [ih]
      | token v =>
          by_cases hv : v = t
          · subst hv
            rw [substitute_token_self, List.mem_append, ih]
            have : Piece.token u ∉ literal (value v) := by simp [literal]
            constructor
            · rintro (hm | ⟨hm, hne⟩)
              · exact absurd hm this
              · exact ⟨List.mem_cons_of_mem _ hm, hne⟩
            · rintro ⟨hm, hne⟩
              rcases List.mem_cons.1 hm with heq | hm
              · exact absurd (Piece.token.inj heq) hne
              · exact Or.inr ⟨hm, hne⟩
          · rw [substitute_token_of_ne value hv, List.mem_cons, ih, List.mem_cons]
            constructor
            · rintro (heq | ⟨hm, hne⟩)
              · cases heq
                exact ⟨Or.inl rfl, hv⟩
              · exact ⟨Or.inr hm, hne⟩
            · rintro ⟨heq | hm, hne⟩
              · exact Or.inl heq
              · exact Or.inr ⟨hm, hne⟩

theorem token_mem_pass {t u : Token} {ps : List Piece} :
    .token u ∈ pass value t ps ↔ .token u ∈ ps ∧ u ≠ t := by
  have hnot : ∀ text : Bytes, Piece.token u ∉ literal text := fun text => by simp [literal]
  rw [pass, token_mem_substitute,
    Replace.mem_replaceAll_iff _ (List.ne_nil_of_mem (openBrace_mem_literal_text t)) (hnot _)
      (hnot _)]

theorem token_mem_foldl {f : Token → List Piece → List Piece}
    (hf : ∀ t u ps, .token u ∈ f t ps ↔ .token u ∈ ps ∧ u ≠ t) {u : Token} (ts : List Token)
    (ps : List Piece) :
    .token u ∈ ts.foldl (fun ps t => f t ps) ps ↔ .token u ∈ ps ∧ u ∉ ts := by
  induction ts generalizing ps with
  | nil => simp
  | cons t ts ih => rw [List.foldl_cons, ih, hf, List.mem_cons, not_or, and_assoc]

theorem count_expand_of_no_token {ps : List Piece} (h : ∀ u, Piece.token u ∉ ps) :
    (expand Token.text ps).count openBrace = opened ps := by
  rw [opened]
  induction ps with
  | nil => rfl
  | cons p ps ih =>
      cases p with
      | token u => exact absurd List.mem_cons_self (h u)
      | lit b =>
          rw [expand_lit, List.count_cons, List.count_cons,
            ih (fun u hu => h u (List.mem_cons_of_mem _ hu))]
          simp

theorem count_endLine (out : Bytes) : (endLine out).count openBrace = out.count openBrace := by
  rw [endLine]
  split
  · rw [List.count_append]
    simp [newline, openBrace]
  · rfl

/-- The first stray text, met by a pass whose value and whose successors' values have no opening
    brace, leaves the line with too few of them. -/
theorem count_foldl_replaceAll_lt {pattern : Bytes} {t : Token} (hstray : Stray value pattern t)
    (hfirst : ∀ u ∈ t.before, ¬ Stray value pattern u)
    (hval : ∀ u, u ∉ t.before → openBrace ∉ value u) :
    (Token.passes.foldl (fun out t => replaceAll t.text (value t) out) pattern).count openBrace <
      (expand value (scan pattern)).count openBrace := by
  set suf := Token.passes.drop (t.before.length + 1) with hsuf
  have hsplit : Token.passes = t.before ++ t :: suf := Token.passes_eq t
  have hself : openBrace ∉ value t := hval t t.notMem_before
  have hlater : ∀ u ∈ suf, openBrace ∉ value u :=
    fun u hu => hval u ((Token.passes_split hsplit).2 u hu)
  -- up to the pass for `t` the code does what it should
  have hbefore : t.before.foldl (fun ps t => pass value t ps) (scan pattern) =
      substituteAll value t.before (scan pattern) := by
    refine foldl_pass value _ _ (fun pre u suf' hts => ?_)
    have hu : Token.passes = pre ++ u :: (suf' ++ t :: suf) := by
      rw [hsplit, hts, List.append_assoc, List.cons_append]
    rw [← (Token.passes_split hu).1]
    exact hfirst u (by rw [hts]; simp)
  set reached := substituteAll value t.before (scan pattern) with hreached
  have hcode : Token.passes.foldl (fun ps t => pass value t ps) (scan pattern) =
      suf.foldl (fun ps t => pass value t ps) (pass value t reached) := by
    conv_lhs => rw [hsplit, List.foldl_append, hbefore, List.foldl_cons]
  have hspec : substituteAll value Token.passes (scan pattern) =
      substituteAll value suf (substitute value t reached) := by
    conv_lhs => rw [hsplit, substituteAll, List.foldl_append, List.foldl_cons]
    rfl
  have hnoCode : ∀ u, Piece.token u ∉
      Token.passes.foldl (fun ps t => pass value t ps) (scan pattern) := fun u hu =>
    ((token_mem_foldl (fun _ _ _ => token_mem_pass value) _ _).1 hu).2 (Token.mem_passes u)
  have hnoSpec : ∀ u, Piece.token u ∉ substituteAll value Token.passes (scan pattern) := fun u hu =>
    ((token_mem_foldl (fun _ _ _ => token_mem_substitute value) _ _).1 hu).2 (Token.mem_passes u)
  have hline := expand_foldl_pass value Token.passes (scan pattern)
  rw [expand_scan] at hline
  rw [← hline, count_expand_of_no_token hnoCode, ← expand_substituteAll_passes,
    count_expand_of_no_token hnoSpec, hcode, hspec, opened_substituteAll value hlater,
    opened_substitute value hself]
  exact (opened_foldl_pass_le value hlater _).trans_lt (opened_pass_lt value hself hstray.2)

/-! ## Rendering a pattern -/

/-- What the documentation of the tokens describes: one scan of the pattern, then the end of the
    line. -/
def renderScanned (platform : Platform) (threadHash : Nat → UInt64) (pattern : Bytes)
    (e : Event) : Bytes :=
  endLine (expand (Token.value platform threadHash e) (scan pattern))

/-- Values and literal text without an opening brace are never taken for a token. -/
theorem PatternRenderer.render_of_plain (platform : Platform) (threadHash : Nat → UInt64)
    (pattern : Bytes) (e : Event) (hpattern : Piece.lit openBrace ∉ scan pattern)
    (hvalue : ∀ t, openBrace ∉ Token.value platform threadHash e t) :
    render platform threadHash pattern e = renderScanned platform threadHash pattern e := by
  rw [render_eq, foldl_replaceAll_of_not_stray]
  · rfl
  · rintro t ⟨-, hstray⟩
    have hmem := hstray.subset (openBrace_mem_literal_text t)
    rw [← List.count_pos_iff, ← opened, opened_substituteAll _ (fun u _ => hvalue u), opened,
      List.count_pos_iff] at hmem
    exact hpattern hmem

/-- **Where a pattern expands its own tokens only.** The passes agree with one scan of the pattern
    if no pass meets a stray text of its token, that is: the text among the bytes of the pattern
    and of the values put in by the passes before. They disagree at the first stray text, unless
    the value of its token or of a later one has an opening brace that could restore it. -/
theorem PatternRenderer.render_scanned (platform : Platform) (threadHash : Nat → UInt64)
    (pattern : Bytes) (e : Event) :
    let value := Token.value platform threadHash e
    ((∀ t, ¬ Stray value pattern t) →
      render platform threadHash pattern e = renderScanned platform threadHash pattern e) ∧
    (∀ t, Stray value pattern t → (∀ u ∈ t.before, ¬ Stray value pattern u) →
      (∀ u, u ∉ t.before → openBrace ∉ value u) →
      render platform threadHash pattern e ≠ renderScanned platform threadHash pattern e) := by
  intro value
  refine ⟨fun h => ?_, fun t hstray hfirst hval heq => ?_⟩
  · rw [render_eq, renderScanned, foldl_replaceAll_of_not_stray value h]
  · have hlt := count_foldl_replaceAll_lt value hstray hfirst hval
    have hcount := congrArg (List.count openBrace) heq
    rw [render_eq, renderScanned, count_endLine, count_endLine] at hcount
    exact absurd hcount hlt.ne

/-- A message that reads like a token is expanded. -/
theorem PatternRenderer.message_expanded :
    ¬ ∀ (platform : Platform) (threadHash : Nat → UInt64) (pattern : Bytes) (e : Event),
      render platform threadHash pattern e = renderScanned platform threadHash pattern e := by
  intro h
  have hrun := h ⟨fun _ => ⟨0, 0, 0, 0, 0, 0⟩⟩ (fun _ => 0) (braced "message")
    { message := braced "file", source := { fileName := bytes "a.cpp" } }
  revert hrun
  decide

/-- Values can also undo each other's expansion, so a stray text need not show in the end. -/
example :
    let e : Event := {
      endpoint := braced "message"
      message := braced "func"
      source := { functionName := braced "message" } }
    Stray (Token.value ⟨fun _ => ⟨0, 0, 0, 0, 0, 0⟩⟩ (fun _ => 0) e) (braced "endpoint") .message ∧
    PatternRenderer.render ⟨fun _ => ⟨0, 0, 0, 0, 0, 0⟩⟩ (fun _ => 0) (braced "endpoint") e =
      renderScanned ⟨fun _ => ⟨0, 0, 0, 0, 0, 0⟩⟩ (fun _ => 0) (braced "endpoint") e := by
  unfold Stray
  decide

end SyLog
