import Mathlib.Data.List.Basic
import Mathlib.Data.List.Count

set_option autoImplicit false

/-! # Find and replace

`replaceLoop` is the loop that finds the next occurrence of a key from a position on, puts a value
in its place and goes on behind the value. `replaceAll` is one walk over the text, and the loop
computes it. Texts are lists over any alphabet. -/

universe u

namespace Replace

variable {α : Type u} [DecidableEq α]

/-- The offset of the first occurrence of `key`. -/
def find (key : List α) : List α → Option ℕ
  | [] => if key <+: [] then some 0 else none
  | b :: bs => if key <+: b :: bs then some 0 else (find key bs).map (· + 1)

/-- Find from `pos` on, replace, go on behind the value; `fuel` bounds the number of rounds. -/
def replaceLoop (key val : List α) : ℕ → ℕ → List α → List α
  | 0, _, out => out
  | fuel + 1, pos, out =>
      match find key (out.drop pos) with
      | none => out
      | some i =>
          replaceLoop key val fuel (pos + i + val.length)
            (out.take (pos + i) ++ val ++ out.drop (pos + i + key.length))

/-- The walk, with the number of symbols of the last occurrence that are still to be skipped. -/
def replaceFrom (key val : List α) : ℕ → List α → List α
  | _, [] => []
  | n + 1, _ :: bs => replaceFrom key val n bs
  | 0, b :: bs =>
      if key <+: b :: bs then val ++ replaceFrom key val (key.length - 1) bs
      else b :: replaceFrom key val 0 bs

/-- Every occurrence of `key`, found from the left and without overlap, becomes `val`. -/
def replaceAll (key val : List α) (text : List α) : List α := replaceFrom key val 0 text

variable {key : List α} (val : List α)

theorem replaceFrom_eq (n : ℕ) (text : List α) :
    replaceFrom key val n text = replaceAll key val (text.drop n) := by
  induction n generalizing text with
  | zero => rfl
  | succ n ih =>
      cases text with
      | nil => simp [replaceFrom, replaceAll]
      | cons b bs => rw [replaceFrom, ih, List.drop_succ_cons]

@[simp] theorem replaceAll_nil : replaceAll key val [] = [] := by
  simp [replaceAll, replaceFrom]

theorem replaceAll_cons_of_not {b : α} {bs : List α} (h : ¬ key <+: b :: bs) :
    replaceAll key val (b :: bs) = b :: replaceAll key val bs := by
  rw [replaceAll, replaceFrom, if_neg h, replaceAll]

theorem replaceAll_key_append (hkey : key ≠ []) (rest : List α) :
    replaceAll key val (key ++ rest) = val ++ replaceAll key val rest := by
  obtain ⟨k, ks, rfl⟩ := List.exists_cons_of_ne_nil hkey
  have hp : k :: ks <+: k :: (ks ++ rest) := List.prefix_append (k :: ks) rest
  rw [List.cons_append, replaceAll, replaceFrom, if_pos hp, replaceFrom_eq]
  simp

/-- The walk passes over symbols that the key does not start with. -/
theorem replaceAll_append_of_notMem {k : α} {ks w : List α} (hw : k ∉ w) (rest : List α) :
    replaceAll (k :: ks) val (w ++ rest) = w ++ replaceAll (k :: ks) val rest := by
  induction w with
  | nil => rfl
  | cons b w ih =>
      rw [List.mem_cons, not_or] at hw
      have hnot : ¬ k :: ks <+: b :: (w ++ rest) := fun hp => hw.1 (List.cons_prefix_cons.1 hp).1
      rw [List.cons_append, replaceAll_cons_of_not val hnot, ih hw.2, List.cons_append]

/-- **Induction along the walk**: the text is empty, starts with the key, or starts with a symbol
    that is passed over. -/
theorem walk_induction {P : List α → Prop} (hkey : key ≠ []) (hnil : P [])
    (hfound : ∀ rest, P rest → P (key ++ rest))
    (hpass : ∀ b bs, ¬ key <+: b :: bs → P bs → P (b :: bs)) (text : List α) : P text := by
  induction hn : text.length using Nat.strongRecOn generalizing text with
  | _ n ih =>
      cases text with
      | nil => exact hnil
      | cons b bs =>
          by_cases h : key <+: b :: bs
          · obtain ⟨rest, hrest⟩ := h
            have hpos : 0 < key.length := List.length_pos_iff.2 hkey
            have hlen : key.length + rest.length = n := by
              rw [← hn, ← hrest, List.length_append]
            rw [← hrest]
            exact hfound rest (ih rest.length (by omega) rest rfl)
          · refine hpass b bs h (ih bs.length ?_ bs rfl)
            rw [← hn, List.length_cons]
            omega

/-! ## When nothing changes -/

theorem replaceAll_of_absent (text : List α) (h : ¬ key <:+: text) :
    replaceAll key val text = text := by
  induction text with
  | nil => simp
  | cons b bs ih =>
      rw [replaceAll_cons_of_not val (fun hp => h hp.isInfix),
        ih (fun hi => h (hi.trans (List.suffix_cons b bs).isInfix))]

theorem replaceAll_self (hkey : key ≠ []) (text : List α) : replaceAll key key text = text := by
  induction text using walk_induction hkey with
  | hnil => simp
  | hfound rest ih => rw [replaceAll_key_append key hkey, ih]
  | hpass b bs h ih => rw [replaceAll_cons_of_not key h, ih]

/-! ## Which symbols are left -/

theorem count_replaceAll_le (hkey : key ≠ []) {c : α} (hval : c ∉ val) (text : List α) :
    (replaceAll key val text).count c ≤ text.count c := by
  induction text using walk_induction hkey with
  | hnil => simp
  | hfound rest ih =>
      rw [replaceAll_key_append val hkey, List.count_append, List.count_append,
        List.count_eq_zero_of_not_mem hval]
      omega
  | hpass b bs h ih =>
      rw [replaceAll_cons_of_not val h, List.count_cons, List.count_cons]
      omega

/-- An occurrence takes its symbols with it. -/
theorem count_replaceAll_lt {c : α} (hkey : c ∈ key) (hval : c ∉ val) {text : List α}
    (h : key <:+: text) : (replaceAll key val text).count c < text.count c := by
  have hne : key ≠ [] := List.ne_nil_of_mem hkey
  induction text using walk_induction hne with
  | hnil => exact absurd (List.infix_nil.1 h) hne
  | hfound rest ih =>
      have hpos : 0 < key.count c := List.count_pos_iff.2 hkey
      have hle := count_replaceAll_le val hne hval rest
      rw [replaceAll_key_append val hne, List.count_append, List.count_append,
        List.count_eq_zero_of_not_mem hval]
      omega
  | hpass b bs hp ih =>
      have hlt := ih ((List.infix_cons_iff.1 h).resolve_left hp)
      rw [replaceAll_cons_of_not val hp, List.count_cons, List.count_cons]
      omega

/-- Symbols that neither the key nor the value has stay. -/
theorem mem_replaceAll_iff {c : α} (hkey : key ≠ []) (hk : c ∉ key) (hval : c ∉ val)
    (text : List α) : c ∈ replaceAll key val text ↔ c ∈ text := by
  induction text using walk_induction hkey with
  | hnil => simp
  | hfound rest ih => simp [replaceAll_key_append val hkey, ih, hk, hval]
  | hpass b bs h ih => simp [replaceAll_cons_of_not val h, ih]

/-! ## The loop computes the walk -/

theorem find_eq_none {text : List α} (h : find key text = none) : ¬ key <:+: text := by
  induction text with
  | nil =>
      rw [find] at h
      split at h
      · exact absurd h (by simp)
      · next hp => exact fun hi => hp (List.infix_nil.1 hi ▸ List.prefix_refl _)
  | cons b bs ih =>
      rw [find] at h
      split at h
      · exact absurd h (by simp)
      · next hp =>
          rw [List.infix_cons_iff]
          exact fun hi => hi.elim hp (ih (Option.map_eq_none_iff.1 h))

/-- The walk up to the first occurrence and from there on. -/
theorem replaceAll_of_find (hkey : key ≠ []) {text : List α} {i : ℕ}
    (h : find key text = some i) :
    i + key.length ≤ text.length ∧
      replaceAll key val text =
        text.take i ++ val ++ replaceAll key val (text.drop (i + key.length)) := by
  induction text generalizing i with
  | nil =>
      rw [find] at h
      split at h
      · next hp => exact absurd (List.prefix_nil.1 hp) hkey
      · exact absurd h (by simp)
  | cons b bs ih =>
      rw [find] at h
      split at h
      · next hp =>
          obtain ⟨rest, hrest⟩ := hp
          obtain rfl : 0 = i := Option.some.inj h
          have hlen := congrArg List.length hrest
          rw [List.length_append] at hlen
          refine ⟨by omega, ?_⟩
          rw [← hrest, replaceAll_key_append val hkey]
          simp
      · next hp =>
          obtain ⟨j, hj, rfl⟩ := Option.map_eq_some_iff.1 h
          obtain ⟨hlen, hall⟩ := ih hj
          refine ⟨by rw [List.length_cons]; omega, ?_⟩
          have hdrop : (b :: bs).drop (j + 1 + key.length) = bs.drop (j + key.length) := by
            rw [show j + 1 + key.length = (j + key.length) + 1 by omega, List.drop_succ_cons]
          rw [replaceAll_cons_of_not val hp, hall, hdrop]
          simp

/-- **The loop ends and computes the walk** over what follows its position. -/
theorem replaceLoop_eq (hkey : key ≠ []) (fuel pos : ℕ) (out : List α) (hpos : pos ≤ out.length)
    (hfuel : out.length - pos < fuel) :
    replaceLoop key val fuel pos out = out.take pos ++ replaceAll key val (out.drop pos) := by
  induction fuel generalizing pos out with
  | zero => omega
  | succ fuel ih =>
      have hlen : 0 < key.length := List.length_pos_iff.2 hkey
      rw [replaceLoop]
      split
      · next hnone =>
          rw [replaceAll_of_absent val _ (find_eq_none hnone), List.take_append_drop]
      · next i hsome =>
          obtain ⟨hi, hall⟩ := replaceAll_of_find val hkey hsome
          rw [List.length_drop] at hi
          have htake : (out.take (pos + i)).length = pos + i := by
            rw [List.length_take]
            omega
          have hsplit : pos + i + val.length = (out.take (pos + i) ++ val).length := by
            rw [List.length_append, htake]
          have hlength : (out.take (pos + i) ++ val ++ out.drop (pos + i + key.length)).length =
              pos + i + val.length + (out.length - (pos + i + key.length)) := by
            rw [List.length_append, ← hsplit, List.length_drop]
          rw [ih _ _ (by omega) (by omega), hall, hsplit, List.take_left, List.drop_left,
            List.drop_drop, List.take_add]
          simp [Nat.add_assoc]

/-! ## The first occurrence -/

/-- `find` gives the first place at which the rest of the text starts with the key. -/
theorem find_eq_some_iff {key text : List α} {i : ℕ} :
    find key text = some i ↔
      i ≤ text.length ∧ key <+: text.drop i ∧ ∀ j < i, ¬ key <+: text.drop j := by
  induction text generalizing i with
  | nil =>
      rw [find]
      by_cases hp : key <+: []
      · rw [if_pos hp, Option.some.injEq]
        constructor
        · rintro rfl
          exact ⟨Nat.le_refl _, by simpa using hp, fun j hj => absurd hj (Nat.not_lt_zero j)⟩
        · rintro ⟨hi, -, -⟩
          exact (Nat.le_zero.1 hi).symm
      · rw [if_neg hp]
        constructor
        · intro h
          cases h
        · rintro ⟨-, hp', -⟩
          exact absurd (by simpa using hp') hp
  | cons b bs ih =>
      rw [find]
      by_cases hp : key <+: b :: bs
      · rw [if_pos hp, Option.some.injEq]
        constructor
        · rintro rfl
          exact ⟨Nat.zero_le _, hp, fun j hj => absurd hj (Nat.not_lt_zero j)⟩
        · rintro ⟨-, -, hfirst⟩
          by_contra hne
          exact hfirst 0 (by omega) hp
      · rw [if_neg hp, Option.map_eq_some_iff]
        constructor
        · rintro ⟨j, hj, rfl⟩
          obtain ⟨hlen, hkey, hfirst⟩ := ih.1 hj
          refine ⟨Nat.succ_le_succ hlen, hkey, fun m hm => ?_⟩
          cases m with
          | zero => exact hp
          | succ m => exact hfirst m (by omega)
        · rintro ⟨hlen, hkey, hfirst⟩
          cases i with
          | zero => exact absurd hkey hp
          | succ i =>
              refine ⟨i, ih.2 ⟨Nat.le_of_succ_le_succ hlen, hkey, fun j hj => ?_⟩, rfl⟩
              exact hfirst (j + 1) (by omega)

/-- The first occurrence is not later than any other one. -/
theorem find_of_prefix {key text : List α} {j : ℕ} (h : key <+: text.drop j) :
    ∃ i ≤ j, find key text = some i := by
  cases hfind : find key text with
  | none => exact absurd (h.isInfix.trans (List.drop_suffix j text).isInfix) (find_eq_none hfind)
  | some i =>
      refine ⟨i, ?_, rfl⟩
      by_contra hlt
      exact (find_eq_some_iff.1 hfind).2.2 j (by omega) h

theorem find_of_absent {text : List α} (habsent : ¬ key <:+: text) : find key text = none := by
  cases hfind : find key text with
  | none => rfl
  | some i =>
      have hat := (find_eq_some_iff.1 hfind).2.1
      exact absurd (hat.isInfix.trans (List.drop_suffix i text).isInfix) habsent

theorem find_of_first {pre rest : List α}
    (hfirst : ∀ j < pre.length, ¬ key <+: (pre ++ key ++ rest).drop j) :
    find key (pre ++ key ++ rest) = some pre.length := by
  rw [find_eq_some_iff]
  refine ⟨?_, ?_, hfirst⟩
  · rw [List.append_assoc, List.length_append]
    omega
  · rw [List.append_assoc, List.drop_left]
    exact List.prefix_append key rest

/-- Whether an occurrence is the first one depends on the text up to its end. -/
theorem find_append_iff (pre key rest : List α) :
    find key (pre ++ key ++ rest) = some pre.length ↔ find key (pre ++ key) = some pre.length := by
  have hat : ∀ rest, key <+: (pre ++ key ++ rest).drop pre.length := by
    intro rest
    rw [List.append_assoc, List.drop_left]
    exact List.prefix_append _ _
  have hbefore : ∀ j < pre.length,
      (key <+: (pre ++ key ++ rest).drop j ↔ key <+: (pre ++ key).drop j) := by
    intro j hj
    have hlen : key.length ≤ ((pre ++ key).drop j).length := by
      rw [List.length_drop, List.length_append]
      omega
    rw [List.drop_append_of_le_length (by rw [List.length_append]; omega)]
    exact ⟨fun h => List.prefix_of_prefix_length_le h (List.prefix_append _ _) hlen,
      fun h => h.trans (List.prefix_append _ _)⟩
  rw [find_eq_some_iff, find_eq_some_iff]
  constructor
  · rintro ⟨-, -, hfirst⟩
    refine ⟨by simp, by simp, fun j hj h => hfirst j hj ((hbefore j hj).2 h)⟩
  · rintro ⟨-, -, hfirst⟩
    refine ⟨?_, hat rest, fun j hj h => hfirst j hj ((hbefore j hj).1 h)⟩
    rw [List.append_assoc, List.length_append]
    omega

/-! ## Cutting a text at the key -/

/-- `pieces` are what `text` has before, between and behind the leftmost occurrences of `key` that
    do not overlap. -/
inductive Cut (key : List α) : List α → List (List α) → Prop
  | last {text : List α} (habsent : ¬ key <:+: text) : Cut key text [text]
  | found {pre rest : List α} {pieces : List (List α)}
      (hfirst : ∀ j < pre.length, ¬ key <+: (pre ++ key ++ rest).drop j)
      (hrest : Cut key rest pieces) : Cut key (pre ++ key ++ rest) (pre :: pieces)

/-- The cut, with the number of symbols of the last occurrence that are still to be skipped. -/
def splitFrom (key : List α) : ℕ → List α → List (List α)
  | _, [] => [[]]
  | n + 1, _ :: bs => splitFrom key n bs
  | 0, b :: bs =>
      if key <+: b :: bs then [] :: splitFrom key (key.length - 1) bs
      else (splitFrom key 0 bs).modifyHead (b :: ·)

/-- The pieces of a text, computed. -/
def split (key : List α) (text : List α) : List (List α) := splitFrom key 0 text

theorem splitFrom_eq (n : ℕ) (text : List α) :
    splitFrom key n text = split key (text.drop n) := by
  induction n generalizing text with
  | zero => rfl
  | succ n ih =>
      cases text with
      | nil => simp [splitFrom, split]
      | cons b bs => rw [splitFrom, ih, List.drop_succ_cons]

@[simp] theorem split_nil : split key [] = [[]] := by
  simp [split, splitFrom]

theorem split_cons_of_not {b : α} {bs : List α} (h : ¬ key <+: b :: bs) :
    split key (b :: bs) = (split key bs).modifyHead (b :: ·) := by
  rw [split, splitFrom, if_neg h, split]

theorem split_key_append (hkey : key ≠ []) (rest : List α) :
    split key (key ++ rest) = [] :: split key rest := by
  obtain ⟨k, ks, rfl⟩ := List.exists_cons_of_ne_nil hkey
  have hp : k :: ks <+: k :: (ks ++ rest) := List.prefix_append (k :: ks) rest
  rw [List.cons_append, split, splitFrom, if_pos hp, splitFrom_eq]
  simp

omit [DecidableEq α] in
/-- A symbol that the key does not start at belongs to the first piece. -/
theorem Cut.cons {b : α} {bs : List α} {pieces : List (List α)} (h : Cut key bs pieces)
    (hb : ¬ key <+: b :: bs) : Cut key (b :: bs) (pieces.modifyHead (b :: ·)) := by
  cases h with
  | last habsent =>
      refine Cut.last fun hi => ?_
      exact (List.infix_cons_iff.1 hi).elim hb habsent
  | @found pre rest pieces hfirst hrest =>
      refine @Cut.found α key (b :: pre) rest pieces (fun j hj => ?_) hrest
      cases j with
      | zero => exact hb
      | succ j => exact hfirst j (Nat.lt_of_succ_lt_succ hj)

/-- Every text has a cut. -/
theorem cut_split (hkey : key ≠ []) (text : List α) : Cut key text (split key text) := by
  induction text using walk_induction hkey with
  | hnil =>
      rw [split_nil]
      exact Cut.last fun hi => hkey (List.infix_nil.1 hi)
  | hfound rest ih =>
      rw [split_key_append hkey]
      exact @Cut.found α key [] rest _ (fun j hj => absurd hj (Nat.not_lt_zero j)) ih
  | hpass b bs h ih =>
      rw [split_cons_of_not h]
      exact ih.cons h

omit [DecidableEq α] in
theorem Cut.ne_nil {text : List α} {pieces : List (List α)} (h : Cut key text pieces) :
    pieces ≠ [] := by
  cases h <;> exact List.cons_ne_nil _ _

/-- There is one cut only. -/
theorem Cut.unique {text : List α} {pieces pieces' : List (List α)} (h : Cut key text pieces)
    (h' : Cut key text pieces') : pieces' = pieces := by
  induction h generalizing pieces' with
  | last habsent =>
      cases h' with
      | last habsent' => rfl
      | found hfirst hrest =>
          have hfound := find_of_first hfirst
          rw [find_of_absent habsent] at hfound
          cases hfound
  | @found pre rest pieces hfirst hrest ih =>
      generalize htext : pre ++ key ++ rest = text at h'
      have hfound := htext ▸ find_of_first hfirst
      cases h' with
      | last habsent' =>
          rw [find_of_absent habsent'] at hfound
          cases hfound
      | @found pre' rest' pieces' hfirst' hrest' =>
          rw [find_of_first hfirst', Option.some.injEq] at hfound
          rw [List.append_assoc, List.append_assoc] at htext
          obtain ⟨rfl, htail⟩ := List.append_inj htext hfound.symm
          obtain rfl : rest = rest' := List.append_cancel_left htail
          rw [ih hrest']

omit [DecidableEq α] in
/-- The pieces with the key between them are the text. -/
theorem Cut.intercalate_key {text : List α} {pieces : List (List α)} (h : Cut key text pieces) :
    List.intercalate key pieces = text := by
  induction h with
  | last habsent => exact List.intercalate_singleton
  | found hfirst hrest ih => rw [List.intercalate_cons_of_ne_nil hrest.ne_nil, ih]

omit [DecidableEq α] in
/-- What the last pieces are the cut of is the end of the text. -/
theorem Cut.suffix_of_append {text text' : List α} {done rest : List (List α)}
    (h : Cut key text (done ++ rest)) (hrest : Cut key text' rest) : text' <:+ text := by
  induction done generalizing text with
  | nil =>
      have hsame : text' = text := hrest.intercalate_key.symm.trans h.intercalate_key
      exact hsame ▸ List.suffix_refl text'
  | cons piece done ih =>
      rw [List.cons_append] at h
      generalize hpieces : done ++ rest = pieces at h ih
      cases h with
      | last habsent => exact absurd (List.append_eq_nil_iff.1 hpieces).2 hrest.ne_nil
      | @found _ behind _ hfirst hbehind =>
          exact (ih hbehind).trans (List.suffix_append (piece ++ key) behind)

/-- **Replacing is cutting at the key and joining with the value.** -/
theorem Cut.replaceAll_eq (hkey : key ≠ []) {text : List α} {pieces : List (List α)}
    (h : Cut key text pieces) : replaceAll key val text = List.intercalate val pieces := by
  induction h with
  | last habsent => rw [replaceAll_of_absent val _ habsent, List.intercalate_singleton]
  | @found pre rest pieces hfirst hrest ih =>
      have hdrop : (pre ++ key ++ rest).drop (pre.length + key.length) = rest := by
        rw [← List.length_append, List.drop_left]
      have htake : (pre ++ key ++ rest).take pre.length = pre := by
        rw [List.append_assoc, List.take_left]
      rw [(replaceAll_of_find val hkey (find_of_first hfirst)).2, htake, hdrop, ih,
        List.intercalate_cons_of_ne_nil hrest.ne_nil]

/-! ## Marking an occurrence -/

omit [DecidableEq α] in
/-- Two words with the same conjugation are beginnings of one infinite word. -/
theorem prefix_of_conjugate {u v s x : List α} (hu : u ≠ []) (hs : s ++ v = u ++ s)
    (hx : x ++ v = u ++ x) (hlen : s.length ≤ x.length) : s <+: x := by
  induction h : s.length using Nat.strongRecOn generalizing s x with
  | _ n ih =>
      have hsu : s <+: u ++ s := ⟨v, hs⟩
      have hxu : x <+: u ++ x := ⟨v, hx⟩
      by_cases hshort : s.length ≤ u.length
      · have hsu' : s <+: u := List.prefix_of_prefix_length_le hsu (List.prefix_append u s) hshort
        exact List.prefix_of_prefix_length_le (hsu'.trans (List.prefix_append u x)) hxu hlen
      · -- both start with `u`, and the rests are conjugate in the same way
        obtain ⟨s', rfl⟩ :=
          List.prefix_of_prefix_length_le (List.prefix_append u s) hsu (by omega)
        obtain ⟨x', rfl⟩ :=
          List.prefix_of_prefix_length_le (List.prefix_append u x) hxu (by omega)
        rw [List.append_assoc, List.append_cancel_left_eq] at hs hx
        rw [List.length_append] at h
        rw [List.length_append, List.length_append] at hlen
        have hpos : 0 < u.length := List.length_pos_iff.2 hu
        rw [List.prefix_append_right_inj]
        exact ih s'.length (by omega) hs hx (by omega) rfl

omit [DecidableEq α] in
theorem suffix_of_conjugate {u v s x : List α} (hv : v ≠ []) (hs : s ++ v = u ++ s)
    (hx : x ++ v = u ++ x) (hlen : s.length ≤ x.length) : s <:+ x := by
  rw [← List.reverse_prefix]
  have hreverse : ∀ w : List α, w ++ v = u ++ w →
      w.reverse ++ u.reverse = v.reverse ++ w.reverse := by
    intro w hw
    rw [← List.reverse_append, ← List.reverse_append, hw]
  have hlen' : s.reverse.length ≤ x.reverse.length := by simpa using hlen
  exact prefix_of_conjugate (by simpa using hv) (hreverse s hs) (hreverse x hx) hlen'

omit [DecidableEq α] in
/-- **Marks around two occurrences**, `u` apart, make different texts, unless the key is at both
    ends of the marked key. -/
theorem ends_of_marked_eq {l r key u v rest : List α} (hu : u ≠ [])
    (htext : key ++ v ++ rest = u ++ key ++ rest)
    (hmarked : l ++ key ++ r ++ v ++ rest = u ++ (l ++ key ++ r) ++ rest) :
    key <+: l ++ key ++ r ∧ key <:+ l ++ key ++ r := by
  have hkey : key ++ v = u ++ key := List.append_cancel_right htext
  have hlong : (l ++ key ++ r) ++ v = u ++ (l ++ key ++ r) := List.append_cancel_right hmarked
  have hv : v ≠ [] := by
    rintro rfl
    have hlen := congrArg List.length hkey
    rw [List.append_nil, List.length_append] at hlen
    exact hu (List.length_eq_zero_iff.1 (by omega))
  have hlen : key.length ≤ (l ++ key ++ r).length := by
    rw [List.length_append, List.length_append]
    omega
  exact ⟨prefix_of_conjugate hu hkey hlong hlen, suffix_of_conjugate hv hkey hlong hlen⟩

omit [DecidableEq α] in
/-- A word that commutes with `z` repeats it, if no shorter beginning of `z` commutes with it. -/
theorem eq_replicate_of_commute {z w : List α} (hz : z ≠ [])
    (hprimitive : ∀ p, p <+: z → p ≠ [] → z ++ p = p ++ z → p = z) (h : z ++ w = w ++ z) :
    ∃ n, w = (List.replicate n z).flatten := by
  induction hn : w.length using Nat.strongRecOn generalizing w with
  | _ n ih =>
      by_cases hw : w = []
      · exact ⟨0, hw⟩
      have hstart : w <+: z ++ w := h ▸ List.prefix_append w z
      by_cases hshort : w.length ≤ z.length
      · have hwz : w <+: z := List.prefix_of_prefix_length_le hstart (List.prefix_append z w) hshort
        refine ⟨1, ?_⟩
        rw [hprimitive w hwz hw h]
        simp
      · obtain ⟨w', rfl⟩ :=
          List.prefix_of_prefix_length_le (List.prefix_append z w) hstart (by omega)
        rw [List.append_assoc, List.append_cancel_left_eq] at h
        rw [List.length_append] at hn
        have hpos : 0 < z.length := List.length_pos_iff.2 hz
        obtain ⟨m, rfl⟩ := ih w'.length (by omega) h rfl
        exact ⟨m + 1, by rw [List.replicate_succ, List.flatten_cons]⟩

end Replace
