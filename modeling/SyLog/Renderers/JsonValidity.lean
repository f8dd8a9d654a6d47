import SyLog.Renderers.JsonRenderer

set_option autoImplicit false

/-! # When the output is JSON

`json_value_append` hands a `double` to `std::format`, and what that writes for infinities and for
values that are not numbers is not JSON. Everything else that `JsonRenderer` writes is. -/

namespace SyLog

variable (formatDouble : UInt64 → Bytes)

/-- The field holds an infinity or something that is not a number. -/
def Field.NotFinite (f : Field) : Prop := ∃ bits, f.value = .double bits ∧ isFinite bits = false

/-- The fields up to the first that is not finite. -/
theorem exists_first_notFinite {fields : List Field} (h : ∃ f ∈ fields, f.NotFinite) :
    ∃ before bits key after, fields = before ++ ⟨key, .double bits⟩ :: after ∧
      isFinite bits = false ∧ ∀ f ∈ before, ¬ f.NotFinite := by
  induction fields with
  | nil => simp at h
  | cons f fields ih =>
      by_cases hf : f.NotFinite
      · obtain ⟨key, value⟩ := f
        obtain ⟨bits, rfl, hbits⟩ := hf
        exact ⟨[], bits, key, fields, rfl, hbits, by simp⟩
      · have hrest : ∃ f ∈ fields, f.NotFinite := by
          obtain ⟨g, hg, hnot⟩ := h
          rcases List.mem_cons.1 hg with rfl | hg
          · exact absurd hnot hf
          · exact ⟨g, hg, hnot⟩
        obtain ⟨before, bits, key, after, rfl, hbits, hbefore⟩ := ih hrest
        refine ⟨f :: before, bits, key, after, rfl, hbits, ?_⟩
        intro g hg
        rcases List.mem_cons.1 hg with rfl | hg
        · exact hf
        · exact hbefore g hg

theorem isNumber_of_finite (hdouble : ∀ bits, isFinite bits = true →
      Json.isNumber (formatDouble bits) = true) {fields : List Field}
    (h : ∀ f ∈ fields, ¬ f.NotFinite) :
    ∀ f ∈ fields, ∀ bits, f.value = .double bits → Json.isNumber (formatDouble bits) = true := by
  intro f hf bits hbits
  refine hdouble bits ?_
  by_contra hne
  exact h f hf ⟨bits, hbits, by simpa using hne⟩

/-- The object of the fields is no JSON where one of them is not finite. -/
theorem unreadable_fields (hdouble : ∀ bits, isFinite bits = true →
      Json.isNumber (formatDouble bits) = true)
    (hnotFinite : ∀ bits, isFinite bits = false → formatDouble bits ∈ Json.notFinite)
    {fields : List Field} (h : ∃ f ∈ fields, f.NotFinite) :
    Json.Unreadable (.obj (fieldMembers formatDouble fields)) := by
  obtain ⟨before, bits, key, after, rfl, hbits, hbefore⟩ := exists_first_notFinite h
  have hmembers : fieldMembers formatDouble (before ++ ⟨key, .double bits⟩ :: after) =
      fieldMembers formatDouble before ++
        (key, .num (formatDouble bits)) :: fieldMembers formatDouble after := by
    simp [fieldMembers, FieldValue.toJson]
  rw [hmembers]
  exact Json.unreadable_obj (Json.unreadable_notFinite (hnotFinite bits hbits)) _ _
    (wellFormed_fieldMembers formatDouble (isNumber_of_finite formatDouble hdouble hbefore))

/-- The members that the flags ask for, with the fields last. -/
theorem JsonRenderer.members_fields (r : JsonRenderer) (platform : Platform)
    (threadHash : Nat → UInt64) (e : Event) (hfields : r.includeFields = true)
    (hne : e.fields ≠ []) :
    r.members formatDouble platform threadHash e =
      { r with includeFields := false }.members formatDouble platform threadHash e ++
        [(bytes "fields", .obj (fieldMembers formatDouble e.fields))] := by
  have hempty : e.fields.isEmpty = false := by simpa using hne
  simp only [JsonRenderer.members, hfields, hempty, Bool.not_false, Bool.and_true, if_true,
    Bool.false_eq_true, if_false, List.append_nil]

theorem JsonRenderer.dropLast_render (r : JsonRenderer) (platform : Platform)
    (threadHash : Nat → UInt64) (e : Event) :
    (r.render formatDouble platform threadHash e).dropLast =
      Json.encode (r.record formatDouble platform threadHash e) := by
  rw [render_eq, List.dropLast_concat]

/-- A record with a field that is not finite is not read at all. -/
theorem JsonRenderer.parse_render_notFinite (r : JsonRenderer) (platform : Platform)
    (threadHash : Nat → UInt64) {e : Event}
    (hdouble : ∀ bits, isFinite bits = true → Json.isNumber (formatDouble bits) = true)
    (hnotFinite : ∀ bits, isFinite bits = false → formatDouble bits ∈ Json.notFinite)
    (hfields : r.includeFields = true) (hbad : ∃ f ∈ e.fields, f.NotFinite) :
    Json.parse (r.render formatDouble platform threadHash e).dropLast = none := by
  have hne : e.fields ≠ [] := by
    obtain ⟨f, hf, -⟩ := hbad
    exact List.ne_nil_of_mem hf
  have hhead : Json.WellFormedMembers
      ({ r with includeFields := false }.members formatDouble platform threadHash e) :=
    wellFormed_record formatDouble { r with includeFields := false } platform threadHash
      (fun h => by cases h)
  have hunreadable : Json.Unreadable (r.record formatDouble platform threadHash e) := by
    rw [record, members_fields formatDouble r platform threadHash e hfields hne]
    exact Json.unreadable_obj (unreadable_fields formatDouble hdouble hnotFinite hbad) _ _ hhead
  have hnone := Json.parse_unreadable hunreadable []
  rwa [List.append_nil, ← dropLast_render] at hnone

/-- **When the record is JSON.** The output without its newline is read as one object exactly if no
    field that is written holds an infinity or something that is not a number. What is used of
    `std::format` is that it writes a finite `double` as a number of the grammar, and any other as
    one of `nan`, `-nan`, `inf` and `-inf`. -/
theorem JsonRenderer.render_valid_iff (r : JsonRenderer) (platform : Platform)
    (threadHash : Nat → UInt64) (e : Event)
    (hdouble : ∀ bits, isFinite bits = true → Json.isNumber (formatDouble bits) = true)
    (hnotFinite : ∀ bits, isFinite bits = false → formatDouble bits ∈ Json.notFinite) :
    (∃ members, Json.parse (r.render formatDouble platform threadHash e).dropLast =
      some (.obj members)) ↔
    ¬ (r.includeFields = true ∧ ∃ f ∈ e.fields, f.NotFinite) := by
  constructor
  · rintro ⟨members, hparse⟩ ⟨hfields, hbad⟩
    rw [parse_render_notFinite formatDouble r platform threadHash hdouble hnotFinite hfields hbad]
      at hparse
    cases hparse
  · intro hcond
    have hrecord := wellFormed_record formatDouble r platform threadHash (e := e) (fun hfields =>
      isNumber_of_finite formatDouble hdouble (fun f hf hbad => hcond ⟨hfields, f, hf, hbad⟩))
    have hparse : Json.parse (Json.encode (r.record formatDouble platform threadHash e) ++ []) =
        some (r.record formatDouble platform threadHash e) :=
      Json.parse_encode hrecord (by simp)
    rw [List.append_nil] at hparse
    rw [dropLast_render, hparse]
    exact ⟨_, rfl⟩

/-- `std::format` on 1.5 and on every `double` that is not finite. -/
def formatSome (bits : UInt64) : Bytes :=
  if isFinite bits then
    if bits = 0x3FF8000000000000 then bytes "1.5" else bytes "0"
  else if bits = 0x7FF0000000000000 then bytes "inf"
  else if bits = 0xFFF0000000000000 then bytes "-inf"
  else if bits >>> 63 = 1 then bytes "-nan"
  else bytes "nan"

theorem formatSome_finite (bits : UInt64) (h : isFinite bits = true) :
    Json.isNumber (formatSome bits) = true := by
  rw [formatSome, if_pos h]
  split <;> decide

theorem formatSome_notFinite (bits : UInt64) (h : isFinite bits = false) :
    formatSome bits ∈ Json.notFinite := by
  rw [formatSome, if_neg (by simp [h])]
  split_ifs <;> decide

theorem JsonRenderer.render_valid_one_and_a_half :
    ∃ members, Json.parse (({} : JsonRenderer).render formatSome ⟨fun _ => ⟨70, 0, 1, 0, 0, 0⟩⟩
      (fun _ => 0) { fields := [⟨bytes "x", .double 0x3FF8000000000000⟩] }).dropLast =
        some (.obj members) :=
  (render_valid_iff formatSome {} ⟨fun _ => ⟨70, 0, 1, 0, 0, 0⟩⟩ (fun _ => 0)
    { fields := [⟨bytes "x", .double 0x3FF8000000000000⟩] } formatSome_finite
    formatSome_notFinite).2 (by
      rintro ⟨-, f, hf, bits, hbits, hnot⟩
      rw [List.mem_singleton.1 hf] at hbits
      rw [← FieldValue.double.inj hbits] at hnot
      exact absurd hnot (by decide))

/-- A field that is not a number makes the record no JSON. -/
theorem JsonRenderer.render_nan_invalid :
    ¬ ∃ members, Json.parse (({} : JsonRenderer).render formatSome ⟨fun _ => ⟨70, 0, 1, 0, 0, 0⟩⟩
      (fun _ => 0) { fields := [⟨bytes "x", .double 0x7FF8000000000000⟩] }).dropLast =
        some (.obj members) := by
  rintro ⟨members, hparse⟩
  rw [parse_render_notFinite formatSome _ _ _ formatSome_finite formatSome_notFinite rfl
    ⟨⟨bytes "x", .double 0x7FF8000000000000⟩, List.mem_cons_self, 0x7FF8000000000000, rfl,
      by decide⟩] at hparse
  cases hparse

end SyLog
