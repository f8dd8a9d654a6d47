import SyLog.Decimal
import SyLog.Library.Json

set_option autoImplicit false

/-! # The JSON renderer

`JsonRenderer::render` with its two helpers of json_renderer.cpp, which append to a buffer. What
they append is what the writer of `Json` makes of the event's record (`render_eq`), and the round
trip follows from there. How `std::format` writes a `double` is a parameter. -/

namespace SyLog

/-- `std::format("{:04x}", n)` -/
def formatHex4 (n : Nat) : Bytes :=
  let digits := if n = 0 then [48] else (Nat.digits 16 n).reverse.map
    (fun d => if d < 10 then 48 + d.toUInt8 else 87 + d.toUInt8)
  List.replicate (4 - digits.length) 48 ++ digits

/-- The body of the loop of `json_escape_append`. -/
def jsonEscapeByteAppend (out : Bytes) (c : UInt8) : Bytes :=
  if c = 34 then out ++ bytes "\\\""
  else if c = 92 then out ++ bytes "\\\\"
  else if c = 8 then out ++ bytes "\\b"
  else if c = 12 then out ++ bytes "\\f"
  else if c = 10 then out ++ bytes "\\n"
  else if c = 13 then out ++ bytes "\\r"
  else if c = 9 then out ++ bytes "\\t"
  else if c < 0x20 then out ++ (bytes "\\u" ++ formatHex4 c.toNat)
  else out ++ [c]

def jsonEscapeAppend (out s : Bytes) : Bytes :=
  let out := out ++ bytes "\""
  let out := s.foldl jsonEscapeByteAppend out
  out ++ bytes "\""

variable (formatDouble : UInt64 → Bytes)

def jsonValueAppend (out : Bytes) : FieldValue → Bytes
  | .monostate => out ++ bytes "null"
  | .bool value => out ++ (if value then bytes "true" else bytes "false")
  | .int64 value => out ++ formatInt value.toInt
  | .double bits => out ++ formatDouble bits
  | .string value => jsonEscapeAppend out value

/-- The loop over the fields, from index `i` on. -/
def jsonFieldsAppend : Nat → List Field → Bytes → Bytes
  | _, [], out => out
  | i, field :: fields, out =>
      let out := if i ≠ 0 then out ++ bytes "," else out
      let out := jsonEscapeAppend out field.key
      let out := out ++ bytes ":"
      let out := jsonValueAppend formatDouble out field.value
      jsonFieldsAppend (i + 1) fields out

structure JsonRenderer where
  includeSource : Bool := true
  includeThread : Bool := true
  includeFields : Bool := true
  deriving DecidableEq, Repr

/-- `JsonRenderer::render`. `threadHash` is `std::hash<std::thread::id>`. -/
def JsonRenderer.render (r : JsonRenderer) (platform : Platform) (threadHash : Nat → UInt64)
    (e : Event) : Bytes :=
  let out := bytes "\x7b"
  let out := out ++ bytes "\"time\":"
  let out := jsonEscapeAppend out (formatTime platform e.timestamp)
  let out := out ++ bytes ",\"level\":"
  let out := jsonEscapeAppend out e.severityName
  let out := out ++ bytes ",\"endpoint\":"
  let out := jsonEscapeAppend out e.endpoint
  let out := out ++ bytes ",\"message\":"
  let out := jsonEscapeAppend out e.message
  let out :=
    if r.includeThread then
      let out := out ++ bytes ",\"tid\":"
      out ++ formatNat (threadHash e.threadId).toNat
    else out
  let out :=
    if r.includeSource then
      let out := out ++ bytes ",\"source\":\x7b\"file\":"
      let out := jsonEscapeAppend out e.source.fileName
      let out := out ++ bytes ",\"line\":"
      let out := out ++ formatNat e.source.line.toNat
      let out := out ++ bytes ",\"func\":"
      let out := jsonEscapeAppend out e.source.functionName
      out ++ bytes "\x7d"
    else out
  let out :=
    if r.includeFields && !e.fields.isEmpty then
      let out := out ++ bytes ",\"fields\":\x7b"
      let out := jsonFieldsAppend formatDouble 0 e.fields out
      out ++ bytes "\x7d"
    else out
  out ++ bytes "\x7d" ++ bytes "\n"

/-! ## The record of an event -/

def FieldValue.toJson : FieldValue → Json
  | .monostate => .null
  | .bool value => .bool value
  | .int64 value => .num (formatInt value.toInt)
  | .double bits => .num (formatDouble bits)
  | .string value => .str value

/-- The fields as the members of an object. -/
def fieldMembers (fields : List Field) : List (Bytes × Json) :=
  fields.map (fun f => (f.key, f.value.toJson formatDouble))

theorem fieldMembers_cons (field : Field) (fields : List Field) :
    fieldMembers formatDouble (field :: fields) =
      (field.key, field.value.toJson formatDouble) :: fieldMembers formatDouble fields := rfl

/-- The members in their order: the four that are always there, and those that the flags ask for. -/
def JsonRenderer.members (r : JsonRenderer) (platform : Platform) (threadHash : Nat → UInt64)
    (e : Event) : List (Bytes × Json) :=
  [(bytes "time", .str (formatTime platform e.timestamp)),
    (bytes "level", .str e.severityName),
    (bytes "endpoint", .str e.endpoint),
    (bytes "message", .str e.message)] ++
  (if r.includeThread then
    [(bytes "tid", .num (formatNat (threadHash e.threadId).toNat))]
  else []) ++
  (if r.includeSource then
    [(bytes "source", .obj [(bytes "file", .str e.source.fileName),
      (bytes "line", .num (formatNat e.source.line.toNat)),
      (bytes "func", .str e.source.functionName)])]
  else []) ++
  (if r.includeFields && !e.fields.isEmpty then
    [(bytes "fields", .obj (fieldMembers formatDouble e.fields))]
  else [])

/-- The record of an event. -/
def JsonRenderer.record (r : JsonRenderer) (platform : Platform) (threadHash : Nat → UInt64)
    (e : Event) : Json :=
  .obj (r.members formatDouble platform threadHash e)

/-! ## The buffer holds the record -/

theorem formatHex4_control : ∀ n < 32, formatHex4 n =
    [Json.hexDigit 0, Json.hexDigit 0, Json.hexDigit (n / 16), Json.hexDigit (n % 16)] := by
  decide

theorem jsonEscapeByteAppend_eq (out : Bytes) (c : UInt8) :
    jsonEscapeByteAppend out c = out ++ Json.escapeByte c := by
  have hescape : ∀ n < 32, bytes "\\u" ++ formatHex4 n = [Json.backslash, 117, Json.hexDigit 0,
      Json.hexDigit 0, Json.hexDigit (n / 16), Json.hexDigit (n % 16)] := by
    intro n hn
    rw [formatHex4_control n hn]
    rfl
  unfold jsonEscapeByteAppend Json.escapeByte
  by_cases hlow : c < 0x20
  · rw [hescape c.toNat hlow]
    simp only [apply_ite (out ++ ·)]
    rfl
  · simp only [apply_ite (out ++ ·), if_neg hlow]
    rfl

theorem jsonEscapeAppend_eq (out s : Bytes) :
    jsonEscapeAppend out s = out ++ Json.encodeString s := by
  have hloop : ∀ out : Bytes,
      s.foldl jsonEscapeByteAppend out = out ++ s.flatMap Json.escapeByte := by
    induction s with
    | nil => simp
    | cons c s ih =>
        intro out
        rw [List.foldl_cons, ih, jsonEscapeByteAppend_eq, List.flatMap_cons, List.append_assoc]
  rw [jsonEscapeAppend, hloop, Json.encodeString, List.append_assoc, List.append_assoc]
  rfl

theorem jsonValueAppend_eq (out : Bytes) (v : FieldValue) :
    jsonValueAppend formatDouble out v = out ++ Json.encode (v.toJson formatDouble) := by
  cases v with
  | monostate => rfl
  | bool value => cases value <;> rfl
  | int64 value => rfl
  | double bits => rfl
  | string value => exact jsonEscapeAppend_eq out value

/-- From the second field on each one has a comma before it. -/
theorem jsonFieldsAppend_succ (i : Nat) (fields : List Field) (out : Bytes) :
    jsonFieldsAppend formatDouble (i + 1) fields out =
      out ++ Json.encodeMoreMembers (fieldMembers formatDouble fields) := by
  induction fields generalizing i out with
  | nil => exact (List.append_nil out).symm
  | cons field fields ih =>
      rw [jsonFieldsAppend, if_pos (Nat.succ_ne_zero i), ih, jsonValueAppend_eq,
        jsonEscapeAppend_eq, fieldMembers_cons, Json.encodeMoreMembers,
        show bytes "," = [Json.comma] from rfl, show bytes ":" = [Json.colon] from rfl]
      simp

theorem jsonFieldsAppend_eq (fields : List Field) (out : Bytes) :
    jsonFieldsAppend formatDouble 0 fields out =
      out ++ Json.encodeMembers (fieldMembers formatDouble fields) := by
  cases fields with
  | nil => exact (List.append_nil out).symm
  | cons field fields =>
      rw [jsonFieldsAppend, if_neg (by simp), jsonFieldsAppend_succ, jsonValueAppend_eq,
        jsonEscapeAppend_eq, fieldMembers_cons, Json.encodeMembers,
        show bytes ":" = [Json.colon] from rfl]
      simp

/-- **What `render` appends is the record of the event and a newline.** -/
theorem JsonRenderer.render_eq (r : JsonRenderer) (platform : Platform)
    (threadHash : Nat → UInt64) (e : Event) :
    r.render formatDouble platform threadHash e =
      Json.encode (r.record formatDouble platform threadHash e) ++ [newline] := by
  have hopen : bytes "\x7b" = [Json.openBrace] := rfl
  have hclose : bytes "\x7d" = [Json.closeBrace] := rfl
  have hline : bytes "\n" = [newline] := rfl
  have htime : bytes "\"time\":" = Json.encodeString (bytes "time") ++ [Json.colon] := rfl
  have hlevel : bytes ",\"level\":" =
      Json.comma :: (Json.encodeString (bytes "level") ++ [Json.colon]) := rfl
  have hendpoint : bytes ",\"endpoint\":" =
      Json.comma :: (Json.encodeString (bytes "endpoint") ++ [Json.colon]) := rfl
  have hmessage : bytes ",\"message\":" =
      Json.comma :: (Json.encodeString (bytes "message") ++ [Json.colon]) := rfl
  have htid : bytes ",\"tid\":" =
      Json.comma :: (Json.encodeString (bytes "tid") ++ [Json.colon]) := rfl
  have hsource : bytes ",\"source\":\x7b\"file\":" =
      Json.comma :: (Json.encodeString (bytes "source") ++ Json.colon :: Json.openBrace ::
        (Json.encodeString (bytes "file") ++ [Json.colon])) := rfl
  have hlineno : bytes ",\"line\":" =
      Json.comma :: (Json.encodeString (bytes "line") ++ [Json.colon]) := rfl
  have hfunc : bytes ",\"func\":" =
      Json.comma :: (Json.encodeString (bytes "func") ++ [Json.colon]) := rfl
  have hfields : bytes ",\"fields\":\x7b" =
      Json.comma :: (Json.encodeString (bytes "fields") ++ [Json.colon, Json.openBrace]) := rfl
  rw [JsonRenderer.render, JsonRenderer.record, JsonRenderer.members]
  simp only [jsonEscapeAppend_eq, jsonFieldsAppend_eq, hopen, hclose, hline, htime, hlevel,
    hendpoint, hmessage, htid, hsource, hlineno, hfunc, hfields]
  cases r.includeThread <;> cases r.includeSource <;>
    cases (r.includeFields && !e.fields.isEmpty) <;>
    simp [Json.encode, Json.encodeMembers, Json.encodeMoreMembers]

/-! ## Numbers of the record -/

/-- A `double` that is neither infinite nor not a number: its exponent bits are not all set. -/
def isFinite (bits : UInt64) : Bool := decide ((bits >>> 52) &&& 0x7FF ≠ 0x7FF)

theorem isUnsigned_formatNat (n : Nat) : Json.isUnsigned (formatNat n) = true := by
  have hdigits : ∀ b ∈ formatNat n, Decimal.isDigit b = true :=
    fun b hb => isDigit_of_mem_formatNat hb
  have htake : (formatNat n).takeWhile Decimal.isDigit = formatNat n :=
    List.takeWhile_eq_self_iff.2 hdigits
  have hdrop : (formatNat n).dropWhile Decimal.isDigit = [] := List.dropWhile_eq_nil_iff.2 hdigits
  rw [Json.isUnsigned, htake, hdrop]
  rcases formatNat_leading n with hz | ⟨d, ds, hds, hpos, hlt⟩
  · rw [hz]
    decide
  · have hne : Decimal.digitByte d ≠ 48 := by
      intro heq
      have hd := Decimal.digitByte_toNat d hlt
      rw [heq, show (48 : UInt8).toNat = 48 from rfl] at hd
      omega
    rw [hds]
    simp [Json.isInteger, Json.isFraction, hne]

theorem isNumber_formatNat (n : Nat) : Json.isNumber (formatNat n) = true := by
  have h := isUnsigned_formatNat n
  have hdigit : ∀ b ∈ formatNat n, Decimal.isDigit b = true :=
    fun b hb => isDigit_of_mem_formatNat hb
  cases hn : formatNat n with
  | nil => rw [hn] at h; exact h
  | cons b bs =>
      have hne : b ≠ 45 := Json.ne_of_isDigit (hdigit b (by simp [hn])) (by decide)
      rw [hn] at h
      rw [Json.isNumber, if_neg hne, h]

theorem isNumber_formatInt (n : Int) : Json.isNumber (formatInt n) = true := by
  rw [formatInt]
  split
  · rw [Json.isNumber, if_pos rfl, isUnsigned_formatNat]
  · exact isNumber_formatNat _

theorem wellFormed_fieldMembers {fields : List Field}
    (h : ∀ f ∈ fields, ∀ bits, f.value = .double bits → Json.isNumber (formatDouble bits) = true) :
    Json.WellFormedMembers (fieldMembers formatDouble fields) := by
  induction fields with
  | nil => trivial
  | cons field fields ih =>
      refine ⟨?_, ih (fun f hf => h f (List.mem_cons_of_mem _ hf))⟩
      have hfield := h field List.mem_cons_self
      cases hvalue : field.value with
      | monostate => trivial
      | bool value => trivial
      | int64 value => exact isNumber_formatInt _
      | double bits => exact hfield bits hvalue
      | string value => trivial

theorem wellFormed_record (r : JsonRenderer) (platform : Platform) (threadHash : Nat → UInt64)
    {e : Event}
    (h : r.includeFields = true → ∀ f ∈ e.fields, ∀ bits, f.value = .double bits →
      Json.isNumber (formatDouble bits) = true) :
    (r.record formatDouble platform threadHash e).WellFormed := by
  refine Json.wellFormedMembers_append (Json.wellFormedMembers_append
    (Json.wellFormedMembers_append ⟨trivial, trivial, trivial, trivial, trivial⟩ ?_) ?_) ?_
  · split
    · exact ⟨isNumber_formatNat _, trivial⟩
    · trivial
  · split
    · exact ⟨⟨trivial, isNumber_formatNat _, trivial, trivial⟩, trivial⟩
    · trivial
  · split
    · next hincludes =>
        have hfields : r.includeFields = true := (Bool.and_eq_true _ _ ▸ hincludes).1
        exact ⟨wellFormed_fieldMembers formatDouble (h hfields), trivial⟩
    · trivial

/-- **The output decodes to the event.** A reader of JSON gets back the record: the texts as they
    are, the members in their order, those of the flags exactly when the flags ask for them. The
    integers in it read as the numbers of the event. Nothing in the output but its last byte is a
    control character. -/
theorem JsonRenderer.render_decodes (r : JsonRenderer) (platform : Platform)
    (threadHash : Nat → UInt64) (e : Event)
    (hdouble : ∀ bits, isFinite bits = true → Json.isNumber (formatDouble bits) = true)
    (hfinite : ∀ f ∈ e.fields, ∀ bits, f.value = .double bits → isFinite bits = true) :
    Json.parse (r.render formatDouble platform threadHash e) =
      some (.obj (r.members formatDouble platform threadHash e)) ∧
    (∀ n : Nat, Decimal.decodeInt (formatNat n) = n) ∧
    (∀ n : Int, Decimal.decodeInt (formatInt n) = n) ∧
    ∃ line, r.render formatDouble platform threadHash e = line ++ [newline] ∧
      Json.Printable line := by
  have hrecord := wellFormed_record formatDouble r platform threadHash
    (fun _ f hf bits hbits => hdouble bits (hfinite f hf bits hbits))
  refine ⟨?_, decodeInt_formatNat, decodeInt_formatInt, _, render_eq _ _ _ _ _,
    Json.printable_encode _ hrecord⟩
  rw [render_eq]
  exact Json.parse_encode hrecord (List.forall_mem_singleton.2 rfl)

/-- A record with a number, a text that needs escapes, and 1.5. -/
theorem JsonRenderer.render_decodes_fields :
    Json.parse (({ includeSource := false, includeThread := false } : JsonRenderer).render
      (fun bits => if bits = 0x3FF8000000000000 then bytes "1.5" else bytes "0")
      ⟨fun _ => ⟨70, 0, 1, 0, 0, 0⟩⟩ (fun _ => 0)
      { message := bytes "a\"b\n", fields := [⟨bytes "n", .int64 (-7)⟩,
        ⟨bytes "x", .double 0x3FF8000000000000⟩, ⟨bytes "n", .monostate⟩] }) =
    some (.obj [(bytes "time", .str (formatTime ⟨fun _ => ⟨70, 0, 1, 0, 0, 0⟩⟩ 0)),
      (bytes "level", .str (bytes "INFO")), (bytes "endpoint", .str []),
      (bytes "message", .str (bytes "a\"b\n")),
      (bytes "fields", .obj [(bytes "n", .num (formatInt (-7))), (bytes "x", .num (bytes "1.5")),
        (bytes "n", .null)])]) := by
  refine (render_decodes _ _ _ _ _ ?_ ?_).1
  · intro bits _
    split <;> decide
  · intro f hf bits hbits
    simp only [List.mem_cons, List.not_mem_nil, or_false] at hf
    rcases hf with rfl | rfl | rfl
    · exact absurd hbits (by simp)
    · obtain rfl := FieldValue.double.inj hbits
      decide
    · exact absurd hbits (by simp)

end SyLog
