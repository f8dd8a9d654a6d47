import Mathlib.Data.Nat.Digits.Defs

set_option autoImplicit false

/-! # Events

The value that travels through the whole logger. A `std::string` is its list of bytes, a fixed-width
integer is the Lean type of that width, and a `double` is its bit pattern. `Event` has the fields
and the defaults of `sylog::Event`; the built-in severities are `Severity` values, since a severity
class is nothing but its four static members. -/

namespace SyLog

/-- The bytes of a `std::string`. -/
abbrev Bytes := List UInt8

/-- The bytes of a string literal. -/
def bytes (s : String) : Bytes := s.toUTF8.data.toList

/-- The byte of `'\n'`. -/
def newline : UInt8 := 10

/-! ## Numbers and times as text -/

/-- `std::format("{}", n)` for an unsigned integer. -/
def formatNat (n : Nat) : Bytes :=
  if n = 0 then [48] else (Nat.digits 10 n).reverse.map (fun d => 48 + d.toUInt8)

/-- `%0wd` of `std::snprintf`: the sign counts as one of the `w` characters. -/
def formatPadded (w : Nat) (n : Int) : Bytes :=
  let sign : Bytes := if n < 0 then [45] else []
  let digits := formatNat n.natAbs
  sign ++ List.replicate (w - sign.length - digits.length) 48 ++ digits

/-- The members of `std::tm` that `format_time` prints. -/
structure Tm where
  tmYear : Int
  tmMon : Int
  tmMday : Int
  tmHour : Int
  tmMin : Int
  tmSec : Int
  deriving DecidableEq, Repr

/-- The local calendar of the process, `localtime_r`. -/
structure Platform where
  localtime : Int → Tm

/-- `std::chrono::system_clock::to_time_t`: ticks are nanoseconds, and the cast truncates. -/
def toTimeT (ticks : Int) : Int := ticks.tdiv 1000000000

/-- `PatternRenderer::format_time`. `snprintf` writes at most 31 characters into its buffer. -/
def formatTime (platform : Platform) (tp : Int) : Bytes :=
  let tm := platform.localtime (toTimeT tp)
  (formatPadded 4 (tm.tmYear + 1900) ++ bytes "-" ++ formatPadded 2 (tm.tmMon + 1) ++ bytes "-" ++
    formatPadded 2 tm.tmMday ++ bytes " " ++ formatPadded 2 tm.tmHour ++ bytes ":" ++
    formatPadded 2 tm.tmMin ++ bytes ":" ++ formatPadded 2 tm.tmSec).take 31

/-! ## Events -/

/-- `FieldValue`, a `std::variant`. -/
inductive FieldValue where
  | monostate
  | bool (value : Bool)
  | int64 (value : Int64)
  | double (bits : UInt64)
  | string (value : Bytes)
  deriving DecidableEq, Repr

structure Field where
  key : Bytes := []
  value : FieldValue := .monostate
  deriving DecidableEq, Repr

/-- `std::source_location`. -/
structure SourceLocation where
  fileName : Bytes := []
  line : UInt32 := 0
  functionName : Bytes := []
  deriving DecidableEq, Repr

structure Event where
  timestamp : Int := 0
  severityName : Bytes := bytes "INFO"
  severityPriority : UInt16 := 300
  endpoint : Bytes := []
  message : Bytes := []
  source : SourceLocation := {}
  threadId : Nat := 0
  fields : List Field := []
  deriving DecidableEq, Repr

/-- `Event::set_endpoint`. -/
def Event.setEndpoint (e : Event) (endpoint : Bytes) : Event := { e with endpoint }

@[simp] theorem Event.setEndpoint_endpoint (e : Event) (ep : Bytes) :
    (e.setEndpoint ep).endpoint = ep := rfl

/-! ## Severities -/

/-- The static members of a class derived from `severity_base`, with the base's defaults. -/
structure Severity where
  name : Bytes := bytes "CUSTOM"
  priority : UInt16 := 0
  forceSync : Bool := false
  flushAfter : Bool := false
  deriving DecidableEq, Repr

namespace Severity

def trace : Severity := { name := bytes "TRACE", priority := 100 }
def debug : Severity := { name := bytes "DEBUG", priority := 200 }
def info : Severity := { name := bytes "INFO", priority := 300 }
def warn : Severity := { name := bytes "WARN", priority := 400 }
def error : Severity := { name := bytes "ERROR", priority := 500 }
def fatal : Severity :=
  { name := bytes "FATAL", priority := 600, forceSync := true, flushAfter := true }

end Severity

end SyLog
