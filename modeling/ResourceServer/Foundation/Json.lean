import ResourceServer.Foundation.CString

/-!
# JSON values

The ordered JSON values of the services, and the two library functions the code uses on
them. A string holds the bytes of its UTF-8 text.
-/

namespace ResourceServer

inductive Json where
  | null
  | bool (b : Bool)
  | int (n : ℤ)
  | float (bits : UInt64)
  | str (s : Bytes)
  | arr (items : List Json)
  | obj (fields : List (Bytes × Json))

namespace Json

/-- `j[key]` of an object that has it. -/
def get? : Json → Bytes → Option Json
  | .obj fields, key => (fields.find? (·.1 = key)).map Prod.snd
  | _, _ => none

def contains (j : Json) (key : Bytes) : Bool := (j.get? key).isSome

def asString? : Json → Option Bytes
  | .str s => some s
  | _ => none

def asBool? : Json → Option Bool
  | .bool b => some b
  | _ => none

def asInt? : Json → Option ℤ
  | .int n => some n
  | _ => none

/-- `res["error"] = text` on an empty value. -/
def error (text : Bytes) : Json := .obj [(ascii "error", .str text)]

def status (text : Bytes) : Json := .obj [(ascii "status", .str text)]

def error? (j : Json) : Option Json := j.get? (ascii "error")

@[simp] theorem error?_error (text : Bytes) : (error text).error? = some (.str text) := by
  simp [error, error?, get?]

theorem error?_error_ne_none (text : Bytes) : (error text).error? ≠ none := by
  simp

theorem ne_error {j : Json} (hok : j.error? = none) (text : Bytes) : j ≠ error text := by
  rintro rfl
  exact error?_error_ne_none text hok

end Json

/-- How `json::parse` throws: `parse_error`, or anything else. -/
inductive ParseFailure where
  | parseError
  | other
  deriving DecidableEq, Repr

/-- The JSON library. `dump` throws, here `none`, on strings that are not UTF-8. -/
structure JsonLib where
  dump : Json → Option Bytes
  parse : Bytes → Except ParseFailure Json

end ResourceServer
