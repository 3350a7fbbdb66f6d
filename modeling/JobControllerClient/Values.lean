import Mathlib.Tactic

/-! Values that several parts of the client read: JSON as `serde_json` holds it, and text as
`str::trim` leaves it. -/
namespace JobControllerClient

/-- `serde_json::Value`; nothing looks at the value of a float. -/
inductive Json
  | null
  | bool (b : Bool)
  | posInt (n : UInt64)
  | negInt (n : ℤ)
  | float
  | string (s : String)
  | array (values : List Json)
  | object (fields : List (String × Json))

namespace Json

/-- `value[key]`, which is null where there is no such field. -/
def index : Json → String → Json
  | .object fields, key => (fields.lookup key).getD .null
  | _, _ => .null

/-- `value[i]` for a position in an array. -/
def item (value : Json) (i : ℕ) : Json :=
  match value with
  | .array values => values[i]?.getD .null
  | _ => .null

def isNull : Json → Bool
  | .null => true
  | _ => false

def asBool : Json → Option Bool
  | .bool b => some b
  | _ => none

def asU64 : Json → Option UInt64
  | .posInt n => some n
  | _ => none

def asStr : Json → Option String
  | .string s => some s
  | _ => none

def asArray : Json → Option (List Json)
  | .array values => some values
  | _ => none

end Json

/-- The characters that `str::trim` removes. -/
def isWhiteSpace (c : Char) : Bool :=
  let n := c.toNat
  (0x9 ≤ n && n ≤ 0xD) || (0x2000 ≤ n && n ≤ 0x200A) ||
    [0x20,0x85,0xA0,0x1680,0x2028,0x2029,0x202F,0x205F,0x3000].contains n

def trim (text : List Char) : List Char :=
  ((text.dropWhile isWhiteSpace).reverse.dropWhile isWhiteSpace).reverse

end JobControllerClient
