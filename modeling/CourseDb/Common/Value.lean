import CourseDb.Lib.Codec
import Mathlib.Data.Prod.Lex
import Mathlib.Data.List.Lex
import Mathlib.Order.Lattice

/-! # Statuses and column values

The status codes of the program and its dynamically typed values. A value is
NULL, a 64-bit integer, a byte string or a Boolean; values of different types
are ordered by their type, and the comparison operators of the source form a
linear order.
-/

namespace CourseDb

export Codec (Byte)

/-- A `std::string` or a byte buffer. -/
abbrev ByteString := List Byte

instance : LawfulBEq ByteString := inferInstance

inductive StatusCode where
  | kInvalidArgument
  | kNotFound
  | kAlreadyExists
  | kConstraintViolation
  | kIoError
  | kParseError
  | kBindError
  | kPlanError
  | kExecutionError
  | kTransactionError
  | kNetworkError
  | kUnauthorized
  | kInternalError
deriving DecidableEq, Repr

/-- A status that is not Ok; success is `Except.ok`. -/
structure Status where
  code : StatusCode
  message : String
deriving DecidableEq, Repr

inductive ValueType where
  | kNull
  | kInt
  | kString
  | kBool
deriving DecidableEq, Repr

/-- The enumeration's underlying integer. -/
def ValueType.code : ValueType → ℕ
  | kNull => 0
  | kInt => 1
  | kString => 2
  | kBool => 3

inductive Value where
  | null
  | int (v : Int64)
  | string (v : ByteString)
  | bool (v : Bool)
deriving DecidableEq

namespace Value

def type : Value → ValueType
  | null => .kNull
  | int _ => .kInt
  | string _ => .kString
  | bool _ => .kBool

def isNull (v : Value) : Bool := v.type = .kNull

@[simp] theorem isNull_iff (v : Value) : v.isNull = true ↔ v = null := by
  cases v <;> simp [isNull, type]

/-- The source's `operator<`. -/
def less (a b : Value) : Bool :=
  match a, b with
  | null, null => false
  | int x, int y => x < y
  | string x, string y => x < y
  | bool x, bool y => !x && y
  | a, b => a.type.code < b.type.code

/-- The place of a value in the order: its type first, then its content. -/
def sortKey : Value → ℕ ×ₗ ℤ ×ₗ ByteString
  | null => toLex (0, toLex (0, []))
  | int v => toLex (1, toLex (v.toInt, []))
  | string v => toLex (2, toLex (0, v))
  | bool v => toLex (3, toLex (v.toNat, []))

theorem sortKey_injective : Function.Injective sortKey := by
  intro a b h
  cases a <;> cases b <;> simp_all [sortKey, Int64.toInt_inj]
  case bool.bool x y => cases x <;> cases y <;> simp_all

instance : LinearOrder Value :=
  let order := LinearOrder.lift' sortKey sortKey_injective
  { order with
    toDecidableEq := inferInstance
    compare_eq_compareOfLessAndEq := by
      intro a b
      rw [order.compare_eq_compareOfLessAndEq]
      congr }

theorem lt_iff_sortKey (a b : Value) : a < b ↔ a.sortKey < b.sortKey := Iff.rfl

/-- The comparison operator of the source is the strict part of the order. -/
theorem less_iff (a b : Value) : a.less b = true ↔ a < b := by
  rw [lt_iff_sortKey]
  cases a <;> cases b <;>
    simp [less, sortKey, type, ValueType.code, Prod.Lex.toLex_lt_toLex, Int64.lt_iff_toInt_lt]
  case bool.bool x y => cases x <;> cases y <;> simp

theorem less_eq_decide (a b : Value) : a.less b = decide (a < b) := by
  rw [Bool.eq_iff_iff, less_iff, decide_eq_true_iff]

end Value

/-- The values of one row, in schema order. -/
abbrev Tuple := List Value

/-- A row; its identifier is a `std::uint64_t`. -/
structure Row where
  rid : ℕ
  tuple : Tuple
  deleted : Bool
deriving DecidableEq

abbrev findRow (rid : ℕ) (rows : List Row) : Option Row := rows.find? fun row => row.rid = rid

end CourseDb
