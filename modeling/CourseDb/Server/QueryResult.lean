import CourseDb.Common.Text

/-! # Query results and sessions -/

namespace CourseDb

structure QueryResult where
  ok : Bool := true
  error : ByteString := []
  columns : List ByteString := []
  rows : List Tuple := []
  affectedRows : ℕ := 0
deriving DecidableEq

structure SessionContext where
  clientId : ByteString := []
  currentDb : ByteString := []
  userId : ByteString := []
  authenticated : Bool := false
deriving DecidableEq

end CourseDb
