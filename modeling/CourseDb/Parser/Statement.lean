import CourseDb.Catalog.Schema

/-! # Expressions and statements -/

namespace CourseDb

inductive BinaryOp where
  | kEq
  | kNe
  | kLt
  | kGt
  | kLe
  | kGe
deriving DecidableEq, Repr

inductive LogicalOp where
  | kAnd
  | kOr
deriving DecidableEq, Repr

inductive Expr where
  | columnRef (columnName : ByteString)
  | literal (value : Value)
  | binary (op : BinaryOp) (left right : Expr)
  | logical (op : LogicalOp) (left right : Expr)
  | between (value low high : Expr)
  | like (value pattern : Expr)
deriving DecidableEq

inductive StatementKind where
  | kCreateDatabase
  | kDropDatabase
  | kUseDatabase
  | kCreateTable
  | kDropTable
  | kInsert
  | kSelect
  | kUpdate
  | kDelete
  | kRevert
  | kCreateUser
  | kDropUser
  | kLogin
  | kCreateGroup
  | kDropGroup
  | kAddUserToGroup
  | kGrant
  | kRevoke
  | kSubmitQuery
  | kGetTask
  | kCancelTask
  | kShowMetrics
deriving DecidableEq, Repr

structure SelectItem where
  column : ByteString
  aliasName : ByteString := []
deriving DecidableEq

/-- The target type of a GRANT or a REVOKE. -/
inductive TargetType where
  | user
  | group
deriving DecidableEq, Repr

inductive SqlStatement where
  | createDatabase (dbName : ByteString)
  | dropDatabase (dbName : ByteString)
  | useDatabase (dbName : ByteString)
  | createTable (databaseName tableName : ByteString) (schema : TableSchema)
  | dropTable (databaseName tableName : ByteString)
  | insert (databaseName tableName : ByteString) (columns : List ByteString)
      (rows : List (List Value))
  | select (databaseName tableName : ByteString) (selectAll : Bool) (columns : List SelectItem)
      (condition : Option Expr)
  | update (databaseName tableName : ByteString) (assignments : List (ByteString × Value))
      (condition : Expr)
  | delete (databaseName tableName : ByteString) (condition : Expr)
  | revert (databaseName tableName : ByteString) (timestampMs : ℤ)
  | createUser (userId password : ByteString)
  | dropUser (userId : ByteString)
  | login (userId password : ByteString)
  | createGroup (groupName : ByteString)
  | dropGroup (groupName : ByteString)
  | addUserToGroup (userId groupName : ByteString)
  | grant (permission : ByteString) (targetType : TargetType) (targetName : ByteString)
  | revoke (permission : ByteString) (targetType : TargetType) (targetName : ByteString)
  | submitQuery (innerSql : ByteString)
  | getTask (requestId : ByteString)
  | cancelTask (requestId : ByteString)
  | showMetrics
deriving DecidableEq

def SqlStatement.kind : SqlStatement → StatementKind
  | createDatabase _ => .kCreateDatabase
  | dropDatabase _ => .kDropDatabase
  | useDatabase _ => .kUseDatabase
  | createTable _ _ _ => .kCreateTable
  | dropTable _ _ => .kDropTable
  | insert _ _ _ _ => .kInsert
  | select _ _ _ _ _ => .kSelect
  | update _ _ _ _ => .kUpdate
  | delete _ _ _ => .kDelete
  | revert _ _ _ => .kRevert
  | createUser _ _ => .kCreateUser
  | dropUser _ => .kDropUser
  | login _ _ => .kLogin
  | createGroup _ => .kCreateGroup
  | dropGroup _ => .kDropGroup
  | addUserToGroup _ _ => .kAddUserToGroup
  | grant _ _ _ => .kGrant
  | revoke _ _ _ => .kRevoke
  | submitQuery _ => .kSubmitQuery
  | getTask _ => .kGetTask
  | cancelTask _ => .kCancelTask
  | showMetrics => .kShowMetrics

end CourseDb
