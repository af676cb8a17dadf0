import CourseDb.Parser.Lexer
import CourseDb.Parser.Statement

/-! # The parser

A recursive-descent parser over the tokens that are left. The loops and the
nesting of expressions are bounded by a number that grows with the tokens.
-/

namespace CourseDb

/-- A computation on the tokens that are left. -/
abbrev ParserM := StateT (List Token) (Except ParseFailure)

namespace Parser

def upperByte (b : Byte) : Byte := if Lexer.isLower b then b - 32 else b

def upper (s : ByteString) : ByteString := s.map upperByte

def isSingleCaseWord (word : ByteString) : Bool :=
  !(word.any Lexer.isLower && word.any Lexer.isUpper)

def parseError {α : Type} (message : String) : ParserM α := throw (.parseError message)

def peek : ParserM Token := do
  match ← get with
  | [] => throw .outOfBounds
  | token :: _ => return token

def consume : ParserM Token := do
  match ← get with
  | [] => throw .outOfBounds
  | token :: rest =>
    set rest
    return token

def atType (type : TokenType) : ParserM Bool := do
  return (← peek).type = type

def matchType (type : TokenType) : ParserM Bool := do
  if ← atType type then
    let _ ← consume
    return true
  else return false

section

variable {α β : Type} {x : ParserM α} {f : α → ParserM β} {tokens rest : List Token} {a : α}
  {token : Token} {type : TokenType}

theorem bind_ok (h : x tokens = .ok (a, rest)) : (x >>= f) tokens = f a rest := by
  change (x tokens >>= fun p => f p.1 p.2) = f a rest
  rw [h]
  rfl

theorem peek_cons (token : Token) (rest : List Token) :
    peek (token :: rest) = .ok (token, token :: rest) := rfl

theorem consume_cons (token : Token) (rest : List Token) :
    consume (token :: rest) = .ok (token, rest) := rfl

theorem atType_cons (type : TokenType) :
    atType type (token :: rest) = .ok (decide (token.type = type), token :: rest) := rfl

theorem matchType_of_eq (h : token.type = type) :
    matchType type (token :: rest) = .ok (true, rest) := by
  change (if decide (token.type = type) then _ else _ : ParserM Bool) (token :: rest) = _
  rw [decide_eq_true h]
  rfl

theorem matchType_of_ne (h : token.type ≠ type) :
    matchType type (token :: rest) = .ok (false, token :: rest) := by
  change (if decide (token.type = type) then _ else _ : ParserM Bool) (token :: rest) = _
  rw [decide_eq_false h]
  rfl

end

def matchKeyword (keyword : String) : ParserM Bool := do
  let token ← peek
  if token.type ≠ .kIdentifier then return false
  else if upper token.lexeme ≠ ascii keyword then return false
  else if !isSingleCaseWord token.lexeme then
    parseError ("mixed-case keyword is not allowed: " ++ quoted token.lexeme)
  else
    let _ ← consume
    return true

def expect (type : TokenType) (what : String) : ParserM Unit := do
  if ← matchType type then return ()
  else parseError ("expected " ++ what)

def expectKeyword (keyword : String) : ParserM Unit := do
  if ← matchKeyword keyword then return ()
  else parseError ("expected " ++ keyword)

def parseIdentifier : ParserM ByteString := do
  if ← atType .kIdentifier then return (← consume).lexeme
  else parseError "expected identifier"

/-- A table name, after the name of its database where one is given. -/
def parseQualifiedName : ParserM (ByteString × ByteString) := do
  let first ← parseIdentifier
  if ← matchType .kDot then
    let second ← parseIdentifier
    return (first, second)
  else return ([], first)

/-- `std::strtoll` on a string of digits: the largest value stands for all
numbers that are too large. -/
def strtoll (digits : ByteString) : Int64 :=
  Int64.ofNat (min (digits.foldl (fun n b => 10 * n + (b.val - 48)) 0) (2 ^ 63 - 1))

def parseLiteralValue : ParserM Value := do
  if ← atType .kNumber then return .int (strtoll (← consume).lexeme)
  else if ← atType .kString then return .string (← consume).lexeme
  else if ← matchKeyword "NULL" then return .null
  else parseError "expected literal value"

def parseOperand : ParserM Expr := do
  if (← atType .kNumber) || (← atType .kString) then return .literal (← parseLiteralValue)
  else if ← matchKeyword "NULL" then return .literal .null
  else if ← atType .kIdentifier then return .columnRef (← parseIdentifier)
  else parseError "expected expression operand"

def parseBinaryOp : ParserM BinaryOp := do
  if ← matchType .kEq then return .kEq
  else if ← matchType .kNe then return .kNe
  else if ← matchType .kLt then return .kLt
  else if ← matchType .kGt then return .kGt
  else if ← matchType .kLe then return .kLe
  else if ← matchType .kGe then return .kGe
  else parseError "expected comparison operator"

/-- A predicate that does not start with a parenthesis. -/
def parseComparison : ParserM Expr := do
  let left ← parseOperand
  if ← matchKeyword "BETWEEN" then
    let low ← parseOperand
    expectKeyword "AND"
    let high ← parseOperand
    return .between left low high
  else if ← matchKeyword "LIKE" then
    let pattern ← parseOperand
    return .like left pattern
  else
    let op ← parseBinaryOp
    let right ← parseOperand
    return .binary op left right

mutual

def parsePredicate : ℕ → ParserM Expr
  | 0 => throw .outOfFuel
  | fuel + 1 => do
    if ← matchType .kLParen then
      let expr ← parseOr fuel
      expect .kRParen ")"
      return expr
    else parseComparison

/-- The rest of a conjunction whose first part has been read. -/
def parseAndRest : ℕ → Expr → ParserM Expr
  | 0, _ => throw .outOfFuel
  | fuel + 1, expr => do
    if ← matchKeyword "AND" then
      let right ← parsePredicate fuel
      parseAndRest fuel (.logical .kAnd expr right)
    else return expr

def parseAnd : ℕ → ParserM Expr
  | 0 => throw .outOfFuel
  | fuel + 1 => do
    let expr ← parsePredicate fuel
    parseAndRest fuel expr

/-- The rest of a disjunction whose first part has been read. -/
def parseOrRest : ℕ → Expr → ParserM Expr
  | 0, _ => throw .outOfFuel
  | fuel + 1, expr => do
    if ← matchKeyword "OR" then
      let right ← parseAnd fuel
      parseOrRest fuel (.logical .kOr expr right)
    else return expr

def parseOr : ℕ → ParserM Expr
  | 0 => throw .outOfFuel
  | fuel + 1 => do
    let expr ← parseAnd fuel
    parseOrRest fuel expr

end

/-- `do { item } while (Match(kComma))`. -/
def commaSeparated {α : Type} (item : ParserM α) : ℕ → ParserM (List α)
  | 0 => throw .outOfFuel
  | fuel + 1 => do
    let first ← item
    if ← matchType .kComma then
      let rest ← commaSeparated item fuel
      return first :: rest
    else return [first]

def parseWhereIfPresent (fuel : ℕ) : ParserM (Option Expr) := do
  if ← matchKeyword "WHERE" then return some (← parseOr fuel)
  else return none

def finish : ParserM Unit := do
  let _ ← matchType .kSemicolon
  if ← atType .kEof then return ()
  else parseError "unexpected tokens after statement"

/-- The attributes after the type of a column. -/
def parseColumnAttributes : ℕ → ColumnSchema → ParserM ColumnSchema
  | 0, _ => throw .outOfFuel
  | fuel + 1, column => do
    if ← atType .kIdentifier then
      if ← matchKeyword "NOT_NULL" then
        parseColumnAttributes fuel { column with notNull := true }
      else if ← matchKeyword "INDEXED" then
        parseColumnAttributes fuel { column with indexed := true, notNull := true }
      else return column
    else return column

def parseColumnType : ParserM ColumnType := do
  let type := upper (← parseIdentifier)
  if type = ascii "INT" then return .kInt
  else if type = ascii "STRING" then return .kString
  else parseError "expected INT or STRING column type"

def parseColumn (fuel : ℕ) : ParserM ColumnSchema := do
  let name ← parseIdentifier
  let type ← parseColumnType
  parseColumnAttributes fuel { name, type }

def parseCreateTable (fuel : ℕ) : ParserM SqlStatement := do
  let (databaseName, tableName) ← parseQualifiedName
  expect .kLParen "("
  let columns ← commaSeparated (parseColumn fuel) fuel
  expect .kRParen ")"
  finish
  return .createTable databaseName tableName columns

def parseValueRow (fuel : ℕ) : ParserM (List Value) := do
  expect .kLParen "("
  let row ← commaSeparated parseLiteralValue fuel
  expect .kRParen ")"
  return row

def parseInsert (fuel : ℕ) : ParserM SqlStatement := do
  expectKeyword "INTO"
  let (databaseName, tableName) ← parseQualifiedName
  expect .kLParen "("
  let columns ← commaSeparated parseIdentifier fuel
  expect .kRParen ")"
  expectKeyword "VALUE"
  let rows ← commaSeparated (parseValueRow fuel) fuel
  finish
  return .insert databaseName tableName columns rows

def parseSelectItem : ParserM SelectItem := do
  let column ← parseIdentifier
  if ← matchKeyword "AS" then return { column, aliasName := ← parseIdentifier }
  else return { column }

def parseSelect (fuel : ℕ) : ParserM SqlStatement := do
  let selectAll ← matchType .kStar
  let columns ←
    if selectAll then pure []
    else do
      expect .kLParen "("
      let items ← commaSeparated parseSelectItem fuel
      expect .kRParen ")"
      pure items
  expectKeyword "FROM"
  let (databaseName, tableName) ← parseQualifiedName
  let condition ← parseWhereIfPresent fuel
  finish
  return .select databaseName tableName selectAll columns condition

def parseAssignment : ParserM (ByteString × Value) := do
  let column ← parseIdentifier
  expect .kEq "="
  let value ← parseLiteralValue
  return (column, value)

def parseUpdate (fuel : ℕ) : ParserM SqlStatement := do
  let (databaseName, tableName) ← parseQualifiedName
  expectKeyword "SET"
  let assignments ← commaSeparated parseAssignment fuel
  expectKeyword "WHERE"
  let condition ← parseOr fuel
  finish
  return .update databaseName tableName assignments condition

def parseDelete (fuel : ℕ) : ParserM SqlStatement := do
  expectKeyword "FROM"
  let (databaseName, tableName) ← parseQualifiedName
  expectKeyword "WHERE"
  let condition ← parseOr fuel
  finish
  return .delete databaseName tableName condition

/-- The fields of a `std::tm` that the parser sets. -/
structure Tm where
  year : ℤ
  month : ℤ
  day : ℤ
  hour : ℤ
  minute : ℤ
  second : ℤ
deriving DecidableEq

/-- The C library's `mktime` in the server's time zone; nothing stands for -1. -/
abbrev Mktime := Tm → Option ℤ

/-- The number written with the digits from `pos` on. -/
def digitsAt (raw : ByteString) (pos count : ℕ) : Option ℕ :=
  let digits := (raw.drop pos).take count
  if digits.length = count ∧ digits.all Lexer.isDigit then
    some (digits.foldl (fun n b => 10 * n + (b.val - 48)) 0)
  else none

def parseRevertTimestampMs (mktime : Mktime) (raw : ByteString) : Option ℤ := do
  let require (pos : ℕ) (expected : Byte) : Bool := raw[pos]? = some expected
  guard (23 ≤ raw.length)
  guard (require 4 Lexer.dot && require 7 Lexer.dot && require 10 Lexer.minus &&
    require 13 Lexer.colon && require 16 Lexer.colon && require 19 Lexer.dot)
  let year ← digitsAt raw 0 4
  let month ← digitsAt raw 5 2
  let day ← digitsAt raw 8 2
  let hour ← digitsAt raw 11 2
  let minute ← digitsAt raw 14 2
  let second ← digitsAt raw 17 2
  let millis ← digitsAt raw 20 3
  guard (1 ≤ month ∧ month ≤ 12 ∧ 1 ≤ day ∧ day ≤ 31 ∧ hour ≤ 23 ∧ minute ≤ 59 ∧ second ≤ 59)
  guard ((raw.drop 23).all Lexer.isDigit)
  let seconds ← mktime { year := year - 1900, month := month - 1, day, hour, minute, second }
  return seconds * 1000 + millis

variable (mktime : Mktime)

def parseRevert : ParserM SqlStatement := do
  let (databaseName, tableName) ← parseQualifiedName
  if !(← atType .kIdentifier) && !(← atType .kNumber) then
    parseError "expected revert timestamp"
  else
    let raw := (← consume).lexeme
    match parseRevertTimestampMs mktime raw with
    | none => parseError "expected timestamp in yyyy.mm.dd-hh:mm:ss.mmm format"
    | some timestampMs =>
      finish
      return .revert databaseName tableName timestampMs

/-- A user id and a quoted password. -/
def parseCredentials : ParserM (ByteString × ByteString) := do
  let userId ← parseIdentifier
  expectKeyword "PASSWORD"
  if ← atType .kString then
    let password := (← consume).lexeme
    finish
    return (userId, password)
  else parseError "expected quoted password string"

def parseCreateUser : ParserM SqlStatement := do
  let (userId, password) ← parseCredentials
  return .createUser userId password

def parseCreateGroup : ParserM SqlStatement := do
  let groupName ← parseIdentifier
  finish
  return .createGroup groupName

def parseLogin : ParserM SqlStatement := do
  let (userId, password) ← parseCredentials
  return .login userId password

/-- The words of a permission up to the keyword that ends it, joined by underscores. -/
def parsePermissionRest (stop : String) : ℕ → ByteString → ParserM ByteString
  | 0, _ => throw .outOfFuel
  | fuel + 1, permission => do
    if (← atType .kIdentifier) && upper (← peek).lexeme ≠ ascii stop then
      let word := upper (← consume).lexeme
      parsePermissionRest stop fuel (permission ++ ascii "_" ++ word)
    else return permission

def parseTargetType (preposition statement : String) : ParserM TargetType := do
  if ← matchKeyword "USER" then return .user
  else if ← matchKeyword "GROUP" then return .group
  else parseError ("expected USER or GROUP after " ++ preposition ++ " in " ++ statement)

/-- The permission and the target of a GRANT (with `TO`) or a REVOKE (with `FROM`). -/
def parsePermissionTarget (fuel : ℕ) (preposition statement : String) :
    ParserM (ByteString × TargetType × ByteString) := do
  let first := upper (← parseIdentifier)
  let permission ← parsePermissionRest preposition fuel first
  expectKeyword preposition
  let targetType ← parseTargetType preposition statement
  let targetName ← parseIdentifier
  finish
  return (permission, targetType, targetName)

def parseGrant (fuel : ℕ) : ParserM SqlStatement := do
  let (permission, targetType, targetName) ← parsePermissionTarget fuel "TO" "GRANT"
  return .grant permission targetType targetName

def parseRevoke (fuel : ℕ) : ParserM SqlStatement := do
  let (permission, targetType, targetName) ← parsePermissionTarget fuel "FROM" "REVOKE"
  return .revoke permission targetType targetName

def parseAddUserToGroup : ParserM SqlStatement := do
  expectKeyword "USER"
  let userId ← parseIdentifier
  expectKeyword "TO"
  expectKeyword "GROUP"
  let groupName ← parseIdentifier
  finish
  return .addUserToGroup userId groupName

def parseSubmitQuery : ParserM SqlStatement := do
  expectKeyword "QUERY"
  if ← atType .kString then
    let innerSql := (← consume).lexeme
    finish
    return .submitQuery innerSql
  else parseError "expected quoted SQL string after SUBMIT QUERY"

/-- A statement that consists of one more name. -/
def parseNamed (statement : ByteString → SqlStatement) : ParserM SqlStatement := do
  let name ← parseIdentifier
  finish
  return statement name

def parseGetTask : ParserM SqlStatement := do
  expectKeyword "TASK"
  parseNamed .getTask

def parseCancelTask : ParserM SqlStatement := do
  expectKeyword "TASK"
  parseNamed .cancelTask

def parseDropTable : ParserM SqlStatement := do
  let (databaseName, tableName) ← parseQualifiedName
  finish
  return .dropTable databaseName tableName

def parseCreate (fuel : ℕ) : ParserM SqlStatement := do
  if ← matchKeyword "DATABASE" then parseNamed .createDatabase
  else if ← matchKeyword "TABLE" then parseCreateTable fuel
  else if ← matchKeyword "USER" then parseCreateUser
  else if ← matchKeyword "GROUP" then parseCreateGroup
  else parseError "expected DATABASE, TABLE, USER or GROUP after CREATE"

def parseDrop : ParserM SqlStatement := do
  if ← matchKeyword "DATABASE" then parseNamed .dropDatabase
  else if ← matchKeyword "TABLE" then parseDropTable
  else if ← matchKeyword "USER" then parseNamed .dropUser
  else if ← matchKeyword "GROUP" then parseNamed .dropGroup
  else parseError "expected DATABASE, TABLE, USER or GROUP after DROP"

def parseShow : ParserM SqlStatement := do
  if ← matchKeyword "METRICS" then
    finish
    return .showMetrics
  else parseError "expected METRICS after SHOW"

def parseStatement (fuel : ℕ) : ParserM SqlStatement := do
  if ← matchKeyword "CREATE" then parseCreate fuel
  else if ← matchKeyword "DROP" then parseDrop
  else if ← matchKeyword "USE" then parseNamed .useDatabase
  else if ← matchKeyword "INSERT" then parseInsert fuel
  else if ← matchKeyword "SELECT" then parseSelect fuel
  else if ← matchKeyword "UPDATE" then parseUpdate fuel
  else if ← matchKeyword "DELETE" then parseDelete fuel
  else if ← matchKeyword "REVERT" then parseRevert mktime
  else if ← matchKeyword "LOGIN" then parseLogin
  else if ← matchKeyword "GRANT" then parseGrant fuel
  else if ← matchKeyword "REVOKE" then parseRevoke fuel
  else if ← matchKeyword "ADD" then parseAddUserToGroup
  else if ← matchKeyword "SUBMIT" then parseSubmitQuery
  else if ← matchKeyword "GET" then parseGetTask
  else if ← matchKeyword "CANCEL" then parseCancelTask
  else if ← matchKeyword "SHOW" then parseShow
  else parseError "unknown SQL command"

/-- Every call of the parser either consumes a token or descends at most three
levels before one is consumed. -/
def fuelFor (tokens : List Token) : ℕ := 4 * tokens.length + 4

def parse (sql : ByteString) : Except ParseFailure SqlStatement := do
  let tokens ← Lexer.tokenize sql
  let (statement, _) ← parseStatement mktime (fuelFor tokens) tokens
  return statement

end Parser

end CourseDb
