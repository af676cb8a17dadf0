import CourseDb.Common.Text

/-! # The lexer

SQL text is cut into tokens from left to right. Characters are classified as in
the C locale.
-/

namespace CourseDb

inductive TokenType where
  | kEof
  | kIdentifier
  | kNumber
  | kString
  | kComma
  | kSemicolon
  | kLParen
  | kRParen
  | kDot
  | kStar
  | kEq
  | kNe
  | kLt
  | kGt
  | kLe
  | kGe
  | kKeyword
deriving DecidableEq, Repr

structure Token where
  type : TokenType := .kEof
  lexeme : ByteString := []
deriving DecidableEq

/-- How lexing or parsing ends without a result. The source throws a
`ParseError`; the other two say that the model would read past the last token,
or that the bound on its recursion was too small. -/
inductive ParseFailure where
  | parseError (message : String)
  | outOfBounds
  | outOfFuel
deriving DecidableEq

namespace Lexer

def isLower (b : Byte) : Bool := 97 ≤ b.val && b.val ≤ 122

def isUpper (b : Byte) : Bool := 65 ≤ b.val && b.val ≤ 90

def isAlpha (b : Byte) : Bool := isLower b || isUpper b

def isDigit (b : Byte) : Bool := 48 ≤ b.val && b.val ≤ 57

def isAlnum (b : Byte) : Bool := isAlpha b || isDigit b

/-- Tab, line feed, vertical tab, form feed, carriage return and blank. -/
def isSpace (b : Byte) : Bool := (9 ≤ b.val && b.val ≤ 13) || b.val = 32

def underscore : Byte := 95

def minus : Byte := 45

def dot : Byte := 46

def colon : Byte := 58

def backslash : Byte := 92

def doubleQuote : Byte := 34

def singleQuote : Byte := 39

def isIdentifierStart (b : Byte) : Bool := isAlpha b || b = underscore

def isIdentifierPart (b : Byte) : Bool := isAlnum b || b = underscore

/-- The rest of an identifier. A minus sign belongs to it if a letter or a digit
follows. -/
def spanWord : ByteString → ByteString × ByteString
  | [] => ([], [])
  | c :: rest =>
    if isIdentifierPart c || (c = minus && rest.head?.any isAlnum) then
      let (word, rest) := spanWord rest
      (c :: word, rest)
    else ([], c :: rest)

/-- What may follow a digit in a number, or in an identifier that starts with one. -/
def isNumberPart (b : Byte) : Bool := isAlnum b || b = dot || b = minus || b = colon

/-- The rest of a quoted literal, or nothing if the quote is missing. -/
def spanLiteral (quote : Byte) : ByteString → Option (ByteString × ByteString)
  | [] => none
  | [c] => if c = quote then some ([], []) else none
  | c :: d :: rest =>
    if c = quote then some ([], d :: rest)
    else if c = backslash then (spanLiteral quote rest).map fun r => (d :: r.1, r.2)
    else (spanLiteral quote (d :: rest)).map fun r => (c :: r.1, r.2)

def symbol (b : Byte) : Option TokenType :=
  if [b] = ascii "," then some .kComma
  else if [b] = ascii ";" then some .kSemicolon
  else if [b] = ascii "(" then some .kLParen
  else if [b] = ascii ")" then some .kRParen
  else if [b] = ascii "." then some .kDot
  else if [b] = ascii "*" then some .kStar
  else if [b] = ascii "=" then some .kEq
  else if [b] = ascii "<" then some .kLt
  else if [b] = ascii ">" then some .kGt
  else none

/-- The tokens of two characters. -/
def doubleSymbol (a b : Byte) : Option TokenType :=
  if [a, b] = ascii "==" then some .kEq
  else if [a, b] = ascii "!=" then some .kNe
  else if [a, b] = ascii "<=" then some .kLe
  else if [a, b] = ascii ">=" then some .kGe
  else none

def lexSymbol (ch : Byte) (rest : ByteString) : Except ParseFailure (Option Token × ByteString) :=
  match symbol ch with
  | some type => .ok (some ⟨type, [ch]⟩, rest)
  | none => .error (.parseError ("unexpected character: " ++ quoted [ch]))

/-- One round of the loop of `Tokenize`: blanks give no token. -/
def nextToken (ch : Byte) (rest : ByteString) : Except ParseFailure (Option Token × ByteString) :=
  if isSpace ch then .ok (none, rest)
  else if isIdentifierStart ch then
    let (word, rest) := spanWord rest
    .ok (some ⟨.kIdentifier, ch :: word⟩, rest)
  else if isDigit ch then
    let tail := rest.takeWhile isNumberPart
    let type := if tail.all isDigit then .kNumber else .kIdentifier
    .ok (some ⟨type, ch :: tail⟩, rest.dropWhile isNumberPart)
  else if ch = doubleQuote ∨ ch = singleQuote then
    match spanLiteral ch rest with
    | none => .error (.parseError "unterminated string literal")
    | some (literal, rest) => .ok (some ⟨.kString, literal⟩, rest)
  else
    match rest with
    | [] => lexSymbol ch []
    | next :: tail =>
      match doubleSymbol ch next with
      | some type => .ok (some ⟨type, [ch, next]⟩, tail)
      | none => lexSymbol ch rest

def tokenizeFrom : ℕ → ByteString → Except ParseFailure (List Token)
  | _, [] => .ok [{ type := .kEof }]
  | 0, _ :: _ => .error .outOfFuel
  | fuel + 1, ch :: rest => do
    let (token, rest) ← nextToken ch rest
    let tokens ← tokenizeFrom fuel rest
    return token.toList ++ tokens

/-- Every round consumes a character, so the length of the input bounds them. -/
def tokenize (input : ByteString) : Except ParseFailure (List Token) :=
  tokenizeFrom input.length input

end Lexer

end CourseDb
