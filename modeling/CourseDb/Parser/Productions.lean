import CourseDb.Lib.Fallible
import CourseDb.Parser.Lexing
import CourseDb.Parser.Timestamps

/-! # What the parser accepts

On tokens that end with their only end token, every production takes tokens
from the front and leaves the end token alone, or it fails with a parse error.
The integers in what it returns are those of the number tokens it has taken, in
their order. So a statement is returned only when all tokens before the end
token have been taken, and its integers are those of the text.
-/

namespace CourseDb

def Value.ints : Value → List Int64
  | .int n => [n]
  | _ => []

/-- The integers of an expression, from left to right. -/
def Expr.ints : Expr → List Int64
  | columnRef _ => []
  | literal value => value.ints
  | binary _ left right => left.ints ++ right.ints
  | logical _ left right => left.ints ++ right.ints
  | between value low high => value.ints ++ low.ints ++ high.ints
  | like value pattern => value.ints ++ pattern.ints

/-- The integer literals of a statement, from left to right. -/
def SqlStatement.ints : SqlStatement → List Int64
  | insert _ _ _ rows => rows.flatMap fun row => row.flatMap Value.ints
  | select _ _ _ _ condition => condition.elim [] Expr.ints
  | update _ _ assignments condition =>
    (assignments.flatMap fun assignment => assignment.2.ints) ++ condition.ints
  | delete _ _ condition => condition.ints
  | _ => []

namespace Parser

def IsParseError (failure : ParseFailure) : Prop := ∃ message, failure = .parseError message

/-- The last token, and no other, is an end token. -/
def Terminated (tokens : List Token) : Prop :=
  ∃ body eof, tokens = body ++ [eof] ∧ eof.type = .kEof ∧ ∀ token ∈ body, token.type ≠ .kEof

/-- The lexer makes number tokens of digits only. -/
def IsLexed (token : Token) : Prop := token.type = .kNumber → token.lexeme.all Lexer.isDigit

def numbers (tokens : List Token) : List Int64 :=
  (tokens.filter (·.type = .kNumber)).map fun token => strtoll token.lexeme

section Consumed

variable {ints more : List Int64} {token : Token} {tokens rest rest' : List Token}

/-- Tokens before the end token have been taken, and `ints` are the numbers among them. -/
def Consumed (ints : List Int64) (tokens rest : List Token) : Prop :=
  ∃ used, tokens = used ++ rest ∧ (∀ token ∈ used, token.type ≠ .kEof) ∧
    ((∀ token ∈ used, IsLexed token) → ints = numbers used)

theorem Consumed.refl (tokens : List Token) : Consumed [] tokens tokens :=
  ⟨[], rfl, by simp, fun _ => rfl⟩

theorem Consumed.trans (h : Consumed ints tokens rest) (h' : Consumed more rest rest') :
    Consumed (ints ++ more) tokens rest' := by
  obtain ⟨used, rfl, hend, hints⟩ := h
  obtain ⟨used', rfl, hend', hints'⟩ := h'
  refine ⟨used ++ used', (List.append_assoc _ _ _).symm, ?_, ?_⟩
  · intro token hmem
    rcases List.mem_append.mp hmem with hmem | hmem
    · exact hend token hmem
    · exact hend' token hmem
  · intro hlexed
    rw [hints fun token hmem => hlexed token (List.mem_append_left _ hmem),
      hints' fun token hmem => hlexed token (List.mem_append_right _ hmem)]
    simp [numbers]

theorem Consumed.single (hend : token.type ≠ .kEof)
    (hints : IsLexed token → ints = numbers [token]) : Consumed ints (token :: rest) rest :=
  ⟨[token], rfl, by simpa using hend, fun hlexed => hints (hlexed token (by simp))⟩

theorem numbers_of_ne (h : token.type ≠ .kNumber) : numbers [token] = [] := by
  simp [numbers, h]

theorem Terminated.exists_cons (h : Terminated tokens) : ∃ token rest, tokens = token :: rest := by
  obtain ⟨body, eof, rfl, -⟩ := h
  cases body with
  | nil => exact ⟨eof, [], rfl⟩
  | cons token body => exact ⟨token, body ++ [eof], rfl⟩

/-- An end token at the front is the only token. -/
theorem Terminated.eq_singleton (h : Terminated (token :: rest)) (hend : token.type = .kEof) :
    rest = [] := by
  obtain ⟨body, eof, heq, -, hbody⟩ := h
  cases body with
  | nil => exact (List.cons.inj heq).2
  | cons first body =>
    obtain ⟨rfl, -⟩ := List.cons.inj heq
    exact absurd hend (hbody token List.mem_cons_self)

theorem Terminated.of_consumed (h : Terminated tokens) (hused : Consumed ints tokens rest) :
    Terminated rest := by
  obtain ⟨used, rfl, hend, -⟩ := hused
  clear ints
  induction used with
  | nil => exact h
  | cons first used ih =>
    obtain ⟨hfirst, hused⟩ := List.forall_mem_cons.mp hend
    refine ih ?_ hused
    obtain ⟨body, eof, heq, heof, hbody⟩ := h
    cases body with
    | nil =>
      obtain ⟨rfl, -⟩ := List.cons.inj heq
      exact absurd heof hfirst
    | cons first' body =>
      obtain ⟨-, heq⟩ := List.cons.inj heq
      exact ⟨body, eof, heq, heof, (List.forall_mem_cons.mp hbody).2⟩

theorem Consumed.length_le (h : Consumed ints tokens rest) : rest.length ≤ tokens.length := by
  obtain ⟨used, rfl, -⟩ := h
  simp

end Consumed

/-! ## Rules for productions -/

section Rules

variable {α β : Type} {n m : ℕ} {got : List Int64} {x y : ParserM α} {f ints : α → List Int64}
  {k : α → ParserM β} {outs : β → List Int64} {type : TokenType} {keyword : String}
  {E : List Token → Prop}

/-- On at most `n` tokens, and after the numbers in `got`, the production ends with a parse
error or with a result that holds those numbers and the ones that it has taken. It leaves off
where `E` says. -/
def Parses (n : ℕ) (got : List Int64) (x : ParserM α) (ints : α → List Int64)
    (E : List Token → Prop) : Prop :=
  ∀ tokens, Terminated tokens → tokens.length ≤ n →
    Ends IsParseError x tokens fun a rest =>
      E rest ∧ ∃ more, Consumed more tokens rest ∧ ints a = got ++ more

/-- A part of a statement. -/
def Anywhere (_ : List Token) : Prop := True

def AtEnd (rest : List Token) : Prop := ∃ token ∈ rest.head?, token.type = .kEof

def noInts (_ : α) : List Int64 := []

/-- A part of a statement without numbers. -/
abbrev Skips (n : ℕ) (x : ParserM α) : Prop := Parses n [] x noInts Anywhere

abbrev ParsesStatement (n : ℕ) (x : ParserM SqlStatement) : Prop :=
  Parses n [] x SqlStatement.ints AtEnd

/-- A test of the next token, which is taken if the test succeeds; only tokens that are
neither numbers nor the end are taken. -/
def IsTest (test : ParserM Bool) : Prop :=
  ∀ token rest, Ends IsParseError test (token :: rest) fun b rest' =>
    b = false ∧ rest' = token :: rest ∨
      b = true ∧ rest' = rest ∧ token.type ≠ .kEof ∧ token.type ≠ .kNumber

namespace Parses

theorem mono (h : Parses n got x ints E) (hle : m ≤ n) : Parses m got x ints E :=
  fun tokens hterm hlen => h tokens hterm (hlen.trans hle)

theorem pure {a : α} (h : ints a = got) : Parses n got (Pure.pure a) ints Anywhere := by
  intro tokens _ _
  refine Ends.of_ok (show (Pure.pure a : ParserM α) tokens = .ok (a, tokens) from rfl)
    ⟨trivial, [], .refl tokens, ?_⟩
  rw [h, List.append_nil]

theorem error (message : String) : Parses n got (parseError message) ints E := by
  intro tokens _ _
  exact Ends.of_error rfl ⟨message, rfl⟩

theorem after_token {token : Token} {rest : List Token} {more : List Int64}
    (h : Parses rest.length (got ++ more) x ints E) (hterm : Terminated (token :: rest))
    (hused : Consumed more (token :: rest) rest) :
    Ends IsParseError x rest fun a rest' =>
      E rest' ∧ ∃ more, Consumed more (token :: rest) rest' ∧ ints a = got ++ more := by
  refine (h rest (hterm.of_consumed hused) le_rfl).mono ?_
  rintro a rest' ⟨hend, more', hused', hints⟩
  exact ⟨hend, more ++ more', hused.trans hused', by rw [hints, List.append_assoc]⟩

/-- The numbers of the first part come before those of the second. -/
theorem bind (hx : Parses n [] x f Anywhere) (hk : ∀ a, Parses n (got ++ f a) (k a) outs E) :
    Parses n got (x >>= k) outs E := by
  intro tokens hterm hlen
  refine (hx tokens hterm hlen).bind ?_
  rintro a rest ⟨-, more, hused, hmore⟩
  refine (hk a rest (hterm.of_consumed hused) (hused.length_le.trans hlen)).mono ?_
  rintro b rest' ⟨hend, more', hused', hmore'⟩
  refine ⟨hend, more ++ more', hused.trans hused', ?_⟩
  rw [hmore', hmore, List.nil_append, List.append_assoc]

theorem skip (hx : Skips n x) (hk : ∀ a, Parses n got (k a) outs E) :
    Parses n got (x >>= k) outs E := by
  apply bind hx
  intro a
  rw [noInts, List.append_nil]
  exact hk a

theorem map (hx : Parses n [] x f E) (hk : ∀ a, ∃ b, k a = Pure.pure b ∧ outs b = f a) :
    Parses n [] (x >>= k) outs E := by
  intro tokens hterm hlen
  refine (hx tokens hterm hlen).bind ?_
  rintro a rest ⟨hend, more, hused, hmore⟩
  obtain ⟨b, hpure, houts⟩ := hk a
  rw [hpure]
  exact Ends.of_ok (show (Pure.pure b : ParserM β) rest = .ok (b, rest) from rfl)
    ⟨hend, more, hused, houts.trans hmore⟩

theorem ite {c : Prop} [Decidable c] (hx : Parses n got x ints E) (hy : Parses n got y ints E) :
    Parses n got (if c then x else y) ints E := by
  split_ifs
  · exact hx
  · exact hy

/-- The next token is taken or left, as a test of it says. -/
theorem test {test : ParserM Bool} {y z : ParserM β} (htest : IsTest test)
    (hyes : ∀ m < n, Parses m got y outs E) (hno : Parses n got z outs E) :
    Parses n got (test >>= fun b => if b = true then y else z) outs E := by
  intro tokens hterm hlen
  obtain ⟨token, rest, rfl⟩ := hterm.exists_cons
  refine Ends.bind (htest token rest) ?_
  rintro b rest' (⟨rfl, rfl⟩ | ⟨rfl, rfl, hend, hnumber⟩)
  · exact hno _ hterm hlen
  · have hyes' := hyes rest'.length hlen
    rw [← List.append_nil got] at hyes'
    exact hyes'.after_token hterm (.single hend fun _ => (numbers_of_ne hnumber).symm)

/-- A token of a type that does not stand for the end may be taken. -/
theorem take {k : Token → ParserM β} {z : ParserM β} (hend : type ≠ .kEof)
    (hyes : ∀ token, token.type = type →
      ∀ m < n, Parses m (got ++ numbers [token]) (k token) outs E)
    (hno : Parses n got z outs E) :
    Parses n got (atType type >>= fun b => if b = true then consume >>= k else z) outs E := by
  intro tokens hterm hlen
  obtain ⟨token, rest, rfl⟩ := hterm.exists_cons
  unfold Ends
  rw [bind_ok (atType_cons type)]
  by_cases htype : token.type = type
  · rw [decide_eq_true htype, if_pos rfl, bind_ok (consume_cons token rest)]
    exact (hyes token htype rest.length hlen).after_token hterm
      (.single (htype ▸ hend) fun _ => rfl)
  · rw [decide_eq_false htype, if_neg (by simp)]
    exact hno _ hterm hlen

end Parses

theorem matchType_isTest (hsym : type ≠ .kEof ∧ type ≠ .kNumber) :
    IsTest (matchType type) := by
  intro token rest
  by_cases htype : token.type = type
  · exact Ends.of_ok (matchType_of_eq htype) (.inr ⟨rfl, rfl, htype ▸ hsym⟩)
  · exact Ends.of_ok (matchType_of_ne htype) (.inl ⟨rfl, rfl⟩)

/-- A keyword in mixed case is refused. -/
theorem matchKeyword_isTest (keyword : String) : IsTest (matchKeyword keyword) := by
  intro token rest
  have hrun : matchKeyword keyword (token :: rest) =
      (if token.type ≠ .kIdentifier then Pure.pure false
        else if upper token.lexeme ≠ ascii keyword then Pure.pure false
        else if !isSingleCaseWord token.lexeme then
          parseError ("mixed-case keyword is not allowed: " ++ quoted token.lexeme)
        else consume >>= fun _ => Pure.pure true : ParserM Bool) (token :: rest) := rfl
  unfold Ends
  rw [hrun]
  split_ifs with htype hword hcase
  · exact .inl ⟨rfl, rfl⟩
  · exact .inl ⟨rfl, rfl⟩
  · exact ⟨_, rfl⟩
  · push Not at htype
    exact .inr ⟨rfl, rfl, by simp [htype], by simp [htype]⟩

theorem IsTest.parses {test : ParserM Bool} (h : IsTest test) :
    Skips n test := by
  intro tokens hterm hlen
  obtain ⟨token, rest, rfl⟩ := hterm.exists_cons
  refine (h token rest).mono ?_
  rintro b rest' (⟨rfl, rfl⟩ | ⟨rfl, rfl, hend, hnumber⟩)
  · exact ⟨trivial, [], .refl _, rfl⟩
  · exact ⟨trivial, [], .single hend fun _ => (numbers_of_ne hnumber).symm, rfl⟩

theorem atType_parses (type : TokenType) : Skips n (atType type) := by
  intro tokens hterm hlen
  obtain ⟨token, rest, rfl⟩ := hterm.exists_cons
  exact Ends.of_ok (atType_cons type) ⟨trivial, [], .refl _, rfl⟩

theorem finish_parses : Parses n [] finish noInts AtEnd := by
  apply Parses.skip (matchType_isTest (by decide)).parses
  intro _ tokens hterm hlen
  obtain ⟨token, rest, rfl⟩ := hterm.exists_cons
  unfold Ends
  rw [bind_ok (atType_cons _)]
  by_cases hend : token.type = .kEof
  · rw [decide_eq_true hend, if_pos rfl]
    exact ⟨⟨token, rfl, hend⟩, [], .refl _, rfl⟩
  · rw [decide_eq_false hend, if_neg (by simp)]
    exact ⟨_, rfl⟩

theorem Parses.finish {a : α} (h : ints a = got) :
    Parses n got (Parser.finish >>= fun _ => Pure.pure a) ints AtEnd := by
  intro tokens hterm hlen
  refine (finish_parses tokens hterm hlen).bind ?_
  rintro _ rest ⟨hend, more, hused, hmore⟩
  refine Ends.of_ok (show (Pure.pure a : ParserM α) rest = .ok (a, rest) from rfl)
    ⟨hend, more, hused, ?_⟩
  rw [h, ← List.nil_append more, ← hmore, noInts, List.append_nil]

end Rules

section Tests

variable {α β : Type} {n : ℕ} {got : List Int64} {k : Unit → ParserM β} {y z : ParserM β}
  {outs : β → List Int64} {E : List Token → Prop} {type : TokenType}

theorem expect_parses (hsym : type ≠ .kEof ∧ type ≠ .kNumber) (what : String) :
    Skips n (expect type what) :=
  .test (matchType_isTest hsym) (fun _ _ => .pure rfl) (.error _)

theorem expectKeyword_parses (keyword : String) :
    Skips n (expectKeyword keyword) :=
  .test (matchKeyword_isTest keyword) (fun _ _ => .pure rfl) (.error _)

namespace Parses

theorem symbol (hsym : type ≠ .kEof ∧ type ≠ .kNumber) {what : String}
    (hk : Parses n got (k ()) outs E) : Parses n got (expect type what >>= k) outs E :=
  .skip (expect_parses hsym what) fun _ => hk

theorem keyword {word : String} (hk : Parses n got (k ()) outs E) :
    Parses n got (expectKeyword word >>= k) outs E :=
  .skip (expectKeyword_parses word) fun _ => hk

theorem onSymbol (hsym : type ≠ .kEof ∧ type ≠ .kNumber)
    (hyes : ∀ m < n, Parses m got y outs E) (hno : Parses n got z outs E) :
    Parses n got (matchType type >>= fun b => if b = true then y else z) outs E :=
  .test (matchType_isTest hsym) hyes hno

theorem onKeyword {word : String} (hyes : ∀ m < n, Parses m got y outs E)
    (hno : Parses n got z outs E) :
    Parses n got (matchKeyword word >>= fun b => if b = true then y else z) outs E :=
  .test (matchKeyword_isTest word) hyes hno

end Parses

end Tests

open Parses (skip take symbol keyword onSymbol onKeyword)

/-! ## Names, literals and operands -/

section Parts

variable {n : ℕ}

theorem parseIdentifier_parses : Skips n parseIdentifier := by
  apply take (by decide)
  · intro token htype m _
    rw [numbers_of_ne (by simp [htype])]
    exact .pure rfl
  · exact .error _

theorem parseQualifiedName_parses : Skips n parseQualifiedName := by
  apply skip parseIdentifier_parses
  intro first
  apply onSymbol (by decide)
  · intro m _
    apply skip parseIdentifier_parses
    intro second
    exact .pure rfl
  · exact .pure rfl

theorem parseLiteralValue_parses : Parses n [] parseLiteralValue Value.ints Anywhere := by
  apply take (by decide)
  · intro token htype m _
    apply Parses.pure
    simp [numbers, htype, Value.ints]
  apply take (by decide)
  · intro token htype m _
    apply Parses.pure
    rw [numbers_of_ne (by simp [htype])]
    rfl
  apply onKeyword
  · intro m _
    exact .pure rfl
  · exact .error _

theorem parseOperand_parses : Parses n [] parseOperand Expr.ints Anywhere := by
  apply skip (atType_parses _)
  intro isNumber
  apply skip (atType_parses _)
  intro isString
  apply Parses.ite
  · apply Parses.bind parseLiteralValue_parses
    intro value
    exact .pure rfl
  apply onKeyword
  · intro m _
    exact .pure rfl
  apply skip (atType_parses _)
  intro isIdentifier
  apply Parses.ite
  · apply skip parseIdentifier_parses
    intro name
    exact .pure rfl
  · exact .error _

theorem parseBinaryOp_parses : Skips n parseBinaryOp := by
  apply onSymbol (by decide) fun _ _ => .pure rfl
  apply onSymbol (by decide) fun _ _ => .pure rfl
  apply onSymbol (by decide) fun _ _ => .pure rfl
  apply onSymbol (by decide) fun _ _ => .pure rfl
  apply onSymbol (by decide) fun _ _ => .pure rfl
  apply onSymbol (by decide) fun _ _ => .pure rfl
  exact .error _

theorem parseComparison_parses : Parses n [] parseComparison Expr.ints Anywhere := by
  apply Parses.bind parseOperand_parses
  intro left
  apply onKeyword
  · intro m _
    apply Parses.bind parseOperand_parses
    intro low
    apply keyword
    apply Parses.bind parseOperand_parses
    intro high
    exact .pure rfl
  apply onKeyword
  · intro m _
    apply Parses.bind parseOperand_parses
    intro pattern
    exact .pure rfl
  apply skip parseBinaryOp_parses
  intro op
  apply Parses.bind parseOperand_parses
  intro right
  exact .pure rfl

end Parts

/-! ## Expressions -/

/-- Each function of the grammar of expressions has the fuel for `n` tokens. -/
structure ParsesExprs (fuel : ℕ) : Prop where
  predicate : ∀ n, 4 * n + 1 ≤ fuel → Parses n [] (parsePredicate fuel) Expr.ints Anywhere
  andRest : ∀ n expr, 4 * n + 1 ≤ fuel → Parses n expr.ints (parseAndRest fuel expr) Expr.ints Anywhere
  and : ∀ n, 4 * n + 2 ≤ fuel → Parses n [] (parseAnd fuel) Expr.ints Anywhere
  orRest : ∀ n expr, 4 * n + 1 ≤ fuel → Parses n expr.ints (parseOrRest fuel expr) Expr.ints Anywhere
  or : ∀ n, 4 * n + 3 ≤ fuel → Parses n [] (parseOr fuel) Expr.ints Anywhere

/-- Three levels are passed for each token, and the loops take a token in each round. -/
theorem parsesExprs (fuel : ℕ) : ParsesExprs fuel := by
  induction fuel with
  | zero => constructor <;> intros <;> omega
  | succ fuel ih =>
    constructor
    · intro n hfuel
      rw [parsePredicate]
      apply onSymbol (by decide)
      · intro m hm
        apply Parses.bind (ih.or m (by omega))
        intro expr
        apply symbol (by decide)
        exact .pure rfl
      · exact parseComparison_parses
    · intro n expr hfuel
      rw [parseAndRest]
      apply onKeyword
      · intro m hm
        apply Parses.bind (ih.predicate m (by omega))
        intro right
        exact ih.andRest m _ (by omega)
      · exact .pure rfl
    · intro n hfuel
      rw [parseAnd]
      apply Parses.bind (ih.predicate n (by omega))
      intro expr
      exact ih.andRest n expr (by omega)
    · intro n expr hfuel
      rw [parseOrRest]
      apply onKeyword
      · intro m hm
        apply Parses.bind (ih.and m (by omega))
        intro right
        exact ih.orRest m _ (by omega)
      · exact .pure rfl
    · intro n hfuel
      rw [parseOr]
      apply Parses.bind (ih.and n (by omega))
      intro expr
      exact ih.orRest n expr (by omega)

/-! ## Statements -/

section Statements

variable {α : Type} {n fuel : ℕ} {statement : ByteString → SqlStatement} {item : ParserM α}

/-- A list gets fuel for as many items as there are tokens. -/
theorem commaSeparated_parses {ints : α → List Int64} (hitem : Parses n [] item ints Anywhere)
    (hfuel : n < fuel) :
    Parses n [] (commaSeparated item fuel) (fun items => items.flatMap ints) Anywhere := by
  induction fuel generalizing n with
  | zero => omega
  | succ fuel ih =>
    apply Parses.bind hitem
    intro first
    apply onSymbol (by decide)
    · intro m hm
      apply Parses.bind (ih (hitem.mono hm.le) (by omega))
      intro rest
      exact .pure rfl
    · exact .pure (by simp)

theorem flatMap_noInts (items : List α) : items.flatMap noInts = [] := by
  induction items with
  | nil => rfl
  | cons item items ih => exact ih

theorem commaSeparated_skips (hitem : Skips n item) (hfuel : n < fuel) :
    Skips n (commaSeparated item fuel) := by
  have h := commaSeparated_parses hitem hfuel
  rwa [funext flatMap_noInts] at h

theorem parseWhereIfPresent_parses (hfuel : 4 * n + 3 ≤ fuel) :
    Parses n [] (parseWhereIfPresent fuel) (fun condition => condition.elim [] Expr.ints)
      Anywhere := by
  apply onKeyword
  · intro m hm
    apply Parses.bind ((parsesExprs fuel).or m (by omega))
    intro expr
    exact .pure rfl
  · exact .pure rfl

theorem parseColumnAttributes_parses (column : ColumnSchema) (hfuel : n < fuel) :
    Skips n (parseColumnAttributes fuel column) := by
  induction fuel generalizing n column with
  | zero => omega
  | succ fuel ih =>
    rw [parseColumnAttributes]
    apply skip (atType_parses _)
    intro _
    apply Parses.ite
    · apply onKeyword
      · intro m hm
        exact ih _ (by omega)
      apply onKeyword
      · intro m hm
        exact ih _ (by omega)
      · exact .pure rfl
    · exact .pure rfl

theorem parseColumn_parses (hfuel : n < fuel) : Skips n (parseColumn fuel) := by
  apply skip parseIdentifier_parses
  intro name
  apply skip
  · apply skip parseIdentifier_parses
    intro type
    apply Parses.ite
    · exact .pure rfl
    apply Parses.ite
    · exact .pure rfl
    · exact .error _
  intro type
  exact parseColumnAttributes_parses _ hfuel

theorem parseCreateTable_parses (hfuel : n < fuel) :
    ParsesStatement n (parseCreateTable fuel) := by
  apply skip parseQualifiedName_parses
  rintro ⟨db, tbl⟩
  apply symbol (by decide)
  apply skip (commaSeparated_skips (parseColumn_parses hfuel) hfuel)
  intro columns
  apply symbol (by decide)
  exact .finish rfl

theorem parseValueRow_parses (hfuel : n < fuel) :
    Parses n [] (parseValueRow fuel) (fun row => row.flatMap Value.ints) Anywhere := by
  apply symbol (by decide)
  apply Parses.bind (commaSeparated_parses parseLiteralValue_parses hfuel)
  intro row
  apply symbol (by decide)
  exact .pure rfl

theorem parseInsert_parses (hfuel : n < fuel) :
    ParsesStatement n (parseInsert fuel) := by
  apply keyword
  apply skip parseQualifiedName_parses
  rintro ⟨db, tbl⟩
  apply symbol (by decide)
  apply skip (commaSeparated_skips parseIdentifier_parses hfuel)
  intro columns
  apply symbol (by decide)
  apply keyword
  apply Parses.bind (commaSeparated_parses (parseValueRow_parses hfuel) hfuel)
  intro rows
  exact .finish rfl

theorem parseSelectItem_parses : Skips n parseSelectItem := by
  apply skip parseIdentifier_parses
  intro column
  apply onKeyword
  · intro m _
    apply skip parseIdentifier_parses
    intro aliasName
    exact .pure rfl
  · exact .pure rfl

theorem parseFrom_parses (selectAll : Bool) (columns : List SelectItem) (hfuel : 4 * n + 3 ≤ fuel) :
    ParsesStatement n (do
      expectKeyword "FROM"
      let (db, tbl) ← parseQualifiedName
      let condition ← parseWhereIfPresent fuel
      finish
      return .select db tbl selectAll columns condition) := by
  apply keyword
  apply skip parseQualifiedName_parses
  rintro ⟨db, tbl⟩
  apply Parses.bind (parseWhereIfPresent_parses hfuel)
  intro condition
  exact .finish rfl

theorem parseSelect_parses (hfuel : 4 * n + 3 ≤ fuel) :
    ParsesStatement n (parseSelect fuel) := by
  apply skip (matchType_isTest (by decide)).parses
  intro selectAll
  apply Parses.ite
  · exact parseFrom_parses selectAll [] hfuel
  apply symbol (by decide)
  apply skip (commaSeparated_skips parseSelectItem_parses (by omega))
  intro items
  apply symbol (by decide)
  exact parseFrom_parses selectAll items hfuel

theorem parseAssignment_parses :
    Parses n [] parseAssignment (fun assignment => assignment.2.ints) Anywhere := by
  apply skip parseIdentifier_parses
  intro column
  apply symbol (by decide)
  apply Parses.bind parseLiteralValue_parses
  intro value
  exact .pure rfl

theorem parseUpdate_parses (hfuel : 4 * n + 3 ≤ fuel) :
    ParsesStatement n (parseUpdate fuel) := by
  apply skip parseQualifiedName_parses
  rintro ⟨db, tbl⟩
  apply keyword
  apply Parses.bind (commaSeparated_parses parseAssignment_parses (by omega))
  intro assignments
  apply keyword
  apply Parses.bind ((parsesExprs fuel).or n hfuel)
  intro condition
  exact .finish rfl

theorem parseDelete_parses (hfuel : 4 * n + 3 ≤ fuel) :
    ParsesStatement n (parseDelete fuel) := by
  apply keyword
  apply skip parseQualifiedName_parses
  rintro ⟨db, tbl⟩
  apply keyword
  apply Parses.bind ((parsesExprs fuel).or n hfuel)
  intro condition
  exact .finish rfl

/-- A timestamp is no number. -/
theorem parseRevert_parses (mktime : Mktime) :
    ParsesStatement n (parseRevert mktime) := by
  apply skip parseQualifiedName_parses
  rintro ⟨db, tbl⟩ tokens hterm hlen
  obtain ⟨token, rest, rfl⟩ := hterm.exists_cons
  dsimp only
  unfold Ends
  rw [bind_ok (atType_cons _), bind_ok (atType_cons _)]
  split_ifs with hother
  · exact ⟨_, rfl⟩
  rw [bind_ok (consume_cons token rest)]
  rcases hparse : parseRevertTimestampMs mktime token.lexeme with _ | timestampMs
  · exact ⟨_, rfl⟩
  have hend : token.type ≠ .kEof := by
    intro hend
    rw [hend] at hother
    exact hother rfl
  have htaken : Consumed [] (token :: rest) rest := by
    refine .single hend fun hlexed => ?_
    by_cases hnumber : token.type = .kNumber
    · rw [parseRevertTimestampMs_of_digits (hlexed hnumber)] at hparse
      cases hparse
    · exact (numbers_of_ne hnumber).symm
  have hfinish : Parses rest.length [] (do
      finish
      return SqlStatement.revert db tbl timestampMs) SqlStatement.ints AtEnd :=
    .finish rfl
  exact hfinish.after_token hterm htaken

theorem parseCredentials_parses : Parses n [] parseCredentials noInts AtEnd := by
  apply skip parseIdentifier_parses
  intro userId
  apply keyword
  apply take (by decide)
  · intro token htype m _
    rw [numbers_of_ne (by simp [htype])]
    exact .finish rfl
  · exact .error _

theorem parsePermissionRest_parses (stop : String) (permission : ByteString) (hfuel : n < fuel) :
    Skips n (parsePermissionRest stop fuel permission) := by
  induction fuel generalizing n permission with
  | zero => omega
  | succ fuel ih =>
    intro tokens hterm hlen
    obtain ⟨token, rest, rfl⟩ := hterm.exists_cons
    unfold Ends
    rw [parsePermissionRest, bind_ok (atType_cons _),
      bind_ok (peek_cons token rest)]
    split_ifs with hword
    · rw [Bool.and_eq_true, decide_eq_true_iff] at hword
      have htaken : Consumed [] (token :: rest) rest :=
        .single (by simp [hword.1]) fun _ => (numbers_of_ne (by simp [hword.1])).symm
      rw [List.length_cons] at hlen
      rw [bind_ok (consume_cons token rest)]
      exact (ih _ (by omega)).after_token hterm htaken
    · exact ⟨trivial, [], .refl _, rfl⟩

theorem parseCreateUser_parses : ParsesStatement n parseCreateUser := by
  apply Parses.map parseCredentials_parses
  rintro ⟨userId, password⟩
  exact ⟨_, rfl, rfl⟩

theorem parseLogin_parses : ParsesStatement n parseLogin := by
  apply Parses.map parseCredentials_parses
  rintro ⟨userId, password⟩
  exact ⟨_, rfl, rfl⟩

theorem parseTargetType_parses (preposition statement : String) :
    Skips n (parseTargetType preposition statement) := by
  apply onKeyword
  · intro m _
    exact .pure rfl
  apply onKeyword
  · intro m _
    exact .pure rfl
  · exact .error _

theorem parsePermissionTarget_parses (preposition statement : String) (hfuel : n < fuel) :
    Parses n [] (parsePermissionTarget fuel preposition statement) noInts AtEnd := by
  apply skip parseIdentifier_parses
  intro first
  apply skip (parsePermissionRest_parses _ _ hfuel)
  intro permission
  apply keyword
  apply skip (parseTargetType_parses _ _)
  intro targetType
  apply skip parseIdentifier_parses
  intro targetName
  exact .finish rfl

theorem parseGrant_parses (hfuel : n < fuel) : ParsesStatement n (parseGrant fuel) := by
  apply Parses.map (parsePermissionTarget_parses _ _ hfuel)
  rintro ⟨permission, targetType, targetName⟩
  exact ⟨_, rfl, rfl⟩

theorem parseRevoke_parses (hfuel : n < fuel) : ParsesStatement n (parseRevoke fuel) := by
  apply Parses.map (parsePermissionTarget_parses _ _ hfuel)
  rintro ⟨permission, targetType, targetName⟩
  exact ⟨_, rfl, rfl⟩

theorem parseAddUserToGroup_parses : ParsesStatement n parseAddUserToGroup := by
  apply keyword
  apply skip parseIdentifier_parses
  intro userId
  apply keyword
  apply keyword
  apply skip parseIdentifier_parses
  intro groupName
  exact .finish rfl

theorem parseSubmitQuery_parses : ParsesStatement n parseSubmitQuery := by
  apply keyword
  apply take (by decide)
  · intro token htype m _
    rw [numbers_of_ne (by simp [htype])]
    exact .finish rfl
  · exact .error _

theorem parseNamed_parses (h : ∀ name, (statement name).ints = []) :
    ParsesStatement n (parseNamed statement) := by
  apply skip parseIdentifier_parses
  intro name
  exact .finish (h name)

theorem parseDropTable_parses : ParsesStatement n parseDropTable := by
  apply skip parseQualifiedName_parses
  rintro ⟨db, tbl⟩
  exact .finish rfl

theorem parseTask_parses (h : ∀ name, (statement name).ints = []) :
    ParsesStatement n (expectKeyword "TASK" >>= fun _ => parseNamed statement) := by
  apply keyword
  exact parseNamed_parses h

theorem parseCreate_parses (hfuel : n < fuel) :
    ParsesStatement n (parseCreate fuel) := by
  apply onKeyword
  · intro m _
    exact parseNamed_parses fun _ => rfl
  apply onKeyword
  · intro m hm
    exact parseCreateTable_parses (by omega)
  apply onKeyword
  · intro m _
    exact parseCreateUser_parses
  apply onKeyword
  · intro m _
    exact parseNamed_parses fun _ => rfl
  · exact .error _

theorem parseDrop_parses : ParsesStatement n parseDrop := by
  apply onKeyword
  · intro m _
    exact parseNamed_parses fun _ => rfl
  apply onKeyword
  · intro m _
    exact parseDropTable_parses
  apply onKeyword
  · intro m _
    exact parseNamed_parses fun _ => rfl
  apply onKeyword
  · intro m _
    exact parseNamed_parses fun _ => rfl
  · exact .error _

theorem parseShow_parses : ParsesStatement n parseShow := by
  apply onKeyword
  · intro m _
    exact .finish rfl
  · exact .error _

/-- A statement takes its tokens, or it is refused. -/
theorem parseStatement_parses (mktime : Mktime) (hfuel : 4 * n + 3 ≤ fuel) :
    ParsesStatement n (parseStatement mktime fuel) := by
  apply onKeyword fun m hm => parseCreate_parses (by omega)
  apply onKeyword fun m hm => parseDrop_parses
  apply onKeyword fun m hm => parseNamed_parses fun _ => rfl
  apply onKeyword fun m hm => parseInsert_parses (by omega)
  apply onKeyword fun m hm => parseSelect_parses (by omega)
  apply onKeyword fun m hm => parseUpdate_parses (by omega)
  apply onKeyword fun m hm => parseDelete_parses (by omega)
  apply onKeyword fun m hm => parseRevert_parses mktime
  apply onKeyword fun m hm => parseLogin_parses
  apply onKeyword fun m hm => parseGrant_parses (by omega)
  apply onKeyword fun m hm => parseRevoke_parses (by omega)
  apply onKeyword fun m hm => parseAddUserToGroup_parses
  apply onKeyword fun m hm => parseSubmitQuery_parses
  apply onKeyword fun m hm => parseTask_parses fun _ => rfl
  apply onKeyword fun m hm => parseTask_parses fun _ => rfl
  apply onKeyword fun m hm => parseShow_parses
  exact .error _

end Statements

end Parser

end CourseDb

namespace CourseDb.Parser

variable {mktime : Mktime} {sql : ByteString} {tokens : List Token} {statement : SqlStatement}

theorem terminated_of_body {body : List Token} (h : Lexer.IsLexedBody body) :
    Terminated (body ++ [{ type := .kEof }]) :=
  ⟨body, _, rfl, rfl, fun token hmem => (h token hmem).1⟩

/-- A statement takes all tokens but the end token. -/
theorem parseStatement_ends (mktime : Mktime) (h : Terminated tokens) {fuel : ℕ}
    (hfuel : fuelFor tokens ≤ fuel) :
    Ends IsParseError (parseStatement mktime fuel) tokens fun statement rest =>
      ∃ eof, rest = [eof] ∧ eof.type = .kEof ∧ Consumed statement.ints tokens [eof] := by
  have hparses : Parses tokens.length [] (parseStatement mktime fuel) SqlStatement.ints AtEnd :=
    parseStatement_parses mktime (by unfold fuelFor at hfuel; omega)
  refine (hparses tokens h le_rfl).mono ?_
  rintro statement rest ⟨⟨eof, hhead, heof⟩, more, hused, hmore⟩
  obtain ⟨rest', rfl⟩ := List.head?_eq_some_iff.mp hhead
  obtain rfl := (h.of_consumed hused).eq_singleton heof
  refine ⟨eof, rfl, heof, ?_⟩
  rw [hmore, List.nil_append]
  exact hused

/-- Lexing ends with a parse error or with tokens of which the last one, and no other, is an end
token. Parsing such tokens ends with a parse error or with a statement, after all tokens but the
last have been taken, and reads no token that is not there. -/
theorem parsing_ends (mktime : Mktime) :
    (∀ input, (∃ message, Lexer.tokenize input = .error (.parseError message)) ∨
      ∃ tokens, Lexer.tokenize input = .ok tokens ∧ Terminated tokens) ∧
    ∀ tokens, Terminated tokens → ∀ fuel, fuelFor tokens ≤ fuel →
      (∃ message, parseStatement mktime fuel tokens = .error (.parseError message)) ∨
        ∃ statement eof, parseStatement mktime fuel tokens = .ok (statement, [eof]) ∧
          eof.type = .kEof := by
  constructor
  · intro input
    rcases Lexer.tokenize_cases input with herror | ⟨body, hok, hbody⟩
    · exact .inl herror
    · exact .inr ⟨_, hok, terminated_of_body hbody⟩
  · intro tokens hterm fuel hfuel
    rcases (parseStatement_ends mktime hterm hfuel).cases with
      ⟨failure, hrun, message, rfl⟩ | ⟨statement, rest, hrun, eof, rfl, heof, -⟩
    · exact .inl ⟨message, hrun⟩
    · exact .inr ⟨statement, eof, hrun, heof⟩

theorem parsing_ends_truncated :
    Terminated [⟨.kIdentifier, ascii "DROP"⟩, {}] ∧
      ((∃ message, parseStatement utcMktime 12 [⟨.kIdentifier, ascii "DROP"⟩, {}] =
          .error (.parseError message)) ∨
        ∃ statement eof, parseStatement utcMktime 12 [⟨.kIdentifier, ascii "DROP"⟩, {}] =
          .ok (statement, [eof]) ∧ eof.type = .kEof) := by
  have hterm : Terminated [⟨.kIdentifier, ascii "DROP"⟩, {}] :=
    ⟨[⟨.kIdentifier, ascii "DROP"⟩], {}, rfl, rfl, by simp⟩
  exact ⟨hterm, (parsing_ends utcMktime).2 _ hterm 12 (by decide)⟩

/-! ## Integers -/

def numberTexts (tokens : List Token) : List ByteString :=
  (tokens.filter (·.type = .kNumber)).map Token.lexeme

theorem numbers_eq (tokens : List Token) : numbers tokens = (numberTexts tokens).map strtoll := by
  rw [numbers, numberTexts, List.map_map]
  rfl

/-- `strtoll` is exact up to the largest integer. -/
theorem toInt_strtoll (digits : ByteString) :
    (strtoll digits).toInt = Decimal.value digits ↔ Decimal.value digits < 2 ^ 63 := by
  have hvalue : (strtoll digits).toInt = (min (Decimal.value digits) (2 ^ 63 - 1) : ℕ) :=
    Int64.toInt_ofNat_of_lt (by omega)
  rw [hvalue]
  omega

/-- The integers of a statement come from its number tokens. -/
theorem parse_ints (h : parse mktime sql = .ok statement)
    (htokens : Lexer.tokenize sql = .ok tokens) : statement.ints = numbers tokens := by
  unfold parse at h
  rw [htokens] at h
  rcases Lexer.tokenize_cases sql with ⟨message, herror⟩ | ⟨body, hok, hbody⟩
  · rw [htokens] at herror
    cases herror
  obtain rfl : tokens = body ++ [{ type := .kEof }] := Except.ok.inj (htokens.symm.trans hok)
  have hends := parseStatement_ends mktime (terminated_of_body hbody) le_rfl
  rcases hends.cases with ⟨failure, hrun, -⟩ | ⟨statement', rest, hrun, eof, rfl, -, hused⟩
  · change (parseStatement mktime _ _ >>= _) = _ at h
    rw [hrun] at h
    cases h
  · change (parseStatement mktime _ _ >>= _) = _ at h
    rw [hrun] at h
    cases h
    obtain ⟨used, heq, -, hints⟩ := hused
    obtain ⟨rfl, hlast⟩ := List.append_inj' heq rfl
    rw [hints fun token hmem hnumber => (hbody token hmem).2 hnumber]
    simp [numbers]

/-- The integers of a statement are the numbers of the text exactly if all of these fit. -/
theorem parse_ints_exact_iff (mktime : Mktime) (sql : ByteString) (statement : SqlStatement)
    (tokens : List Token) (h : parse mktime sql = .ok statement)
    (htokens : Lexer.tokenize sql = .ok tokens) :
    statement.ints.map Int64.toInt =
        (numberTexts tokens).map (fun digits => (Decimal.value digits : ℤ)) ↔
      ∀ digits ∈ numberTexts tokens, Decimal.value digits < 2 ^ 63 := by
  rw [parse_ints h htokens, numbers_eq, List.map_map, List.map_inj_left]
  simp only [Function.comp_apply, toInt_strtoll]

/-- The largest integer in an assignment and in a condition. -/
def updateLargest : ByteString :=
  ascii "UPDATE t SET a = 7 WHERE b = 9223372036854775807"

theorem parse_ints_exact_largest :
    ∃ statement tokens, parse utcMktime updateLargest = .ok statement ∧
      Lexer.tokenize updateLargest = .ok tokens ∧
      statement.ints.map Int64.toInt =
        (numberTexts tokens).map (fun digits => (Decimal.value digits : ℤ)) := by
  have hparse : parse utcMktime updateLargest = .ok (.update [] (ascii "t") [(ascii "a", .int 7)]
      (.binary .kEq (.columnRef (ascii "b")) (.literal (.int 9223372036854775807)))) := by
    decide +kernel
  rcases htokens : Lexer.tokenize updateLargest with failure | tokens
  · unfold parse at hparse
    rw [htokens] at hparse
    cases hparse
  · refine ⟨_, tokens, hparse, rfl, ?_⟩
    refine (parse_ints_exact_iff utcMktime updateLargest _ tokens hparse htokens).mpr ?_
    have hfits : (Lexer.tokenize updateLargest).map (fun tokens =>
        decide (∀ digits ∈ numberTexts tokens, Decimal.value digits < 2 ^ 63)) = .ok true := by
      decide +kernel
    rw [htokens] at hfits
    exact of_decide_eq_true (Except.ok.inj hfits)

/-- The next integer is read as the largest one. -/
theorem parse_changes_integer :
    parse utcMktime (ascii "DELETE FROM t WHERE a = 9223372036854775808") =
        .ok (.delete [] (ascii "t")
          (.binary .kEq (.columnRef (ascii "a")) (.literal (.int 9223372036854775807)))) ∧
      (Lexer.tokenize (ascii "DELETE FROM t WHERE a = 9223372036854775808")).map
          (fun tokens => (numberTexts tokens).map Decimal.value) = .ok [9223372036854775808] := by
  decide +kernel

end CourseDb.Parser
