import CourseDb.Parser.Parser

/-! # Conditions and the tokens they are written as

A condition is written with parentheses only where the parser would otherwise
build another tree: around a disjunction in a conjunction, and around a right
operand of the same connective. The parser reads back what was written.
-/

namespace CourseDb

/-- What stands to the left and to the right of a comparison. -/
inductive Operand where
  | column (name : ByteString) (h : Parser.upper name ≠ ascii "NULL")
  | string (text : ByteString)
  | int (n : ℕ) (h : n < 2 ^ 63)
  | null

inductive Condition where
  | compare (op : BinaryOp) (left right : Operand)
  | between (value low high : Operand)
  | like (value pattern : Operand)
  | and (left right : Condition)
  | or (left right : Condition)

namespace Operand

def toExpr : Operand → Expr
  | column name _ => .columnRef name
  | string text => .literal (.string text)
  | int n _ => .literal (.int (Int64.ofNat n))
  | null => .literal .null

def token : Operand → Token
  | column name _ => ⟨.kIdentifier, name⟩
  | string text => ⟨.kString, text⟩
  | int n _ => ⟨.kNumber, ascii (toString n)⟩
  | null => ⟨.kIdentifier, ascii "NULL"⟩

end Operand

def BinaryOp.token : BinaryOp → Token
  | kEq => ⟨.kEq, ascii "=="⟩
  | kNe => ⟨.kNe, ascii "!="⟩
  | kLt => ⟨.kLt, ascii "<"⟩
  | kGt => ⟨.kGt, ascii ">"⟩
  | kLe => ⟨.kLe, ascii "<="⟩
  | kGe => ⟨.kGe, ascii ">="⟩

namespace Condition

def toExpr : Condition → Expr
  | compare op left right => .binary op left.toExpr right.toExpr
  | between value low high => .between value.toExpr low.toExpr high.toExpr
  | like value pattern => .like value.toExpr pattern.toExpr
  | and left right => .logical .kAnd left.toExpr right.toExpr
  | or left right => .logical .kOr left.toExpr right.toExpr

def word (text : String) : Token := ⟨.kIdentifier, ascii text⟩

def lParen : Token := ⟨.kLParen, ascii "("⟩

def rParen : Token := ⟨.kRParen, ascii ")"⟩

def parenthesized (tokens : List Token) : List Token := lParen :: tokens ++ [rParen]

def isOr : Condition → Bool
  | or _ _ => true
  | _ => false

def isLogical : Condition → Bool
  | and _ _ | or _ _ => true
  | _ => false

def wrap (needed : Bool) (tokens : List Token) : List Token :=
  if needed then parenthesized tokens else tokens

def render : Condition → List Token
  | compare op left right => [left.token, op.token, right.token]
  | between value low high => [value.token, word "BETWEEN", low.token, word "AND", high.token]
  | like value pattern => [value.token, word "LIKE", pattern.token]
  | and left right =>
    wrap left.isOr (render left) ++ word "AND" :: wrap right.isLogical (render right)
  | or left right => render left ++ word "OR" :: wrap right.isOr (render right)

/-- A condition as the left operand of a conjunction or the right one of a disjunction. -/
def renderAnd (c : Condition) : List Token := wrap c.isOr c.render

/-- A condition as the right operand of a conjunction. -/
def renderPrimary (c : Condition) : List Token := wrap c.isLogical c.render

@[simp] theorem render_or (left right : Condition) :
    (or left right).render = left.render ++ word "OR" :: right.renderAnd := rfl

theorem render_length_pos (c : Condition) : 0 < c.render.length := by
  cases c <;> simp [render]

theorem length_le_wrap (needed : Bool) (tokens : List Token) :
    tokens.length ≤ (wrap needed tokens).length := by
  cases needed with
  | false => rfl
  | true =>
    simp only [wrap, parenthesized, if_pos, List.length_append, List.length_cons]
    omega

theorem renderAnd_length_pos (c : Condition) : 0 < c.renderAnd.length :=
  c.render_length_pos.trans_le (length_le_wrap _ _)

end Condition

/-! ## Single tokens -/

namespace Parser

open Condition (word rParen lParen parenthesized renderPrimary renderAnd)

section Tokens

variable {α β : Type} {x : ParserM α} {f : α → ParserM β} {tokens rest : List Token} {a : α}
  {token : Token} {keyword : String}

/-- The token is no form of the keyword. -/
def IsOther (keyword : String) (token : Token) : Prop :=
  token.type = .kIdentifier → upper token.lexeme ≠ ascii keyword

theorem matchKeyword_of_other (h : IsOther keyword token) :
    matchKeyword keyword (token :: rest) = .ok (false, token :: rest) := by
  change (if token.type ≠ .kIdentifier then _ else _ : ParserM Bool) (token :: rest) = _
  by_cases htype : token.type = .kIdentifier
  · rw [if_neg (not_not_intro htype), if_pos (h htype)]
    rfl
  · rw [if_pos htype]
    rfl

theorem matchKeyword_word (hupper : upper (ascii keyword) = ascii keyword)
    (hcase : isSingleCaseWord (ascii keyword) = true) :
    matchKeyword keyword (word keyword :: rest) = .ok (true, rest) := by
  have htype : ¬ (word keyword).type ≠ .kIdentifier := not_not_intro rfl
  have hlexeme : ¬ upper (word keyword).lexeme ≠ ascii keyword := not_not_intro hupper
  have hsingle : isSingleCaseWord (word keyword).lexeme = true := hcase
  have hpeek : peek (word keyword :: rest) =
    .ok (word keyword, word keyword :: rest) := rfl
  unfold matchKeyword
  rw [bind_ok hpeek, if_neg htype, if_neg hlexeme, hsingle]
  rfl

end Tokens

/-! ## Comparisons -/

section Comparisons

variable (rest : List Token)

theorem strtoll_toString {n : ℕ} (h : n < 2 ^ 63) :
    strtoll (ascii (toString n)) = Int64.ofNat n := by
  unfold strtoll
  rw [foldl_digits, Nat.min_eq_left (by omega)]

theorem parseOperand_token (o : Operand) :
    parseOperand (o.token :: rest) = .ok (o.toExpr, rest) := by
  cases o with
  | column name h =>
    have hnull : matchKeyword "NULL" (⟨.kIdentifier, name⟩ :: rest) =
        .ok (false, ⟨.kIdentifier, name⟩ :: rest) := matchKeyword_of_other fun _ => h
    change parseOperand (⟨.kIdentifier, name⟩ :: rest) = _
    unfold parseOperand
    rw [bind_ok (atType_cons _), bind_ok (atType_cons _), if_neg (by simp), bind_ok hnull]
    rfl
  | string text => rfl
  | int n h =>
    change Except.ok (Expr.literal (.int (strtoll (ascii (toString n)))), rest) = _
    rw [strtoll_toString h]
    rfl
  | null =>
    have hnull : matchKeyword "NULL" (word "NULL" :: rest) = .ok (true, rest) :=
      matchKeyword_word (by decide) (by decide)
    change parseOperand (word "NULL" :: rest) = _
    unfold parseOperand
    rw [bind_ok (atType_cons _), bind_ok (atType_cons _), if_neg (by decide),
      bind_ok hnull]
    rfl

theorem parseBinaryOp_token (op : BinaryOp) :
    parseBinaryOp (op.token :: rest) = .ok (op, rest) := by
  cases op <;> rfl

/-- No comparison operator is a keyword. -/
theorem isOther_token (keyword : String) (op : BinaryOp) : IsOther keyword op.token := by
  cases op <;> exact fun h => nomatch h

theorem parseComparison_compare (op : BinaryOp) (left right : Operand) :
    parseComparison (left.token :: op.token :: right.token :: rest) =
      .ok (.binary op left.toExpr right.toExpr, rest) := by
  unfold parseComparison
  rw [bind_ok (parseOperand_token _ left),
    bind_ok (matchKeyword_of_other (isOther_token "BETWEEN" op)), if_neg Bool.false_ne_true,
    bind_ok (matchKeyword_of_other (isOther_token "LIKE" op)), if_neg Bool.false_ne_true,
    bind_ok (parseBinaryOp_token _ op), bind_ok (parseOperand_token _ right)]
  rfl

theorem parseComparison_between (value low high : Operand) :
    parseComparison (value.token :: word "BETWEEN" :: low.token ::
      word "AND" :: high.token :: rest) =
      .ok (.between value.toExpr low.toExpr high.toExpr, rest) := by
  have hand : ∀ tail, expectKeyword "AND" (word "AND" :: tail) = .ok ((), tail) := by
    intro tail
    unfold expectKeyword
    rw [bind_ok (matchKeyword_word (by decide) (by decide)), if_pos rfl]
    rfl
  unfold parseComparison
  rw [bind_ok (parseOperand_token _ value),
    bind_ok (matchKeyword_word (by decide) (by decide)), if_pos rfl,
    bind_ok (parseOperand_token _ low), bind_ok (hand _),
    bind_ok (parseOperand_token _ high)]
  rfl

theorem parseComparison_like (value pattern : Operand) :
    parseComparison (value.token :: word "LIKE" :: pattern.token :: rest) =
      .ok (.like value.toExpr pattern.toExpr, rest) := by
  have hbetween : IsOther "BETWEEN" (word "LIKE") := fun _ => by decide
  unfold parseComparison
  rw [bind_ok (parseOperand_token _ value), bind_ok (matchKeyword_of_other hbetween),
    if_neg Bool.false_ne_true, bind_ok (matchKeyword_word (by decide) (by decide)), if_pos rfl,
    bind_ok (parseOperand_token _ pattern)]
  rfl

end Comparisons

/-! ## Conjunctions and disjunctions -/

section Connectives

variable {c left right : Condition} {e : Expr} {token : Token} {tokens rest : List Token} {fuel : ℕ}

theorem parseAndRest_of_other (h : IsOther "AND" token) (hfuel : 0 < fuel) :
    parseAndRest fuel e (token :: rest) = .ok (e, token :: rest) := by
  obtain ⟨fuel, rfl⟩ := Nat.exists_eq_succ_of_ne_zero hfuel.ne'
  unfold parseAndRest
  rw [bind_ok (matchKeyword_of_other h), if_neg Bool.false_ne_true]
  rfl

theorem parseOrRest_of_other (h : IsOther "OR" token) (hfuel : 0 < fuel) :
    parseOrRest fuel e (token :: rest) = .ok (e, token :: rest) := by
  obtain ⟨fuel, rfl⟩ := Nat.exists_eq_succ_of_ne_zero hfuel.ne'
  unfold parseOrRest
  rw [bind_ok (matchKeyword_of_other h), if_neg Bool.false_ne_true]
  rfl

/-- The condition is read as one operand of a conjunction. -/
def ReadsPrimary (c : Condition) : Prop :=
  ∀ fuel rest, 3 * c.renderPrimary.length ≤ fuel →
    parsePredicate fuel (c.renderPrimary ++ rest) = .ok (c.toExpr, rest)

/-- The condition is read as the first operands of a conjunction. -/
def ReadsAnd (c : Condition) : Prop :=
  ∀ fuel rest, 3 * c.renderAnd.length ≤ fuel →
    ∃ left, fuel ≤ left + c.renderAnd.length ∧
      parseAnd (fuel + 1) (c.renderAnd ++ rest) = parseAndRest left c.toExpr rest

/-- The condition is read as the first operands of a disjunction. -/
def ReadsOr (c : Condition) : Prop :=
  ∀ fuel token rest, IsOther "AND" token → 3 * c.render.length < fuel →
    ∃ left, fuel ≤ left + c.render.length ∧
      parseOr (fuel + 1) (c.render ++ token :: rest) = parseOrRest left c.toExpr (token :: rest)

theorem ReadsAnd.parseAnd (h : ReadsAnd c) (htoken : IsOther "AND" token)
    (hfuel : 3 * c.renderAnd.length < fuel) :
    parseAnd fuel (c.renderAnd ++ token :: rest) = .ok (c.toExpr, token :: rest) := by
  obtain ⟨fuel, rfl⟩ := Nat.exists_eq_succ_of_ne_zero (Nat.ne_zero_of_lt hfuel)
  obtain ⟨spare, hspare, heq⟩ := h fuel (token :: rest) (by omega)
  have hpos := c.renderAnd_length_pos
  rw [heq, parseAndRest_of_other htoken (by omega)]

theorem ReadsPrimary.readsAnd (hform : c.renderAnd = c.renderPrimary) (h : ReadsPrimary c) :
    ReadsAnd c := by
  intro fuel rest hfuel
  refine ⟨fuel, by omega, ?_⟩
  rw [hform] at hfuel ⊢
  unfold parseAnd
  rw [bind_ok (h fuel rest hfuel)]

theorem ReadsAnd.readsOr (hform : c.isOr = false) (h : ReadsAnd c) : ReadsOr c := by
  have hrender : c.renderAnd = c.render := by rw [renderAnd, hform]; rfl
  intro fuel token rest htoken hfuel
  refine ⟨fuel, by omega, ?_⟩
  rw [← hrender] at hfuel ⊢
  unfold parseOr
  rw [bind_ok (h.parseAnd htoken hfuel)]

theorem ReadsOr.readsPrimary (hform : c.isLogical = true) (h : ReadsOr c) : ReadsPrimary c := by
  have hrender : c.renderPrimary = parenthesized c.render := by
    rw [renderPrimary, hform]; rfl
  have hlength : c.renderPrimary.length = c.render.length + 2 := by
    simp [hrender, parenthesized]
  intro fuel rest hfuel
  obtain ⟨inner, rfl⟩ : ∃ inner, fuel = inner + 2 := ⟨fuel - 2, by omega⟩
  have hclose : ∀ keyword, IsOther keyword rParen := fun _ h => nomatch h
  obtain ⟨spare, hspare, heq⟩ := h inner rParen rest (hclose _) (by omega)
  have hinner : parseOr (inner + 1) (c.render ++ rParen :: rest) =
      .ok (c.toExpr, rParen :: rest) := by
    rw [heq, parseOrRest_of_other (hclose _) (by omega)]
  have hopen : c.renderPrimary ++ rest =
      lParen :: (c.render ++ rParen :: rest) := by
    simp [hrender, parenthesized]
  have hmatch : ∀ tail, matchType .kLParen (lParen :: tail) = .ok (true, tail) :=
    fun _ => matchType_of_eq rfl
  rw [hopen, parsePredicate]
  rw [bind_ok (hmatch _), if_pos rfl, bind_ok hinner]
  rfl

/-- Each further operand of a conjunction costs its own tokens. -/
theorem ReadsAnd.and (hleft : ReadsAnd left) (hright : ReadsPrimary right) :
    ReadsAnd (.and left right) := by
  have hrender : (Condition.and left right).renderAnd =
      left.renderAnd ++ word "AND" :: right.renderPrimary := rfl
  intro fuel rest hfuel
  simp only [hrender, List.length_append, List.length_cons] at hfuel ⊢
  obtain ⟨spare, hspare, heq⟩ :=
    hleft fuel (word "AND" :: (right.renderPrimary ++ rest)) (by omega)
  obtain ⟨spare, rfl⟩ : ∃ after, spare = after + 1 := ⟨spare - 1, by omega⟩
  refine ⟨spare, by omega, ?_⟩
  rw [List.append_assoc, List.cons_append, heq]
  rw [parseAndRest]
  rw [bind_ok (matchKeyword_word (by decide) (by decide)), if_pos rfl,
    bind_ok (hright spare rest (by omega))]
  rfl

theorem ReadsOr.or (hleft : ReadsOr left) (hright : ReadsAnd right) :
    ReadsOr (.or left right) := by
  have hor : IsOther "AND" (word "OR") := fun _ => by decide
  intro fuel token rest htoken hfuel
  simp only [Condition.render_or, List.length_append, List.length_cons] at hfuel ⊢
  obtain ⟨spare, hspare, heq⟩ :=
    hleft fuel (word "OR") (right.renderAnd ++ token :: rest) hor (by omega)
  obtain ⟨spare, rfl⟩ : ∃ after, spare = after + 1 := ⟨spare - 1, by omega⟩
  refine ⟨spare, by omega, ?_⟩
  rw [List.append_assoc, List.cons_append, heq]
  rw [parseOrRest]
  rw [bind_ok (matchKeyword_word (by decide) (by decide)), if_pos rfl,
    bind_ok (hright.parseAnd htoken (by omega))]
  rfl

theorem ReadsPrimary.of_comparison (hform : c.isLogical = false)
    (hstart : ∀ rest, ∃ o : Operand, ∃ tail, c.render ++ rest = o.token :: tail)
    (h : ∀ rest, parseComparison (c.render ++ rest) = .ok (c.toExpr, rest)) : ReadsPrimary c := by
  have hrender : c.renderPrimary = c.render := by rw [renderPrimary, hform]; rfl
  have hpos := c.render_length_pos
  intro fuel rest hfuel
  rw [hrender] at hfuel ⊢
  obtain ⟨fuel, rfl⟩ : ∃ after, fuel = after + 1 := ⟨fuel - 1, by omega⟩
  obtain ⟨o, tail, htokens⟩ := hstart rest
  have hopen : o.token.type ≠ .kLParen := by cases o <;> exact fun h => nomatch h
  have hmatch : matchType .kLParen (c.render ++ rest) = .ok (false, c.render ++ rest) := by
    rw [htokens]
    exact matchType_of_ne hopen
  rw [parsePredicate]
  rw [bind_ok hmatch, if_neg Bool.false_ne_true]
  exact h rest

theorem ReadsPrimary.all (hform : c.isLogical = false) (h : ReadsPrimary c) :
    ReadsPrimary c ∧ ReadsAnd c ∧ ReadsOr c := by
  have hor : c.isOr = false := by cases c <;> first | rfl | exact nomatch hform
  have hrender : c.renderAnd = c.renderPrimary := by
    rw [renderAnd, renderPrimary, hor, hform]
  have hand := h.readsAnd hrender
  exact ⟨h, hand, hand.readsOr hor⟩

/-- The three routines read every condition, by induction on it. -/
theorem reads (c : Condition) : ReadsPrimary c ∧ ReadsAnd c ∧ ReadsOr c := by
  induction c with
  | compare op left right =>
    apply ReadsPrimary.all rfl
    apply ReadsPrimary.of_comparison rfl (fun rest => ⟨left, _, rfl⟩)
    intro rest
    exact parseComparison_compare rest op left right
  | between value low high =>
    apply ReadsPrimary.all rfl
    apply ReadsPrimary.of_comparison rfl (fun rest => ⟨value, _, rfl⟩)
    intro rest
    exact parseComparison_between rest value low high
  | like value pattern =>
    apply ReadsPrimary.all rfl
    apply ReadsPrimary.of_comparison rfl (fun rest => ⟨value, _, rfl⟩)
    intro rest
    exact parseComparison_like rest value pattern
  | and left right ihleft ihright =>
    have hand : ReadsAnd (.and left right) := ihleft.2.1.and ihright.1
    have hor := hand.readsOr rfl
    exact ⟨hor.readsPrimary rfl, hand, hor⟩
  | or left right ihleft ihright =>
    have hor : ReadsOr (.or left right) := ihleft.2.2.or ihright.2.1
    -- a disjunction stands in parentheses in both places
    have hprimary := hor.readsPrimary rfl
    exact ⟨hprimary, hprimary.readsAnd rfl, hor⟩

/-- Every condition is read back exactly, up to the token that ends it. -/
theorem parseOr_render (c : Condition) (token : Token) (tail : List Token)
    (hend : token.type = .kSemicolon ∨ token.type = .kEof) (fuel : ℕ)
    (hfuel : fuelFor (c.render ++ token :: tail) ≤ fuel) :
    parseOr fuel (c.render ++ token :: tail) = .ok (c.toExpr, token :: tail) := by
  have hother : ∀ keyword, IsOther keyword token := by
    intro keyword htype
    rcases hend with h | h <;> exact absurd (h.symm.trans htype) (by decide)
  simp only [fuelFor, List.length_append, List.length_cons] at hfuel
  obtain ⟨fuel, rfl⟩ : ∃ after, fuel = after + 1 := ⟨fuel - 1, by omega⟩
  obtain ⟨spare, hspare, heq⟩ := (reads c).2.2 fuel token tail (hother _) (by omega)
  rw [heq, parseOrRest_of_other (hother _) (by omega)]

/-- `a BETWEEN 1 AND 2 AND (AND == NULL OR b LIKE 'x')`, where a column is called `AND`. -/
theorem parseOr_render_between :
    let c : Condition := .and
      (.between (.column (ascii "a") (by decide)) (.int 1 (by decide)) (.int 2 (by decide)))
      (.or (.compare .kEq (.column (ascii "AND") (by decide)) .null)
        (.like (.column (ascii "b") (by decide)) (.string (ascii "x"))))
    parseOr 68 (c.render ++ [⟨.kEof, []⟩]) = .ok (c.toExpr, [⟨.kEof, []⟩]) := by
  intro c
  exact parseOr_render c ⟨.kEof, []⟩ [] (.inr rfl) 68 (by decide)

end Connectives

end Parser

end CourseDb
