import CourseDb.Parser.Lexer

/-! # What the lexer makes of a text

Every round of the lexer consumes a character, so that a text is cut to its end
unless a character is refused or a quote is missing. A quoted literal stands for
its content, whatever that is, and ends where it was closed.
-/

namespace CourseDb.Lexer

variable {ch quote : Byte} {rest rest' literal after text : ByteString} {token : Option Token}
  {failure : ParseFailure}

/-! ## Rounds -/

theorem spanWord_length (text : ByteString) : (spanWord text).2.length ≤ text.length := by
  induction text with
  | nil => rfl
  | cons c text ih =>
    rw [spanWord]
    split_ifs
    · exact ih.trans (Nat.le_succ _)
    · exact le_rfl

theorem spanLiteral_length (h : spanLiteral quote text = some (literal, rest)) :
    rest.length ≤ text.length := by
  induction text using spanLiteral.induct quote generalizing literal rest with
  | case1 => cases h
  | case2 =>
    rw [spanLiteral, if_pos rfl] at h
    cases h
    exact Nat.zero_le _
  | case3 c hquote =>
    rw [spanLiteral, if_neg hquote] at h
    cases h
  | case4 d text =>
    rw [spanLiteral, if_pos rfl] at h
    cases h
    exact Nat.le_succ _
  | case5 d text hquote ih =>
    rw [spanLiteral, if_neg hquote, if_pos rfl] at h
    obtain ⟨⟨literal', rest'⟩, htail, heq⟩ := Option.map_eq_some_iff.mp h
    cases heq
    exact (ih htail).trans (Nat.le_add_right _ 2)
  | case6 c d text hquote hescape ih =>
    rw [spanLiteral, if_neg hquote, if_neg hescape] at h
    obtain ⟨⟨literal', rest'⟩, htail, heq⟩ := Option.map_eq_some_iff.mp h
    cases heq
    exact (ih htail).trans (Nat.le_succ _)

theorem symbol_ne (b : Byte) : symbol b ≠ some .kEof ∧ symbol b ≠ some .kNumber := by
  unfold symbol
  split_ifs <;> simp

theorem doubleSymbol_ne (a b : Byte) :
    doubleSymbol a b ≠ some .kEof ∧ doubleSymbol a b ≠ some .kNumber := by
  unfold doubleSymbol
  split_ifs <;> simp

/-- A token of a round: never the end, and a number only if it consists of digits. -/
structure IsRound (token : Option Token) (rest rest' : ByteString) : Prop where
  length_le : rest'.length ≤ rest.length
  type_ne : ∀ t ∈ token, t.type ≠ .kEof
  number : ∀ t ∈ token, t.type = .kNumber → t.lexeme.all isDigit

theorem lexSymbol_ok (h : lexSymbol ch rest = .ok (token, rest')) : IsRound token rest rest' := by
  unfold lexSymbol at h
  rcases htype : symbol ch with _ | type
  · rw [htype] at h
    cases h
  · rw [htype] at h
    cases h
    obtain ⟨hend, hnumber⟩ := symbol_ne ch
    rw [htype] at hend hnumber
    refine ⟨le_rfl, ?_, ?_⟩
    · rintro t ⟨⟩ heq
      exact hend (congrArg some heq)
    · rintro t ⟨⟩ heq
      exact absurd (congrArg some heq) hnumber

theorem nextToken_ok (h : nextToken ch rest = .ok (token, rest')) : IsRound token rest rest' := by
  unfold nextToken at h
  split_ifs at h with hspace hword hdigit hquote
  · cases h
    exact ⟨le_rfl, by simp, by simp⟩
  · cases h
    exact ⟨spanWord_length rest, by simp, by simp⟩
  · cases h
    refine ⟨(List.dropWhile_suffix _).length_le, ?_, ?_⟩
    · rintro t ⟨⟩
      split_ifs <;> simp
    · rintro t ⟨⟩ htype
      split_ifs at htype with hall
      rw [List.all_cons, hdigit, hall]
      rfl
  · rcases hspan : spanLiteral ch rest with _ | ⟨literal, rest₁⟩
    · rw [hspan] at h
      cases h
    · rw [hspan] at h
      cases h
      exact ⟨spanLiteral_length hspan, by simp, by simp⟩
  · cases rest with
    | nil => exact lexSymbol_ok h
    | cons next tail =>
      dsimp only at h
      rcases htype : doubleSymbol ch next with _ | type
      · rw [htype] at h
        exact lexSymbol_ok h
      · rw [htype] at h
        cases h
        obtain ⟨hend, hnumber⟩ := doubleSymbol_ne ch next
        rw [htype] at hend hnumber
        refine ⟨Nat.le_succ _, ?_, ?_⟩
        · rintro t ⟨⟩ heq
          exact hend (congrArg some heq)
        · rintro t ⟨⟩ heq
          exact absurd (congrArg some heq) hnumber

theorem lexSymbol_error (h : lexSymbol ch rest = .error failure) :
    ∃ message, failure = .parseError message := by
  unfold lexSymbol at h
  rcases htype : symbol ch with _ | type
  · rw [htype] at h
    exact ⟨_, (Except.error.inj h).symm⟩
  · rw [htype] at h
    cases h

theorem nextToken_error (h : nextToken ch rest = .error failure) :
    ∃ message, failure = .parseError message := by
  unfold nextToken at h
  split_ifs at h with hspace hword hdigit hquote
  · rcases hspan : spanLiteral ch rest with _ | ⟨literal, rest₁⟩
    · rw [hspan] at h
      exact ⟨_, (Except.error.inj h).symm⟩
    · rw [hspan] at h
      cases h
  · cases rest with
    | nil => exact lexSymbol_error h
    | cons next tail =>
      dsimp only at h
      rcases htype : doubleSymbol ch next with _ | type
      · rw [htype] at h
        exact lexSymbol_error h
      · rw [htype] at h
        cases h

/-! ## Whole texts -/

/-- Fuel beyond the length of the text does not matter. -/
theorem tokenizeFrom_eq {fuel : ℕ} (h : text.length ≤ fuel) :
    tokenizeFrom fuel text = tokenize text := by
  induction fuel using Nat.strong_induction_on generalizing text with
  | _ fuel ih =>
    cases text with
    | nil => cases fuel <;> rfl
    | cons ch text =>
      obtain ⟨fuel, rfl⟩ : ∃ m, fuel = m + 1 := ⟨fuel - 1, by rw [List.length_cons] at h; omega⟩
      have hlen : text.length ≤ fuel := Nat.le_of_succ_le_succ h
      unfold tokenize
      rw [List.length_cons, tokenizeFrom, tokenizeFrom]
      rcases hnext : nextToken ch text with failure | ⟨token, rest⟩
      · rfl
      · have hrest := (nextToken_ok hnext).length_le
        change (tokenizeFrom fuel rest >>= _) = tokenizeFrom text.length rest >>= _
        rw [ih fuel (Nat.lt_succ_self _) (hrest.trans hlen),
          ih text.length (Nat.lt_succ_of_le hlen) hrest]

theorem tokenize_cons (ch : Byte) (text : ByteString) :
    tokenize (ch :: text) = nextToken ch text >>= fun r =>
      tokenize r.2 >>= fun tokens => pure (r.1.toList ++ tokens) := by
  change (nextToken ch text >>= fun r => tokenizeFrom text.length r.2 >>= fun tokens =>
    pure (r.1.toList ++ tokens)) = _
  rcases hnext : nextToken ch text with failure | ⟨token, rest⟩
  · rfl
  · change (tokenizeFrom text.length rest >>= _) = tokenize rest >>= _
    rw [tokenizeFrom_eq (nextToken_ok hnext).length_le]

/-- A property of texts holds if every round hands it on. -/
theorem text_induction {P : ByteString → Prop} (hnil : P [])
    (hcons : ∀ ch text, (∀ token rest, nextToken ch text = .ok (token, rest) → P rest) →
      P (ch :: text)) (text : ByteString) : P text := by
  induction hlen : text.length using Nat.strong_induction_on generalizing text with
  | _ n ih =>
    cases text with
    | nil => exact hnil
    | cons ch text =>
      apply hcons
      intro token rest hnext
      have hle := (nextToken_ok hnext).length_le
      rw [List.length_cons] at hlen
      exact ih rest.length (by omega) rest rfl

/-- The tokens before the end, as they are made by the lexer. -/
def IsLexedBody (tokens : List Token) : Prop :=
  ∀ t ∈ tokens, t.type ≠ .kEof ∧ (t.type = .kNumber → t.lexeme.all isDigit)

/-- A text is cut into tokens that end with the end token, or it is refused. -/
theorem tokenize_cases (text : ByteString) :
    (∃ message, tokenize text = .error (.parseError message)) ∨
      ∃ body, tokenize text = .ok (body ++ [{ type := .kEof }]) ∧ IsLexedBody body := by
  induction text using text_induction with
  | hnil => exact .inr ⟨[], rfl, by simp [IsLexedBody]⟩
  | hcons ch text ih =>
    rw [tokenize_cons]
    rcases hnext : nextToken ch text with failure | ⟨token, rest⟩
    · obtain ⟨message, rfl⟩ := nextToken_error hnext
      exact .inl ⟨message, rfl⟩
    · have hround := nextToken_ok hnext
      rcases ih token rest hnext with ⟨message, herror⟩ | ⟨body, hok, hbody⟩
      · left
        refine ⟨message, ?_⟩
        change (tokenize rest >>= _) = _
        rw [herror]
        rfl
      · right
        refine ⟨token.toList ++ body, ?_, ?_⟩
        · change (tokenize rest >>= _) = _
          rw [hok, List.append_assoc]
          rfl
        · intro t hmem
          rcases List.mem_append.mp hmem with hmem | hmem
          · have hmem' : t ∈ token := Option.mem_toList.mp hmem
            exact ⟨hround.type_ne t hmem', hround.number t hmem'⟩
          · exact hbody t hmem

/-! ## Quoted literals -/

def IsQuote (b : Byte) : Prop := b = doubleQuote ∨ b = singleQuote

/-- The content of a literal, with a backslash before every quote and every backslash. -/
def escape (q : Byte) (content : ByteString) : ByteString :=
  content.flatMap fun b => if b = q ∨ b = backslash then [backslash, b] else [b]

def literalText (q : Byte) (content : ByteString) : ByteString := q :: escape q content ++ [q]

def unterminated : ParseFailure := .parseError "unterminated string literal"

section Quotes

variable {q : Byte} {more : ByteString} {p : Byte → Bool}

theorem spanLiteral_cons {c : Byte} (hquote : c ≠ q) (hescape : c ≠ backslash) (htext : text ≠ []) :
    spanLiteral q (c :: text) = (spanLiteral q text).map fun r => (c :: r.1, r.2) := by
  cases text with
  | nil => exact absurd rfl htext
  | cons d text => rw [spanLiteral, if_neg hquote, if_neg hescape]

/-- Whatever the content is, the literal ends at its closing quote. -/
theorem spanLiteral_escape (hq : IsQuote q) (content after : ByteString) :
    spanLiteral q (escape q content ++ q :: after) = some (content, after) := by
  have hne : backslash ≠ q := by
    rintro rfl
    rcases hq with h | h <;> cases h
  induction content with
  | nil =>
    cases after with
    | nil => exact if_pos rfl
    | cons d after => exact if_pos rfl
  | cons b content ih =>
    by_cases hspecial : b = q ∨ b = backslash
    · have hescape : escape q (b :: content) = backslash :: b :: escape q content := by
        rw [escape, List.flatMap_cons, if_pos hspecial]
        rfl
      rw [hescape, List.cons_append, List.cons_append, spanLiteral, if_neg hne, if_pos rfl, ih]
      rfl
    · have hescape : escape q (b :: content) = b :: escape q content := by
        rw [escape, List.flatMap_cons, if_neg hspecial]
        rfl
      push Not at hspecial
      rw [hescape, List.cons_append, spanLiteral_cons hspecial.1 hspecial.2 (by simp), ih]
      rfl

/-! ### Text before a quote -/

theorem spanWord_append (hq : IsQuote q) (text : ByteString) :
    spanWord (text ++ q :: more) = ((spanWord text).1, (spanWord text).2 ++ q :: more) := by
  have hpart : isIdentifierPart q = false := by rcases hq with rfl | rfl <;> rfl
  have halnum : isAlnum q = false := by rcases hq with rfl | rfl <;> rfl
  have hminus : q ≠ minus := by rcases hq with rfl | rfl <;> decide
  induction text with
  | nil => simp [spanWord, hpart, hminus]
  | cons c text ih =>
    -- a minus sign at the end of the text is followed by the quote, not by a letter
    have hnext : ((text ++ q :: more).head?.any isAlnum) = text.head?.any isAlnum := by
      cases text with
      | nil => simp [halnum]
      | cons d text => rfl
    rw [List.cons_append, spanWord, spanWord, hnext, ih]
    split_ifs <;> rfl

theorem takeWhile_append_cons (hq : p q = false) (text : ByteString) :
    (text ++ q :: more).takeWhile p = text.takeWhile p := by
  induction text with
  | nil => simp [hq]
  | cons c text ih => simp [List.takeWhile_cons, ih]

theorem dropWhile_append_cons (hq : p q = false) (text : ByteString) :
    (text ++ q :: more).dropWhile p = text.dropWhile p ++ q :: more := by
  induction text with
  | nil => simp [hq]
  | cons c text ih =>
    rw [List.cons_append, List.dropWhile_cons, List.dropWhile_cons, ih]
    split_ifs <;> rfl

theorem spanLiteral_append (h : spanLiteral quote text = some (literal, rest)) (more : ByteString) :
    spanLiteral quote (text ++ more) = some (literal, rest ++ more) := by
  induction text using spanLiteral.induct quote generalizing literal rest with
  | case1 => cases h
  | case2 =>
    rw [spanLiteral, if_pos rfl] at h
    cases h
    cases more with
    | nil => exact if_pos rfl
    | cons d more => exact if_pos rfl
  | case3 c hquote =>
    rw [spanLiteral, if_neg hquote] at h
    cases h
  | case4 d text =>
    rw [spanLiteral, if_pos rfl] at h
    cases h
    exact if_pos rfl
  | case5 d text hquote ih =>
    rw [spanLiteral, if_neg hquote, if_pos rfl] at h
    obtain ⟨⟨literal', rest'⟩, htail, heq⟩ := Option.map_eq_some_iff.mp h
    cases heq
    rw [List.cons_append, List.cons_append, spanLiteral, if_neg hquote, if_pos rfl, ih htail]
    rfl
  | case6 c d text hquote hescape ih =>
    rw [spanLiteral, if_neg hquote, if_neg hescape] at h
    obtain ⟨⟨literal', rest'⟩, htail, heq⟩ := Option.map_eq_some_iff.mp h
    cases heq
    rw [List.cons_append, spanLiteral_cons hquote hescape (by simp), ih htail]
    rfl

theorem lexSymbol_append (ch : Byte) (text more : ByteString) :
    lexSymbol ch (text ++ more) = (lexSymbol ch text).map fun r => (r.1, r.2 ++ more) := by
  unfold lexSymbol
  rcases symbol ch with _ | type
  · rfl
  · rfl

/-- No symbol of two characters ends with a quote. -/
theorem doubleSymbol_quote (hq : IsQuote q) (a : Byte) : doubleSymbol a q = none := by
  have hne : q ≠ 61 := by rcases hq with rfl | rfl <;> decide
  unfold doubleSymbol
  simp [ascii, hne]

/-- A round that does not end inside a literal is the same before a quote. -/
theorem nextToken_append (hq : IsQuote q) (h : nextToken ch text ≠ .error unterminated) :
    nextToken ch (text ++ q :: more) =
      (nextToken ch text).map fun r => (r.1, r.2 ++ q :: more) := by
  have hpart : isNumberPart q = false := by rcases hq with rfl | rfl <;> rfl
  unfold nextToken at h ⊢
  split_ifs at h ⊢ with hspace hword hdigit hquote
  · rfl
  · rw [spanWord_append hq]
    rfl
  · rw [takeWhile_append_cons hpart, dropWhile_append_cons hpart]
    rfl
  · rcases hspan : spanLiteral ch text with _ | ⟨literal, rest⟩
    · rw [hspan] at h
      exact absurd rfl h
    · rw [spanLiteral_append hspan]
      rfl
  · cases text with
    | nil =>
      dsimp only [List.nil_append]
      rw [doubleSymbol_quote hq]
      exact lexSymbol_append ch [] _
    | cons next tail =>
      dsimp only [List.cons_append]
      rcases doubleSymbol ch next with _ | type
      · exact lexSymbol_append ch (next :: tail) _
      · rfl

theorem nextToken_literal (hq : IsQuote q) (content after : ByteString) :
    nextToken q (escape q content ++ q :: after) = .ok (some ⟨.kString, content⟩, after) := by
  have hspace : ¬ isSpace q = true := by rcases hq with rfl | rfl <;> decide
  have hword : ¬ isIdentifierStart q = true := by rcases hq with rfl | rfl <;> decide
  have hdigit : ¬ isDigit q = true := by rcases hq with rfl | rfl <;> decide
  unfold nextToken
  rw [if_neg hspace, if_neg hword, if_neg hdigit,
    if_pos (show q = doubleQuote ∨ q = singleQuote from hq), spanLiteral_escape hq]

/-- If the text before does not leave a literal open, a quoted literal becomes one token with its
content, and the text around it is cut as it is for every other literal. -/
theorem tokenize_literal (hq : IsQuote q) (before content after : ByteString)
    (hopen : tokenize before ≠ .error unterminated) :
    tokenize (before ++ literalText q content ++ after) =
      tokenize before >>= fun tokens => tokenize after >>= fun others =>
        pure (tokens.dropLast ++ ⟨.kString, content⟩ :: others) := by
  have htext (more : ByteString) : more ++ literalText q content ++ after =
      more ++ q :: (escape q content ++ q :: after) := by simp [literalText]
  induction before using text_induction with
  | hnil =>
    rw [htext, List.nil_append, tokenize_cons, nextToken_literal hq]
    rfl
  | hcons ch text ih =>
    have hround : nextToken ch text ≠ .error unterminated := by
      intro herror
      rw [tokenize_cons, herror] at hopen
      exact hopen rfl
    rw [htext, List.cons_append, tokenize_cons, tokenize_cons, nextToken_append hq hround]
    rcases hnext : nextToken ch text with failure | ⟨token, rest⟩
    · rfl
    have hrest : tokenize rest ≠ .error unterminated := by
      intro herror
      apply hopen
      rw [tokenize_cons, hnext]
      change (tokenize rest >>= _) = _
      rw [herror]
      rfl
    have hih := ih token rest hnext hrest
    rw [htext] at hih
    change (tokenize (rest ++ q :: _) >>= _) = (tokenize rest >>= _) >>= _
    rw [hih]
    rcases tokenize_cases rest with ⟨message, herror⟩ | ⟨body, hbody, -⟩
    · rw [herror]
      rfl
    · rw [hbody]
      rcases tokenize after with failure | others
      · rfl
      · change Except.ok _ = Except.ok _
        rw [← List.append_assoc, ← List.append_assoc, List.dropLast_concat, List.dropLast_concat,
          List.append_assoc]

/-- A literal with both quotes and a backslash before its closing quote, between two symbols. -/
theorem tokenize_literal_mixed :
    tokenize (ascii "=") ≠ .error unterminated ∧
      tokenize (ascii "=" ++ literalText singleQuote (ascii "a'\"\\") ++ ascii ";") =
        .ok [⟨.kEq, ascii "="⟩, ⟨.kString, ascii "a'\"\\"⟩, ⟨.kSemicolon, ascii ";"⟩, {}] := by
  have hopen : tokenize (ascii "=") ≠ .error unterminated := by decide +kernel
  refine ⟨hopen, ?_⟩
  rw [tokenize_literal (.inr rfl) (ascii "=") (ascii "a'\"\\") (ascii ";") hopen]
  decide +kernel

/-- After a quote that is open, the first quote of the literal closes it. -/
theorem tokenize_literal_closes_open :
    tokenize (ascii "'" ++ literalText singleQuote (ascii "a") ++ ascii "'") =
      .ok [⟨.kString, []⟩, ⟨.kIdentifier, ascii "a"⟩, ⟨.kString, []⟩, {}] := by
  decide +kernel

end Quotes

end CourseDb.Lexer
