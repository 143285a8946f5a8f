/-
Reading loses nothing.

An expression has lexemes again, from left to right (`Expr.lexemes`): those of its elements in order, and for a call its
name, the parentheses, and commas between the arguments. The radix of a number is no part of an expression, so numbers
are in decimal there (`Lexeme.inDecimal`). What a list of tokens says is its content: the lexemes up to the end of input,
newlines left out.

- `Expr.induct`: induction over expressions, calls and sequences by their parts;
- `content_splitArguments`: what is set aside as arguments, with commas and the closing parenthesis, is all there is;
- `lexemes_of_readElements`: the lexemes of what is read are the content of the tokens;
- `lexemes_eq_tokens`: an expression that a line stands for has the tokens of the line, newlines left out.
-/
import Calculator.Proofs.Expr.Reading
import Calculator.Proofs.Token.Scanning

namespace Calculator

/-- a lexeme without the radix that a number is written in -/
def Lexeme.inDecimal : Lexeme → Lexeme
  | number value _ => number value .decimal
  | l => l

/-- what a lexeme says in an expression: itself, and nothing if it is a newline -/
def Lexeme.said : Lexeme → List Lexeme
  | newline => []
  | l => [l.inDecimal]

/-- lists of lexemes with commas between them -/
def withCommas (ls : List (List Lexeme)) : List Lexeme := [.punctuation .comma].intercalate ls

theorem withCommas_singleton (ls : List Lexeme) : withCommas [ls] = ls := by simp [withCommas, List.intercalate]

theorem withCommas_cons_cons (ls ms : List Lexeme) (others : List (List Lexeme)) :
    withCommas (ls :: ms :: others) = ls ++ .punctuation .comma :: withCommas (ms :: others) := by
  simp [withCommas, List.intercalate]

/-- A lexeme in front of the first list stands in front of all. -/
theorem withCommas_cons_append (ls ms : List Lexeme) (others : List (List Lexeme)) :
    withCommas ((ls ++ ms) :: others) = ls ++ withCommas (ms :: others) := by
  cases others with
  | nil => rw [withCommas_singleton, withCommas_singleton]
  | cons ns others => rw [withCommas_cons_cons, withCommas_cons_cons, List.append_assoc]

theorem mem_withCommas {lss : List (List Lexeme)} {ls : List Lexeme} (hls : ls ∈ lss) {l : Lexeme} (hl : l ∈ ls) :
    l ∈ withCommas lss := by
  induction lss with
  | nil => cases hls
  | cons ms others ih =>
    cases others with
    | nil =>
      obtain rfl := List.mem_singleton.1 hls
      rwa [withCommas_singleton]
    | cons ns others =>
      rw [withCommas_cons_cons, List.mem_append, List.mem_cons]
      rcases List.mem_cons.1 hls with rfl | hls
      · exact .inl hl
      · exact .inr (.inr (ih hls))

theorem map_withCommas {f : Lexeme → Lexeme} (hf : f (.punctuation .comma) = .punctuation .comma)
    (lss : List (List Lexeme)) : (withCommas lss).map f = withCommas (lss.map (List.map f)) := by
  induction lss with
  | nil => rfl
  | cons ls others ih =>
    cases others with
    | nil => simp [withCommas_singleton]
    | cons ms others => simp [withCommas_cons_cons, hf, ih]

namespace Expr

mutual

/-- the lexemes of an expression, from left to right -/
def lexemes : Expr → List Lexeme
  | number value => [.number value .decimal]
  | var name => [.name name]
  | call name arguments =>
    .name name :: .operator .leftParen :: (withCommas (lexemesEach arguments) ++ [.operator .rightParen])
  | sequence elements => (lexemesEach elements).flatten
  | operator op => [.operator op]

def lexemesEach : List Expr → List (List Lexeme)
  | [] => []
  | e :: es => e.lexemes :: lexemesEach es

end

theorem lexemesEach_eq_map (es : List Expr) : lexemesEach es = es.map lexemes := by
  induction es with
  | nil => rfl
  | cons e es ih => simp [lexemesEach, ih]

/-- Induction over expressions: a property of the arguments of a call holds of the call, and the same for sequences. -/
@[elab_as_elim]
theorem induct {P : Expr → Prop} (number : ∀ value, P (.number value)) (var : ∀ name, P (.var name))
    (call : ∀ name arguments, (∀ e ∈ arguments, P e) → P (.call name arguments))
    (sequence : ∀ elements, (∀ e ∈ elements, P e) → P (.sequence elements)) (operator : ∀ op, P (.operator op)) :
    ∀ e, P e
  | .number value => number value
  | .var name => var name
  | .call name arguments => call name arguments fun e _ => induct number var call sequence operator e
  | .sequence elements => sequence elements fun e _ => induct number var call sequence operator e
  | .operator op => operator op

end Expr

/-! ## The content of tokens -/

/-- the lexemes of tokens up to the end of input, newlines left out and numbers in decimal -/
def content : List Token → List Lexeme
  | [] => []
  | t :: ts => if t.lexeme = .endOfInput then [] else t.lexeme.said ++ content ts

theorem content_end {t : Token} {ts : List Token} (h : t.lexeme = .endOfInput) : content (t :: ts) = [] := by
  rw [content, if_pos h]

theorem content_cons {t : Token} {ts : List Token} (h : t.lexeme ≠ .endOfInput) :
    content (t :: ts) = t.lexeme.said ++ content ts := by
  rw [content, if_neg h]

/-- In front of the end of input, all that newlines leave is said. -/
theorem content_concat_end {ts : List Token} (hts : ∀ t ∈ ts, t.lexeme ≠ .endOfInput) (span : Span) :
    content (ts ++ [⟨.endOfInput, span⟩]) = (ts.filter (·.lexeme ≠ .newline)).map (·.lexeme.inDecimal) := by
  induction ts with
  | nil => rfl
  | cons t ts ih =>
    obtain ⟨ht, hrest⟩ := List.forall_mem_cons.1 hts
    rw [List.cons_append, content_cons ht, ih hrest]
    by_cases hnewline : t.lexeme = .newline
    · rw [hnewline, List.filter_cons_of_neg (by simp [hnewline])]
      rfl
    · have hsaid : t.lexeme.said = [t.lexeme.inDecimal] := by cases hl : t.lexeme <;> simp_all [Lexeme.said]
      rw [hsaid, List.filter_cons_of_pos (by simp [hnewline])]
      rfl

/-- Names that are said are names of tokens. -/
theorem exists_token_of_mem_content {ts : List Token} {name : String} (h : .name name ∈ content ts) :
    ∃ t ∈ ts, t.lexeme = .name name := by
  induction ts with
  | nil => cases h
  | cons t ts ih =>
    rw [content] at h
    split at h
    · cases h
    · rcases List.mem_append.1 h with h | h
      · refine ⟨t, List.mem_cons_self, ?_⟩
        cases hl : t.lexeme <;> simp_all [Lexeme.said, Lexeme.inDecimal]
      · obtain ⟨u, hu, hname⟩ := ih h
        exact ⟨u, List.mem_cons_of_mem _ hu, hname⟩

/-- A call that goes on with a further token has that token in its first argument. -/
theorem CallBody.eq_of_push_eq_closed {b : CallBody} {t : Token} {pieces : List (List Token)} {after : List Token}
    (hb : b ≠ ⟨[], .closed after⟩) (h : b.push t = ⟨pieces, .closed after⟩) :
    ∃ first others, b = ⟨first :: others, .closed after⟩ ∧ pieces = (t :: first) :: others := by
  match b with
  | ⟨[], _⟩ => cases h; exact absurd rfl hb
  | ⟨first :: others, _⟩ => cases h; exact ⟨first, others, rfl, rfl⟩

/-- A call that goes on with a comma has an empty first argument. -/
theorem CallBody.eq_of_next_eq_closed {b : CallBody} {pieces : List (List Token)} {after : List Token}
    (hb : b ≠ ⟨[], .closed after⟩) (h : b.next = ⟨pieces, .closed after⟩) :
    ∃ first others, b = ⟨first :: others, .closed after⟩ ∧ pieces = [] :: first :: others := by
  match b with
  | ⟨[], _⟩ => cases h; exact absurd rfl hb
  | ⟨first :: others, _⟩ => cases h; exact ⟨first, others, rfl, rfl⟩

/-- **A call contains its arguments.** What stands behind the opening parenthesis of a call is its arguments with commas
between them, the closing parenthesis, and what comes behind the call. -/
theorem content_splitArguments {depth : Nat} {ts after : List Token} {pieces : List (List Token)}
    (h : splitArguments depth ts = ⟨pieces, .closed after⟩) :
    content ts = withCommas (pieces.map content) ++ .operator .rightParen :: content after := by
  induction depth, ts using splitting_induct generalizing pieces with
  | nil depth => rw [splitArguments] at h; cases h
  | stop depth t rest ht => rw [splitArguments_end depth ht] at h; cases h
  | closing t rest ht =>
    rw [splitArguments_closing ht] at h
    cases h
    rw [content_cons (by simp [ht]), ht]
    rfl
  | comma t rest ht ih =>
    rw [splitArguments_comma ht] at h
    obtain ⟨first, others, hrest, rfl⟩ := CallBody.eq_of_next_eq_closed (splitArguments_ne 0 rest after) h
    rw [content_cons (by simp [ht]), ih hrest, ht]
    simp [withCommas_cons_cons, content, Lexeme.said, Lexeme.inDecimal]
  | inside depth t rest ht ih =>
    rw [splitArguments_inside ht] at h
    obtain ⟨first, others, hrest, rfl⟩ := CallBody.eq_of_push_eq_closed (splitArguments_ne _ rest after) h
    rw [content_cons ht.1, ih hrest, List.map_cons, List.map_cons, content_cons ht.1, withCommas_cons_append,
      List.append_assoc]

theorem content_callBody {ts after : List Token} {pieces : List (List Token)}
    (h : callBody ts = ⟨pieces, .closed after⟩) :
    content ts = withCommas (pieces.map content) ++ .operator .rightParen :: content after := by
  obtain ⟨arguments, hsplit, rfl⟩ := callBody_eq_closed_iff.1 h
  rw [content_splitArguments hsplit]
  split
  · rename_i hempty
    rw [hempty]
    rfl
  · rfl

/-- An element that is a token of its own has the lexeme of the token. -/
theorem Lexeme.said_of_element? {l : Lexeme} {e : Expr} (h : l.element? = some e) : l.said = e.lexemes := by
  cases l <;> cases h <;> rfl

/-- **Nothing is lost or added.** The lexemes of the elements that are read are the content of the tokens. -/
theorem lexemes_of_readElements (line : Text) :
    (∀ ts es, readElements line ts = .ok es → (Expr.lexemesEach es).flatten = content ts) ∧
      ∀ pieces arguments, readArguments line pieces = .ok arguments →
        Expr.lexemesEach arguments = pieces.map content := by
  refine reading_induct ?nil ?stop ?newline ?element ?fault ?closed ?unclosed ?none ?argument
  case nil =>
    intro es h
    rw [readElements_nil] at h
    cases h
    rfl
  case stop =>
    intro t rest ht es h
    rw [readElements_end ht] at h
    cases h
    rw [content_end ht]
    rfl
  case newline =>
    intro t rest ht ih es h
    rw [readElements_newline ht] at h
    rw [ih es h, content_cons (by simp [ht]), ht]
    rfl
  case element =>
    intro t rest e ht hcall ih es h
    rw [readElements_element ht hcall] at h
    obtain ⟨others, hrest, rfl⟩ := map_eq_ok_iff.1 h
    rw [content_cons (Lexeme.ne_endOfInput_of_element? ht), Lexeme.said_of_element? ht, ← ih others hrest]
    rfl
  case fault =>
    intro t rest f ht es h
    rw [readElements_fault ht] at h
    cases h
  case closed =>
    intro t p inner name pieces after ht hp hbody ihPieces ihAfter es h
    obtain ⟨arguments, others, hpieces, hafter, rfl⟩ := (readElements_closed_eq_ok_iff ht hp hbody).1 h
    rw [content_cons (by simp [ht]), content_cons (by simp [hp]), content_callBody hbody, ← ihPieces _ hpieces,
      ← ihAfter _ hafter, ht, hp]
    simp [Expr.lexemesEach, Expr.lexemes, Lexeme.said, Lexeme.inDecimal]
  case unclosed =>
    intro t p inner name pieces span ht hp hbody _ es h
    exact absurd h (readElements_unclosed_ne_ok ht hp hbody es)
  case none =>
    intro arguments h
    rw [readArguments_nil] at h
    cases h
    rfl
  case argument =>
    intro piece others ihPiece ihOthers arguments h
    obtain ⟨first, rest, hpiece, hothers, rfl⟩ := readArguments_cons_eq_ok_iff.1 h
    rw [List.map_cons, ← ihPiece _ hpiece, ← ihOthers _ hothers]
    rfl

theorem lexemes_of_parse {line : Text} {e : Expr} (h : Expr.parse line = .ok e) : e.lexemes = content (tokens line) := by
  rw [Expr.parse, parsing_eq_ok_iff, Expr.ofTokens] at h
  obtain ⟨es, hes, rfl⟩ := map_eq_ok_iff.1 h
  exact (lexemes_of_readElements line).1 _ es hes

/-- **An expression flattens to the tokens of its line.** From left to right, its operands, operators and calls are the
tokens in their order and with their values, none lost and none twice, but for newlines and the end of input. -/
theorem Expr.lexemes_eq_tokens {line : Text} {e : Expr} (h : Expr.parse line = .ok e) :
    e.lexemes ++ [.endOfInput] = ((tokens line).filter (·.lexeme ≠ .newline)).map (·.lexeme.inDecimal) := by
  obtain ⟨ts, span, htokens, hts⟩ := tokens_eq_append line
  rw [lexemes_of_parse h, htokens, content_concat_end hts, List.filter_append, List.map_append]
  rfl

/-- nested calls with an empty argument and a newline, and a parenthesis that is never closed -/
def nestedCalls : Text := "f(g(x,),\n-0x2)*(y".toList

def nestedCallsExpr : Expr :=
  .sequence
    [.call "f" [.sequence [.call "g" [.sequence [.var "x"], .sequence []]],
      .sequence [.number (-Radix.hexadecimal.value ['2'] [])]],
    .operator .multiply, .operator .leftParen, .var "y"]

/-- The comma in front of an empty argument is kept, and the newline is not. -/
theorem lexemes_eq_tokens_nestedCalls :
    Expr.parse nestedCalls = .ok nestedCallsExpr ∧
      nestedCallsExpr.lexemes ++ [.endOfInput] =
        ((tokens nestedCalls).filter (·.lexeme ≠ .newline)).map (·.lexeme.inDecimal) := by
  have htokens : tokens nestedCalls =
      [⟨.name "f", ⟨0, 1⟩⟩, ⟨.operator .leftParen, ⟨1, 2⟩⟩, ⟨.name "g", ⟨2, 3⟩⟩, ⟨.operator .leftParen, ⟨3, 4⟩⟩,
        ⟨.name "x", ⟨4, 5⟩⟩, ⟨.punctuation .comma, ⟨5, 6⟩⟩, ⟨.operator .rightParen, ⟨6, 7⟩⟩,
        ⟨.punctuation .comma, ⟨7, 8⟩⟩, ⟨.newline, ⟨8, 9⟩⟩,
        ⟨.number (-Radix.hexadecimal.value ['2'] []) .hexadecimal, ⟨9, 13⟩⟩, ⟨.operator .rightParen, ⟨13, 14⟩⟩,
        ⟨.operator .multiply, ⟨14, 15⟩⟩, ⟨.operator .leftParen, ⟨15, 16⟩⟩, ⟨.name "y", ⟨16, 17⟩⟩,
        ⟨.endOfInput, ⟨17, 18⟩⟩] := by decide +kernel
  have hparse : Expr.parse nestedCalls = .ok nestedCallsExpr := by
    rw [Expr.parse, htokens]
    with_unfolding_all rfl
  exact ⟨hparse, Expr.lexemes_eq_tokens hparse⟩

end Calculator
