import RowSpec.Decimal.Numeral
import RowSpec.Text.Blank
import RowSpec.Text.Quoted
import RowSpec.Token.Basic

/-! Splitting a source into tokens. Blanks and comments are skipped; at what remains the longest
lexeme is taken. A failure covers the characters it is about, and reading goes on behind them. -/
namespace RowSpec

inductive LexError.Cause where
  | unclosedString
  | invalidNumber (text : String)
  | invalidInput (c : Char)
  deriving DecidableEq, Repr

structure LexError where
  cause : LexError.Cause
  span : Span
  deriving DecidableEq, Repr

def LexError.Cause.message : LexError.Cause → String
  | .unclosedString => "string value not closed"
  | .invalidNumber text => "invalid number " ++ text
  | .invalidInput c => "invalid input " ++ String.singleton c

def LexError.message (e : LexError) : String :=
  "lexer error: " ++ e.cause.message ++ " at " ++ e.span.render

namespace Lexer

def isNewline (c : Char) : Bool := c == '\n' || c == '\r'

def isIdentStart (c : Char) : Bool := c.isAlpha || c == '_'

def isIdentPart (c : Char) : Bool := c.isAlphanum || c == '_'

/-- Splits off the blanks and comments at the front. A comment runs from `#` to the end of its
line; `inComment` tells whether the input starts inside one. -/
def splitTrivia : Bool → List Char → List Char × List Char
  | _, [] => ([], [])
  | true, c :: cs =>
    let (trivia, rest) := splitTrivia (!isNewline c) cs
    (c :: trivia, rest)
  | false, c :: cs =>
    if Text.isBlank c || c == '#' then
      let (trivia, rest) := splitTrivia (c == '#') cs
      (c :: trivia, rest)
    else ([], c :: cs)

/-- Splits behind a reference whose first character has been read. A point belongs to it only if
another segment follows. -/
def splitReference : List Char → List Char × List Char
  | [] => ([], [])
  | '.' :: c :: cs =>
    if isIdentStart c then
      let (taken, rest) := splitReference cs
      ('.' :: c :: taken, rest)
    else ([], '.' :: c :: cs)
  | c :: cs =>
    if isIdentPart c then
      let (taken, rest) := splitReference cs
      (c :: taken, rest)
    else ([], c :: cs)

/-- The digits behind a point, if the input is a point and a digit. -/
def fractionDigits : List Char → List Char
  | '.' :: cs => cs.takeWhile Char.isDigit
  | _ => []

/-- An unsigned number: its digits before and behind the point, and what follows it. -/
def splitNumber (cs : List Char) : List Char × List Char × List Char :=
  let rest := cs.dropWhile Char.isDigit
  let fraction := fractionDigits rest
  (cs.takeWhile Char.isDigit, fraction,
    if fraction = [] then rest else rest.drop (fraction.length + 1))

structure Lexeme where
  outcome : Except LexError.Cause TokenKind
  taken : List Char
  rest : List Char

def numberKind (text : List Char) : Except LexError.Cause TokenKind :=
  match Decimal.parse? text with
  | some value => .ok (.number value)
  | none => .error (.invalidNumber (String.ofList text))

def numberLexeme (negative : Bool) (cs : List Char) : Lexeme :=
  let (whole, fraction, rest) := splitNumber cs
  let point := if fraction = [] then [] else ['.']
  let sign := if negative then ['-'] else []
  let text := sign ++ whole ++ point ++ fraction
  ⟨numberKind text, text, rest⟩

def stringLexeme (quote : Char) (cs : List Char) : Lexeme :=
  match Text.splitQuoted quote cs with
  | some (body, rest) =>
    ⟨.ok (.string (String.ofList (Text.unescape quote body))), quote :: (body ++ [quote]), rest⟩
  | none => ⟨.error .unclosedString, quote :: cs, []⟩

/-- A reference, unless its whole text is the word of an operator. -/
def wordKind (text : String) : TokenKind :=
  match Operator.ofWord? text with
  | some op => .operator op
  | none => .reference text

def referenceLexeme (c : Char) (cs : List Char) : Lexeme :=
  let (taken, rest) := splitReference cs
  ⟨.ok (wordKind (String.ofList (c :: taken))), c :: taken, rest⟩

/-- An operator that an equals sign may extend. -/
def extensible (c : Char) (alone extended : Operator) : List Char → Lexeme
  | '=' :: rest => ⟨.ok (.operator extended), [c, '='], rest⟩
  | rest => ⟨.ok (.operator alone), [c], rest⟩

def lexeme : List Char → Lexeme
  | [] => ⟨.ok .endOfInput, [], []⟩
  | '(' :: cs => ⟨.ok .openParen, ['('], cs⟩
  | ')' :: cs => ⟨.ok .closeParen, [')'], cs⟩
  | ',' :: cs => ⟨.ok .comma, [','], cs⟩
  | '=' :: cs => ⟨.ok (.operator .eq), ['='], cs⟩
  | '+' :: cs => ⟨.ok (.operator .add), ['+'], cs⟩
  | '*' :: cs => ⟨.ok (.operator .mul), ['*'], cs⟩
  | '/' :: cs => ⟨.ok (.operator .div), ['/'], cs⟩
  | '<' :: cs => extensible '<' .lt .le cs
  | '>' :: cs => extensible '>' .gt .ge cs
  | '!' :: '=' :: cs => ⟨.ok (.operator .ne), ['!', '='], cs⟩
  | '-' :: cs =>
    if cs.head?.any Char.isDigit then numberLexeme true cs
    else ⟨.ok (.operator .sub), ['-'], cs⟩
  | '\'' :: cs => stringLexeme '\'' cs
  | '"' :: cs => stringLexeme '"' cs
  | c :: cs =>
    if c.isDigit then numberLexeme false (c :: cs)
    else if isIdentStart c then referenceLexeme c cs
    else ⟨.error (.invalidInput c), [c], cs⟩

@[simp] theorem splitTrivia_append (inComment : Bool) (cs : List Char) :
    (splitTrivia inComment cs).1 ++ (splitTrivia inComment cs).2 = cs := by
  fun_induction splitTrivia inComment cs <;> simp_all

@[simp] theorem splitReference_append (cs : List Char) :
    (splitReference cs).1 ++ (splitReference cs).2 = cs := by
  fun_induction splitReference cs <;> simp_all

theorem drop_fractionDigits {cs : List Char} (h : fractionDigits cs ≠ []) :
    '.' :: (fractionDigits cs ++ cs.drop ((fractionDigits cs).length + 1)) = cs := by
  unfold fractionDigits at *
  split at h
  · next cs =>
    simpa using List.prefix_iff_eq_append.1 (List.takeWhile_prefix Char.isDigit)
  · simp at h

theorem splitNumber_append (cs : List Char) :
    (splitNumber cs).1 ++ (if (splitNumber cs).2.1 = [] then [] else ['.']) ++
      (splitNumber cs).2.1 ++ (splitNumber cs).2.2 = cs := by
  by_cases h : fractionDigits (cs.dropWhile Char.isDigit) = []
  · simp [splitNumber, h]
  · simp [splitNumber, h, drop_fractionDigits h]

theorem numberLexeme_append (negative : Bool) (cs : List Char) :
    (numberLexeme negative cs).taken ++ (numberLexeme negative cs).rest =
      (if negative then ['-'] else []) ++ cs := by
  have h := splitNumber_append cs
  simp only [List.append_assoc] at h
  simp [numberLexeme, h]

theorem stringLexeme_append (quote : Char) (cs : List Char) :
    (stringLexeme quote cs).taken ++ (stringLexeme quote cs).rest = quote :: cs := by
  unfold stringLexeme
  split
  · next body rest h => simp [Text.splitQuoted_eq_some h]
  · simp

theorem extensible_append (c : Char) (alone extended : Operator) (cs : List Char) :
    (extensible c alone extended cs).taken ++ (extensible c alone extended cs).rest = c :: cs := by
  fun_cases extensible c alone extended cs <;> rfl

/-- A lexeme and what follows it make up the input. -/
theorem lexeme_append (cs : List Char) : (lexeme cs).taken ++ (lexeme cs).rest = cs := by
  fun_cases lexeme cs <;>
    simp_all [numberLexeme_append, stringLexeme_append, extensible_append, referenceLexeme]

theorem numberLexeme_taken_ne_nil {negative : Bool} {c : Char} {cs : List Char}
    (h : c.isDigit = true) : (numberLexeme negative (c :: cs)).taken ≠ [] := by
  simp [numberLexeme, splitNumber, h]

theorem stringLexeme_taken_ne_nil (quote : Char) (cs : List Char) :
    (stringLexeme quote cs).taken ≠ [] := by
  unfold stringLexeme
  split <;> simp

theorem extensible_taken_ne_nil (c : Char) (alone extended : Operator) (cs : List Char) :
    (extensible c alone extended cs).taken ≠ [] := by
  fun_cases extensible c alone extended cs <;> simp

/-- Only the end of the input has an empty lexeme. -/
theorem lexeme_taken_ne_nil {cs : List Char} (h : cs ≠ []) : (lexeme cs).taken ≠ [] := by
  fun_cases lexeme cs
  case case12 => simp [numberLexeme]
  all_goals
    simp_all [numberLexeme_taken_ne_nil, stringLexeme_taken_ne_nil, extensible_taken_ne_nil,
      referenceLexeme]

theorem lexeme_rest_length {cs : List Char} (h : cs ≠ []) :
    (lexeme cs).rest.length < cs.length := by
  have hl := congrArg List.length (lexeme_append cs)
  have := List.length_pos_iff.2 (lexeme_taken_ne_nil h)
  simp only [List.length_append] at hl
  omega

end Lexer

structure Lexer where
  rest : List Char
  position : Nat

namespace Lexer

def ofSource (source : String) : Lexer := ⟨source.toList, 0⟩

/-- The next token or failure. At the end of the source it is the end of input, again and again. -/
def next (lexer : Lexer) : Except LexError Token × Lexer :=
  let (trivia, input) := splitTrivia false lexer.rest
  let start := lexer.position + Text.byteCount trivia
  let found := lexeme input
  let span := ⟨start, start + Text.byteCount found.taken⟩
  let result := match found.outcome with
    | .ok kind => .ok ⟨kind, span⟩
    | .error cause => .error ⟨cause, span⟩
  (result, ⟨found.rest, span.stop⟩)

theorem next_rest_length {lexer : Lexer} {token : Token} (h : lexer.next.1 = .ok token)
    (hk : token.kind ≠ .endOfInput) : lexer.next.2.rest.length < lexer.rest.length := by
  have hs := congrArg List.length (splitTrivia_append false lexer.rest)
  have hne : (splitTrivia false lexer.rest).2 ≠ [] := by
    intro hnil
    simp only [next, hnil, lexeme] at h
    exact hk (by rw [← Except.ok.inj h])
  have := lexeme_rest_length hne
  simp only [List.length_append] at hs
  simp only [next]
  omega

/-- The tokens up to and including the end of input, or the first failure. -/
def tokens (lexer : Lexer) : Except LexError (List Token) :=
  match _h : lexer.next.1 with
  | .error e => .error e
  | .ok token =>
    if _hk : token.kind = .endOfInput then .ok [token]
    else (tokens lexer.next.2).map (token :: ·)
termination_by lexer.rest.length
decreasing_by exact next_rest_length _h _hk

def take : Nat → Lexer → List (Except LexError Token)
  | 0, _ => []
  | n + 1, lexer => lexer.next.1 :: take n lexer.next.2

end Lexer

/-- Reading that stops for good at the end of input or behind a failure; `lexer` is what is left
to read, if it has not stopped. -/
structure TokenStream where
  lexer : Option Lexer

namespace TokenStream

def ofSource (source : String) : TokenStream := ⟨some (Lexer.ofSource source)⟩

/-- The next token or failure; the end of input is not handed out. -/
def next (stream : TokenStream) : Option (Except LexError Token) × TokenStream :=
  match stream.lexer with
  | none => (none, ⟨none⟩)
  | some lexer =>
    match lexer.next with
    | (.error e, _) => (some (.error e), ⟨none⟩)
    | (.ok token, lexer) =>
      if token.kind = .endOfInput then (none, ⟨none⟩) else (some (.ok token), ⟨some lexer⟩)

def take : Nat → TokenStream → List (Option (Except LexError Token))
  | 0, _ => []
  | n + 1, stream => stream.next.1 :: take n stream.next.2

end TokenStream

def tokenize (source : String) : Except LexError (List Token) := (Lexer.ofSource source).tokens

end RowSpec
