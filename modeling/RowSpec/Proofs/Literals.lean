import RowSpec.Proofs.LongestMatch
import RowSpec.Proofs.Unfolding

/-! String literals. The printer of expressions and the compiler write the same literal for a text:
its backslashes are doubled, then its quotes are escaped. Whatever stands behind such a literal, the
lexer reads the text back from it and goes on right behind the closing quote. -/
namespace RowSpec

namespace Text

def replaceChar (old : Char) (new : List Char) (cs : List Char) : List Char :=
  cs.flatMap fun c => if c = old then new else [c]

/-- Escaping a character at a time is escaping in two passes, the backslashes first: the other way
round the backslash in front of a quote would be doubled too. -/
theorem flatMap_escapeChar (cs : List Char) : cs.flatMap escapeChar =
    replaceChar '\'' ['\\', '\''] (replaceChar '\\' ['\\', '\\'] cs) := by
  induction cs with
  | nil => rfl
  | cons c cs ih =>
    have hcons : ∀ old new, replaceChar old new (c :: cs) =
        (if c = old then new else [c]) ++ replaceChar old new cs := fun _ _ => rfl
    have happend : ∀ xs ys, replaceChar '\'' ['\\', '\''] (xs ++ ys) =
        replaceChar '\'' ['\\', '\''] xs ++ replaceChar '\'' ['\\', '\''] ys :=
      fun _ _ => List.flatMap_append
    rw [List.flatMap_cons, ih, hcons, happend]
    congr 1
    by_cases hb : c = '\\'
    · simp [hb, escapeChar, replaceChar]
    · simp [hb, escapeChar, replaceChar]

theorem toList_quote (s : String) : (quote s).toList =
    '\'' :: (replaceChar '\'' ['\\', '\''] (replaceChar '\\' ['\\', '\\'] s.toList) ++ ['\'']) := by
  rw [← flatMap_escapeChar, quote, String.toList_ofList]

end Text

namespace Lexer

/-- A literal is one token, whatever follows it. -/
theorem next_quote (value rest : String) (position : Nat) :
    next ⟨(Text.quote value ++ rest).toList, position⟩ =
      (.ok ⟨.string value, ⟨position, position + (Text.quote value).utf8ByteSize⟩⟩,
        ⟨rest.toList, position + (Text.quote value).utf8ByteSize⟩) := by
  have hsplit : splitTrivia false ((Text.quote value).toList ++ rest.toList) =
      ([], (Text.quote value).toList ++ rest.toList) := by
    rw [Text.toList_quote]
    rfl
  rw [String.toList_append, ← Text.byteCount_toList]
  simp only [next, hsplit, lexeme_quote]
  rfl

/-- What is read at a quote is a string. -/
theorem kind_of_next_quote {lexer : Lexer} {quote : Char} {cs : List Char}
    (hsplit : (splitTrivia false lexer.rest).2 = quote :: cs) (hq : quote = '\'' ∨ quote = '"')
    {token : Token} (h : lexer.next.1 = .ok token) : ∃ value, token.kind = .string value := by
  have houtcome := outcome_of_next h
  have hstring : lexeme (quote :: cs) = stringLexeme quote cs := by
    rcases hq with rfl | rfl
    · rfl
    · rfl
  rw [hsplit, hstring, stringLexeme] at houtcome
  split at houtcome
  · exact ⟨_, (Except.ok.inj houtcome).symm⟩
  · cases houtcome

end Lexer

/-- Nothing breaks out of a string literal. What is written for a text, by the printer and in SQL
alike, is read back in front of any rest as one token that stands for the text and ends with the
literal. So a token that was read at a quote of either kind can be written and read again. -/
theorem literals_read_back (schema : Schema) (draft : Sql.Draft) (id : NodeId) :
    (∀ value : String, ∃ literal : String, (Expr.string id value).render = literal ∧
      (∃ term, (Sql.compile schema (.string id value)).run draft = (.ok term, draft) ∧
        term.render = literal) ∧
      literal.toList = '\'' :: (Text.replaceChar '\'' ['\\', '\'']
        (Text.replaceChar '\\' ['\\', '\\'] value.toList) ++ ['\'']) ∧
      ∀ (rest : String) (position : Nat), Lexer.next ⟨(literal ++ rest).toList, position⟩ =
        (.ok ⟨.string value, ⟨position, position + literal.utf8ByteSize⟩⟩,
          ⟨rest.toList, position + literal.utf8ByteSize⟩)) ∧
    ∀ (lexer : Lexer) quote cs token, (Lexer.splitTrivia false lexer.rest).2 = quote :: cs →
      quote = '\'' ∨ quote = '"' → lexer.next.1 = .ok token →
      ∃ value, token.kind = .string value ∧ ∀ rest : String, ∃ again,
        (Lexer.ofSource ((Expr.string id value).render ++ rest)).next.1 = .ok again ∧
          again.kind = .string value := by
  constructor
  · intro value
    refine ⟨Text.quote value, ?_, ⟨.string value, ?_, ?_⟩, ?_, ?_⟩
    · rw [Expr.render]
    · rw [Sql.compile_constant rfl]
      rfl
    · rw [Sql.Term.render]
    · exact Text.toList_quote value
    · exact Lexer.next_quote value
  · intro lexer quote cs token hsplit hq h
    obtain ⟨value, hvalue⟩ := Lexer.kind_of_next_quote hsplit hq h
    refine ⟨value, hvalue, fun rest => ?_⟩
    have hagain := congrArg Prod.fst (Lexer.next_quote value rest 0)
    rw [Expr.render]
    exact ⟨_, hagain, rfl⟩

/-- A backslash at the end of a text does not escape the quote that closes the literal, and a string
in double quotes may have single ones in it. -/
theorem literals_read_back_backslash :
    (∃ literal, (Expr.string (⟨1⟩ : NodeId) "a'\\").render = literal ∧
      Lexer.next ⟨(literal ++ "' or 'x").toList, 0⟩ =
        (.ok ⟨.string "a'\\", ⟨0, literal.utf8ByteSize⟩⟩,
          ⟨"' or 'x".toList, literal.utf8ByteSize⟩)) ∧
    ∃ value, value = "it's" ∧ ∃ again,
      (Lexer.ofSource ((Expr.string (⟨1⟩ : NodeId) value).render ++ "é")).next.1 = .ok again ∧
        again.kind = .string value := by
  obtain ⟨hwritten, hread⟩ := literals_read_back Schema.empty (.ofTable "T") ⟨1⟩
  constructor
  · obtain ⟨literal, hliteral, _, _, hnext⟩ := hwritten "a'\\"
    have hstart := hnext "' or 'x" 0
    rw [Nat.zero_add] at hstart
    exact ⟨literal, hliteral, hstart⟩
  · have htoken : (Lexer.next ⟨[' ', '"', 'i', 't', '\'', 's', '"'], 3⟩).1 =
        .ok ⟨.string "it's", ⟨4, 10⟩⟩ := by rfl
    obtain ⟨value, hvalue, hagain⟩ :=
      hread ⟨[' ', '"', 'i', 't', '\'', 's', '"'], 3⟩ '"' _ _ rfl (Or.inr rfl) htoken
    exact ⟨value, (TokenKind.string.inj hvalue).symm, hagain "é"⟩

end RowSpec
