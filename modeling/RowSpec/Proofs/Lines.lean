import Mathlib.Data.List.Basic
import RowSpec.Proofs.LongestMatch

/-! Lines of a source. A line end extends no lexeme and ends every comment. So a source whose tokens
can all be read keeps them when another line is put behind it, and that line is read as if it stood
alone, further on by the bytes in front of it. -/
namespace RowSpec

def Span.shift (n : Nat) (s : Span) : Span := ⟨s.start + n, s.stop + n⟩

def Token.shift (n : Nat) (t : Token) : Token := ⟨t.kind, t.span.shift n⟩

def LexError.shift (n : Nat) (e : LexError) : LexError := ⟨e.cause, e.span.shift n⟩

def IsPlain (c : Char) : Prop := c = '-' ∨ c = '.' ∨ Lexer.isIdentPart c = true

theorem IsReference.isPlain {cs : List Char} (h : IsReference cs) : ∀ c ∈ cs, IsPlain c := by
  obtain ⟨part, parts, hall, rfl⟩ := h
  intro c hc
  rcases List.mem_append.mp hc with hc | hc
  · exact Or.inr (Or.inr ((hall part (by simp)).isIdentPart c hc))
  · obtain ⟨p, hp, hc⟩ := List.mem_flatMap.mp hc
    rcases List.mem_cons.mp hc with rfl | hc
    · exact Or.inr (Or.inl rfl)
    · exact Or.inr (Or.inr ((hall p (by simp [hp])).isIdentPart c hc))

theorem isPlain_numeral {negative : Bool} {whole fraction : List Char}
    (hd : ∀ c ∈ whole ++ fraction, c.isDigit = true) :
    ∀ c ∈ numeral negative whole fraction, IsPlain c := by
  have digit : ∀ c ∈ whole ++ fraction, IsPlain c :=
    fun c hc => Or.inr (Or.inr (Lexer.isIdentPart_of_isDigit (hd c hc)))
  obtain ⟨hw, hf⟩ := List.forall_mem_append.mp digit
  refine List.forall_mem_append.mpr ⟨List.forall_mem_append.mpr ⟨?_, hw⟩, ?_⟩
  · cases negative <;> simp [IsPlain]
  · split
    · simp
    · exact List.forall_mem_cons.mpr ⟨Or.inr (Or.inl rfl), hf⟩

def IsQuoted (text : List Char) : Prop :=
  ∃ quote body value, (quote = '\'' ∨ quote = '"') ∧ Quotes quote body value ∧
    text = quote :: (body ++ [quote])

/-- Only strings have line ends or quotes in them. -/
theorem Denotes.isQuoted_or {text : List Char} {kind : TokenKind} (h : Denotes text kind) :
    IsQuoted text ∨ ∀ c ∈ text, c ∉ ['\n', '\'', '"'] := by
  have plain : ∀ cs : List Char, (∀ c ∈ cs, IsPlain c) → ∀ c ∈ cs, c ∉ ['\n', '\'', '"'] := by
    intro cs hcs c hc hm
    have hp := hcs c hc
    simp only [List.mem_cons, List.not_mem_nil, or_false] at hm
    rcases hm with rfl | rfl | rfl <;> simp [IsPlain, Lexer.isIdentPart] at hp
  cases h with
  | conjunction h | disjunction h | reference h => exact Or.inr (plain _ h.isPlain)
  | number negative hne hd => exact Or.inr (plain _ (isPlain_numeral hd))
  | string hq h => exact Or.inl ⟨_, _, _, hq, h, rfl⟩
  | @symbol op h => right; cases op <;> simp [Operator.render]
  | openParen | closeParen | comma => right; simp

/-- No string goes on behind the quote that closes it. -/
theorem IsQuoted.eq_of_isPrefix {a b : List Char} (ha : IsQuoted a) (hb : IsQuoted b)
    (h : a <+: b) : a = b := by
  obtain ⟨rest, hrest⟩ := h
  obtain ⟨p, body, value, hp, hbody, rfl⟩ := ha
  obtain ⟨q, body', value', hq, hbody', rfl⟩ := hb
  have hfirst := Lexer.lexeme_string hp hbody rest
  have hwhole := Lexer.lexeme_string hq hbody' []
  rw [List.append_nil, ← hrest, hfirst] at hwhole
  rw [← hrest]
  exact congrArg Lexer.Lexeme.taken hwhole

/-- A line end behind the input makes no match longer. -/
theorem IsLongest.append_line {input text : List Char} {kind : TokenKind}
    (h : IsLongest input text kind) (more : List Char) :
    IsLongest (input ++ '\n' :: more) text kind := by
  refine ⟨h.isPrefix.trans (List.prefix_append _ _), h.denotes, ?_⟩
  intro other kind' hother hdenotes
  by_cases hlength : other.length ≤ input.length
  · have hwithin := List.prefix_of_prefix_length_le hother (List.prefix_append _ _) hlength
    exact h.longest other kind' hwithin hdenotes
  · -- the other text reaches over the line end, so it is a string, and with it the found text
    have hline : input ++ ['\n'] <+: input ++ '\n' :: more := ⟨more, by simp⟩
    have hover : input ++ ['\n'] <+: other := by
      apply List.prefix_of_prefix_length_le hline hother
      rw [List.length_append, List.length_singleton]
      omega
    have hquoted : IsQuoted other := by
      rcases hdenotes.isQuoted_or with hq | hplain
      · exact hq
      · exact absurd (by simp) (hplain '\n' (hover.subset (by simp)))
    have hfront : text <+: other :=
      h.isPrefix.trans ((List.prefix_append _ _).trans hover)
    have htext : IsQuoted text := by
      rcases h.denotes.isQuoted_or with hq | hplain
      · exact hq
      · obtain ⟨c, cs, rfl⟩ := List.exists_cons_of_ne_nil h.denotes.ne_nil
        obtain ⟨quote, _, _, hq, _, rfl⟩ := hquoted
        obtain ⟨rfl, _⟩ := List.cons_prefix_cons.mp hfront
        exact absurd (by rcases hq with rfl | rfl <;> simp) (hplain c (by simp))
    exact Nat.le_of_eq (congrArg List.length (htext.eq_of_isPrefix hquoted hfront).symm)

namespace Lexer

theorem lexeme_append_line {cs : List Char} {kind : TokenKind} (hne : cs ≠ [])
    (h : (lexeme cs).outcome = .ok kind) (more : List Char) :
    lexeme (cs ++ '\n' :: more) =
      ⟨.ok kind, (lexeme cs).taken, (lexeme cs).rest ++ '\n' :: more⟩ := by
  have hne' : cs ++ '\n' :: more ≠ [] := by simp
  have hlongest := (isLongest_lexeme hne h).append_line more
  have happend := lexeme_append (cs ++ '\n' :: more)
  cases hl : lexeme (cs ++ '\n' :: more) with
  | mk outcome taken rest =>
    rw [hl] at happend
    cases outcome with
    | error cause =>
      have hnone := (lexeme_fails_iff hne').mp ⟨cause, by rw [hl]⟩
      exact absurd hlongest.denotes (hnone _ kind hlongest.denotes.ne_nil hlongest.isPrefix)
    | ok kind' =>
      have hfound := isLongest_lexeme hne' (congrArg Lexeme.outcome hl)
      obtain ⟨htaken, rfl⟩ := hfound.unique hlongest
      rw [hl] at htaken
      dsimp only at htaken happend
      subst htaken
      have hrest : (lexeme cs).taken ++ rest =
          (lexeme cs).taken ++ ((lexeme cs).rest ++ '\n' :: more) := by
        rw [happend, ← List.append_assoc, lexeme_append]
      rw [List.append_cancel_left hrest]

theorem splitTrivia_append_of_ne_nil {inComment : Bool} {cs : List Char}
    (h : (splitTrivia inComment cs).2 ≠ []) (more : List Char) :
    splitTrivia inComment (cs ++ more) =
      ((splitTrivia inComment cs).1, (splitTrivia inComment cs).2 ++ more) := by
  fun_induction splitTrivia inComment cs with
  | case1 => exact absurd rfl h
  | case2 c cs trivia rest hsplit ih =>
    rw [hsplit] at ih
    simp [splitTrivia, ih h]
  | case3 c cs hc trivia rest hsplit ih =>
    rw [hsplit] at ih
    simp [splitTrivia, hc, ih h]
  | case4 c cs hc => simp [splitTrivia, hc]

/-- Behind trivia that reaches up to a line end, trivia goes on outside of any comment. -/
theorem splitTrivia_append_line {inComment : Bool} {cs : List Char}
    (h : (splitTrivia inComment cs).2 = []) (more : List Char) :
    splitTrivia inComment (cs ++ '\n' :: more) =
      (cs ++ '\n' :: (splitTrivia false more).1, (splitTrivia false more).2) := by
  fun_induction splitTrivia inComment cs with
  | case1 inComment => cases inComment <;> rfl
  | case2 c cs trivia rest hsplit ih =>
    rw [hsplit] at ih
    simp [splitTrivia, ih h]
  | case3 c cs hc trivia rest hsplit ih =>
    rw [hsplit] at ih
    simp [splitTrivia, hc, ih h]
  | case4 c cs hc => cases h

theorem next_rest_position (lexer : Lexer) :
    lexer.next.2.position + Text.byteCount lexer.next.2.rest =
      lexer.position + Text.byteCount lexer.rest := by
  obtain ⟨trivia, taken, hrest, _, hspan, hposition, _⟩ := next_spec lexer
  rw [hposition, hspan, hrest, Text.byteCount_append, Text.byteCount_append]
  dsimp only
  omega

/-- A token is read as before if a line end and more is put behind the input. -/
theorem next_append_line {lexer : Lexer} {token : Token} (h : lexer.next.1 = .ok token)
    (hk : token.kind ≠ .endOfInput) (more : List Char) :
    next ⟨lexer.rest ++ '\n' :: more, lexer.position⟩ =
      (.ok token, ⟨lexer.next.2.rest ++ '\n' :: more, lexer.next.2.position⟩) := by
  have hne : (splitTrivia false lexer.rest).2 ≠ [] := by
    intro hnil
    have hend := (isEnd_next lexer).mpr hnil
    rw [h] at hend
    exact hk (of_decide_eq_true hend)
  have houtcome := outcome_of_next h
  have hbefore := @next_of_ok lexer _ _ rfl _ houtcome
  have hbehind := @next_of_ok ⟨lexer.rest ++ '\n' :: more, lexer.position⟩ _ _
    (splitTrivia_append_of_ne_nil hne ('\n' :: more)) _
    (congrArg Lexeme.outcome (lexeme_append_line hne houtcome more))
  rw [lexeme_append_line hne houtcome more] at hbehind
  rw [hbefore] at h ⊢
  rw [hbehind, ← h]

/-- At the end of the input reading goes on behind the line end. -/
theorem next_append_line_of_end {lexer : Lexer} (h : isEnd lexer.next.1 = true)
    (more : List Char) : next ⟨lexer.rest ++ '\n' :: more, lexer.position⟩ =
      next ⟨more, lexer.position + Text.byteCount lexer.rest + 1⟩ := by
  have hsplit := splitTrivia_append_line ((isEnd_next lexer).mp h) more
  have hstart : ∀ n, lexer.position + (Text.byteCount lexer.rest + (1 + n)) =
      lexer.position + Text.byteCount lexer.rest + 1 + n := by
    intro n
    omega
  have hcount : ∀ cs, Text.byteCount ('\n' :: cs) = 1 + Text.byteCount cs := fun _ => rfl
  simp only [next, hsplit, Text.byteCount_append, hcount, hstart]

theorem tokens_congr {a b : Lexer} (h : a.next = b.next) : a.tokens = b.tokens := by
  cases hb : b.next.1 with
  | error e => rw [tokens_of_next_error hb, tokens_of_next_error (h ▸ hb)]
  | ok token =>
    by_cases hk : token.kind = .endOfInput
    · rw [tokens_of_next_end hb hk, tokens_of_next_end (h ▸ hb) hk]
    · rw [tokens_of_next hb hk, tokens_of_next (h ▸ hb) hk, h]

/-- The tokens in front of the line end stay, and those of what follows come behind them. -/
theorem tokens_append_line {lexer : Lexer} {tokens : List Token} (h : lexer.tokens = .ok tokens)
    (more : List Char) : Lexer.tokens ⟨lexer.rest ++ '\n' :: more, lexer.position⟩ =
      (Lexer.tokens ⟨more, lexer.position + Text.byteCount lexer.rest + 1⟩).map
        (tokens.filter (·.kind ≠ .endOfInput) ++ ·) := by
  fun_induction Lexer.tokens lexer generalizing tokens with
  | case1 lexer e he => cases h
  | case2 lexer token hn hk =>
    cases h
    have hend : isEnd lexer.next.1 = true := by
      rw [hn]
      exact decide_eq_true hk
    have hnone : [token].filter (·.kind ≠ .endOfInput) = [] := by simp [hk]
    rw [tokens_congr (next_append_line_of_end hend more), hnone]
    cases Lexer.tokens ⟨more, lexer.position + Text.byteCount lexer.rest + 1⟩ <;> rfl
  | case3 lexer token hn hk ih =>
    cases hrest : lexer.next.2.tokens with
    | error e =>
      rw [hrest] at h
      cases h
    | ok rest =>
      rw [hrest] at h
      cases h
      have hnext := next_append_line hn hk more
      have hkept : (token :: rest).filter (·.kind ≠ .endOfInput) =
          token :: rest.filter (·.kind ≠ .endOfInput) := by simp [hk]
      rw [tokens_of_next (congrArg Prod.fst hnext) hk, hnext, ih hrest, next_rest_position, hkept]
      cases Lexer.tokens ⟨more, lexer.position + Text.byteCount lexer.rest + 1⟩ <;> rfl

def shift (n : Nat) (lexer : Lexer) : Lexer := ⟨lexer.rest, lexer.position + n⟩

/-- A result of reading further on in a source; `move` says what becomes of a success. -/
def shifted {α : Type} (n : Nat) (move : α → α) : Except LexError α → Except LexError α
  | .ok a => .ok (move a)
  | .error e => .error (e.shift n)

theorem next_shift (n : Nat) (lexer : Lexer) : (lexer.shift n).next =
    (shifted n (Token.shift n) lexer.next.1, lexer.next.2.shift n) := by
  cases houtcome : (lexeme (splitTrivia false lexer.rest).2).outcome with
  | ok kind =>
    rw [@next_of_ok lexer _ _ rfl _ houtcome, @next_of_ok (lexer.shift n) _ _ rfl _ houtcome]
    simp only [shift, shifted, Token.shift, Span.shift, Nat.add_right_comm]
  | error cause =>
    rw [@next_of_error lexer _ _ rfl _ houtcome, @next_of_error (lexer.shift n) _ _ rfl _ houtcome]
    simp only [shift, shifted, LexError.shift, Span.shift, Nat.add_right_comm]

/-- Tokens and failures move along with the text. -/
theorem tokens_shift (n : Nat) (lexer : Lexer) :
    (lexer.shift n).tokens = shifted n (List.map (Token.shift n)) lexer.tokens := by
  fun_induction Lexer.tokens lexer with
  | case1 lexer e he =>
    apply tokens_of_next_error
    rw [next_shift, he]
    rfl
  | case2 lexer token hn hk =>
    have hnext : (lexer.shift n).next.1 = .ok (token.shift n) := by
      rw [next_shift, hn]
      rfl
    exact tokens_of_next_end hnext hk
  | case3 lexer token hn hk ih =>
    have hnext : (lexer.shift n).next.1 = .ok (token.shift n) := by
      rw [next_shift, hn]
      rfl
    rw [tokens_of_next hnext hk, next_shift, ih]
    cases lexer.next.2.tokens <;> rfl

end Lexer

/-- Where the tokens of a source can be read, a further line can be read behind it exactly if it can
be read alone. The tokens of the source stay, less the end of input, and those of the line follow,
moved on by the source and the line end. A failure in the line has the same cause and is moved on
likewise. -/
theorem tokenize_append_line {source : String} {tokens : List Token}
    (h : tokenize source = .ok tokens) (line : String) :
    ((∃ all, tokenize (source ++ "\n" ++ line) = .ok all) ↔ ∃ own, tokenize line = .ok own) ∧
    (∀ own, tokenize line = .ok own → tokenize (source ++ "\n" ++ line) =
      .ok (tokens.filter (·.kind ≠ .endOfInput) ++
        own.map (Token.shift (source.utf8ByteSize + 1)))) ∧
    ∀ e, tokenize line = .error e → tokenize (source ++ "\n" ++ line) =
      .error ⟨e.cause, e.span.shift (source.utf8ByteSize + 1)⟩ := by
  have hjoined : tokenize (source ++ "\n" ++ line) =
      (Lexer.shifted (source.utf8ByteSize + 1) (List.map (Token.shift (source.utf8ByteSize + 1)))
        (tokenize line)).map (tokens.filter (·.kind ≠ .endOfInput) ++ ·) := by
    have hbehind : (Lexer.ofSource line).shift (source.utf8ByteSize + 1) =
        ⟨line.toList, 0 + Text.byteCount source.toList + 1⟩ := by
      rw [Text.byteCount_toList, Nat.zero_add]
      simp [Lexer.shift, Lexer.ofSource]
    have hlist : (source ++ "\n" ++ line).toList = source.toList ++ '\n' :: line.toList := by simp
    rw [tokenize, tokenize, ← Lexer.tokens_shift, hbehind, Lexer.ofSource, hlist]
    exact Lexer.tokens_append_line h line.toList
  rw [hjoined]
  cases tokenize line with
  | ok own =>
    refine ⟨⟨fun _ => ⟨own, rfl⟩, fun _ => ⟨_, rfl⟩⟩, ?_, by simp⟩
    intro own' hown
    cases hown
    rfl
  | error e =>
    refine ⟨⟨nofun, nofun⟩, nofun, ?_⟩
    intro e' he
    cases he
    rfl

/-- In front of the line end an operator stays as short as it is and a comment stops. -/
theorem tokenize_append_line_short :
    tokenize "a <#é" = .ok [⟨.reference "a", ⟨0, 1⟩⟩, ⟨.operator .lt, ⟨2, 3⟩⟩,
      ⟨.endOfInput, ⟨6, 6⟩⟩] ∧
    tokenize "a <#é\n= b" = .ok [⟨.reference "a", ⟨0, 1⟩⟩, ⟨.operator .lt, ⟨2, 3⟩⟩,
      ⟨.operator .eq, ⟨7, 8⟩⟩, ⟨.reference "b", ⟨9, 10⟩⟩, ⟨.endOfInput, ⟨10, 10⟩⟩] ∧
    tokenize "a <#é\n= 'b" = .error ⟨.unclosedString, ⟨9, 11⟩⟩ := by
  have hsource : tokenize "a <#é" = .ok [⟨.reference "a", ⟨0, 1⟩⟩, ⟨.operator .lt, ⟨2, 3⟩⟩,
      ⟨.endOfInput, ⟨6, 6⟩⟩] := by decide +kernel
  have hread : tokenize "= b" = .ok [⟨.operator .eq, ⟨0, 1⟩⟩, ⟨.reference "b", ⟨2, 3⟩⟩,
      ⟨.endOfInput, ⟨3, 3⟩⟩] := by decide +kernel
  have hfails : tokenize "= 'b" = .error ⟨.unclosedString, ⟨2, 4⟩⟩ := by decide +kernel
  exact ⟨hsource, (tokenize_append_line hsource "= b").2.1 _ hread,
    (tokenize_append_line hsource "= 'b").2.2 _ hfails⟩

end RowSpec
