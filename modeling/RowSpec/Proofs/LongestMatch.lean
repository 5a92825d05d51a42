import RowSpec.Proofs.Tiling

/-! The longest match. What may stand at the front of an input is told by a handful of forms: names
with points between them, numbers, quoted strings, operators and punctuation. Behind blanks and
comments the lexer takes the longest text of one of these forms, and fails where there is none. -/
namespace RowSpec

def IsReference (cs : List Char) : Prop :=
  ∃ part parts, (∀ p ∈ part :: parts, IsIdentifier p) ∧ cs = Reference.joinPoints (part :: parts)

/-- What may stand between two quotes, and the text that it stands for. A backslash takes the next
character with it, and is dropped in front of the quote and of another backslash. -/
inductive Quotes (quote : Char) : List Char → List Char → Prop where
  | nil : Quotes quote [] []
  | plain {c : Char} {body text : List Char} (hq : c ≠ quote) (hb : c ≠ '\\')
    (h : Quotes quote body text) : Quotes quote (c :: body) (c :: text)
  | escaped {c : Char} {body text : List Char} (hc : c = quote ∨ c = '\\')
    (h : Quotes quote body text) : Quotes quote ('\\' :: c :: body) (c :: text)
  | kept {c : Char} {body text : List Char} (hq : c ≠ quote) (hb : c ≠ '\\')
    (h : Quotes quote body text) : Quotes quote ('\\' :: c :: body) ('\\' :: c :: text)

inductive Denotes : List Char → TokenKind → Prop where
  | conjunction {cs : List Char} (h : IsReference cs)
    (hw : Text.lower (String.ofList cs) = "and") : Denotes cs (.operator .and)
  | disjunction {cs : List Char} (h : IsReference cs)
    (hw : Text.lower (String.ofList cs) = "or") : Denotes cs (.operator .or)
  | reference {cs : List Char} (h : IsReference cs)
    (hand : Text.lower (String.ofList cs) ≠ "and") (hor : Text.lower (String.ofList cs) ≠ "or") :
    Denotes cs (.reference (String.ofList cs))
  | number (negative : Bool) {whole fraction : List Char} (hne : whole ≠ [])
    (hd : ∀ c ∈ whole ++ fraction, c.isDigit = true) : Denotes (numeral negative whole fraction)
      (.number (.ofDecimal negative (Decimal.ofDigits (whole ++ fraction)) fraction.length))
  | string {quote : Char} {body text : List Char} (hq : quote = '\'' ∨ quote = '"')
    (h : Quotes quote body text) :
    Denotes (quote :: (body ++ [quote])) (.string (String.ofList text))
  | symbol {op : Operator} (h : op ≠ .and ∧ op ≠ .or) : Denotes op.render.toList (.operator op)
  | openParen : Denotes ['('] .openParen
  | closeParen : Denotes [')'] .closeParen
  | comma : Denotes [','] .comma

structure IsLongest (input text : List Char) (kind : TokenKind) : Prop where
  isPrefix : text <+: input
  denotes : Denotes text kind
  longest : ∀ other kind', other <+: input → Denotes other kind' → other.length ≤ text.length

namespace Lexer

theorem splitReference_reference {c : Char} {cs : List Char} (h : IsReference (c :: cs)) :
    isIdentStart c = true ∧ ∀ rest, splitReference (cs ++ rest) =
      (cs ++ (splitReference rest).1, (splitReference rest).2) := by
  obtain ⟨part, parts, hall, hcs⟩ := h
  obtain ⟨⟨first, tail, rfl, hfirst, htail⟩, hparts⟩ := List.forall_mem_cons.mp hall
  obtain ⟨rfl, htext⟩ := List.cons.inj hcs
  refine ⟨hfirst, fun rest => ?_⟩
  have hsplit : cs ++ rest = tail ++ (parts.flatMap ('.' :: ·) ++ rest) := by
    rw [htext]
    exact List.append_assoc tail _ rest
  rw [hsplit, splitReference_part htail, splitReference_points_append hparts, htext]
  simp

theorem isReference_splitReference {c : Char} (hc : isIdentStart c = true) (cs : List Char) :
    IsReference (c :: (splitReference cs).1) := by
  obtain ⟨part, parts, hsplit, hpart, hparts⟩ := splitPoints_splitReference cs
  refine ⟨c :: part, parts, ?_, ?_⟩
  · exact List.forall_mem_cons.mpr ⟨⟨c, part, rfl, hc, hpart⟩, hparts⟩
  · have hjoin := Reference.joinPoints_splitPoints (splitReference cs).1
    rw [hsplit] at hjoin
    exact congrArg (c :: ·) hjoin.symm

theorem wordKind_eq (text : String) : wordKind text =
    if Text.lower text = "and" then .operator .and
      else if Text.lower text = "or" then .operator .or else .reference text := by
  unfold wordKind Operator.ofWord?
  by_cases hand : Text.lower text = "and"
  · rw [hand]
    rfl
  · by_cases hor : Text.lower text = "or"
    · rw [hor]
      rfl
    · rw [if_neg hand, if_neg hor]
      split
      · next op hop => split at hop <;> contradiction
      · rfl

theorem denotes_wordKind {cs : List Char} (h : IsReference cs) :
    Denotes cs (wordKind (String.ofList cs)) := by
  rw [wordKind_eq]
  by_cases hand : Text.lower (String.ofList cs) = "and"
  · rw [if_pos hand]
    exact .conjunction h hand
  · by_cases hor : Text.lower (String.ofList cs) = "or"
    · rw [if_neg hand, if_pos hor]
      exact .disjunction h hor
    · rw [if_neg hand, if_neg hor]
      exact .reference h hand hor

/-- Behind a word more of it may follow. -/
theorem lexeme_reference {cs : List Char} (h : IsReference cs) (rest : List Char) :
    lexeme (cs ++ rest) = ⟨.ok (wordKind (String.ofList (cs ++ (splitReference rest).1))),
      cs ++ (splitReference rest).1, (splitReference rest).2⟩ := by
  cases cs with
  | nil =>
    obtain ⟨part, parts, hall, hcs⟩ := h
    obtain ⟨⟨first, tail, rfl, _⟩, _⟩ := List.forall_mem_cons.mp hall
    cases hcs
  | cons c cs =>
    obtain ⟨hc, hsplit⟩ := splitReference_reference h
    rw [List.cons_append, lexeme_of_isIdentStart hc]
    simp only [referenceLexeme, hsplit]
    rfl

theorem splitQuoted_quotes {quote : Char} (hq : quote ≠ '\\') {body text : List Char}
    (h : Quotes quote body text) : Text.unescape quote body = text ∧
      ∀ rest, Text.splitQuoted quote (body ++ quote :: rest) = some (body, rest) := by
  induction h with
  | nil => exact ⟨rfl, fun rest => by simp [Text.splitQuoted, hq]⟩
  | plain hc hb _ ih =>
    exact ⟨by simp [Text.unescape, hb, ih.1], fun rest => by simp [Text.splitQuoted, hc, hb, ih.2]⟩
  | escaped hc _ ih =>
    exact ⟨by simp [Text.unescape, hc, ih.1], fun rest => by simp [Text.splitQuoted, ih.2]⟩
  | kept hc hb _ ih =>
    exact ⟨by simp [Text.unescape, hc, hb, ih.1], fun rest => by simp [Text.splitQuoted, ih.2]⟩

theorem quotes_splitQuoted {quote : Char} {cs body rest : List Char}
    (h : Text.splitQuoted quote cs = some (body, rest)) :
    Quotes quote body (Text.unescape quote body) := by
  fun_induction Text.splitQuoted quote cs generalizing body rest with
  | case1 => cases h
  | case2 c cs ih =>
    obtain ⟨p, hp, e⟩ := Option.map_eq_some_iff.1 h
    obtain ⟨rfl, rfl⟩ := Prod.mk.inj e
    by_cases hc : c = quote ∨ c = '\\'
    · rw [Text.unescape, if_pos hc]
      exact .escaped hc (ih hp)
    · rw [Text.unescape, if_neg hc]
      exact .kept (not_or.mp hc).1 (not_or.mp hc).2 (ih hp)
  | case3 cs =>
    cases h
    exact .nil
  | case4 c cs hlast hc ih =>
    obtain ⟨p, hp, e⟩ := Option.map_eq_some_iff.1 h
    obtain ⟨rfl, rfl⟩ := Prod.mk.inj e
    have hb : c ≠ '\\' := by
      -- a backslash at the very end is followed by no closing quote
      rintro rfl
      cases cs with
      | nil => cases hp
      | cons d cs => exact hlast d cs rfl rfl
    simpa [Text.unescape, hb] using Quotes.plain hc hb (ih hp)

theorem lexeme_string {quote : Char} (hq : quote = '\'' ∨ quote = '"') {body text : List Char}
    (h : Quotes quote body text) (rest : List Char) :
    lexeme (quote :: (body ++ [quote]) ++ rest) =
      ⟨.ok (.string (String.ofList text)), quote :: (body ++ [quote]), rest⟩ := by
  have hne : quote ≠ '\\' := by
    rcases hq with rfl | rfl
    · decide
    · decide
  obtain ⟨htext, hsplit⟩ := splitQuoted_quotes hne h
  have hlexeme : lexeme (quote :: (body ++ quote :: rest)) =
      stringLexeme quote (body ++ quote :: rest) := by
    rcases hq with rfl | rfl
    · rfl
    · rfl
  simp [hlexeme, stringLexeme, hsplit, htext]

theorem lexeme_minus (cs : List Char) : lexeme ('-' :: cs) =
    if cs.head?.any Char.isDigit then numberLexeme true cs
      else ⟨.ok (.operator .sub), ['-'], cs⟩ := rfl

theorem splitNumber_of_digits {whole : List Char} (h : ∀ c ∈ whole, c.isDigit = true)
    (rest : List Char) :
    splitNumber (whole ++ rest) = (whole ++ (splitNumber rest).1, (splitNumber rest).2) := by
  simp only [splitNumber, List.takeWhile_append_of_pos h, List.dropWhile_append_of_pos h]

/-- Behind a number more digits may follow, or a fraction. -/
theorem numberLexeme_numeral (negative : Bool) {whole fraction : List Char}
    (hd : ∀ c ∈ whole ++ fraction, c.isDigit = true) (rest : List Char) :
    ∃ more, (numberLexeme negative
      (whole ++ (if fraction = [] then [] else '.' :: fraction) ++ rest)).taken =
        numeral negative whole fraction ++ more := by
  obtain ⟨hw, hf⟩ := List.forall_mem_append.mp hd
  rw [numberLexeme_taken, List.append_assoc, splitNumber_of_digits hw]
  by_cases hnil : fraction = []
  · refine ⟨numeral false (splitNumber rest).1 (splitNumber rest).2.1, ?_⟩
    simp [hnil, numeral]
  · have hfraction : fractionDigits ('.' :: (fraction ++ rest)) =
        fraction ++ rest.takeWhile Char.isDigit := List.takeWhile_append_of_pos hf
    refine ⟨rest.takeWhile Char.isDigit, ?_⟩
    simp [hnil, numeral, splitNumber, hfraction]

theorem exists_outcome_numberLexeme (negative : Bool) {whole fraction : List Char}
    (hne : whole ≠ []) (hd : ∀ c ∈ whole ++ fraction, c.isDigit = true) (rest : List Char) :
    ∃ kind, (numberLexeme negative
      (whole ++ (if fraction = [] then [] else '.' :: fraction) ++ rest)).outcome = .ok kind := by
  obtain ⟨c, cs, rfl⟩ := List.exists_cons_of_ne_nil hne
  exact ⟨_, outcome_numberLexeme negative (hd c (by simp)) _⟩

theorem lexeme_numeral (negative : Bool) {whole fraction : List Char} (hne : whole ≠ [])
    (hd : ∀ c ∈ whole ++ fraction, c.isDigit = true) (rest : List Char) :
    lexeme (numeral negative whole fraction ++ rest) = numberLexeme negative
      (whole ++ (if fraction = [] then [] else '.' :: fraction) ++ rest) := by
  obtain ⟨c, cs, rfl⟩ := List.exists_cons_of_ne_nil hne
  have hc : c.isDigit = true := hd c (by simp)
  cases negative with
  | true =>
    change lexeme ('-' :: (c :: cs ++ _ ++ rest)) = _
    rw [lexeme_minus, if_pos]
    exact hc
  | false => exact lexeme_of_isDigit hc _

/-- Behind an operator that may be extended an equals sign may follow. -/
theorem extensible_more (c : Char) (alone extended : Operator) (rest : List Char) :
    ∃ kind more, (extensible c alone extended rest).outcome = .ok kind ∧
      (extensible c alone extended rest).taken = [c] ++ more ∧
      (rest = [] → kind = .operator alone) := by
  unfold extensible
  split
  · exact ⟨_, ['='], rfl, rfl, by simp⟩
  · exact ⟨_, [], rfl, rfl, fun _ => rfl⟩

/-- In front of any rest a text of one of the forms is taken, or a longer one that starts with it;
with nothing behind it, it is the token that it denotes. -/
theorem lexeme_of_denotes {text : List Char} {kind : TokenKind} (h : Denotes text kind)
    (rest : List Char) : ∃ kind' more, (lexeme (text ++ rest)).outcome = .ok kind' ∧
      (lexeme (text ++ rest)).taken = text ++ more ∧ (rest = [] → kind' = kind) := by
  cases h with
  | conjunction h hw | disjunction h hw =>
    rw [lexeme_reference h]
    refine ⟨_, _, rfl, rfl, ?_⟩
    rintro rfl
    simp [splitReference, wordKind_eq, hw]
  | reference h hand hor =>
    rw [lexeme_reference h]
    refine ⟨_, _, rfl, rfl, ?_⟩
    rintro rfl
    simp [splitReference, wordKind_eq, hand, hor]
  | number negative hne hd =>
    obtain ⟨more, hmore⟩ := numberLexeme_numeral negative hd rest
    obtain ⟨kind, hkind⟩ := exists_outcome_numberLexeme negative hne hd rest
    rw [lexeme_numeral negative hne hd]
    refine ⟨kind, more, hkind, hmore, ?_⟩
    rintro rfl
    rw [numberLexeme_digits negative hne hd (by simp [Delimited])] at hkind
    exact (Except.ok.inj hkind).symm
  | string hq h =>
    rw [lexeme_string hq h]
    exact ⟨_, [], rfl, (List.append_nil _).symm, fun _ => rfl⟩
  | @symbol op h =>
    cases op with
    | and => exact absurd rfl h.1
    | or => exact absurd rfl h.2
    | sub =>
      change ∃ kind' more, (lexeme ('-' :: rest)).outcome = _ ∧ (lexeme ('-' :: rest)).taken = _ ∧ _
      rw [lexeme_minus]
      by_cases hd : rest.head?.any Char.isDigit = true
      · rw [if_pos hd]
        cases rest with
        | nil => cases hd
        | cons d ds =>
          have hmore : d :: ds ≠ [] := List.cons_ne_nil d ds
          exact ⟨_, _, outcome_numberLexeme true hd ds, rfl, fun h => absurd h hmore⟩
      · rw [if_neg hd]
        exact ⟨_, [], rfl, rfl, fun _ => rfl⟩
    | lt | gt =>
      exact extensible_more _ _ _ rest
    | _ => exact ⟨_, [], rfl, rfl, fun _ => rfl⟩
  | openParen | closeParen | comma => exact ⟨_, [], rfl, rfl, fun _ => rfl⟩

end Lexer

namespace Denotes

variable {text : List Char} {kind kind' : TokenKind}

theorem ne_nil (h : Denotes text kind) : text ≠ [] := by
  rintro rfl
  obtain ⟨kind', more, houtcome, _, _⟩ := Lexer.lexeme_of_denotes h ['!']
  cases houtcome

theorem unique (h : Denotes text kind) (h' : Denotes text kind') : kind = kind' := by
  obtain ⟨k, _, hk, _, hkind⟩ := Lexer.lexeme_of_denotes h []
  obtain ⟨k', _, hk', _, hkind'⟩ := Lexer.lexeme_of_denotes h' []
  rw [← hkind rfl, ← hkind' rfl]
  exact Except.ok.inj (hk.symm.trans hk')

end Denotes

theorem IsLongest.unique {input text text' : List Char} {kind kind' : TokenKind}
    (h : IsLongest input text kind) (h' : IsLongest input text' kind') :
    text = text' ∧ kind = kind' := by
  have hle := h.longest _ _ h'.isPrefix h'.denotes
  have hge := h'.longest _ _ h.isPrefix h.denotes
  obtain rfl : text = text' :=
    (List.prefix_of_prefix_length_le h.isPrefix h'.isPrefix hge).eq_of_length (by omega)
  exact ⟨rfl, h.denotes.unique h'.denotes⟩

namespace Lexer

theorem denotes_stringLexeme {quote : Char} (hq : quote = '\'' ∨ quote = '"') {cs : List Char}
    {kind : TokenKind} (h : (stringLexeme quote cs).outcome = .ok kind) :
    Denotes (stringLexeme quote cs).taken kind := by
  unfold stringLexeme at h ⊢
  split at h
  · next body rest hsplit =>
    cases h
    exact .string hq (quotes_splitQuoted hsplit)
  · cases h

theorem denotes_numberLexeme (negative : Bool) {c : Char} (hc : c.isDigit = true) {cs : List Char}
    {kind : TokenKind} (h : (numberLexeme negative (c :: cs)).outcome = .ok kind) :
    Denotes (numberLexeme negative (c :: cs)).taken kind := by
  rw [outcome_numberLexeme negative hc] at h
  rw [numberLexeme_taken]
  cases h
  refine .number negative ?_ ?_
  · simp [splitNumber, hc]
  · refine List.forall_mem_append.mpr ⟨?_, isDigit_fractionDigits _⟩
    exact List.all_eq_true.mp List.all_takeWhile

theorem denotes_extensible {c : Char} {alone extended : Operator}
    (ha : Denotes [c] (.operator alone)) (he : Denotes [c, '='] (.operator extended))
    {cs : List Char} {kind : TokenKind} (h : (extensible c alone extended cs).outcome = .ok kind) :
    Denotes (extensible c alone extended cs).taken kind := by
  unfold extensible at h ⊢
  split at h
  · cases h
    exact he
  · cases h
    exact ha

/-- What is taken has one of the forms. -/
theorem denotes_lexeme {cs : List Char} {kind : TokenKind} (hne : cs ≠ [])
    (h : (lexeme cs).outcome = .ok kind) : Denotes (lexeme cs).taken kind := by
  unfold lexeme at h ⊢
  split at h
  case h_1 => exact absurd rfl hne
  case h_2 => cases h; exact .openParen
  case h_3 => cases h; exact .closeParen
  case h_4 => cases h; exact .comma
  case h_5 => cases h; exact @Denotes.symbol .eq (by decide)
  case h_6 => cases h; exact @Denotes.symbol .add (by decide)
  case h_7 => cases h; exact @Denotes.symbol .mul (by decide)
  case h_8 => cases h; exact @Denotes.symbol .div (by decide)
  case h_9 =>
    exact denotes_extensible (@Denotes.symbol .lt (by decide)) (@Denotes.symbol .le (by decide)) h
  case h_10 =>
    exact denotes_extensible (@Denotes.symbol .gt (by decide)) (@Denotes.symbol .ge (by decide)) h
  case h_11 => cases h; exact @Denotes.symbol .ne (by decide)
  case h_12 cs =>
    split at h
    · next hd =>
      rw [if_pos hd]
      cases cs with
      | nil => cases hd
      | cons c cs => exact denotes_numberLexeme true hd h
    · next hd =>
      rw [if_neg hd]
      cases h
      exact @Denotes.symbol .sub (by decide)
  case h_13 => exact denotes_stringLexeme (Or.inl rfl) h
  case h_14 => exact denotes_stringLexeme (Or.inr rfl) h
  case h_15 c cs _ _ _ _ _ _ _ _ _ _ _ _ _ =>
    split at h
    · next hd =>
      rw [if_pos hd]
      exact denotes_numberLexeme false hd h
    · next hd =>
      rw [if_neg hd]
      split at h
      · next hc =>
        rw [if_pos hc]
        cases h
        exact denotes_wordKind (isReference_splitReference hc cs)
      · cases h

/-- What fails is told by the first character: a string that is not closed takes all that is left,
any other character only itself. -/
theorem failure_lexeme {c : Char} {cs : List Char} {cause : LexError.Cause}
    (h : (lexeme (c :: cs)).outcome = .error cause) :
    if c = '\'' ∨ c = '"' then cause = .unclosedString ∧ (lexeme (c :: cs)).taken = c :: cs
      else cause = .invalidInput c ∧ (lexeme (c :: cs)).taken = [c] := by
  by_cases hq : c = '\'' ∨ c = '"'
  · have hstring : lexeme (c :: cs) = stringLexeme c cs := by
      rcases hq with rfl | rfl
      · rfl
      · rfl
    rw [if_pos hq]
    rw [hstring] at h ⊢
    unfold stringLexeme at h ⊢
    split at h
    · cases h
    · cases h
      exact ⟨rfl, rfl⟩
  · rw [if_neg hq]
    unfold lexeme at h ⊢
    split at h
    case h_9 | h_10 =>
      unfold extensible at h
      split at h
      · cases h
      · cases h
    case h_12 cs' _ =>
      split at h
      · next hd =>
        -- a number that has been split off is read, so it is never to blame
        cases cs' with
        | nil => cases hd
        | cons d ds => rw [outcome_numberLexeme true hd] at h; cases h
      · cases h
    case h_13 heq => exact absurd (Or.inl (List.cons.inj heq).1) hq
    case h_14 heq => exact absurd (Or.inr (List.cons.inj heq).1) hq
    case h_15 heq =>
      obtain ⟨rfl, rfl⟩ := List.cons.inj heq
      split at h
      · next hd => rw [outcome_numberLexeme false hd] at h; cases h
      · next hd =>
        split at h
        · cases h
        · next hc =>
          cases h
          rw [if_neg hd, if_neg hc]
          exact ⟨rfl, rfl⟩
    all_goals cases h

/-- A text of one of the forms at the front of an input is found, or a longer one is. -/
theorem isLongest_lexeme {cs : List Char} {kind : TokenKind} (hne : cs ≠ [])
    (h : (lexeme cs).outcome = .ok kind) : IsLongest cs (lexeme cs).taken kind := by
  refine ⟨⟨_, lexeme_append cs⟩, denotes_lexeme hne h, ?_⟩
  rintro other kind' ⟨rest, rfl⟩ hother
  obtain ⟨_, more, _, htaken, _⟩ := lexeme_of_denotes hother rest
  rw [htaken, List.length_append]
  omega

theorem lexeme_fails_iff {cs : List Char} (hne : cs ≠ []) :
    (∃ cause, (lexeme cs).outcome = .error cause) ↔
      ∀ text kind, text ≠ [] → text <+: cs → ¬ Denotes text kind := by
  constructor
  · rintro ⟨cause, hcause⟩ text kind _ ⟨rest, rfl⟩ hdenotes
    obtain ⟨_, _, hok, _⟩ := lexeme_of_denotes hdenotes rest
    rw [hcause] at hok
    cases hok
  · intro hnone
    cases houtcome : (lexeme cs).outcome with
    | error cause => exact ⟨cause, rfl⟩
    | ok kind =>
      have hlongest := isLongest_lexeme hne houtcome
      exact absurd hlongest.denotes
        (hnone _ kind (lexeme_taken_ne_nil hne) hlongest.isPrefix)

theorem splitTrivia_newline {cs : List Char} (h : ∀ c ∈ cs.head?, c = '\n' ∨ c = '\r') :
    splitTrivia true cs = splitTrivia false cs := by
  cases cs with
  | nil => rfl
  | cons c cs =>
    rcases h c rfl with rfl | rfl
    · rfl
    · rfl

theorem splitTrivia_comment {body : List Char} (h : ∀ c ∈ body, c ≠ '\n' ∧ c ≠ '\r')
    (rest : List Char) : splitTrivia true (body ++ rest) =
      (body ++ (splitTrivia true rest).1, (splitTrivia true rest).2) := by
  induction body with
  | nil => rfl
  | cons c body ih =>
    obtain ⟨hc, hbody⟩ := List.forall_mem_cons.mp h
    have hline : isNewline c = false := by
      rw [Bool.eq_false_iff]
      intro hn
      rcases isNewline_iff.mp hn with hn | hn
      · exact hc.1 hn
      · exact hc.2 hn
    simp [splitTrivia, hline, ih hbody]

/-- Trivia is passed over in full, and nothing else is. -/
theorem splitTrivia_of_trivia {trivia : List Char} {c : Char} {cs : List Char}
    (h : Trivia (c :: cs) trivia) (hc : Text.isBlank c = false ∧ c ≠ '#') :
    splitTrivia false (trivia ++ c :: cs) = (trivia, c :: cs) := by
  induction h with
  | nil => simp [splitTrivia, hc.1, hc.2]
  | @blank d trivia hd _ ih =>
    have hmark : (d == '#') = false := by
      rw [beq_eq_false_iff_ne]
      rintro rfl
      exact absurd hd (by decide)
    simp [splitTrivia, hd, hmark, ih]
  | @comment body trivia hbody hend _ ih =>
    have hsplit : splitTrivia true (body ++ (trivia ++ c :: cs)) = (body ++ trivia, c :: cs) := by
      rw [splitTrivia_comment hbody, splitTrivia_newline hend, ih]
    simp [splitTrivia, hsplit]

section next

variable {lexer : Lexer} {trivia input : List Char}

theorem next_of_ok (hs : splitTrivia false lexer.rest = (trivia, input)) {kind : TokenKind}
    (h : (lexeme input).outcome = .ok kind) :
    let start := lexer.position + Text.byteCount trivia
    let stop := start + Text.byteCount (lexeme input).taken
    lexer.next = (.ok ⟨kind, ⟨start, stop⟩⟩, ⟨(lexeme input).rest, stop⟩) := by
  simp only [next, hs, h]

theorem next_of_error (hs : splitTrivia false lexer.rest = (trivia, input))
    {cause : LexError.Cause} (h : (lexeme input).outcome = .error cause) :
    let start := lexer.position + Text.byteCount trivia
    let stop := start + Text.byteCount (lexeme input).taken
    lexer.next = (.error ⟨cause, ⟨start, stop⟩⟩, ⟨(lexeme input).rest, stop⟩) := by
  simp only [next, hs, h]

end next

end Lexer

/-- Where something is left behind blanks and comments, the next token is the one that the longest
text of a form at the front denotes. There is none exactly if no text at the front has a form, and
then it is a string that is not closed, if a quote stands in front, or else a character that starts
nothing. -/
theorem next_is_longest_match {lexer : Lexer} {trivia : List Char} {c : Char} {cs : List Char}
    (hrest : lexer.rest = trivia ++ c :: cs) (htrivia : Trivia (c :: cs) trivia)
    (hc : Text.isBlank c = false ∧ c ≠ '#') :
    let start := lexer.position + Text.byteCount trivia
    (∀ kind span rest, lexer.next = (.ok ⟨kind, span⟩, ⟨rest, span.stop⟩) ↔
      ∃ text, IsLongest (c :: cs) text kind ∧ c :: cs = text ++ rest ∧
        span = ⟨start, start + Text.byteCount text⟩) ∧
    ((∃ e, lexer.next.1 = .error e) ↔
      ∀ text kind, text ≠ [] → text <+: c :: cs → ¬ Denotes text kind) ∧
    ∀ e, lexer.next.1 = .error e →
      if c = '\'' ∨ c = '"' then e.cause.message = "string value not closed" ∧
        e.span = ⟨start, start + Text.byteCount (c :: cs)⟩
      else e.cause.message = "invalid input " ++ String.singleton c ∧
        e.span = ⟨start, start + c.utf8Size⟩ := by
  intro start
  have hne : c :: cs ≠ [] := List.cons_ne_nil c cs
  have hsplit : Lexer.splitTrivia false lexer.rest = (trivia, c :: cs) := by
    rw [hrest]
    exact Lexer.splitTrivia_of_trivia htrivia hc
  have happend := Lexer.lexeme_append (c :: cs)
  rw [← Lexer.lexeme_fails_iff hne]
  cases houtcome : (Lexer.lexeme (c :: cs)).outcome with
  | ok kind =>
    have hlongest := Lexer.isLongest_lexeme hne houtcome
    rw [Lexer.next_of_ok hsplit houtcome]
    refine ⟨fun kind' span rest => ⟨?_, ?_⟩, by simp, by simp⟩
    · intro heq
      cases heq
      exact ⟨_, hlongest, happend.symm, rfl⟩
    · rintro ⟨text, htext, hinput, rfl⟩
      obtain ⟨rfl, rfl⟩ := hlongest.unique htext
      rw [List.append_cancel_left (happend.trans hinput)]
  | error cause =>
    have hfailure := Lexer.failure_lexeme houtcome
    rw [Lexer.next_of_error hsplit houtcome]
    refine ⟨fun kind' span rest => ⟨by simp, ?_⟩, by simp, ?_⟩
    · rintro ⟨text, htext, _⟩
      have hnone := (Lexer.lexeme_fails_iff hne).mp ⟨cause, houtcome⟩
      exact absurd htext.denotes (hnone text kind' htext.denotes.ne_nil htext.isPrefix)
    · intro e he
      cases he
      split at hfailure
      · next hq =>
        obtain ⟨rfl, htaken⟩ := hfailure
        rw [if_pos hq, htaken]
        exact ⟨rfl, rfl⟩
      · next hq =>
        obtain ⟨rfl, htaken⟩ := hfailure
        rw [if_neg hq, htaken]
        exact ⟨rfl, rfl⟩

/-- A number takes a point only with a digit behind it, and an escaped quote closes no string. -/
theorem next_is_longest_match_points :
    (Trivia ['-', '1', '.', '.', '2'] ['#', 'a', '\n', ' '] ∧
      IsLongest ['-', '1', '.', '.', '2'] ['-', '1'] (.number (.ofDecimal true 1 0))) ∧
    ((Lexer.next ⟨[' ', '"', 'a', '\\', '"'], 7⟩).1 = .error ⟨.unclosedString, ⟨8, 12⟩⟩ ∧
      ∀ text kind, text ≠ [] → text <+: ['"', 'a', '\\', '"'] → ¬ Denotes text kind) := by
  constructor
  · have htrivia : Trivia ['-', '1', '.', '.', '2'] ['#', 'a', '\n', ' '] :=
      @Trivia.comment _ ['a'] ['\n', ' '] (by simp) (by simp)
        (.blank (by decide) (.blank (by decide) .nil))
    obtain ⟨htoken, _⟩ := @next_is_longest_match
      ⟨['#', 'a', '\n', ' ', '-', '1', '.', '.', '2'], 0⟩ _ _ _ rfl htrivia (by decide)
    obtain ⟨text, hlongest, htext, _⟩ :=
      (htoken (.number (.ofDecimal true 1 0)) ⟨4, 6⟩ ['.', '.', '2']).mp rfl
    obtain rfl : ['-', '1'] = text := List.append_cancel_right htext
    exact ⟨htrivia, hlongest⟩
  · have htrivia : Trivia ['"', 'a', '\\', '"'] [' '] := .blank (by decide) .nil
    obtain ⟨_, hfails, _⟩ := @next_is_longest_match
      ⟨[' ', '"', 'a', '\\', '"'], 7⟩ _ _ _ rfl htrivia (by decide)
    exact ⟨rfl, hfails.mp ⟨_, rfl⟩⟩

end RowSpec
