import RowSpec.Proofs.Grammar
import RowSpec.Token.Lexer

/-! What the lexer makes of a text, without regard to positions: which kinds of tokens a text scans
to, what is known of a kind that was scanned, and that names, literals and operators are scanned as
themselves if what follows cannot extend them. -/
namespace RowSpec

def IsIdentifier (cs : List Char) : Prop :=
  ∃ c rest, cs = c :: rest ∧ Lexer.isIdentStart c = true ∧ ∀ d ∈ rest, Lexer.isIdentPart d = true

instance (cs : List Char) : Decidable (IsIdentifier cs) :=
  match cs with
  | [] => isFalse fun ⟨_, _, h, _⟩ => nomatch h
  | c :: rest =>
    decidable_of_iff (Lexer.isIdentStart c = true ∧ rest.all Lexer.isIdentPart = true) (by
      rw [List.all_eq_true]
      exact ⟨fun h => ⟨c, rest, rfl, h⟩, fun ⟨_, _, h, hrest⟩ => by cases h; exact hrest⟩)

namespace Reference

def Lexical (path : Reference) : Prop :=
  path.segments ≠ [] ∧ ∀ s ∈ path.segments, IsIdentifier s.toList

def joinPoints : List (List Char) → List Char
  | [] => []
  | part :: parts => part ++ parts.flatMap ('.' :: ·)

theorem toList_render (path : Reference) :
    path.render.toList = joinPoints (path.segments.map String.toList) := by
  unfold render
  induction path.segments with
  | nil => rfl
  | cons s ss ih =>
    cases ss with
    | nil => simp [Text.joinWith, joinPoints]
    | cons t ts => simp_all [Text.joinWith, joinPoints]

theorem splitPoints_ne_nil (cs : List Char) : splitPoints cs ≠ [] := by
  fun_cases splitPoints cs <;> simp

theorem joinPoints_splitPoints (cs : List Char) : joinPoints (splitPoints cs) = cs := by
  fun_induction splitPoints cs with
  | case1 => rfl
  | case2 cs ih =>
    obtain ⟨part, parts, h⟩ := List.exists_cons_of_ne_nil (splitPoints_ne_nil cs)
    simp_all [joinPoints]
  | case3 c cs hc h => exact absurd h (splitPoints_ne_nil cs)
  | case4 c cs hc part parts h ih => simp_all [joinPoints]

theorem splitPoints_of_notMem {part : List Char} (h : '.' ∉ part) : splitPoints part = [part] := by
  induction part with
  | nil => rfl
  | cons c cs ih =>
    rw [List.mem_cons, not_or] at h
    simp [splitPoints, Ne.symm h.1, ih h.2]

theorem splitPoints_append_point {part : List Char} (h : '.' ∉ part) (cs : List Char) :
    splitPoints (part ++ '.' :: cs) = part :: splitPoints cs := by
  induction part with
  | nil => simp [splitPoints]
  | cons c part ih =>
    rw [List.mem_cons, not_or] at h
    simp [splitPoints, Ne.symm h.1, ih h.2]

theorem splitPoints_joinPoints {part : List Char} {parts : List (List Char)}
    (h : ∀ p ∈ part :: parts, '.' ∉ p) :
    splitPoints (joinPoints (part :: parts)) = part :: parts := by
  induction parts generalizing part with
  | nil => simpa [joinPoints] using splitPoints_of_notMem (h part (by simp))
  | cons next parts ih =>
    obtain ⟨hp, hrest⟩ := List.forall_mem_cons.mp h
    have hj : joinPoints (part :: next :: parts) = part ++ '.' :: joinPoints (next :: parts) := by
      simp [joinPoints]
    rw [hj, splitPoints_append_point hp, ih hrest]

theorem render_ofText (text : String) : (ofText text).render = text := by
  rw [← String.toList_inj, toList_render, ofText, List.map_map]
  have hid : String.toList ∘ String.ofList = id := funext fun _ => String.toList_ofList
  rw [hid, List.map_id, joinPoints_splitPoints]

end Reference

theorem isIdentPart_ne_point {c : Char} (h : Lexer.isIdentPart c = true) : c ≠ '.' := by
  rintro rfl
  exact absurd h (by decide)

theorem isIdentPart_of_isIdentStart {c : Char} (h : Lexer.isIdentStart c = true) :
    Lexer.isIdentPart c = true := by
  simp only [Lexer.isIdentStart, Lexer.isIdentPart, Char.isAlphanum, Bool.or_eq_true] at h ⊢
  rcases h with h | h
  · exact Or.inl (Or.inl h)
  · exact Or.inr h

theorem IsIdentifier.isIdentPart {cs : List Char} (h : IsIdentifier cs) :
    ∀ c ∈ cs, Lexer.isIdentPart c = true := by
  obtain ⟨c, rest, rfl, hc, hrest⟩ := h
  exact List.forall_mem_cons.mpr ⟨isIdentPart_of_isIdentStart hc, hrest⟩

theorem IsIdentifier.notMem {cs : List Char} (h : IsIdentifier cs) {c : Char}
    (hc : Lexer.isIdentPart c = false) : c ∉ cs := by
  intro hm
  rw [h.isIdentPart c hm] at hc
  cases hc

theorem Reference.Lexical.notMem_render {path : Reference} (h : path.Lexical) {c : Char}
    (hpoint : c ≠ '.') (hc : Lexer.isIdentPart c = false) : c ∉ path.render.toList := by
  rw [toList_render]
  have hparts : ∀ part ∈ path.segments.map String.toList, c ∉ part := by
    intro part hpart
    obtain ⟨s, hs, rfl⟩ := List.mem_map.mp hpart
    exact (h.2 s hs).notMem hc
  cases hp : path.segments.map String.toList with
  | nil => simp [joinPoints]
  | cons part parts =>
    rw [hp, List.forall_mem_cons] at hparts
    simp only [joinPoints, List.mem_append, List.mem_flatMap, List.mem_cons, not_or, not_exists,
      not_and]
    exact ⟨hparts.1, fun p hmem => ⟨hpoint, hparts.2 p hmem⟩⟩

theorem Reference.Lexical.ofText_render {path : Reference} (h : path.Lexical) :
    ofText path.render = path := by
  obtain ⟨segments⟩ := path
  obtain ⟨hne, hs⟩ := h
  obtain ⟨s, ss, rfl⟩ := List.exists_cons_of_ne_nil hne
  have hpoint : ∀ p ∈ s.toList :: ss.map String.toList, '.' ∉ p := by
    intro p hp
    rw [← List.map_cons] at hp
    obtain ⟨t, ht, rfl⟩ := List.mem_map.mp hp
    exact (hs t ht).notMem (by decide)
  rw [ofText, toList_render, List.map_cons, splitPoints_joinPoints hpoint]
  have hid : String.ofList ∘ String.toList = id := funext fun _ => String.ofList_toList
  rw [← List.map_cons, List.map_map, hid, List.map_id]

namespace Lexer

theorem splitPoints_splitReference (cs : List Char) : ∃ part parts,
    Reference.splitPoints (splitReference cs).1 = part :: parts ∧
      (∀ d ∈ part, isIdentPart d = true) ∧ ∀ p ∈ parts, IsIdentifier p := by
  fun_induction splitReference cs with
  | case1 => exact ⟨[], [], rfl, by simp, by simp⟩
  | case2 c cs hc taken rest hsplit ih =>
    obtain ⟨part, parts, hp, hpart, hparts⟩ := ih
    rw [hsplit] at hp
    have hne := isIdentPart_ne_point (isIdentPart_of_isIdentStart hc)
    refine ⟨[], (c :: part) :: parts, ?_, by simp, ?_⟩
    · simp [Reference.splitPoints, hne, hp]
    · exact List.forall_mem_cons.mpr ⟨⟨c, part, rfl, hc, hpart⟩, hparts⟩
  | case3 => exact ⟨[], [], rfl, by simp, by simp⟩
  | case4 c cs _ hc taken rest hsplit ih =>
    obtain ⟨part, parts, hp, hpart, hparts⟩ := ih
    rw [hsplit] at hp
    refine ⟨c :: part, parts, ?_, List.forall_mem_cons.mpr ⟨hc, hpart⟩, hparts⟩
    simp [Reference.splitPoints, isIdentPart_ne_point hc, hp]
  | case5 => exact ⟨[], [], rfl, by simp, by simp⟩

theorem lexical_reference {c : Char} (hc : isIdentStart c = true) (cs : List Char) :
    (Reference.ofText (String.ofList (c :: (splitReference cs).1))).Lexical := by
  obtain ⟨part, parts, hp, hpart, hparts⟩ := splitPoints_splitReference cs
  have hne := isIdentPart_ne_point (isIdentPart_of_isIdentStart hc)
  have hsplit : Reference.splitPoints (c :: (splitReference cs).1) = (c :: part) :: parts := by
    simp [Reference.splitPoints, hne, hp]
  rw [Reference.ofText, String.toList_ofList, hsplit]
  refine ⟨by simp, ?_⟩
  intro s hs
  obtain ⟨p, hp, rfl⟩ := List.mem_map.mp hs
  rw [String.toList_ofList]
  rcases List.mem_cons.mp hp with rfl | hp
  · exact ⟨c, part, rfl, hc, hpart⟩
  · exact hparts p hp

end Lexer

def TokenKind.Lexical : TokenKind → Prop
  | .reference text => (Reference.ofText text).Lexical ∧ Operator.ofWord? text = none
  | _ => True

/-- A number as it is written; there is a point only in front of further digits. -/
def numeral (negative : Bool) (whole fraction : List Char) : List Char :=
  (if negative then ['-'] else []) ++ whole ++ if fraction = [] then [] else '.' :: fraction

namespace Lexer

theorem lexical_wordKind {c : Char} (hc : isIdentStart c = true) (cs : List Char) :
    (wordKind (String.ofList (c :: (splitReference cs).1))).Lexical := by
  unfold wordKind
  split
  · trivial
  · next h => exact ⟨lexical_reference hc cs, h⟩

theorem takeWhile_digits {whole rest : List Char} (h : ∀ c ∈ whole, c.isDigit = true)
    (hr : ∀ c ∈ rest.head?, c.isDigit = false) :
    (whole ++ rest).takeWhile Char.isDigit = whole ∧
      (whole ++ rest).dropWhile Char.isDigit = rest := by
  have hrest : rest.takeWhile Char.isDigit = [] ∧ rest.dropWhile Char.isDigit = rest := by
    cases rest with
    | nil => simp
    | cons c cs => simp [hr c rfl]
  rw [List.takeWhile_append_of_pos h, List.dropWhile_append_of_pos h, hrest.1, hrest.2]
  simp

theorem isDigit_fractionDigits (cs : List Char) : ∀ c ∈ fractionDigits cs, c.isDigit = true := by
  unfold fractionDigits
  split
  · exact List.all_eq_true.mp List.all_takeWhile
  · simp

theorem numberLexeme_taken (negative : Bool) (cs : List Char) :
    (numberLexeme negative cs).taken =
      numeral negative (splitNumber cs).1 (splitNumber cs).2.1 := by
  simp only [numberLexeme, numeral, List.append_assoc]
  by_cases h : (splitNumber cs).2.1 = []
  · rw [if_pos h, if_pos h, h, List.append_nil]
  · rw [if_neg h, if_neg h, List.singleton_append]

/-- A numeral with a digit in front is always read. -/
theorem parse?_numeral (negative : Bool) {whole fraction : List Char} (hne : whole ≠ [])
    (hd : ∀ c ∈ whole ++ fraction, c.isDigit = true) :
    Decimal.parse? (numeral negative whole fraction) =
      some (.ofDecimal negative (Decimal.ofDigits (whole ++ fraction)) fraction.length) := by
  obtain ⟨hw, hf⟩ := List.forall_mem_append.mp hd
  have hsign : Decimal.splitSign (numeral negative whole fraction) =
      (negative, whole ++ if fraction = [] then [] else '.' :: fraction) := by
    obtain ⟨d, ds, rfl⟩ := List.exists_cons_of_ne_nil hne
    have hdigit : d.isDigit = true := hw d (by simp)
    cases negative with
    | true => rfl
    | false =>
      change Decimal.splitSign (d :: _) = (false, d :: _)
      unfold Decimal.splitSign
      split
      · next he => cases he; cases hdigit
      · next he => cases he; cases hdigit
      · rfl
  by_cases hnil : fraction = []
  · subst hnil
    obtain ⟨ht, hr⟩ := @takeWhile_digits whole [] hw (by simp)
    rw [if_pos rfl] at hsign
    simp only [Decimal.parse?, hsign, ht, hr]
    rw [if_neg hne, List.append_nil, List.length_nil]
  · obtain ⟨ht, hr⟩ := @takeWhile_digits whole ('.' :: fraction) hw (by simp)
    have hboth : whole ++ fraction ≠ [] ∧ fraction.all Char.isDigit = true :=
      ⟨List.append_ne_nil_of_left_ne_nil hne fraction, List.all_eq_true.mpr hf⟩
    rw [if_neg hnil] at hsign
    simp only [Decimal.parse?, hsign, ht, hr]
    rw [if_pos hboth]

/-- What is split off at a digit is a number. -/
theorem outcome_numberLexeme (negative : Bool) {c : Char} (hc : c.isDigit = true)
    (cs : List Char) : (numberLexeme negative (c :: cs)).outcome =
      .ok (.number (.ofDecimal negative
        (Decimal.ofDigits ((splitNumber (c :: cs)).1 ++ (splitNumber (c :: cs)).2.1))
        (splitNumber (c :: cs)).2.1.length)) := by
  have hne : (splitNumber (c :: cs)).1 ≠ [] := by simp [splitNumber, hc]
  have hd : ∀ d ∈ (splitNumber (c :: cs)).1 ++ (splitNumber (c :: cs)).2.1, d.isDigit = true :=
    List.forall_mem_append.mpr
      ⟨List.all_eq_true.mp List.all_takeWhile, isDigit_fractionDigits _⟩
  have houtcome : (numberLexeme negative (c :: cs)).outcome =
      numberKind (numberLexeme negative (c :: cs)).taken := rfl
  rw [houtcome, numberLexeme_taken, numberKind, parse?_numeral negative hne hd]

theorem numberKind_eq_ok {text : List Char} {k : TokenKind} (h : numberKind text = .ok k) :
    ∃ value, k = .number value := by
  unfold numberKind at h
  split at h
  · cases h
    exact ⟨_, rfl⟩
  · cases h

theorem lexical_number {negative : Bool} {cs : List Char} {k : TokenKind}
    (h : (numberLexeme negative cs).outcome = .ok k) : k.Lexical := by
  obtain ⟨value, rfl⟩ := numberKind_eq_ok h
  trivial

theorem lexical_string {quote : Char} {cs : List Char} {k : TokenKind}
    (h : (stringLexeme quote cs).outcome = .ok k) : k.Lexical := by
  unfold stringLexeme at h
  split at h <;> cases h
  trivial

theorem lexical_extensible {c : Char} {alone extended : Operator} {cs : List Char} {k : TokenKind}
    (h : (extensible c alone extended cs).outcome = .ok k) : k.Lexical := by
  unfold extensible at h
  split at h <;> cases h <;> trivial

theorem lexical_of_lexeme {cs : List Char} {k : TokenKind} (h : (lexeme cs).outcome = .ok k) :
    k.Lexical := by
  unfold lexeme at h
  split at h
  -- in turn: `<` and `>`, a minus sign, the quotes, and what is no symbol
  case h_9 | h_10 => exact lexical_extensible h
  case h_12 =>
    split at h
    · exact lexical_number h
    · cases h; trivial
  case h_13 | h_14 => exact lexical_string h
  case h_15 =>
    split at h
    · exact lexical_number h
    · split at h
      · next hc => cases h; exact lexical_wordKind hc _
      · cases h
  all_goals cases h; trivial

theorem lexeme_ne_endOfInput {cs : List Char} (h : cs ≠ []) :
    (lexeme cs).outcome ≠ .ok .endOfInput := by
  intro he
  unfold lexeme at he
  split at he
  case h_1 => exact h rfl
  case h_9 | h_10 => unfold extensible at he; split at he <;> cases he
  case h_12 =>
    split at he
    · obtain ⟨_, hk⟩ := numberKind_eq_ok he
      cases hk
    · cases he
  case h_13 | h_14 => unfold stringLexeme at he; split at he <;> cases he
  case h_15 =>
    split at he
    · obtain ⟨_, hk⟩ := numberKind_eq_ok he
      cases hk
    · split at he
      · simp only [referenceLexeme, wordKind, Except.ok.injEq] at he
        split at he <;> cases he
      · cases he
  all_goals cases he

inductive Scans : List Char → List TokenKind → Prop where
  | done {cs : List Char} (h : (splitTrivia false cs).2 = []) : Scans cs []
  | step {cs : List Char} {k : TokenKind} {ks : List TokenKind}
    (hne : (splitTrivia false cs).2 ≠ [])
    (hk : (lexeme (splitTrivia false cs).2).outcome = .ok k)
    (rest : Scans (lexeme (splitTrivia false cs).2).rest ks) : Scans cs (k :: ks)

theorem next_of_outcome {lexer : Lexer} {k : TokenKind}
    (h : (lexeme (splitTrivia false lexer.rest).2).outcome = .ok k) :
    ∃ span, lexer.next.1 = .ok ⟨k, span⟩ := by
  simp only [next, h]
  exact ⟨_, rfl⟩

theorem tokens_of_next_end {lexer : Lexer} {token : Token} (h : lexer.next.1 = .ok token)
    (hk : token.kind = .endOfInput) : lexer.tokens = .ok [token] := by
  rw [tokens]
  split
  · next e he => rw [h] at he; cases he
  · next t ht =>
    rw [h] at ht
    cases ht
    rw [dif_pos hk]

theorem tokens_of_next {lexer : Lexer} {token : Token} (h : lexer.next.1 = .ok token)
    (hk : token.kind ≠ .endOfInput) :
    lexer.tokens = lexer.next.2.tokens.map (token :: ·) := by
  rw [tokens]
  split
  · next e he => rw [h] at he; cases he
  · next t ht =>
    rw [h] at ht
    cases ht
    rw [dif_neg hk]

theorem tokens_of_scans {cs : List Char} {ks : List TokenKind} (h : Scans cs ks) :
    ∀ position, ∃ tokens, Lexer.tokens ⟨cs, position⟩ = .ok tokens ∧ sentence tokens = ks := by
  induction h with
  | @done cs h =>
    intro position
    have hk : (lexeme (splitTrivia false cs).2).outcome = .ok .endOfInput := by rw [h]; rfl
    obtain ⟨span, hn⟩ := @next_of_outcome ⟨cs, position⟩ _ hk
    exact ⟨_, tokens_of_next_end hn rfl, by simp [sentence]⟩
  | @step cs k ks hne hk _ ih =>
    intro position
    have hend : k ≠ .endOfInput := by
      rintro rfl
      exact lexeme_ne_endOfInput hne hk
    obtain ⟨span, hn⟩ := @next_of_outcome ⟨cs, position⟩ _ hk
    obtain ⟨tokens, ht, hs⟩ := ih (Lexer.next ⟨cs, position⟩).2.position
    refine ⟨⟨k, span⟩ :: tokens, ?_, by simp [sentence_cons, hend, hs]⟩
    rw [tokens_of_next hn hend]
    change Except.map _ (Lexer.tokens ⟨_, _⟩) = _
    exact congrArg (Except.map _) ht

theorem outcome_of_next {lexer : Lexer} {token : Token} (h : lexer.next.1 = .ok token) :
    (lexeme (splitTrivia false lexer.rest).2).outcome = .ok token.kind := by
  simp only [next] at h
  split at h <;> cases h
  next hk => exact hk

theorem scans_of_tokens {lexer : Lexer} {tokens : List Token} (h : lexer.tokens = .ok tokens) :
    Scans lexer.rest (sentence tokens) := by
  fun_induction Lexer.tokens lexer generalizing tokens with
  | case1 lexer e he => cases h
  | case2 lexer token hn hk =>
    cases h
    have ho := outcome_of_next hn
    rw [hk] at ho
    have hnil : (splitTrivia false lexer.rest).2 = [] := by
      cases hcs : (splitTrivia false lexer.rest).2 with
      | nil => rfl
      | cons c cs => exact absurd ho (lexeme_ne_endOfInput (by simp [hcs]))
    simpa [sentence, hk] using Scans.done hnil
  | case3 lexer token hn hk ih =>
    have ho := outcome_of_next hn
    have hne : (splitTrivia false lexer.rest).2 ≠ [] := by
      intro hnil
      rw [hnil] at ho
      exact hk (Except.ok.inj ho).symm
    cases hr : lexer.next.2.tokens with
    | error e => rw [hr] at h; cases h
    | ok rest =>
      rw [hr] at h
      cases h
      rw [sentence_cons, if_neg hk]
      exact .step hne ho (ih hr)

theorem lexical_of_scans {cs : List Char} {ks : List TokenKind} (h : Scans cs ks) :
    ∀ k ∈ ks, k.Lexical := by
  induction h with
  | done => simp
  | step _ hk _ ih => exact List.forall_mem_cons.mpr ⟨lexical_of_lexeme hk, ih⟩

/-- What follows cannot extend a name or a number. -/
def Delimited (rest : List Char) : Prop := ∀ c ∈ rest.head?, c ∈ [' ', '(', ')', ',']

theorem scans_space {cs : List Char} {ks : List TokenKind} (h : Scans cs ks) :
    Scans (' ' :: cs) ks := by
  have hs : (splitTrivia false (' ' :: cs)).2 = (splitTrivia false cs).2 := rfl
  cases h with
  | done h => exact .done (hs.trans h)
  | step hne hk rest =>
    rw [← hs] at hne hk rest
    exact .step hne hk rest

theorem scans_lexeme {c : Char} {cs rest taken : List Char} {k : TokenKind} {ks : List TokenKind}
    (hc : (Text.isBlank c || c == '#') = false) (hl : lexeme (c :: cs) = ⟨.ok k, taken, rest⟩)
    (h : Scans rest ks) : Scans (c :: cs) (k :: ks) := by
  have hs : (splitTrivia false (c :: cs)).2 = c :: cs := by simp [splitTrivia, hc]
  refine .step (by simp [hs]) ?_ ?_
  · rw [hs, hl]
  · rw [hs, hl]
    exact h

theorem isAlpha_code {c : Char} (h : c.isAlpha = true) :
    65 ≤ c.toNat ∧ c.toNat ≤ 90 ∨ 97 ≤ c.toNat ∧ c.toNat ≤ 122 := by
  change (decide (65 ≤ c.val ∧ c.val ≤ 90) ||
    (decide (97 ≤ c.val) && decide (c.val ≤ 122))) = true at h
  simp only [Bool.or_eq_true, Bool.and_eq_true, decide_eq_true_eq, UInt32.le_iff_toNat_le] at h
  exact h

theorem isIdentPart_code {c : Char} (h : isIdentPart c = true) :
    48 ≤ c.toNat ∧ c.toNat ≤ 57 ∨ 65 ≤ c.toNat ∧ c.toNat ≤ 90 ∨ c.toNat = 95 ∨
      97 ≤ c.toNat ∧ c.toNat ≤ 122 := by
  simp only [isIdentPart, Char.isAlphanum, Bool.or_eq_true, beq_iff_eq] at h
  rcases h with (h | h) | rfl
  · rcases isAlpha_code h with h | h
    · exact Or.inr (Or.inl h)
    · exact Or.inr (Or.inr (Or.inr h))
  · exact Or.inl (Char.isDigit_iff_toNat.mp h)
  · decide

theorem not_trivia_of_isIdentPart {c : Char} (h : isIdentPart c = true) :
    (Text.isBlank c || c == '#') = false := by
  have hn := isIdentPart_code h
  have hs : c ≠ '#' := by
    rintro rfl
    exact absurd h (by decide)
  simp [Text.isBlank, Text.inRanges, Text.blankRanges, hs]
  omega

theorem isIdentPart_of_isDigit {c : Char} (h : c.isDigit = true) : isIdentPart c = true := by
  simp [isIdentPart, Char.isAlphanum, h]

theorem not_isDigit_of_isIdentStart {c : Char} (h : isIdentStart c = true) :
    c.isDigit = false := by
  rw [Bool.eq_false_iff]
  intro hd
  simp only [isIdentStart, Bool.or_eq_true, beq_iff_eq] at h
  rcases h with h | rfl
  · have hcode := isAlpha_code h
    have hdigit : 48 ≤ c.toNat ∧ c.toNat ≤ 57 := Char.isDigit_iff_toNat.mp hd
    omega
  · exact absurd hd (by decide)

theorem lexeme_of_isIdentPart {c : Char} (h : isIdentPart c = true) (cs : List Char) :
    lexeme (c :: cs) = if c.isDigit then numberLexeme false (c :: cs)
      else if isIdentStart c then referenceLexeme c cs
      else ⟨.error (.invalidInput c), [c], cs⟩ := by
  unfold lexeme
  split
  case h_15 => next he => cases he; rfl
  all_goals
    next he => cases he <;> exact absurd h (by decide)

theorem lexeme_of_isIdentStart {c : Char} (h : isIdentStart c = true) (cs : List Char) :
    lexeme (c :: cs) = referenceLexeme c cs := by
  rw [lexeme_of_isIdentPart (isIdentPart_of_isIdentStart h)]
  simp [not_isDigit_of_isIdentStart h, h]

theorem lexeme_of_isDigit {c : Char} (h : c.isDigit = true) (cs : List Char) :
    lexeme (c :: cs) = numberLexeme false (c :: cs) := by
  rw [lexeme_of_isIdentPart (isIdentPart_of_isDigit h), if_pos h]

theorem splitReference_delimited {rest : List Char} (h : Delimited rest) :
    splitReference rest = ([], rest) := by
  cases rest with
  | nil => rfl
  | cons c cs =>
    have hc := h c rfl
    simp only [List.mem_cons, List.not_mem_nil, or_false] at hc
    rcases hc with rfl | rfl | rfl | rfl <;> rfl

theorem splitReference_part {part : List Char} (h : ∀ c ∈ part, isIdentPart c = true)
    (rest : List Char) : splitReference (part ++ rest) =
      (part ++ (splitReference rest).1, (splitReference rest).2) := by
  induction part with
  | nil => rfl
  | cons c part ih =>
    obtain ⟨hc, hpart⟩ := List.forall_mem_cons.mp h
    have hne := isIdentPart_ne_point hc
    simp [splitReference, hne, hc, ih hpart]

theorem splitReference_points_append {parts : List (List Char)} (h : ∀ p ∈ parts, IsIdentifier p)
    (rest : List Char) : splitReference (parts.flatMap ('.' :: ·) ++ rest) =
      (parts.flatMap ('.' :: ·) ++ (splitReference rest).1, (splitReference rest).2) := by
  induction parts with
  | nil => rfl
  | cons p parts ih =>
    obtain ⟨⟨c, part, rfl, hc, hpart⟩, hparts⟩ := List.forall_mem_cons.mp h
    simp [splitReference, hc, splitReference_part hpart, ih hparts]

theorem splitReference_points {parts : List (List Char)} (h : ∀ p ∈ parts, IsIdentifier p)
    {rest : List Char} (hr : Delimited rest) :
    splitReference (parts.flatMap ('.' :: ·) ++ rest) = (parts.flatMap ('.' :: ·), rest) := by
  rw [splitReference_points_append h, splitReference_delimited hr, List.append_nil]

theorem lexeme_word {c : Char} {cs rest : List Char} (hc : isIdentStart c = true)
    (h : splitReference (cs ++ rest) = (cs, rest)) :
    lexeme (c :: (cs ++ rest)) = ⟨.ok (wordKind (String.ofList (c :: cs))), c :: cs, rest⟩ := by
  rw [lexeme_of_isIdentStart hc]
  simp only [referenceLexeme, h]

theorem splitReference_render {path : Reference} (h : path.Lexical) :
    ∃ c cs, path.render.toList = c :: cs ∧ isIdentStart c = true ∧
      ∀ {rest}, Delimited rest → splitReference (cs ++ rest) = (cs, rest) := by
  obtain ⟨s, ss, hs⟩ := List.exists_cons_of_ne_nil h.1
  obtain ⟨c, part, hcs, hc, hpart⟩ := h.2 s (by simp [hs])
  have hparts : ∀ p ∈ ss.map String.toList, IsIdentifier p := by
    intro p hp
    obtain ⟨t, ht, rfl⟩ := List.mem_map.mp hp
    exact h.2 t (by simp [hs, ht])
  refine ⟨c, part ++ (ss.map String.toList).flatMap ('.' :: ·), ?_, hc, fun hr => ?_⟩
  · rw [Reference.toList_render, hs, List.map_cons, hcs]
    rfl
  · rw [List.append_assoc, splitReference_part hpart, splitReference_points hparts hr]

theorem scans_word {word : String} {c : Char} {cs rest : List Char} {ks : List TokenKind}
    (htext : word.toList = c :: cs) (hc : isIdentStart c = true)
    (hsplit : splitReference (cs ++ rest) = (cs, rest)) (hw : Operator.ofWord? word = none)
    (h : Scans rest ks) : Scans (word.toList ++ rest) (.reference word :: ks) := by
  have hl := lexeme_word hc hsplit
  rw [← htext, String.ofList_toList, wordKind, hw] at hl
  rw [htext]
  exact scans_lexeme (not_trivia_of_isIdentPart (isIdentPart_of_isIdentStart hc)) hl h

theorem splitNumber_digits {whole fraction rest : List Char}
    (h : ∀ c ∈ whole ++ fraction, c.isDigit = true) (hr : Delimited rest) :
    splitNumber (whole ++ (if fraction = [] then [] else '.' :: fraction) ++ rest) =
      (whole, fraction, rest) := by
  have hdelimited : ∀ c ∈ rest.head?, c.isDigit = false := by
    intro c hc
    have := hr c hc
    simp only [List.mem_cons, List.not_mem_nil, or_false] at this
    rcases this with rfl | rfl | rfl | rfl <;> rfl
  have hpoint : rest.head? ≠ some '.' := by
    intro hp
    exact absurd (hr '.' hp) (by decide)
  obtain ⟨hw, hf⟩ := List.forall_mem_append.mp h
  rw [List.append_assoc]
  by_cases hnil : fraction = []
  · subst hnil
    obtain ⟨ht, hd⟩ := takeWhile_digits hw hdelimited
    have hfraction : fractionDigits rest = [] := by
      unfold fractionDigits
      split
      · exact absurd rfl hpoint
      · rfl
    simp [splitNumber, ht, hd, hfraction]
  · have hstart : ∀ c ∈ (('.' :: fraction) ++ rest).head?, c.isDigit = false := by simp
    obtain ⟨ht, hd⟩ := takeWhile_digits hw hstart
    obtain ⟨hft, _⟩ := takeWhile_digits hf hdelimited
    have hfraction : fractionDigits ('.' :: fraction ++ rest) = fraction := hft
    simp only [if_neg hnil, splitNumber, ht, hd, hfraction]
    simp

theorem numberLexeme_digits (negative : Bool) {whole fraction rest : List Char} (hne : whole ≠ [])
    (h : ∀ c ∈ whole ++ fraction, c.isDigit = true) (hr : Delimited rest) :
    numberLexeme negative (whole ++ (if fraction = [] then [] else '.' :: fraction) ++ rest) =
      ⟨.ok (.number (.ofDecimal negative (Decimal.ofDigits (whole ++ fraction)) fraction.length)),
        numeral negative whole fraction, rest⟩ := by
  have hsplit := splitNumber_digits h hr
  have htaken := numberLexeme_taken negative
    (whole ++ (if fraction = [] then [] else '.' :: fraction) ++ rest)
  rw [hsplit] at htaken
  have hread : numberLexeme negative
      (whole ++ (if fraction = [] then [] else '.' :: fraction) ++ rest) =
        ⟨numberKind (numeral negative whole fraction), numeral negative whole fraction, rest⟩ := by
    rw [← htaken, numberLexeme, hsplit]
  rw [hread, numberKind, parse?_numeral negative hne h]

theorem splitQuoted_escaped (s rest : List Char) :
    Text.splitQuoted '\'' (s.flatMap Text.escapeChar ++ '\'' :: rest) =
      some (s.flatMap Text.escapeChar, rest) := by
  induction s with
  | nil => simp [Text.splitQuoted]
  | cons c s ih =>
    by_cases hb : c = '\\'
    · simp [hb, Text.escapeChar, Text.splitQuoted, ih]
    · by_cases hq : c = '\''
      · simp [hq, Text.escapeChar, Text.splitQuoted, ih]
      · simp [hb, hq, Text.escapeChar, Text.splitQuoted, ih]

theorem unescape_escaped (s : List Char) :
    Text.unescape '\'' (s.flatMap Text.escapeChar) = s := by
  induction s with
  | nil => rfl
  | cons c s ih =>
    by_cases hb : c = '\\'
    · simp [hb, Text.escapeChar, Text.unescape, ih]
    · by_cases hq : c = '\''
      · simp [hq, Text.escapeChar, Text.unescape, ih]
      · simp [hb, hq, Text.escapeChar, Text.unescape, ih]

theorem lexeme_quote (value : String) (rest : List Char) :
    lexeme ((Text.quote value).toList ++ rest) =
      ⟨.ok (.string value), (Text.quote value).toList, rest⟩ := by
  have hq : (Text.quote value).toList ++ rest =
      '\'' :: (value.toList.flatMap Text.escapeChar ++ '\'' :: rest) := by
    simp [Text.quote]
  rw [hq]
  change stringLexeme '\'' _ = _
  simp [stringLexeme, splitQuoted_escaped, unescape_escaped, Text.quote]

theorem lexeme_operator (op : Operator) (rest : List Char) :
    lexeme (op.render.toList ++ ' ' :: rest) =
      ⟨.ok (.operator op), op.render.toList, ' ' :: rest⟩ := by
  cases op with
  | and => exact @lexeme_word 'a' ['n', 'd'] (' ' :: rest) (by decide) rfl
  | or => exact @lexeme_word 'o' ['r'] (' ' :: rest) (by decide) rfl
  | _ => rfl

end Lexer

end RowSpec
