import RowSpec.Proofs.Lexing

/-! Where the results of a lexer lie in its source. Tokens and failures alike cover stretches of the
source that follow one another; what lies between two of them is blanks and comments. Every result
but the end of input covers something, so the end comes after no more readings than the source has
bytes. -/
namespace RowSpec

namespace Text

theorem byteCount_toList (source : String) : byteCount source.toList = source.utf8ByteSize := by
  suffices h : ∀ cs, byteCount cs = (String.ofList cs).utf8ByteSize by
    rw [h, String.ofList_toList]
  intro cs
  induction cs with
  | nil => rfl
  | cons c cs ih =>
    rw [String.ofList_cons, String.utf8ByteSize_append, String.utf8ByteSize_singleton, ← ih]
    rfl

/-- The number of bytes in front of a character is a boundary of characters. -/
theorem isValid_byteCount {source : String} {before rest : List Char}
    (h : source.toList = before ++ rest) :
    String.Pos.Raw.IsValid source ⟨byteCount before⟩ := by
  rw [String.Pos.Raw.isValid_iff_exists_append]
  refine ⟨String.ofList before, String.ofList rest, ?_, ?_⟩
  · rw [← String.ofList_append, ← h, String.ofList_toList]
  · rw [String.Pos.Raw.ext_iff, String.byteIdx_rawEndPos, ← byteCount_toList, String.toList_ofList]

theorem byteCount_pos {cs : List Char} (h : cs ≠ []) : 0 < byteCount cs := by
  cases cs with
  | nil => exact absurd rfl h
  | cons c cs =>
    have := c.utf8Size_pos
    rw [byteCount]
    omega

end Text

inductive Trivia (rest : List Char) : List Char → Prop where
  | nil : Trivia rest []
  | blank {c : Char} {cs : List Char} (hc : Text.isBlank c = true) (h : Trivia rest cs) :
    Trivia rest (c :: cs)
  | comment {body cs : List Char} (hbody : ∀ c ∈ body, c ≠ '\n' ∧ c ≠ '\r')
    (hend : ∀ c ∈ (cs ++ rest).head?, c = '\n' ∨ c = '\r') (h : Trivia rest cs) :
    Trivia rest ('#' :: (body ++ cs))

def IsGap (source : String) (start stop : Nat) : Prop :=
  ∃ before gap rest, source.toList = before ++ gap ++ rest ∧ Text.byteCount before = start ∧
    Text.byteCount (before ++ gap) = stop ∧ Trivia rest gap

namespace Lexer

def spanOf : Except LexError Token → Span
  | .ok token => token.span
  | .error e => e.span

def isEnd : Except LexError Token → Bool
  | .ok token => token.kind = .endOfInput
  | .error _ => false

theorem isNewline_iff {c : Char} : isNewline c = true ↔ c = '\n' ∨ c = '\r' := by
  simp [isNewline]

theorem isBlank_of_isNewline {c : Char} (h : isNewline c = true) : Text.isBlank c = true := by
  rcases isNewline_iff.mp h with rfl | rfl
  · decide
  · decide

/-- Outside a comment trivia is split off, inside one the rest of the comment and then trivia. -/
theorem trivia_splitTrivia (cs : List Char) :
    Trivia (splitTrivia false cs).2 (splitTrivia false cs).1 ∧
      ∃ body trivia, (splitTrivia true cs).1 = body ++ trivia ∧
        (∀ c ∈ body, c ≠ '\n' ∧ c ≠ '\r') ∧
        (∀ c ∈ (trivia ++ (splitTrivia true cs).2).head?, c = '\n' ∨ c = '\r') ∧
        Trivia (splitTrivia true cs).2 trivia := by
  induction cs with
  | nil => exact ⟨.nil, [], [], rfl, by simp, by simp [splitTrivia], .nil⟩
  | cons c cs ih =>
    obtain ⟨hrest, body, trivia, hsplit, hbody, hend, htrivia⟩ := ih
    constructor
    · simp only [splitTrivia]
      by_cases hc : c = '#'
      · subst hc
        have hcomment := Trivia.comment hbody hend htrivia
        rw [← hsplit] at hcomment
        exact hcomment
      · have hmark : (c == '#') = false := beq_false_of_ne hc
        by_cases hb : Text.isBlank c = true
        · rw [hb, hmark]
          exact .blank hb hrest
        · rw [Bool.eq_false_iff.mpr hb, hmark]
          exact .nil
    · simp only [splitTrivia]
      by_cases hc : isNewline c = true
      · -- the comment ends in front of the line end, which is a blank
        rw [hc]
        refine ⟨[], c :: (splitTrivia false cs).1, rfl, by simp, ?_, ?_⟩
        · simpa using isNewline_iff.mp hc
        · exact .blank (isBlank_of_isNewline hc) hrest
      · have hnot := mt isNewline_iff.mpr hc
        rw [Bool.eq_false_iff.mpr hc]
        refine ⟨c :: body, trivia, congrArg (c :: ·) hsplit, ?_, hend, htrivia⟩
        exact List.forall_mem_cons.mpr ⟨not_or.mp hnot, hbody⟩

theorem isEnd_next (lexer : Lexer) :
    isEnd lexer.next.1 = true ↔ (splitTrivia false lexer.rest).2 = [] := by
  constructor
  · intro hend
    cases hr : lexer.next.1 with
    | error e =>
      rw [hr] at hend
      cases hend
    | ok token =>
      rw [hr] at hend
      have ho := outcome_of_next hr
      rw [of_decide_eq_true hend] at ho
      cases hinput : (splitTrivia false lexer.rest).2 with
      | nil => rfl
      | cons c cs =>
        rw [hinput] at ho
        exact absurd ho (lexeme_ne_endOfInput (List.cons_ne_nil c cs))
  · intro hnil
    simp only [next, hnil]
    rfl

/-- What one reading does: it passes over trivia, covers a stretch behind it, and goes on behind
that. Only the end of input covers nothing, and it comes when nothing is left. -/
theorem next_spec (lexer : Lexer) : ∃ trivia taken,
    lexer.rest = trivia ++ taken ++ lexer.next.2.rest ∧
      Trivia (taken ++ lexer.next.2.rest) trivia ∧
      spanOf lexer.next.1 = ⟨lexer.position + Text.byteCount trivia,
        lexer.position + Text.byteCount trivia + Text.byteCount taken⟩ ∧
      lexer.next.2.position = (spanOf lexer.next.1).stop ∧
      (isEnd lexer.next.1 = true → taken ++ lexer.next.2.rest = []) ∧
      (isEnd lexer.next.1 = false → taken ≠ []) := by
  have hsplit := splitTrivia_append false lexer.rest
  have htrivia := (trivia_splitTrivia lexer.rest).1
  have hend := isEnd_next lexer
  have hspan : spanOf lexer.next.1 =
      ⟨lexer.position + Text.byteCount (splitTrivia false lexer.rest).1,
        lexer.position + Text.byteCount (splitTrivia false lexer.rest).1 +
          Text.byteCount (lexeme (splitTrivia false lexer.rest).2).taken⟩ := by
    simp only [next]
    split <;> rfl
  have hrest : lexer.next.2.rest = (lexeme (splitTrivia false lexer.rest).2).rest := rfl
  rw [← lexeme_append (splitTrivia false lexer.rest).2, ← hrest] at hsplit htrivia
  refine ⟨_, _, by rw [List.append_assoc, hsplit], htrivia, hspan, by rw [hspan]; rfl, ?_, ?_⟩
  · intro he
    rw [hrest, lexeme_append]
    exact hend.mp he
  · intro he
    apply lexeme_taken_ne_nil
    intro hnil
    rw [hend.mpr hnil] at he
    cases he

/-- Results that lie one behind the other in a source, from a position on, with gaps in front of
them. The end of input lies at the end of the source, and all others cover something. -/
inductive Tiles (source : String) : Nat → List (Except LexError Token) → Prop where
  | nil (position : Nat) : Tiles source position []
  | cons {position : Nat} {result : Except LexError Token} {results : List (Except LexError Token)}
    (hgap : IsGap source position (spanOf result).start)
    (hstart : String.Pos.Raw.IsValid source ⟨(spanOf result).start⟩)
    (hstop : String.Pos.Raw.IsValid source ⟨(spanOf result).stop⟩)
    (hend : isEnd result = true → spanOf result = ⟨source.utf8ByteSize, source.utf8ByteSize⟩)
    (hsome : isEnd result = false → (spanOf result).start < (spanOf result).stop)
    (rest : Tiles source (spanOf result).stop results) : Tiles source position (result :: results)

/-- However many results are read, they tile what is left of the source. -/
theorem tiles_take {source : String} {before : List Char} {lexer : Lexer} (n : Nat)
    (h : source.toList = before ++ lexer.rest) (hp : lexer.position = Text.byteCount before) :
    Tiles source lexer.position (lexer.take n) := by
  induction n generalizing before lexer with
  | zero => exact .nil _
  | succ n ih =>
    obtain ⟨trivia, taken, hrest, htrivia, hspan, hposition, hend, hsome⟩ :=
      next_spec lexer
    have hstart : (spanOf lexer.next.1).start = Text.byteCount (before ++ trivia) := by
      rw [hspan, Text.byteCount_append, hp]
    have hstop : (spanOf lexer.next.1).stop = Text.byteCount (before ++ trivia ++ taken) := by
      rw [hspan, Text.byteCount_append, Text.byteCount_append, hp]
    have hsource : source.toList = before ++ trivia ++ taken ++ lexer.next.2.rest := by
      rw [h, hrest]
      simp
    have hsource' : source.toList = before ++ trivia ++ (taken ++ lexer.next.2.rest) := by
      rw [hsource, List.append_assoc]
    refine .cons ?_ ?_ ?_ ?_ ?_ ?_
    · exact ⟨before, trivia, _, hsource', hp.symm, hstart.symm, htrivia⟩
    · rw [hstart]
      exact Text.isValid_byteCount hsource'
    · rw [hstop]
      exact Text.isValid_byteCount hsource
    · intro he
      obtain ⟨rfl, hnil⟩ := List.append_eq_nil_iff.mp (hend he)
      rw [hnil, List.append_nil] at hsource
      rw [← Text.byteCount_toList, hsource, ← hstop, hspan]
      rfl
    · intro he
      have := Text.byteCount_pos (hsome he)
      rw [hspan]
      dsimp only
      omega
    · rw [← hposition]
      exact ih hsource (hposition.trans hstop)

namespace Tiles

variable {source : String} {position : Nat} {results : List (Except LexError Token)}

theorem le_start (h : Tiles source position results) :
    ∀ result ∈ results, position ≤ (spanOf result).start ∧
      (spanOf result).start ≤ (spanOf result).stop := by
  induction h with
  | nil => simp
  | @cons position result results hgap _ _ hend hsome _ ih =>
    obtain ⟨before, gap, _, _, hbefore, hgap, _⟩ := hgap
    have hposition : position ≤ (spanOf result).start := by
      rw [Text.byteCount_append] at hgap
      omega
    have hwithin : (spanOf result).start ≤ (spanOf result).stop := by
      cases he : isEnd result with
      | true => simp [hend he]
      | false => exact Nat.le_of_lt (hsome he)
    refine List.forall_mem_cons.mpr ⟨⟨hposition, hwithin⟩, ?_⟩
    intro r hr
    obtain ⟨hstart, hstop⟩ := ih r hr
    exact ⟨by omega, hstop⟩

theorem isValid (h : Tiles source position results) : ∀ span ∈ results.map spanOf,
    String.Pos.Raw.IsValid source ⟨span.start⟩ ∧ String.Pos.Raw.IsValid source ⟨span.stop⟩ := by
  induction h with
  | nil => simp
  | cons _ hstart hstop _ _ _ ih => exact List.forall_mem_cons.mpr ⟨⟨hstart, hstop⟩, ih⟩

theorem pairwise (h : Tiles source position results) :
    (results.map spanOf).Pairwise fun a b => a.stop ≤ b.start := by
  induction h with
  | nil => exact List.Pairwise.nil
  | cons _ _ _ _ _ rest ih =>
    refine List.pairwise_cons.mpr ⟨?_, ih⟩
    intro span hspan
    obtain ⟨result, hresult, rfl⟩ := List.mem_map.mp hspan
    exact (rest.le_start result hresult).1

theorem isGap (h : Tiles source position results) {start : Nat} {a b : Span}
    (hab : [a, b] <:+: ⟨start, position⟩ :: results.map spanOf) :
    IsGap source a.stop b.start := by
  induction h generalizing start with
  | nil position =>
    have := hab.length_le
    simp at this
  | @cons position result results hgap _ _ _ _ _ ih =>
    rw [List.map_cons, List.infix_cons_iff] at hab
    rcases hab with hfirst | hlater
    · obtain ⟨rfl, hsecond⟩ := List.cons_prefix_cons.mp hfirst
      rw [(List.cons_prefix_cons.mp hsecond).1]
      exact hgap
    · exact ih hlater

theorem span_of_isEnd (h : Tiles source position results) : ∀ result ∈ results,
    if isEnd result then spanOf result = ⟨source.utf8ByteSize, source.utf8ByteSize⟩
      else (spanOf result).start < (spanOf result).stop := by
  induction h with
  | nil => simp
  | @cons _ result _ _ _ _ hend hsome _ ih =>
    refine List.forall_mem_cons.mpr ⟨?_, ih⟩
    cases he : isEnd result with
    | true => exact hend he
    | false => exact hsome he

theorem within (h : Tiles source position results) :
    ∀ result ∈ results, (spanOf result).stop ≤ source.utf8ByteSize := by
  intro result hresult
  exact (h.isValid _ (List.mem_map_of_mem hresult)).2.le_rawEndPos

/-- At the end of the source there is nothing left to cover. -/
theorem isEnd_of_le (h : Tiles source position results) (hp : source.utf8ByteSize ≤ position) :
    ∀ result ∈ results, isEnd result = true := by
  intro result hresult
  cases he : isEnd result with
  | true => rfl
  | false =>
    have hsome := h.span_of_isEnd result hresult
    rw [he] at hsome
    simp only [Bool.false_eq_true, if_false] at hsome
    have := (h.le_start result hresult).1
    have := h.within result hresult
    omega

theorem isEnd_behind (h : Tiles source position results)
    {xs ys : List (Except LexError Token)} {result : Except LexError Token}
    (hr : results = xs ++ result :: ys) (he : isEnd result = true) :
    ∀ later ∈ ys, isEnd later = true := by
  induction h generalizing xs with
  | nil => simp at hr
  | @cons position first results _ _ _ hend _ rest ih =>
    cases xs with
    | nil =>
      obtain ⟨rfl, rfl⟩ := List.cons.inj hr
      apply rest.isEnd_of_le
      simp [hend he]
    | cons x xs => exact ih (List.cons.inj hr).2

/-- Every result but the end of input takes a byte or more of the source. -/
theorem countP_le (h : Tiles source position results) (hp : position ≤ source.utf8ByteSize) :
    results.countP (!isEnd ·) + position ≤ source.utf8ByteSize := by
  induction h with
  | nil => simpa using hp
  | @cons position result results hgap hstart hstop hend hsome rest ih =>
    have hle := (Tiles.cons hgap hstart hstop hend hsome rest).le_start result (by simp)
    have hcount := ih hstop.le_rawEndPos
    rw [List.countP_cons]
    cases he : isEnd result with
    | true =>
      simp only [Bool.not_true, Bool.false_eq_true, if_false]
      omega
    | false =>
      have := hsome he
      simp only [Bool.not_false, if_true]
      omega

end Tiles

theorem length_take (n : Nat) (lexer : Lexer) : (lexer.take n).length = n := by
  induction n generalizing lexer with
  | zero => rfl
  | succ n ih => exact congrArg (· + 1) (ih lexer.next.2)

theorem eq_of_isEnd {result : Except LexError Token} {span : Span} (he : isEnd result = true)
    (hs : spanOf result = span) : result = .ok ⟨.endOfInput, span⟩ := by
  cases result with
  | error e => cases he
  | ok token =>
    obtain ⟨kind, span'⟩ := token
    obtain rfl : kind = .endOfInput := of_decide_eq_true he
    cases hs
    rfl

/-- The first failure, or the tokens up to the end of input, if one of these has come. -/
def gather : List (Except LexError Token) → Option (Except LexError (List Token))
  | [] => none
  | .error e :: _ => some (.error e)
  | .ok token :: results =>
    if token.kind = .endOfInput then some (.ok [token])
    else (gather results).map (Except.map (token :: ·))

theorem tokens_of_next_error {lexer : Lexer} {e : LexError} (h : lexer.next.1 = .error e) :
    lexer.tokens = .error e := by
  rw [tokens]
  split
  · next e' he => rw [h] at he; cases he; rfl
  · next token ht => rw [h] at ht; cases ht

/-- Once the end of input has come, so have all tokens. -/
theorem gather_take {n : Nat} {lexer : Lexer}
    (h : ∃ result ∈ lexer.take n, isEnd result = true) :
    gather (lexer.take n) = some lexer.tokens := by
  induction n generalizing lexer with
  | zero => obtain ⟨_, hmem, _⟩ := h; cases hmem
  | succ n ih =>
    rw [take] at h ⊢
    cases hr : lexer.next.1 with
    | error e => rw [gather, tokens_of_next_error hr]
    | ok token =>
      by_cases hk : token.kind = .endOfInput
      · rw [gather, if_pos hk, tokens_of_next_end hr hk]
      · have hlater : ∃ result ∈ lexer.next.2.take n, isEnd result = true := by
          obtain ⟨result, hmem, he⟩ := h
          rcases List.mem_cons.mp hmem with rfl | hmem
          · rw [hr] at he
            exact absurd (of_decide_eq_true he) hk
          · exact ⟨result, hmem, he⟩
        rw [gather, if_neg hk, ih hlater, tokens_of_next hr hk]
        rfl

def readings (source : String) (n : Nat) : List (Except LexError Token) := (ofSource source).take n

theorem length_readings (source : String) (n : Nat) : (readings source n).length = n :=
  length_take n (ofSource source)

end Lexer

open Lexer in
/-- The results of any number of readings tile the source. Their spans lie on boundaries of
characters, one behind the other, with blanks and comments before and between them. The end of input
lies at the end of the source and comes again for ever; all other results cover something, so there
are no more of them than bytes, and within one reading more all tokens have been gathered. -/
theorem readings_tile_source (source : String) (n : Nat) :
    (readings source n).length = n ∧
    (∀ span ∈ (readings source n).map spanOf, String.Pos.Raw.IsValid source ⟨span.start⟩ ∧
      String.Pos.Raw.IsValid source ⟨span.stop⟩) ∧
    (((readings source n).map spanOf).Pairwise fun a b => a.stop ≤ b.start) ∧
    (∀ result ∈ readings source n, isEnd result = false →
      (spanOf result).start < (spanOf result).stop) ∧
    (∀ a b, [a, b] <:+: ⟨0, 0⟩ :: (readings source n).map spanOf →
      IsGap source a.stop b.start) ∧
    (∀ xs result ys, readings source n = xs ++ result :: ys → isEnd result = true →
      ∀ later ∈ result :: ys,
        later = .ok ⟨.endOfInput, ⟨source.utf8ByteSize, source.utf8ByteSize⟩⟩) ∧
    (readings source n).countP (!isEnd ·) ≤ source.utf8ByteSize ∧
    (source.utf8ByteSize < n →
      .ok ⟨.endOfInput, ⟨source.utf8ByteSize, source.utf8ByteSize⟩⟩ ∈ readings source n) ∧
    gather (readings source (source.utf8ByteSize + 1)) = some (tokenize source) := by
  have htiles : ∀ n, Tiles source 0 (readings source n) :=
    fun n => @tiles_take source [] (Lexer.ofSource source) n rfl rfl
  have hend : ∀ n, ∀ result ∈ readings source n, isEnd result = true →
      result = .ok ⟨.endOfInput, ⟨source.utf8ByteSize, source.utf8ByteSize⟩⟩ := by
    intro n result hmem he
    have hspan := (htiles n).span_of_isEnd result hmem
    rw [if_pos he] at hspan
    exact eq_of_isEnd he hspan
  have hcount : ∀ n, (readings source n).countP (!isEnd ·) ≤ source.utf8ByteSize :=
    fun n => (htiles n).countP_le (Nat.zero_le _)
  -- more readings than bytes cannot all cover something
  have hreached : ∀ n, source.utf8ByteSize < n → ∃ result ∈ readings source n,
      isEnd result = true := by
    intro n hn
    have hshort := hcount n
    rw [← length_readings source n] at hn
    have hnot : ¬ ∀ result ∈ readings source n, (!isEnd result) = true := by
      intro hall
      rw [List.countP_eq_length.mpr hall] at hshort
      omega
    simpa using hnot
  refine ⟨length_readings source n, (htiles n).isValid, (htiles n).pairwise, ?_, ?_, ?_, hcount n,
    ?_, ?_⟩
  · intro result hmem he
    have hspan := (htiles n).span_of_isEnd result hmem
    rwa [if_neg (Bool.eq_false_iff.mp he)] at hspan
  · intro a b hab
    exact (htiles n).isGap hab
  · intro xs result ys hresults he
    have hmem : ∀ later ∈ result :: ys, later ∈ readings source n := by
      intro later hlater
      rw [hresults]
      exact List.mem_append_right xs hlater
    have hlast := (htiles n).isEnd_behind hresults he
    refine List.forall_mem_cons.mpr ⟨hend n _ (hmem _ (by simp)) he, ?_⟩
    intro later hlater
    exact hend n later (hmem later (List.mem_cons_of_mem _ hlater)) (hlast later hlater)
  · intro hn
    obtain ⟨result, hmem, he⟩ := hreached n hn
    rw [← hend n result hmem he]
    exact hmem
  · exact gather_take (hreached (source.utf8ByteSize + 1) (Nat.lt_succ_self _))

-- a character that starts nothing, a comment, and a string that is not closed
example : (Lexer.readings "é# x\n 'a" 4).map Lexer.spanOf =
    [⟨0, 2⟩, ⟨7, 9⟩, ⟨9, 9⟩, ⟨9, 9⟩] := by decide +kernel

end RowSpec
