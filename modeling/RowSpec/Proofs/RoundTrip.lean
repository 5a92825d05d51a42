import RowSpec.Expr.Printer
import RowSpec.Expr.Source
import RowSpec.Proofs.Lexing
import RowSpec.Proofs.Numerals

/-! The text of an expression reads back as the expression. What comes out of the parser is well
formed; a well-formed expression without infinite numbers is written as a primary, which the lexer
takes apart as it was put together, and the numbers of the nodes follow from the shape. -/
namespace RowSpec

structure Reference.WellFormed (path : Reference) : Prop where
  lexical : path.Lexical
  isName : path.IsName
  noOperator : Operator.ofWord? path.render = none

namespace Expr

variable {ι : Type}

def NodeWellFormed : Expr ι → Prop
  | .reference _ path => path.WellFormed
  | .binary _ op _ _ => op ≠ .and ∧ op ≠ .or
  | .call _ callee arguments => callee.WellFormed ∧ arguments ≠ []
  | _ => True

def WellFormed (e : Expr ι) : Prop := ∀ n ∈ e.nodes, n.NodeWellFormed

theorem wellFormed_combine {op : Operator} {l r : Expr Unit} (hl : l.WellFormed)
    (hr : r.WellFormed) : (combine () op l r).WellFormed := by
  have operands : ∀ n ∈ l.nodes ++ r.nodes, n.NodeWellFormed :=
    List.forall_mem_append.mpr ⟨hl, hr⟩
  cases op <;> exact List.forall_mem_cons.mpr ⟨by simp [NodeWellFormed], operands⟩

end Expr

theorem TokenKind.Lexical.wellFormed {text : String} (h : (TokenKind.reference text).Lexical)
    (hn : (Reference.ofText text).IsName) : (Reference.ofText text).WellFormed :=
  ⟨h.1, hn, by rw [Reference.render_ofText]; exact h.2⟩

theorem Expr.wellFormed_call {text : String} {ts : List (Expr Unit)}
    (h : (Reference.ofText text).WellFormed) (hne : ts ≠ []) (hts : ∀ t ∈ ts, t.WellFormed) :
    (Expr.call () (.ofText text) ts).WellFormed := by
  intro n hn
  rcases mem_nodes_call.mp hn with rfl | ⟨t, ht, hn⟩
  · exact ⟨h, hne⟩
  · exact hts t ht n hn

/-- What is derived from kinds that the lexer hands out is well formed. -/
theorem Derives.wellFormed {k : Nat} {ks : List TokenKind} {t : Expr Unit} (h : Derives k ks t) :
    (∀ k ∈ ks, k.Lexical) → t.WellFormed := by
  have leaf : ∀ e : Expr Unit, e.nodes = [e] → e.NodeWellFormed → e.WellFormed := by
    intro e hn he
    rw [Expr.WellFormed, hn]
    exact List.forall_mem_singleton.mpr he
  refine @Derives.rec (fun _ ks t _ => (∀ k ∈ ks, k.Lexical) → t.WellFormed)
    (fun ks ts _ => (∀ k ∈ ks, k.Lexical) → ts ≠ [] ∧ ∀ t ∈ ts, t.WellFormed)
    (fun _ _ => leaf _ rfl trivial) (fun _ _ => leaf _ rfl trivial) (fun _ _ => leaf _ rfl trivial)
    (fun _ _ => leaf _ rfl trivial) ?_ ?_ ?_ ?_ (fun _ _ ih => ih) ?_ ?_ ?_ k ks t h
  · intro text ks t _ _ ih hks
    exact List.forall_mem_cons.mpr ⟨trivial, ih (List.forall_mem_cons.mp hks).2⟩
  · intro text hn hks
    exact leaf _ rfl ((hks _ (by simp)).wellFormed hn)
  · intro text ks ts hn _ ih hks
    obtain ⟨hne, hts⟩ := ih (fun k hk => hks k (by simp [hk]))
    exact Expr.wellFormed_call ((hks _ (by simp)).wellFormed hn) hne hts
  · intro ks t _ ih hks
    exact ih (fun k hk => hks k (by simp [hk]))
  · intro op ks ls l r _ _ hl hr hks
    exact Expr.wellFormed_combine (hl fun k hk => hks k (by simp [hk]))
      (hr fun k hk => hks k (by simp [hk]))
  · intro ks t _ ih hks
    exact ⟨by simp, List.forall_mem_singleton.mpr (ih hks)⟩
  · intro ks ls t ts _ _ ht hts hks
    have hrest := hts fun k hk => hks k (by simp [hk])
    exact ⟨by simp, List.forall_mem_cons.mpr ⟨ht fun k hk => hks k (by simp [hk]), hrest.2⟩⟩

theorem Expr.wellFormed_erase {ι : Type} {e : Expr ι} (h : e.erase.WellFormed) :
    e.WellFormed := by
  intro n hn
  have hw := h n.erase (by rw [nodes_erase]; exact List.mem_map_of_mem hn)
  cases n <;> simp_all [NodeWellFormed, erase, eraseAll_eq_map]

namespace Lexer

theorem scans_open {cs : List Char} {ks : List TokenKind} (h : Scans cs ks) :
    Scans ('(' :: cs) (.openParen :: ks) := scans_lexeme (by decide) rfl h

theorem scans_close {cs : List Char} {ks : List TokenKind} (h : Scans cs ks) :
    Scans (')' :: cs) (.closeParen :: ks) := scans_lexeme (by decide) rfl h

theorem scans_comma {cs : List Char} {ks : List TokenKind} (h : Scans cs ks) :
    Scans (',' :: cs) (.comma :: ks) := scans_lexeme (by decide) rfl h

theorem scans_operator (op : Operator) {cs : List Char} {ks : List TokenKind} (h : Scans cs ks) :
    Scans (op.render.toList ++ ' ' :: cs) (.operator op :: ks) := by
  have hl := lexeme_operator op cs
  have hs := scans_space h
  cases op <;> exact scans_lexeme (by decide) hl hs

theorem scans_keyword {word : String} (hw : word ∈ ["null", "true", "false", "not"])
    {rest : List Char} {ks : List TokenKind} (hr : Delimited rest) (h : Scans rest ks) :
    Scans (word.toList ++ rest) (.reference word :: ks) := by
  have hwords : ∀ w ∈ ["null", "true", "false", "not"],
      IsIdentifier w.toList ∧ Operator.ofWord? w = none := by decide
  obtain ⟨⟨c, cs, htext, hc, hcs⟩, hop⟩ := hwords word hw
  have hsplit : splitReference (cs ++ rest) = (cs, rest) := by
    rw [splitReference_part hcs, splitReference_delimited hr, List.append_nil]
  exact scans_word htext hc hsplit hop h

theorem scans_reference {path : Reference} (hp : path.WellFormed) {rest : List Char}
    {ks : List TokenKind} (hr : Delimited rest) (h : Scans rest ks) :
    Scans (path.render.toList ++ rest) (.reference path.render :: ks) := by
  obtain ⟨c, cs, htext, hc, hsplit⟩ := splitReference_render hp.lexical
  exact scans_word htext hc (hsplit hr) hp.noOperator h

theorem scans_quote (value : String) {rest : List Char} {ks : List TokenKind}
    (h : Scans rest ks) : Scans ((Text.quote value).toList ++ rest) (.string value :: ks) := by
  have hl := lexeme_quote value rest
  have htext : (Text.quote value).toList =
      '\'' :: (value.toList.flatMap Text.escapeChar ++ ['\'']) := by
    simp [Text.quote]
  rw [htext] at hl ⊢
  exact scans_lexeme (by decide) hl h

theorem scans_number {value : Double} (hv : value.isFinite = true) {rest : List Char}
    {ks : List TokenKind} (hr : Delimited rest) (h : Scans rest ks) :
    Scans (value.render.toList ++ rest) (.number value :: ks) := by
  obtain ⟨negative, rank⟩ | _ | _ := value
  case infinite | nan => cases hv
  obtain ⟨whole, fraction, hrender, hne, hdigits, hread⟩ := Double.render_finite negative rank
  obtain ⟨d, whole, rfl⟩ := List.exists_cons_of_ne_nil hne
  have hd : d.isDigit = true := hdigits d (by simp)
  have hnumber := numberLexeme_digits negative hne hdigits hr
  rw [hread] at hnumber
  rw [hrender, String.toList_ofList]
  cases negative with
  | false =>
    exact scans_lexeme (not_trivia_of_isIdentPart (isIdentPart_of_isDigit hd))
      ((lexeme_of_isDigit hd _).trans hnumber) h
  | true =>
    have hminus : ∀ cs, lexeme ('-' :: d :: cs) = numberLexeme true (d :: cs) := by
      intro cs
      simp [lexeme, hd]
    exact scans_lexeme (by decide) ((hminus _).trans hnumber) h

end Lexer

namespace Expr

open Lexer

variable {ι : Type}

/-- The text of an expression scans to kinds that derive it as a primary. -/
def Writes (e : Expr ι) : Prop :=
  ∃ ks, Derives 5 ks e.erase ∧ ∀ {rest ls}, Delimited rest → Scans rest ls →
    Scans (e.render.toList ++ rest) (ks ++ ls)

theorem writes_null (label : ι) : (Expr.null label).Writes :=
  ⟨[.reference "null"], .null (by decide), fun hr hs => @scans_keyword "null" (by simp) _ _ hr hs⟩

theorem writes_boolean (label : ι) (value : Bool) : (Expr.boolean label value).Writes := by
  refine ⟨[.reference (if value then "true" else "false")], .boolean ?_, fun hr hs => ?_⟩
  · cases value <;> decide
  · have hword := @scans_keyword (if value then "true" else "false") (by cases value <;> simp)
    cases value <;> exact hword hr hs

theorem writes_reference {label : ι} {path : Reference} (h : path.WellFormed) :
    (Expr.reference label path).Writes := by
  refine ⟨[.reference path.render], ?_, fun hr hs => scans_reference h hr hs⟩
  have hname : (Reference.ofText path.render).IsName := by
    rw [h.lexical.ofText_render]
    exact h.isName
  have hd := Derives.reference hname
  rwa [h.lexical.ofText_render] at hd

theorem writes_string (label : ι) (value : String) : (Expr.string label value).Writes :=
  ⟨[.string value], .string value, fun _ hs => scans_quote value hs⟩

theorem writes_number {label : ι} {value : Double} (h : value.isFinite = true) :
    (Expr.number label value).Writes :=
  ⟨[.number value], .number value, fun hr hs => scans_number h hr hs⟩

theorem render_combine (label : ι) (op : Operator) (left right : Expr ι) :
    (combine label op left right).render =
      "(" ++ left.render ++ " " ++ op.render ++ " " ++ right.render ++ ")" := by
  cases op <;> simp [combine, render, Operator.render, String.append_assoc]

theorem writes_combine {label : ι} {op : Operator} {left right : Expr ι} (hl : left.Writes)
    (hr : right.Writes) : (combine label op left right).Writes := by
  obtain ⟨ks, hks, hleft⟩ := hl
  obtain ⟨ls, hls, hright⟩ := hr
  refine ⟨.openParen :: (ks ++ .operator op :: ls ++ [.closeParen]), ?_, fun hrest hs => ?_⟩
  · have htier := op.tier_lt
    rw [erase_combine]
    exact .group (.loosen (Nat.zero_le _) htier.le
      (.binary (hks.loosen htier.le le_rfl) (hls.loosen htier le_rfl)))
  · have hclose := hright (by simp [Delimited]) (scans_close hs)
    have hop := hleft (by simp [Delimited]) (scans_space (scans_operator op hclose))
    simpa [render_combine] using scans_open hop

theorem writes_negation {label : ι} {child : Expr ι} (h : child.Writes) :
    (Expr.negation label child).Writes := by
  obtain ⟨ks, hks, hchild⟩ := h
  refine ⟨.reference "not" :: .openParen :: (ks ++ [.closeParen]), ?_, fun hrest hs => ?_⟩
  · exact .negation (by decide) (.group (hks.loosen (Nat.zero_le 5) le_rfl))
  · have hgroup := scans_open (hchild (by simp [Delimited]) (scans_close hs))
    have hnot := @scans_keyword "not" (by simp) _ _ (by simp [Delimited]) hgroup
    simpa [render] using hnot

theorem writes_arguments {es : List (Expr ι)} (hne : es ≠ []) (h : ∀ e ∈ es, e.Writes) :
    ∃ ks, DerivesAll ks (eraseAll es) ∧ ∀ {rest ls}, Delimited rest → Scans rest ls →
      Scans ((Text.joinWith ", " (renderAll es)).toList ++ rest) (ks ++ ls) := by
  induction es with
  | nil => exact absurd rfl hne
  | cons e es ih =>
    obtain ⟨⟨ks, hks, he⟩, hes⟩ := List.forall_mem_cons.mp h
    have hfirst := hks.loosen (Nat.zero_le 5) le_rfl
    cases es with
    | nil => exact ⟨ks, .last hfirst, fun hr hs => he hr hs⟩
    | cons e' es =>
      obtain ⟨ls, hls, htail⟩ := ih (by simp) hes
      refine ⟨ks ++ .comma :: ls, .more hfirst hls, fun hr hs => ?_⟩
      have hcomma := he (by simp [Delimited]) (scans_comma (scans_space (htail hr hs)))
      simpa [renderAll, Text.joinWith] using hcomma

theorem writes_call {label : ι} {callee : Reference} {arguments : List (Expr ι)}
    (hc : callee.WellFormed) (hne : arguments ≠ []) (h : ∀ a ∈ arguments, a.Writes) :
    (Expr.call label callee arguments).Writes := by
  obtain ⟨ks, hks, hall⟩ := writes_arguments hne h
  refine ⟨.reference callee.render :: .openParen :: (ks ++ [.closeParen]), ?_, fun hr hs => ?_⟩
  · have hname : (Reference.ofText callee.render).IsName := by
      rw [hc.lexical.ofText_render]
      exact hc.isName
    have hd := Derives.call hname hks
    rwa [hc.lexical.ofText_render] at hd
  · have hgroup := scans_open (hall (by simp [Delimited]) (scans_close hs))
    simpa [render] using scans_reference hc (by simp [Delimited]) hgroup

theorem combine_eq_binary {op : Operator} (h : op ≠ .and ∧ op ≠ .or) (label : ι)
    (left right : Expr ι) : combine label op left right = .binary label op left right := by
  cases op <;> first | rfl | simp at h

def number? : Expr ι → Option Double
  | .number _ value => some value
  | _ => none

def HasFiniteNumbers (e : Expr ι) : Prop :=
  ∀ n ∈ e.nodes, ∀ value ∈ n.number?, value.isFinite = true

instance (e : Expr ι) : Decidable e.HasFiniteNumbers :=
  inferInstanceAs (Decidable (∀ n ∈ e.nodes, ∀ value ∈ n.number?, value.isFinite = true))

theorem writes_of_nodes {e : Expr ι}
    (h : ∀ n ∈ e.nodes, n.NodeWellFormed ∧ ∀ value ∈ n.number?, value.isFinite = true) :
    e.Writes := by
  induction e using induction with
  | null label => exact writes_null label
  | boolean label value => exact writes_boolean label value
  | number label value => exact writes_number ((h _ (self_mem_nodes _)).2 value rfl)
  | string label value => exact writes_string label value
  | reference label path => exact writes_reference (h _ (self_mem_nodes _)).1
  | binary label op left right hl hr =>
    have hleft := hl fun n hn => h n (by simp [nodes, hn])
    have hright := hr fun n hn => h n (by simp [nodes, hn])
    rw [← combine_eq_binary (h _ (self_mem_nodes _)).1]
    exact writes_combine hleft hright
  | conjunction label left right hl hr =>
    have hleft := hl fun n hn => h n (by simp [nodes, hn])
    have hright := hr fun n hn => h n (by simp [nodes, hn])
    exact @writes_combine _ label .and _ _ hleft hright
  | disjunction label left right hl hr =>
    have hleft := hl fun n hn => h n (by simp [nodes, hn])
    have hright := hr fun n hn => h n (by simp [nodes, hn])
    exact @writes_combine _ label .or _ _ hleft hright
  | negation label child hc =>
    exact writes_negation (hc fun n hn => h n (by simp [nodes, hn]))
  | call label callee arguments ih =>
    obtain ⟨hc, hne⟩ := (h _ (self_mem_nodes _)).1
    refine writes_call hc hne fun a ha => ih a ha ?_
    intro n hn
    exact h n (mem_nodes_argument ha n hn)

end Expr

/-- How a source is read hangs on the kinds of its tokens, and these on its text alone. -/
theorem parseSource_eq_ok_iff {c c' : Counter} {source : String} {e : Expr NodeId} :
    parseSource c source = (.ok e, c') ↔
      ∃ ks, Lexer.Scans source.toList ks ∧ Derives 0 ks e.erase ∧ e.erase.withIds c = (e, c') := by
  constructor
  · intro h
    unfold parseSource at h
    split at h
    · cases h
    · next tokens ht =>
      obtain ⟨hresult, hcounter⟩ := Prod.mk.inj h
      cases hr : (parse c tokens).result with
      | error error => simp [hr, Except.mapError] at hresult
      | ok e' =>
        obtain rfl : e' = e := by simpa [hr, Except.mapError] using hresult
        obtain ⟨hids, hnext⟩ := eq_withIds_of_parse hr
        exact ⟨sentence tokens, Lexer.scans_of_tokens ht, derives_of_parse hr,
          Prod.ext hids.symm (hnext.symm.trans hcounter)⟩
  · rintro ⟨ks, hs, hd, he⟩
    obtain ⟨tokens, ht, rfl⟩ := Lexer.tokens_of_scans hs 0
    have htokens : tokenize source = .ok tokens := ht
    obtain ⟨hr, hc⟩ := parse_of_derives c hd
    simp [parseSource, htokens, hr, hc, he, Except.mapError]

theorem wellFormed_of_parseSource {c c' : Counter} {source : String} {e : Expr NodeId}
    (h : parseSource c source = (.ok e, c')) : e.WellFormed := by
  obtain ⟨ks, hs, hd, _⟩ := parseSource_eq_ok_iff.mp h
  exact Expr.wellFormed_erase (hd.wellFormed (Lexer.lexical_of_scans hs))

theorem parseSource_of_any {c : Counter} {source : String} {p : Expr NodeId → Bool}
    (h : (parseSource c source).1.toOption.any p = true) :
    ∃ e c', parseSource c source = (.ok e, c') ∧ p e = true := by
  generalize parseSource c source = outcome at h ⊢
  obtain ⟨r, c'⟩ := outcome
  cases r with
  | error error => cases h
  | ok e => exact ⟨e, c', rfl, h⟩

/-- Reading an expression and writing it loses nothing: the text reads back as the expression,
and its nodes are given the same numbers. -/
theorem parseSource_render {c c' : Counter} {source : String} {e : Expr NodeId}
    (h : parseSource c source = (.ok e, c')) (hf : e.HasFiniteNumbers) :
    parseSource c e.render = (.ok e, c') := by
  obtain ⟨_, _, _, hids⟩ := parseSource_eq_ok_iff.mp h
  have hw := wellFormed_of_parseSource h
  obtain ⟨ks, hks, hscan⟩ := Expr.writes_of_nodes fun n hn => ⟨hw n hn, hf n hn⟩
  refine parseSource_eq_ok_iff.mpr ⟨ks, ?_, hks.loosen (Nat.zero_le 5) le_rfl, hids⟩
  have hend : Lexer.Scans [] [] := .done rfl
  simpa using hscan (by simp [Lexer.Delimited]) hend

theorem parseSource_render_nested : ∃ e c',
    parseSource .start "not (A.b = -1.50 and NULL) or f('it\\'s', 3 - -2)" = (.ok e, c') ∧
      e.HasFiniteNumbers ∧
      e.render = "(not(((A.b = -1.5) and null)) or f('it\\'s', (3 - -2)))" ∧
      parseSource .start e.render = (.ok e, c') := by
  have hrun :
      (parseSource .start "not (A.b = -1.50 and NULL) or f('it\\'s', 3 - -2)").1.toOption.any
        (fun e => e.HasFiniteNumbers ∧
          e.render = "(not(((A.b = -1.5) and null)) or f('it\\'s', (3 - -2)))") = true := by
    decide +kernel
  obtain ⟨e, c', hp, hcheck⟩ := parseSource_of_any hrun
  obtain ⟨hf, hr⟩ := of_decide_eq_true hcheck
  exact ⟨e, c', hp, hf, hr, parseSource_render hp hf⟩

end RowSpec
