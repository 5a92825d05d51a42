import RowSpec.Proofs.Grammar

/-! Where the parser gives up. Whatever it has taken can be completed to an expression, because
every frame on its stack can be closed. A token that it refuses can follow in no expression, because
it would have been taken there. So a failure points at the first token that cannot stand where it
stands, and a lack of input is one that more input can make good. -/
namespace RowSpec

def IsSentence (ks : List TokenKind) : Prop := ∃ t, Derives 0 ks t

def IsViable (ks : List TokenKind) : Prop := ∃ more, IsSentence (ks ++ more)

theorem IsSentence.isViable {ks : List TokenKind} (h : IsSentence ks) : IsViable ks :=
  ⟨[], by rwa [List.append_nil]⟩

theorem IsViable.of_append {ks ls : List TokenKind} (h : IsViable (ks ++ ls)) : IsViable ks := by
  obtain ⟨more, hmore⟩ := h
  exact ⟨ls ++ more, by rwa [← List.append_assoc]⟩

namespace Derives

/-- Induction along the tiers; what primaries are made of is left aside. -/
@[elab_as_elim]
theorem induction_tiers {motive : ∀ k ks t, Derives k ks t → Prop}
    (primary : ∀ ks t (h : Derives 5 ks t), motive 5 ks t h)
    (tighter : ∀ k ks t (hk : k < 5) (inner : Derives (k + 1) ks t),
      motive (k + 1) ks t inner → motive k ks t (.tighter hk inner))
    (binary : ∀ op ks ls l r (left : Derives op.tier ks l) (right : Derives (op.tier + 1) ls r),
      motive op.tier ks l left → motive (op.tier + 1) ls r right →
      motive op.tier (ks ++ .operator op :: ls) (.combine () op l r) (left.binary right))
    {k : Nat} {ks : List TokenKind} {t : Expr Unit} (h : Derives k ks t) : motive k ks t h :=
  @Derives.rec motive (fun _ _ _ => True)
    (fun value => primary _ _ (.number value)) (fun value => primary _ _ (.string value))
    (fun h => primary _ _ (.null h)) (fun h => primary _ _ (.boolean h))
    (fun h child _ => primary _ _ (.negation h child)) (fun h => primary _ _ (.reference h))
    (fun h arguments _ => primary _ _ (.call h arguments))
    (fun inner _ => primary _ _ (.group inner)) (fun hk inner => tighter _ _ _ hk inner)
    (fun left right => binary _ _ _ _ _ left right) (fun _ _ => trivial) (fun _ _ _ _ => trivial)
    k ks t h

variable {k : Nat} {ks ls : List TokenKind} {t u : Expr Unit}

/-- A `not` in front goes to the first operand. -/
theorem not_cons {text : String} (hn : (Reference.ofText text).word? = some "not")
    (h : Derives k ks t) : ∃ v, Derives k (.reference text :: ks) v := by
  induction h using induction_tiers with
  | primary ks t h => exact ⟨_, .negation hn h⟩
  | tighter k ks t hk _ ih =>
    obtain ⟨v, hv⟩ := ih
    exact ⟨v, .tighter hk hv⟩
  | binary op ks ls l r left right ihl ihr =>
    obtain ⟨v, hv⟩ := ihl
    exact ⟨_, hv.binary right⟩

/-- An operator and a primary behind an expression join the operands that bind as tightly. -/
theorem append_primary (op : Operator) (h : Derives k ks t) (hp : Derives 5 ls u) :
    ∃ v, Derives (min k op.tier) (ks ++ .operator op :: ls) v := by
  have hop := op.tier_lt
  have whole : ∀ {k ks t}, Derives k ks t → k ≤ 5 → op.tier ≤ k →
      ∃ v, Derives op.tier (ks ++ .operator op :: ls) v := by
    intro k ks t h hk hle
    exact ⟨_, (h.loosen hle hk).binary (hp.loosen hop (Nat.le_refl 5))⟩
  induction h using induction_tiers with
  | primary ks t h =>
    rw [Nat.min_eq_right (Nat.le_of_lt hop)]
    exact whole h (Nat.le_refl 5) (Nat.le_of_lt hop)
  | tighter k ks t hk _ ih =>
    obtain ⟨v, hv⟩ := ih
    by_cases hle : op.tier ≤ k
    · rw [Nat.min_eq_right hle]
      rw [Nat.min_eq_right (Nat.le_succ_of_le hle)] at hv
      exact ⟨v, hv⟩
    · rw [Nat.min_eq_left (by omega)] at hv ⊢
      exact ⟨v, .tighter hk hv⟩
  | binary op' ks ls' l r left right ihl ihr =>
    by_cases hle : op.tier ≤ op'.tier
    · rw [Nat.min_eq_right hle]
      exact whole (left.binary right) (Nat.le_of_lt op'.tier_lt) hle
    · -- the new operator binds more tightly than the last one, and takes its right operand
      obtain ⟨v, hv⟩ := ihr
      rw [Nat.min_eq_left (by omega)] at hv ⊢
      rw [List.append_assoc]
      exact ⟨_, left.binary hv⟩

end Derives

namespace IsSentence

variable {ks ls : List TokenKind}

theorem of_derives {k : Nat} {t : Expr Unit} (hk : k ≤ 5) (h : Derives k ks t) : IsSentence ks :=
  ⟨t, h.loosen (Nat.zero_le k) hk⟩

theorem not_cons {text : String} (hn : (Reference.ofText text).word? = some "not")
    (h : IsSentence ks) : IsSentence (.reference text :: ks) := by
  obtain ⟨t, ht⟩ := h
  exact ht.not_cons hn

/-- An operator between two expressions makes one of them, with whatever operands. -/
theorem join {k : Nat} {u : Expr Unit} (hk : IsSentence ks) (op : Operator) (hl : Derives k ls u) :
    IsSentence (ks ++ .operator op :: ls) := by
  -- along the operators of the right expression, each of which extends the left one
  induction hl using Derives.induction_tiers generalizing op ks with
  | primary ls u hu =>
    obtain ⟨t, ht⟩ := hk
    obtain ⟨v, hv⟩ := ht.append_primary op hu
    rw [Nat.zero_min] at hv
    exact ⟨v, hv⟩
  | tighter k ls u _ _ ih => exact ih hk op
  | binary op' ls ms l r _ _ ihl ihr =>
    have hboth := ihr (ihl hk op) op'
    rwa [List.append_assoc] at hboth

end IsSentence

def cut (tokens : List Token) : List Token := tokens.takeWhile (·.kind ≠ .endOfInput)

theorem cut_cons (token : Token) (tokens : List Token) : cut (token :: tokens) =
    if token.kind = .endOfInput then [] else token :: cut tokens := by
  by_cases h : token.kind = .endOfInput <;> simp [cut, h]

theorem map_kind_cut (tokens : List Token) : (cut tokens).map Token.kind = sentence tokens := by
  rw [sentence, List.takeWhile_map]
  rfl

namespace Parser

/-- Every stack can be closed behind an expression. -/
theorem isViable_of_spells {stack : List Frame} {ks ms : List TokenKind} (hs : Spells stack ks)
    (hm : IsSentence ms) : IsViable (ks ++ ms) := by
  induction hs generalizing ms with
  | nil => exact hm.isViable
  | @operator stack ks ls left op below fits h ih =>
    obtain ⟨u, hu⟩ := hm
    have hleft := IsSentence.of_derives (Nat.le_of_lt op.tier_lt) h
    simpa using ih (hleft.join op hu)
  | negation below h ih => simpa using ih (hm.not_cons h)
  | group below ih =>
    obtain ⟨t, ht⟩ := hm
    have hclosed := ih (.of_derives (Nat.le_refl 5) (.group ht))
    apply @IsViable.of_append _ [.closeParen]
    simpa using hclosed
  | @call stack ks ls text arguments below h pending ih =>
    obtain ⟨t, ht⟩ := hm
    have hclosed := ih (.of_derives (Nat.le_refl 5) (.call h (pending ms [t] (.last ht))))
    apply @IsViable.of_append _ [.closeParen]
    simpa using hclosed

/-- Whatever has been taken can be completed. -/
theorem isViable_of_holds {s : State} {ks : List TokenKind} (hs : Holds s ks) : IsViable ks := by
  obtain ⟨stack, focus, c⟩ := s
  cases focus with
  | wanted =>
    have hnumber : IsSentence [.number (.ofDecimal false 0 0)] :=
      .of_derives (Nat.le_refl 5) (.number _)
    exact (isViable_of_spells hs hnumber).of_append
  | name path =>
    obtain ⟨text, ls, rfl, hname, below, rfl⟩ := hs
    exact isViable_of_spells below (.of_derives (Nat.le_refl 5) (.reference hname))
  | operand e =>
    obtain ⟨ls, ms, below, hd, rfl⟩ := hs
    exact isViable_of_spells below (.of_derives (Nat.le_refl 5) hd)

theorem token?_of_shift {s : State} {token : Token} {e : ParseError}
    (h : s.shift token = .error e) : e.token? = some token := by
  unfold State.shift at h
  split at h
  · unfold State.shiftOperand at h
    split at h <;> cases h
    rfl
  · cases h
  · unfold State.shiftBehind at h
    split at h <;> cases h <;> rfl

theorem eq_notEnoughInput_of_finish {s : State} {e : ParseError} (h : s.finish = .error e) :
    e = .notEnoughInput := by
  unfold State.finish at h
  split at h <;> cases h
  rfl

/-- How a run fails: behind all tokens in front of the end, or at one of them. -/
theorem run_eq_error {s : State} {tokens : List Token} {e : ParseError}
    (h : (s.run tokens).result = .error e) :
    (e = .notEnoughInput ∧ ∃ u, s.feed (cut tokens) = .ok u) ∨
    ∃ xs token u, xs ++ [token] <+: cut tokens ∧ s.feed xs = .ok u ∧
      (u.settle token.kind).shift token = .error e := by
  induction tokens generalizing s with
  | nil => exact Or.inl ⟨eq_notEnoughInput_of_finish h, s, rfl⟩
  | cons token tokens ih =>
    rw [cut_cons]
    simp only [State.run] at h
    split at h
    · next hk =>
      rw [if_pos hk]
      exact Or.inl ⟨eq_notEnoughInput_of_finish h, s, rfl⟩
    · next hk =>
      rw [if_neg hk]
      split at h
      · next v hv =>
        rcases ih h with ⟨he, u, hu⟩ | ⟨xs, found, u, hfront, hu, hshift⟩
        · exact Or.inl ⟨he, u, (State.feed_cons hv _).trans hu⟩
        · refine Or.inr ⟨token :: xs, found, u, ?_, (State.feed_cons hv _).trans hu, hshift⟩
          exact List.cons_prefix_cons.mpr ⟨rfl, hfront⟩
      · next e' he =>
        cases h
        exact Or.inr ⟨[], token, s, by simp, rfl, he⟩

theorem holds_feed {s u : State} {ks : List TokenKind} {tokens : List Token} (hs : Holds s ks)
    (h : s.feed tokens = .ok u) : Holds u (ks ++ tokens.map Token.kind) := by
  induction tokens generalizing s ks with
  | nil =>
    cases h
    simpa using hs
  | cons token tokens ih =>
    simp only [State.feed] at h
    split at h
    · next v hv => simpa using ih (holds_shift hs hv) h
    · cases h

/-- A sentence is taken to its end, so no token of it is refused. -/
theorem not_isViable_of_shift {c : Counter} {xs : List Token} {token : Token} {u : State}
    {e : ParseError} (hf : (initial c).feed xs = .ok u)
    (h : (u.settle token.kind).shift token = .error e) :
    ¬ IsViable ((xs ++ [token]).map Token.kind) := by
  rintro ⟨more, t, ht⟩
  have hkinds : (xs ++ token :: more.map fun k => ⟨k, ⟨0, 0⟩⟩).map Token.kind =
      (xs ++ [token]).map Token.kind ++ more := by
    simp [Function.comp_def]
  obtain ⟨s, hs, _⟩ := reads_of_derives ht _ hkinds [] c ⟨trivial, by simp⟩
  have hfails := State.feed_append hf (token :: more.map fun k => ⟨k, ⟨0, 0⟩⟩)
  simp only [State.feed, h] at hfails
  rw [initial, hs] at hfails
  cases hfails

end Parser

/-- Only the lack of input points at no token. -/
theorem ParseError.reason_eq_iff (e : ParseError) :
    e.reason = "not enough input" ↔ e.span? = none := by
  have head : ∀ text rest : String, text ++ rest = "not enough input" →
      (text.toList ++ rest.toList).head? = some 'n' := by
    intro text rest h
    rw [← String.toList_append, h]
    simp
  cases e with
  | notEnoughInput => exact ⟨fun _ => rfl, fun _ => rfl⟩
  | _ =>
    constructor
    · intro h
      have hfirst := head _ _ h
      simp at hfirst
    · intro h
      cases h

/-- A failure for lack of input comes from tokens that are no expression but can be continued to
one. Any other failure points at the first token that cannot be there: those in front of it can be
continued to an expression, and with it they cannot. -/
theorem parse_error_at_first_impossible {c : Counter} {tokens : List Token} {e : ParseError}
    (h : (parse c tokens).result = .error e) :
    (e.reason = "not enough input" ↔ e.span? = none) ∧
    (e.span? = none → ¬ IsSentence (sentence tokens) ∧ IsViable (sentence tokens)) ∧
    ∀ span, e.span? = some span → ∃ i token, (cut tokens)[i]? = some token ∧ token.span = span ∧
      IsViable ((sentence tokens).take i) ∧ ¬ IsViable ((sentence tokens).take (i + 1)) := by
  have start : Parser.Holds (Parser.initial c) [] := Parser.Spells.nil
  refine ⟨e.reason_eq_iff, ?_⟩
  rw [← map_kind_cut]
  rcases Parser.run_eq_error h with ⟨rfl, u, hu⟩ | ⟨xs, token, u, ⟨ys, hcut⟩, hu, hshift⟩
  · refine ⟨fun _ => ⟨?_, Parser.isViable_of_holds (Parser.holds_feed start hu)⟩, nofun⟩
    rintro ⟨t, ht⟩
    rw [map_kind_cut] at ht
    rw [(parse_of_derives c ht).1] at h
    cases h
  · have htoken : e.span? = some token.span := by
      rw [ParseError.span?, Parser.token?_of_shift hshift]
      rfl
    rw [htoken]
    refine ⟨nofun, ?_⟩
    intro span hspan
    have hkinds : (cut tokens).map Token.kind =
        (xs ++ [token]).map Token.kind ++ ys.map Token.kind := by
      rw [← hcut, List.map_append]
    refine ⟨xs.length, token, by simp [← hcut], Option.some.inj hspan, ?_, ?_⟩
    · have hviable := Parser.isViable_of_holds (Parser.holds_feed start hu)
      rw [hkinds, List.map_append, List.append_assoc, List.take_left' (by simp)]
      exact hviable
    · rw [hkinds, List.take_left' (by simp)]
      exact Parser.not_isViable_of_shift hu hshift

/-- No comma stands behind a comma, and a call that has just been opened can be completed. -/
theorem parse_error_at_first_impossible_argument :
    (∃ i token, (cut [⟨.reference "f", ⟨0, 1⟩⟩, ⟨.openParen, ⟨1, 2⟩⟩, ⟨.reference "a", ⟨2, 3⟩⟩,
        ⟨.comma, ⟨3, 4⟩⟩, ⟨.comma, ⟨4, 5⟩⟩])[i]? = some token ∧ token.span = ⟨4, 5⟩ ∧
      IsViable ([.reference "f", .openParen, .reference "a", .comma, .comma].take i) ∧
      ¬ IsViable ([.reference "f", .openParen, .reference "a", .comma, .comma].take (i + 1))) ∧
    ¬ IsSentence [.reference "f", .openParen] ∧ IsViable [.reference "f", .openParen] := by
  constructor
  · have hfails : (parse .start [⟨.reference "f", ⟨0, 1⟩⟩, ⟨.openParen, ⟨1, 2⟩⟩,
        ⟨.reference "a", ⟨2, 3⟩⟩, ⟨.comma, ⟨3, 4⟩⟩, ⟨.comma, ⟨4, 5⟩⟩]).result =
        .error (.unexpected ⟨.comma, ⟨4, 5⟩⟩) := by rfl
    exact (parse_error_at_first_impossible hfails).2.2 _ rfl
  · have hfails : (parse .start [⟨.reference "f", ⟨0, 1⟩⟩, ⟨.openParen, ⟨1, 2⟩⟩]).result =
        .error .notEnoughInput := by rfl
    exact (parse_error_at_first_impossible hfails).2.1 rfl

end RowSpec
