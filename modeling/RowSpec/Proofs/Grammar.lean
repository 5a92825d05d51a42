import RowSpec.Expr.Parser
import RowSpec.Proofs.Tree

/-! The grammar of expressions, in tiers from the loosest operator to the operand: `or`, `and`,
comparisons, sums, products, primaries. The parser accepts a list of tokens as an expression exactly
if the grammar derives the expression from the list, so the derived expression is unique. -/
namespace RowSpec

def Operator.tier : Operator → Nat
  | .or => 0
  | .and => 1
  | .lt | .gt | .le | .ge | .eq | .ne => 2
  | .add | .sub => 3
  | .mul | .div => 4

def Reference.word? (path : Reference) : Option String := path.single?.map Text.lower

def Reference.IsName (path : Reference) : Prop :=
  path.word? ∉ [some "null", some "true", some "false", some "not"]

mutual
/-- The derivations at a tier. Every tier of an operator is left-associative, its right operand
stands one tier higher, and tier 5 holds the primaries. -/
inductive Derives : Nat → List TokenKind → Expr Unit → Prop where
  | number (value : Double) : Derives 5 [.number value] (.number () value)
  | string (value : String) : Derives 5 [.string value] (.string () value)
  | null {text : String} (h : (Reference.ofText text).word? = some "null") :
    Derives 5 [.reference text] (.null ())
  | boolean {text : String} {value : Bool}
    (h : (Reference.ofText text).word? = some (if value then "true" else "false")) :
    Derives 5 [.reference text] (.boolean () value)
  | negation {text : String} {ks : List TokenKind} {t : Expr Unit}
    (h : (Reference.ofText text).word? = some "not") (child : Derives 5 ks t) :
    Derives 5 (.reference text :: ks) (.negation () t)
  | reference {text : String} (h : (Reference.ofText text).IsName) :
    Derives 5 [.reference text] (.reference () (.ofText text))
  | call {text : String} {ks : List TokenKind} {ts : List (Expr Unit)}
    (h : (Reference.ofText text).IsName) (arguments : DerivesAll ks ts) :
    Derives 5 (.reference text :: .openParen :: (ks ++ [.closeParen])) (.call () (.ofText text) ts)
  | group {ks : List TokenKind} {t : Expr Unit} (inner : Derives 0 ks t) :
    Derives 5 (.openParen :: (ks ++ [.closeParen])) t
  | tighter {k : Nat} {ks : List TokenKind} {t : Expr Unit} (hk : k < 5)
    (inner : Derives (k + 1) ks t) : Derives k ks t
  | binary {op : Operator} {ks ls : List TokenKind} {l r : Expr Unit}
    (left : Derives op.tier ks l) (right : Derives (op.tier + 1) ls r) :
    Derives op.tier (ks ++ .operator op :: ls) (.combine () op l r)

inductive DerivesAll : List TokenKind → List (Expr Unit) → Prop where
  | last {ks : List TokenKind} {t : Expr Unit} (only : Derives 0 ks t) : DerivesAll ks [t]
  | more {ks ls : List TokenKind} {t : Expr Unit} {ts : List (Expr Unit)}
    (first : Derives 0 ks t) (rest : DerivesAll ls ts) :
    DerivesAll (ks ++ .comma :: ls) (t :: ts)
end

theorem Operator.tier_lt (op : Operator) : op.tier < 5 := by cases op <;> decide

theorem Operator.precedence_le_iff (a b : Operator) :
    a.precedence ≤ b.precedence ↔ a.tier ≤ b.tier := by
  cases a <;> cases b <;> decide

theorem Derives.loosen {j k : Nat} {ks : List TokenKind} {t : Expr Unit} (hj : j ≤ k)
    (hk : k ≤ 5) (h : Derives k ks t) : Derives j ks t := by
  induction hj with
  | refl => exact h
  | step _ ih => exact ih (by omega) (.tighter (by omega) h)

namespace Parser

def limit : TokenKind → Nat
  | .operator op => op.tier
  | _ => 0

theorem bound_le_precedence_iff (next : TokenKind) (op : Operator) :
    bound next ≤ op.precedence ↔ limit next ≤ op.tier := by
  cases next <;> simp [bound, limit, Operator.precedence_le_iff]

/-- The innermost open operator, if it stands on top of the stack, is looser than tier `k`. -/
def Fits (k : Nat) : List Frame → Prop
  | .operator _ op :: _ => op.tier < k
  | _ => True

/-- An expression of tier `k` may start on this stack; only a primary may follow `not`. -/
def Ready (k : Nat) (stack : List Frame) : Prop :=
  Fits k stack ∧ ∀ rest, stack = .negation :: rest → k = 5

theorem ready_primary (stack : List Frame) : Ready 5 stack := by
  refine ⟨?_, fun _ _ => rfl⟩
  unfold Fits
  split
  · exact Operator.tier_lt _
  · trivial

theorem ready_tighter {k : Nat} {stack : List Frame} (hk : k < 5) (h : Ready k stack) :
    Ready (k + 1) stack := by
  refine ⟨?_, fun rest hs => absurd (h.2 rest hs) (by omega)⟩
  have hf := h.1
  unfold Fits at hf ⊢
  split at hf
  · exact Nat.lt_succ_of_lt hf
  · trivial

theorem complete_of_ready {k : Nat} {stack : List Frame} (hk : k < 5) (h : Ready k stack)
    (e : Expr NodeId) (c : Counter) : complete e c stack = ⟨stack, .operand e, c⟩ := by
  unfold complete
  split
  · next rest => exact absurd (h.2 rest rfl) (by omega)
  · rfl

theorem closeOperators_of_fits {next : TokenKind} {stack : List Frame} (h : Fits (limit next) stack)
    (e : Expr NodeId) (c : Counter) :
    closeOperators (bound next) e c stack = ⟨stack, .operand e, c⟩ := by
  unfold closeOperators
  split
  · next left op rest =>
    have hlt : op.tier < limit next := h
    rw [if_neg]
    rw [bound_le_precedence_iff]
    omega
  · rfl

theorem complete_focus (e : Expr NodeId) (c : Counter) (stack : List Frame) :
    ∃ rest e' c', complete e c stack = ⟨rest, .operand e', c'⟩ := by
  fun_induction complete e c stack with
  | case1 _ _ _ ih => exact ih
  | case2 e c stack => exact ⟨stack, e, c, rfl⟩

theorem settle_complete (e : Expr NodeId) (c : Counter) (stack : List Frame) (next : TokenKind) :
    (complete e c stack).settle next = (complete e c stack).settleOperators next := by
  obtain ⟨rest, e', c', h⟩ := complete_focus e c stack
  rw [h]
  rfl

def State.feed (s : State) : List Token → Except ParseError State
  | [] => .ok s
  | token :: tokens => match (s.settle token.kind).shift token with
    | .ok s => feed s tokens
    | .error e => .error e

theorem State.feed_append {s u : State} {xs : List Token} (h : s.feed xs = .ok u)
    (ys : List Token) : s.feed (xs ++ ys) = u.feed ys := by
  induction xs generalizing s with
  | nil => cases h; rfl
  | cons x xs ih =>
    simp only [feed, List.cons_append] at h ⊢
    split at h
    · next v hv => exact ih h
    · cases h

theorem State.feed_cons {s u : State} {token : Token}
    (h : (s.settle token.kind).shift token = .ok u) (tokens : List Token) :
    s.feed (token :: tokens) = u.feed tokens := by
  simp only [feed, h]

@[simp] theorem State.settle_wanted (stack : List Frame) (c : Counter) (next : TokenKind) :
    State.settle ⟨stack, .wanted, c⟩ next = ⟨stack, .wanted, c⟩ := rfl

/-- A state in front of a token that is no parenthesis is either at the start of an operand or
behind a whole one. -/
theorem State.settle_focus (s : State) {next : TokenKind} (hn : next ≠ .openParen) :
    s.settle next = s ∧ s.focus = .wanted ∨
      ∃ stack e c, s.settle next = ⟨stack, .operand e, c⟩ := by
  have closed : ∀ e c stack, ∃ stack' e' c',
      closeOperators (bound next) e c stack = ⟨stack', .operand e', c'⟩ := by
    intro e c stack
    fun_induction closeOperators (bound next) e c stack with
    | case1 _ _ _ _ _ _ ih => exact ih
    | case2 e c left op stack _ => exact ⟨_, e, c, rfl⟩
    | case3 e c stack => exact ⟨stack, e, c, rfl⟩
  obtain ⟨stack, focus, c⟩ := s
  cases focus with
  | wanted => exact Or.inl ⟨rfl, rfl⟩
  | name path =>
    obtain ⟨rest, e, c', hc⟩ := complete_focus (.reference c.fresh path) c.next stack
    right
    simp only [settle, settleName, if_neg hn, hc]
    exact closed e c' rest
  | operand e => exact Or.inr (closed e c stack)

theorem State.shift_endOfInput {s u : State} {token : Token} (hk : token.kind = .endOfInput)
    (h : (s.settle token.kind).shift token = .ok u) : False := by
  have hn : token.kind ≠ .openParen := by simp [hk]
  rcases s.settle_focus hn with ⟨hs, hf⟩ | ⟨stack, e, c, hs⟩
  · rw [hs] at h
    simp [shift, hf, shiftOperand, hk] at h
  · rw [hs] at h
    simp only [shift, shiftBehind, hk] at h
    split at h <;> simp_all

theorem State.run_of_feed {s u : State} {xs : List Token} (h : s.feed xs = .ok u)
    (ys : List Token) : s.run (xs ++ ys) = u.run ys := by
  induction xs generalizing s with
  | nil => cases h; rfl
  | cons x xs ih =>
    simp only [feed] at h
    split at h
    · next v hv =>
      have hx : x.kind ≠ .endOfInput := fun hk => shift_endOfInput hk hv
      simp only [List.cons_append, run, if_neg hx, hv]
      exact ih h
    · cases h

theorem withIds_combine (op : Operator) (l r : Expr Unit) (c : Counter) :
    (Expr.combine () op l r).withIds c =
      (.combine (r.withIds (l.withIds c).2).2.fresh op (l.withIds c).1
        (r.withIds (l.withIds c).2).1, (r.withIds (l.withIds c).2).2.next) := by
  cases op <;> rfl

/-- What the parser does with the tokens of an expression of tier `k`: in front of any token that
may follow it, the state is as if the expression had been read as one operand. -/
def Reads (k : Nat) (ks : List TokenKind) (t : Expr Unit) : Prop :=
  ∀ tokens : List Token, tokens.map Token.kind = ks → ∀ stack c, Ready k stack →
    ∃ s, State.feed ⟨stack, .wanted, c⟩ tokens = .ok s ∧
      ∀ next, next ≠ .openParen → limit next ≤ k →
        s.settle next = (complete (t.withIds c).1 (t.withIds c).2 stack).settleOperators next

def ReadsAll (ks : List TokenKind) (ts : List (Expr Unit)) : Prop :=
  ∀ tokens : List Token, tokens.map Token.kind = ks ++ [.closeParen] →
    ∀ stack c callee arguments,
      State.feed ⟨.call callee arguments :: stack, .wanted, c⟩ tokens = .ok (complete
        (.call (Expr.withIdsAll c ts).2.fresh callee (arguments ++ (Expr.withIdsAll c ts).1))
        (Expr.withIdsAll c ts).2.next stack)

theorem reads_of_shift {k : TokenKind} {t : Expr Unit}
    (h : ∀ token : Token, token.kind = k → ∀ stack c, State.shift ⟨stack, .wanted, c⟩ token =
      .ok (complete (t.withIds c).1 (t.withIds c).2 stack)) : Reads 5 [k] t := by
  intro tokens hks stack c _
  obtain ⟨token, rfl, hk⟩ := List.map_eq_singleton_iff.mp hks
  refine ⟨_, State.feed_cons (by rw [State.settle_wanted, h token hk stack c]) [], ?_⟩
  intro next _ _
  exact settle_complete _ _ _ next

theorem reads_number (value : Double) : Reads 5 [.number value] (.number () value) :=
  reads_of_shift fun token hk stack c => by simp [State.shift, State.shiftOperand, hk, Expr.withIds]

theorem reads_string (value : String) : Reads 5 [.string value] (.string () value) :=
  reads_of_shift fun token hk stack c => by simp [State.shift, State.shiftOperand, hk, Expr.withIds]

theorem readName_name {s : State} {path : Reference} (h : path.IsName) :
    s.readName path = ⟨s.stack, .name path, s.counter⟩ := by
  simp only [Reference.IsName, Reference.word?, List.mem_cons, not_or] at h
  unfold State.readName
  split <;> simp_all

theorem reads_null {text : String} (h : (Reference.ofText text).word? = some "null") :
    Reads 5 [.reference text] (.null ()) := by
  unfold Reference.word? at h
  exact reads_of_shift fun token hk stack c => by
    simp [State.shift, State.shiftOperand, hk, State.readName, h, Expr.withIds]

theorem reads_boolean {text : String} {value : Bool}
    (h : (Reference.ofText text).word? = some (if value then "true" else "false")) :
    Reads 5 [.reference text] (.boolean () value) := by
  unfold Reference.word? at h
  exact reads_of_shift fun token hk stack c => by
    cases value <;> simp [State.shift, State.shiftOperand, hk, State.readName, h, Expr.withIds]

theorem reads_reference {text : String} (h : (Reference.ofText text).IsName) :
    Reads 5 [.reference text] (.reference () (.ofText text)) := by
  intro tokens hks stack c _
  obtain ⟨token, rfl, hk⟩ := List.map_eq_singleton_iff.mp hks
  have hs : State.shift ⟨stack, .wanted, c⟩ token = .ok ⟨stack, .name (.ofText text), c⟩ := by
    simp [State.shift, State.shiftOperand, hk, readName_name h]
  refine ⟨_, State.feed_cons (by rw [State.settle_wanted, hs]) [], ?_⟩
  intro next hn _
  simp only [State.settle, State.settleName, if_neg hn, Expr.withIds]

theorem reads_negation {text : String} {ks : List TokenKind} {t : Expr Unit}
    (h : (Reference.ofText text).word? = some "not") (child : Reads 5 ks t) :
    Reads 5 (.reference text :: ks) (.negation () t) := by
  intro tokens hks stack c _
  obtain ⟨token, rest, rfl, hk, hrest⟩ := List.map_eq_cons_iff.mp hks
  have hs : State.shift ⟨stack, .wanted, c⟩ token = .ok ⟨.negation :: stack, .wanted, c⟩ := by
    unfold Reference.word? at h
    simp [State.shift, State.shiftOperand, hk, State.readName, h]
  obtain ⟨s, hf, hn⟩ := child rest hrest (.negation :: stack) c (ready_primary _)
  refine ⟨s, ?_, ?_⟩
  · rw [State.feed_cons (by rw [State.settle_wanted, hs]), hf]
  · intro next hp hl
    rw [hn next hp hl]
    rfl

theorem reads_group {ks : List TokenKind} {t : Expr Unit} (inner : Reads 0 ks t) :
    Reads 5 (.openParen :: (ks ++ [.closeParen])) t := by
  intro tokens hks stack c _
  obtain ⟨token, rest, rfl, hk, hrest⟩ := List.map_eq_cons_iff.mp hks
  obtain ⟨body, closing, rfl, hbody, hclosing⟩ := List.map_eq_append_iff.mp hrest
  obtain ⟨close, rfl, hc⟩ := List.map_eq_singleton_iff.mp hclosing
  have hs : State.shift ⟨stack, .wanted, c⟩ token = .ok ⟨.group :: stack, .wanted, c⟩ := by
    simp [State.shift, State.shiftOperand, hk]
  obtain ⟨s, hf, hn⟩ := inner body hbody (.group :: stack) c ⟨trivial, by simp⟩
  have hsettled : s.settle close.kind =
      ⟨.group :: stack, .operand (t.withIds c).1, (t.withIds c).2⟩ := by
    rw [hn close.kind (by simp [hc]) (by simp [hc, limit])]
    rfl
  have hclose : (s.settle close.kind).shift close =
      .ok (complete (t.withIds c).1 (t.withIds c).2 stack) := by
    rw [hsettled]
    simp [State.shift, State.shiftBehind, hc]
  refine ⟨_, ?_, fun next _ _ => settle_complete _ _ _ next⟩
  rw [State.feed_cons (by rw [State.settle_wanted, hs]), State.feed_append hf,
    State.feed_cons hclose]
  rfl

theorem reads_call {text : String} {ks : List TokenKind} {ts : List (Expr Unit)}
    (h : (Reference.ofText text).IsName) (arguments : ReadsAll ks ts) :
    Reads 5 (.reference text :: .openParen :: (ks ++ [.closeParen]))
      (.call () (.ofText text) ts) := by
  intro tokens hks stack c _
  obtain ⟨token, rest, rfl, hk, hrest⟩ := List.map_eq_cons_iff.mp hks
  obtain ⟨opening, body, rfl, ho, hbody⟩ := List.map_eq_cons_iff.mp hrest
  have hs : State.shift ⟨stack, .wanted, c⟩ token = .ok ⟨stack, .name (.ofText text), c⟩ := by
    simp [State.shift, State.shiftOperand, hk, readName_name h]
  have hopen : (State.settle ⟨stack, .name (.ofText text), c⟩ opening.kind).shift opening =
      .ok ⟨.call (.ofText text) [] :: stack, .wanted, c⟩ := by
    simp [State.settle, State.settleName, State.settleOperators, ho, State.shift]
  refine ⟨_, ?_, fun next _ _ => settle_complete _ _ _ next⟩
  rw [State.feed_cons (by rw [State.settle_wanted, hs]), State.feed_cons hopen,
    arguments body hbody]
  simp [Expr.withIds]

theorem reads_tighter {k : Nat} {ks : List TokenKind} {t : Expr Unit} (hk : k < 5)
    (inner : Reads (k + 1) ks t) : Reads k ks t := by
  intro tokens hks stack c hr
  obtain ⟨s, hf, hn⟩ := inner tokens hks stack c (ready_tighter hk hr)
  exact ⟨s, hf, fun next hp hl => hn next hp (by omega)⟩

theorem reads_binary {op : Operator} {ks ls : List TokenKind} {l r : Expr Unit}
    (left : Reads op.tier ks l) (right : Reads (op.tier + 1) ls r) :
    Reads op.tier (ks ++ .operator op :: ls) (.combine () op l r) := by
  intro tokens hks stack c hr
  have ht := op.tier_lt
  obtain ⟨before, rest, rfl, hbefore, hrest⟩ := List.map_eq_append_iff.mp hks
  obtain ⟨sign, behind, rfl, hsign, hbehind⟩ := List.map_eq_cons_iff.mp hrest
  obtain ⟨s, hf, hn⟩ := left before hbefore stack c hr
  have hshift : (s.settle sign.kind).shift sign =
      .ok ⟨.operator (l.withIds c).1 op :: stack, .wanted, (l.withIds c).2⟩ := by
    rw [hn sign.kind (by simp [hsign]) (by simp [hsign, limit]), complete_of_ready ht hr]
    simp only [State.settleOperators]
    rw [closeOperators_of_fits (by simpa [hsign, limit] using hr.1)]
    simp [State.shift, State.shiftBehind, hsign]
  obtain ⟨u, hu, hnu⟩ := right behind hbehind (.operator (l.withIds c).1 op :: stack)
    (l.withIds c).2 ⟨Nat.lt_succ_self _, by simp⟩
  refine ⟨u, ?_, ?_⟩
  · rw [State.feed_append hf, State.feed_cons hshift, hu]
  · -- the operator between the operands is closed by every token that may follow
    intro next hp hl
    rw [hnu next hp (by omega), withIds_combine, complete_of_ready ht hr]
    simp only [complete, State.settleOperators, closeOperators]
    rw [if_pos ((bound_le_precedence_iff next op).mpr hl)]

theorem reads_last {ks : List TokenKind} {t : Expr Unit} (only : Reads 0 ks t) :
    ReadsAll ks [t] := by
  intro tokens hks stack c callee arguments
  obtain ⟨body, closing, rfl, hbody, hclosing⟩ := List.map_eq_append_iff.mp hks
  obtain ⟨close, rfl, hc⟩ := List.map_eq_singleton_iff.mp hclosing
  obtain ⟨s, hf, hn⟩ := only body hbody (.call callee arguments :: stack) c ⟨trivial, by simp⟩
  have hclose : (s.settle close.kind).shift close = .ok (complete
      (.call (t.withIds c).2.fresh callee (arguments ++ [(t.withIds c).1]))
      (t.withIds c).2.next stack) := by
    rw [hn close.kind (by simp [hc]) (by simp [hc, limit])]
    simp [complete, State.settleOperators, closeOperators, State.shift, State.shiftBehind, hc]
  rw [State.feed_append hf, State.feed_cons hclose]
  rfl

theorem reads_more {ks ls : List TokenKind} {t : Expr Unit} {ts : List (Expr Unit)}
    (first : Reads 0 ks t) (rest : ReadsAll ls ts) : ReadsAll (ks ++ .comma :: ls) (t :: ts) := by
  intro tokens hks stack c callee arguments
  rw [List.append_assoc] at hks
  obtain ⟨body, others, rfl, hbody, hothers⟩ := List.map_eq_append_iff.mp hks
  obtain ⟨comma, others, rfl, hcomma, hothers⟩ := List.map_eq_cons_iff.mp hothers
  obtain ⟨s, hf, hn⟩ := first body hbody (.call callee arguments :: stack) c ⟨trivial, by simp⟩
  have hshift : (s.settle comma.kind).shift comma = .ok
      ⟨.call callee (arguments ++ [(t.withIds c).1]) :: stack, .wanted, (t.withIds c).2⟩ := by
    rw [hn comma.kind (by simp [hcomma]) (by simp [hcomma, limit])]
    simp [complete, State.settleOperators, closeOperators, State.shift, State.shiftBehind, hcomma]
  rw [State.feed_append hf, State.feed_cons hshift, rest others hothers]
  simp [Expr.withIdsAll]

theorem reads_of_derives {k : Nat} {ks : List TokenKind} {t : Expr Unit} (h : Derives k ks t) :
    Reads k ks t :=
  @Derives.rec (fun k ks t _ => Reads k ks t) (fun ks ts _ => ReadsAll ks ts) reads_number
    reads_string reads_null reads_boolean (fun h _ => reads_negation h) reads_reference
    (fun h _ => reads_call h) (fun _ => reads_group) (fun hk _ => reads_tighter hk)
    (fun _ _ => reads_binary) (fun _ => reads_last) (fun _ _ => reads_more) k ks t h

inductive Spells : List Frame → List TokenKind → Prop where
  | nil : Spells [] []
  | operator {stack : List Frame} {ks ls : List TokenKind} {left : Expr NodeId} {op : Operator}
    (below : Spells stack ks) (fits : Fits op.tier stack) (h : Derives op.tier ls left.erase) :
    Spells (.operator left op :: stack) (ks ++ ls ++ [.operator op])
  | negation {stack : List Frame} {ks : List TokenKind} {text : String}
    (below : Spells stack ks) (h : (Reference.ofText text).word? = some "not") :
    Spells (.negation :: stack) (ks ++ [.reference text])
  | group {stack : List Frame} {ks : List TokenKind} (below : Spells stack ks) :
    Spells (.group :: stack) (ks ++ [.openParen])
  | call {stack : List Frame} {ks ls : List TokenKind} {text : String}
    {arguments : List (Expr NodeId)} (below : Spells stack ks)
    (h : (Reference.ofText text).IsName)
    (open' : ∀ ms ts, DerivesAll ms ts → DerivesAll (ls ++ ms) (Expr.eraseAll arguments ++ ts)) :
    Spells (.call (.ofText text) arguments :: stack)
      (ks ++ .reference text :: .openParen :: ls)

/-- The kinds of tokens read so far in a state that has not been settled: an operand is then a
primary. -/
def Holds (s : State) (ks : List TokenKind) : Prop :=
  match s.focus with
  | .wanted => Spells s.stack ks
  | .name path => ∃ text ls, path = .ofText text ∧ path.IsName ∧ Spells s.stack ls ∧
      ks = ls ++ [.reference text]
  | .operand e => ∃ ls ms, Spells s.stack ls ∧ Derives 5 ms e.erase ∧ ks = ls ++ ms

/-- The same in a state that has been settled in front of a token: what the token can take as its
left operand is derived at the tier of the token, and nothing on the stack binds as tightly. -/
def HoldsBefore (next : TokenKind) (s : State) (ks : List TokenKind) : Prop :=
  match s.focus with
  | .operand e => ∃ ls ms, Spells s.stack ls ∧ Fits (limit next) s.stack ∧
      Derives (limit next) ms e.erase ∧ ks = ls ++ ms
  | .name _ => next = .openParen ∧ Holds s ks
  | .wanted => Holds s ks

theorem limit_lt (next : TokenKind) : limit next < 5 := by
  cases next with
  | operator op => exact op.tier_lt
  | _ => simp [limit]

theorem holds_complete {stack : List Frame} {ls ms : List TokenKind} {e : Expr NodeId}
    (c : Counter) (hs : Spells stack ls) (hd : Derives 5 ms e.erase) :
    Holds (complete e c stack) (ls ++ ms) := by
  fun_induction complete e c stack generalizing ls ms with
  | case1 e c stack ih =>
    cases hs with
    | negation below h =>
      rw [List.append_assoc]
      exact ih below (.negation h hd)
  | case2 e c stack => exact ⟨ls, ms, hs, hd, rfl⟩

theorem holds_closeOperators {next : TokenKind} {stack : List Frame} {ls ms : List TokenKind}
    {e : Expr NodeId} {k : Nat} (c : Counter) (hs : Spells stack ls) (hf : Fits k stack)
    (hd : Derives k ms e.erase) (hk : k ≤ 5) (hl : limit next ≤ k) :
    HoldsBefore next (closeOperators (bound next) e c stack) (ls ++ ms) := by
  -- each operator that is closed lowers the tier `k` of the operand behind it
  fun_induction closeOperators (bound next) e c stack generalizing ls ms k with
  | case1 e c left op stack hb ih =>
    cases hs with
    | @operator _ ks ls' _ _ below fits h =>
      have hop : op.tier < k := hf
      have right : Derives (op.tier + 1) ms e.erase := hd.loosen (by omega) hk
      have joined := h.binary right
      rw [← Expr.erase_combine c.fresh] at joined
      have hnext : limit next ≤ op.tier := (bound_le_precedence_iff next op).mp hb
      have hrest := ih below fits joined (Nat.le_of_lt op.tier_lt) hnext
      simpa [List.append_assoc] using hrest
  | case2 e c left op stack hb =>
    rw [bound_le_precedence_iff] at hb
    exact ⟨ls, ms, hs, Nat.lt_of_not_le hb, hd.loosen hl hk, rfl⟩
  | case3 e c stack hne =>
    refine ⟨ls, ms, hs, ?_, hd.loosen hl hk, rfl⟩
    match stack with
    | .operator left op :: rest => exact (hne left op rest rfl).elim
    | [] | .negation :: _ | .group :: _ | .call _ _ :: _ => trivial

theorem holds_settle {s : State} {ks : List TokenKind} (h : Holds s ks) (next : TokenKind) :
    HoldsBefore next (s.settle next) ks := by
  obtain ⟨stack, focus, c⟩ := s
  have operand : ∀ stack e c, Holds ⟨stack, .operand e, c⟩ ks →
      HoldsBefore next (closeOperators (bound next) e c stack) ks := by
    rintro stack e c ⟨ls, ms, hs, hd, rfl⟩
    exact holds_closeOperators c hs (ready_primary stack).1 hd (by omega)
      (Nat.le_of_lt (limit_lt next))
  cases focus with
  | wanted => exact h
  | operand e => exact operand stack e c h
  | name path =>
    by_cases hn : next = .openParen
    · subst hn
      exact ⟨rfl, h⟩
    · obtain ⟨text, ls, rfl, hname, hs, rfl⟩ := h
      have hc := holds_complete c.next hs
        (e := .reference c.fresh (.ofText text)) (Derives.reference hname)
      obtain ⟨rest, e, c', he⟩ :=
        complete_focus (.reference c.fresh (.ofText text)) c.next stack
      rw [he] at hc
      simp only [State.settle, State.settleName, if_neg hn, he]
      exact operand rest e c' hc

theorem holds_readName {stack : List Frame} {ks : List TokenKind} (hs : Spells stack ks)
    (text : String) (c : Counter) :
    Holds (State.readName ⟨stack, .wanted, c⟩ (.ofText text)) (ks ++ [.reference text]) := by
  have hw : (Reference.ofText text).word? = (Reference.ofText text).single?.map Text.lower := rfl
  unfold State.readName
  split
  · next h => exact holds_complete c.next hs (.null (hw.trans h))
  · next h => exact holds_complete c.next hs (@Derives.boolean text true (hw.trans h))
  · next h => exact holds_complete c.next hs (@Derives.boolean text false (hw.trans h))
  · next h => exact hs.negation (hw.trans h)
  · next hnull htrue hfalse hnot =>
    refine ⟨text, ks, rfl, ?_, hs, rfl⟩
    simp only [Reference.IsName, hw, List.mem_cons, List.not_mem_nil, or_false, not_or]
    exact ⟨hnull, htrue, hfalse, hnot⟩

theorem holds_shiftOperand {s u : State} {token : Token} {ks : List TokenKind}
    (hs : Spells s.stack ks) (hf : s.focus = .wanted) (h : s.shiftOperand token = .ok u) :
    Holds u (ks ++ [token.kind]) := by
  obtain ⟨stack, focus, c⟩ := s
  obtain rfl : focus = .wanted := hf
  unfold State.shiftOperand at h
  split at h
  · next value hk => cases h; rw [hk]; exact holds_complete c.next hs (.number value)
  · next value hk => cases h; rw [hk]; exact holds_complete c.next hs (.string value)
  · next text hk => cases h; rw [hk]; exact holds_readName hs text c
  · next hk => cases h; rw [hk]; exact hs.group
  · cases h

theorem holds_shiftBehind {stack : List Frame} {c : Counter} {u : State} {e : Expr NodeId}
    {token : Token} {ks : List TokenKind}
    (hs : HoldsBefore token.kind ⟨stack, .operand e, c⟩ ks)
    (h : State.shiftBehind ⟨stack, .operand e, c⟩ e token = .ok u) :
    Holds u (ks ++ [token.kind]) := by
  obtain ⟨ls, ms, hs, hfits, hd, rfl⟩ := hs
  dsimp only at hs hfits
  unfold State.shiftBehind at h
  split at h
  · next op _ hk =>
    cases h
    rw [hk] at hfits hd ⊢
    exact hs.operator hfits hd
  · next rest hk hstack =>
    cases h
    obtain rfl : stack = .group :: rest := hstack
    rw [hk] at hd ⊢
    cases hs with
    | group below => simpa [List.append_assoc] using holds_complete c below (.group hd)
  · next callee arguments rest hk hstack =>
    cases h
    obtain rfl : stack = .call callee arguments :: rest := hstack
    rw [hk] at hd ⊢
    cases hs with
    | @call _ ks ls text _ below hname pending =>
      have all := Derives.call hname (pending _ _ (.last hd))
      have erased : (Expr.call c.fresh (.ofText text) (arguments ++ [e])).erase =
          .call () (.ofText text) (Expr.eraseAll arguments ++ [e.erase]) := by
        simp [Expr.erase, Expr.eraseAll_eq_map]
      rw [← erased] at all
      simpa [List.append_assoc] using holds_complete c.next below all
  · next callee arguments rest hk hstack =>
    cases h
    obtain rfl : stack = .call callee arguments :: rest := hstack
    rw [hk] at hd ⊢
    cases hs with
    | @call _ ks ls text _ below hname pending =>
      have longer : ∀ ns ts, DerivesAll ns ts → DerivesAll (ls ++ ms ++ [.comma] ++ ns)
          (Expr.eraseAll (arguments ++ [e]) ++ ts) := by
        intro ns ts hns
        simpa [Expr.eraseAll_eq_map] using pending _ _ (.more hd hns)
      simpa [Holds, List.append_assoc] using below.call hname longer
  all_goals cases h

theorem holds_shift {s u : State} {token : Token} {ks : List TokenKind} (hs : Holds s ks)
    (h : (s.settle token.kind).shift token = .ok u) : Holds u (ks ++ [token.kind]) := by
  have hb := holds_settle hs token.kind
  generalize s.settle token.kind = v at hb h
  obtain ⟨stack, focus, c⟩ := v
  cases focus with
  | wanted => exact holds_shiftOperand hb rfl h
  | operand e => exact holds_shiftBehind hb h
  | name path =>
    obtain ⟨hk, text, ls, rfl, hname, below, rfl⟩ := hb
    cases h
    rw [hk]
    have called := @Spells.call stack ls [] text [] below hname (fun _ _ h => h)
    simpa [Holds, List.append_assoc] using called

theorem derives_of_finish {s : State} {ks : List TokenKind} {e : Expr NodeId} (hs : Holds s ks)
    (h : (s.settle .endOfInput).finish = .ok e) : Derives 0 ks e.erase := by
  have hb := holds_settle hs .endOfInput
  generalize s.settle .endOfInput = v at hb h
  obtain ⟨stack, focus, c⟩ := v
  unfold State.finish at h
  split at h
  · next e' hf hstack =>
    cases h
    obtain rfl : focus = .operand e := hf
    obtain rfl : stack = [] := hstack
    obtain ⟨ls, ms, below, _, hd, rfl⟩ := hb
    cases below
    exact hd
  · cases h

end Parser

def sentence (tokens : List Token) : List TokenKind :=
  (tokens.map Token.kind).takeWhile (· ≠ .endOfInput)

theorem sentence_cons (token : Token) (tokens : List Token) :
    sentence (token :: tokens) =
      if token.kind = .endOfInput then [] else token.kind :: sentence tokens := by
  by_cases h : token.kind = .endOfInput <;> simp [sentence, h]

theorem Parser.derives_of_run {s : State} {ks : List TokenKind} {e : Expr NodeId}
    {tokens : List Token} (hs : Holds s ks) (h : (s.run tokens).result = .ok e) :
    Derives 0 (ks ++ sentence tokens) e.erase := by
  induction tokens generalizing s ks with
  | nil => simpa [sentence] using derives_of_finish hs h
  | cons token tokens ih =>
    rw [sentence_cons]
    simp only [State.run] at h
    split at h
    · next hk =>
      rw [hk] at h
      simpa [hk] using derives_of_finish hs h
    · next hk =>
      split at h
      · next u hu => simpa [hk] using ih (holds_shift hs hu) h
      · cases h

theorem sentence_split (tokens : List Token) : ∃ xs ys, tokens = xs ++ ys ∧
    xs.map Token.kind = sentence tokens ∧ ∀ y ∈ ys.head?, y.kind = .endOfInput := by
  induction tokens with
  | nil => exact ⟨[], [], rfl, rfl, by simp⟩
  | cons token tokens ih =>
    rw [sentence_cons]
    by_cases hk : token.kind = .endOfInput
    · exact ⟨[], token :: tokens, rfl, by simp [hk], by simpa using hk⟩
    · obtain ⟨xs, ys, rfl, hxs, hys⟩ := ih
      exact ⟨token :: xs, ys, rfl, by simp [hk, hxs], hys⟩

/-- What the grammar derives, the parser accepts, with the nodes numbered in post-order. -/
theorem parse_of_derives {tokens : List Token} {t : Expr Unit} (c : Counter)
    (h : Derives 0 (sentence tokens) t) :
    (parse c tokens).result = .ok (t.withIds c).1 ∧
      (parse c tokens).counter = (t.withIds c).2 := by
  obtain ⟨xs, ys, rfl, hxs, hys⟩ := sentence_split tokens
  obtain ⟨s, hf, hn⟩ := Parser.reads_of_derives h xs hxs [] c ⟨trivial, by simp⟩
  have settled : s.settle .endOfInput = ⟨[], .operand (t.withIds c).1, (t.withIds c).2⟩ := by
    rw [hn .endOfInput (by simp) (by simp [Parser.limit])]
    rfl
  rw [parse, Parser.initial, Parser.State.run_of_feed hf]
  cases ys with
  | nil => simp [Parser.State.run, settled, Parser.State.finish]
  | cons y ys =>
    have hy : y.kind = .endOfInput := hys y rfl
    simp [Parser.State.run, hy, settled, Parser.State.finish]

theorem derives_of_parse {c : Counter} {tokens : List Token} {e : Expr NodeId}
    (h : (parse c tokens).result = .ok e) : Derives 0 (sentence tokens) e.erase := by
  have start : Parser.Holds (Parser.initial c) [] := Parser.Spells.nil
  exact Parser.derives_of_run start h

theorem eq_withIds_of_parse {c : Counter} {tokens : List Token} {e : Expr NodeId}
    (h : (parse c tokens).result = .ok e) :
    e = (e.erase.withIds c).1 ∧ (parse c tokens).counter = (e.erase.withIds c).2 := by
  obtain ⟨hr, hc⟩ := parse_of_derives c (derives_of_parse h)
  exact ⟨Except.ok.inj (h.symm.trans hr), hc⟩

theorem derives_unique {tokens : List Token} {t u : Expr Unit} (ht : Derives 0 (sentence tokens) t)
    (hu : Derives 0 (sentence tokens) u) : t = u := by
  -- the parser is a function, and returns both
  have h := (parse_of_derives .start ht).1.symm.trans (parse_of_derives .start hu).1
  rw [← Expr.erase_withIds t .start, ← Expr.erase_withIds u .start, Except.ok.inj h]

/-- The parser accepts exactly the sentences of the grammar: it returns an expression of a given
shape if and only if the grammar derives the shape, no list derives two shapes, and a list that
derives none is refused. -/
theorem parse_iff_derives (c : Counter) (tokens : List Token) :
    (∀ t, (∃ e, (parse c tokens).result = .ok e ∧ e.erase = t) ↔ Derives 0 (sentence tokens) t) ∧
    (∀ t u, Derives 0 (sentence tokens) t → Derives 0 (sentence tokens) u → t = u) ∧
    ((∀ t, ¬ Derives 0 (sentence tokens) t) ↔ ∃ error, (parse c tokens).result = .error error) := by
  have accepted : ∀ t, (∃ e, (parse c tokens).result = .ok e ∧ e.erase = t) ↔
      Derives 0 (sentence tokens) t := by
    intro t
    constructor
    · rintro ⟨e, he, rfl⟩
      exact derives_of_parse he
    · intro ht
      exact ⟨_, (parse_of_derives c ht).1, Expr.erase_withIds t c⟩
  refine ⟨accepted, fun _ _ => derives_unique, ?_⟩
  constructor
  · intro hn
    cases h : (parse c tokens).result with
    | ok e => exact (hn e.erase (derives_of_parse h)).elim
    | error error => exact ⟨error, rfl⟩
  · rintro ⟨error, he⟩ t ht
    obtain ⟨e, hok, _⟩ := (accepted t).mpr ht
    rw [he] at hok
    cases hok

end RowSpec
