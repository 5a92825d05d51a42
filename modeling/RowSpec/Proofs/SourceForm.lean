import RowSpec.Proofs.LongestMatch
import RowSpec.Proofs.ReducerCalls

/-! What can stand in an expression that was read from a source. The lexer sees to it that names are
words and numbers are numbers, the parser that words of the language are no names, that `and` and
`or` have nodes of their own and that calls have arguments. The passes behind them count on it: they
take a path apart into its first segment and the rest. -/
namespace RowSpec

def IsLetter (c : Char) : Prop := 'A' ≤ c ∧ c ≤ 'Z' ∨ 'a' ≤ c ∧ c ≤ 'z' ∨ c = '_'

def IsWord (s : String) : Prop :=
  ∃ c cs, s.toList = c :: cs ∧ IsLetter c ∧ ∀ d ∈ cs, IsLetter d ∨ '0' ≤ d ∧ d ≤ '9'

def reservedWords : List String := ["null", "true", "false", "not", "and", "or"]

namespace Reference

structure Spelled (path : Reference) : Prop where
  nonempty : path.segments ≠ []
  words : ∀ s ∈ path.segments, IsWord s
  free : ∀ s, path.segments = [s] → Text.lower s ∉ reservedWords

def from? (path : Reference) (start : Nat) : Option (List String) :=
  if start ≤ path.segments.length then some (path.segments.drop start) else none

/-- The path comes apart into its first segment and the rest. Where the first names a table, the
checker and the compiler go along the rest. -/
def ComesApart (schema : Schema) (path : Reference) : Prop :=
  ∃ members, path.from? 1 = some members ∧ path.segments = path.first :: members ∧
    ∀ table, schema.table? path.first = some table →
      Typing.referenceType schema path = Typing.memberType schema path table members ∧
      ∀ d, (Sql.compileReference schema path).run d =
        (Sql.compileMembers schema (if path.first = d.table then d.root else path.first) table
          members).run d

end Reference

namespace Expr

variable {ι : Type}

def Spelled : Expr ι → Prop
  | .number _ value => value ≠ .nan
  | .reference _ path => path.Spelled
  | .binary _ op _ _ => op ≠ .and ∧ op ≠ .or
  | .call _ callee arguments => callee.Spelled ∧ arguments ≠ []
  | _ => True

end Expr

theorem isLetter_of_isIdentStart {c : Char} (h : Lexer.isIdentStart c = true) : IsLetter c := by
  simp only [Lexer.isIdentStart, Bool.or_eq_true, beq_iff_eq] at h
  rcases h with h | rfl
  · rcases Lexer.isAlpha_code h with h | h
    · exact Or.inl h
    · exact Or.inr (Or.inl h)
  · exact Or.inr (Or.inr rfl)

theorem isLetter_or_digit {c : Char} (h : Lexer.isIdentPart c = true) :
    IsLetter c ∨ '0' ≤ c ∧ c ≤ '9' := by
  simp only [Lexer.isIdentPart, Char.isAlphanum, Bool.or_eq_true, beq_iff_eq] at h
  rcases h with (h | h) | rfl
  · exact Or.inl (isLetter_of_isIdentStart (by simp [Lexer.isIdentStart, h]))
  · exact Or.inr (Char.isDigit_iff_toNat.mp h)
  · exact Or.inl (Or.inr (Or.inr rfl))

theorem IsIdentifier.isWord {s : String} (h : IsIdentifier s.toList) : IsWord s := by
  obtain ⟨c, cs, hs, hc, hcs⟩ := h
  exact ⟨c, cs, hs, isLetter_of_isIdentStart hc, fun d hd => isLetter_or_digit (hcs d hd)⟩

/-- The four words are kept out by the parser, the two operators by the lexer. -/
theorem Reference.WellFormed.spelled {path : Reference} (h : path.WellFormed) : path.Spelled := by
  refine ⟨h.lexical.1, fun s hs => (h.lexical.2 s hs).isWord, fun s hs => ?_⟩
  obtain ⟨segments⟩ := path
  cases hs
  have hname := h.isName
  simp only [Reference.IsName, Reference.word?, Reference.single?, Option.map_some, List.mem_cons,
    Option.some.injEq, List.not_mem_nil, or_false, not_or] at hname
  obtain ⟨hnull, htrue, hfalse, hnot⟩ := hname
  have hkind := Lexer.wordKind_eq s
  have hop : Operator.ofWord? s = none := h.noOperator
  simp only [Lexer.wordKind, hop] at hkind
  have hand : Text.lower s ≠ "and" := by
    intro heq
    rw [if_pos heq] at hkind
    cases hkind
  have hor : Text.lower s ≠ "or" := by
    intro heq
    rw [if_neg hand, if_pos heq] at hkind
    cases hkind
  simp [reservedWords, hnull, htrue, hfalse, hnot, hand, hor]

theorem Double.ofDecimal_ne_nan (negative : Bool) (coefficient places : Nat) :
    Double.ofDecimal negative coefficient places ≠ .nan := by
  unfold ofDecimal ofUnits
  split
  · simp
  · simp

theorem Denotes.ne_nan {cs : List Char} {kind : TokenKind} (h : Denotes cs kind) {value : Double}
    (hk : kind = .number value) : value ≠ .nan := by
  cases h with
  | number negative hne hd =>
    cases hk
    exact Double.ofDecimal_ne_nan _ _ _
  | _ => cases hk

theorem Lexer.ne_nan_of_scans {cs : List Char} {ks : List TokenKind} (h : Scans cs ks) :
    ∀ value, .number value ∈ ks → value ≠ .nan := by
  induction h with
  | done => simp
  | step hne hk _ ih =>
    intro value hmem
    rcases List.mem_cons.mp hmem with heq | hmem
    · exact (denotes_lexeme hne hk).ne_nan heq.symm
    · exact ih value hmem

theorem Expr.mem_nodes_combine {op : Operator} {l r n : Expr Unit}
    (h : n ∈ (combine () op l r).nodes) : n.number? = none ∨ n ∈ l.nodes ∨ n ∈ r.nodes := by
  cases op <;>
    · rcases List.mem_cons.mp h with rfl | h
      · exact Or.inl rfl
      · exact Or.inr (List.mem_append.mp h)

/-- The numbers of an expression are those of its tokens. -/
theorem Derives.number_mem {k : Nat} {ks : List TokenKind} {t : Expr Unit} (h : Derives k ks t) :
    ∀ n ∈ t.nodes, ∀ value ∈ n.number?, .number value ∈ ks := by
  have leaf : ∀ {ks : List TokenKind} {e : Expr Unit}, e.nodes = [e] → e.number? = none →
      ∀ n ∈ e.nodes, ∀ value ∈ n.number?, TokenKind.number value ∈ ks := by
    intro ks e hn he n hmem value hv
    rw [hn, List.mem_singleton] at hmem
    rw [hmem, he] at hv
    cases hv
  refine @Derives.rec
    (fun _ ks t _ => ∀ n ∈ t.nodes, ∀ value ∈ n.number?, .number value ∈ ks)
    (fun ks ts _ => ∀ t ∈ ts, ∀ n ∈ t.nodes, ∀ value ∈ n.number?, .number value ∈ ks)
    ?_ (fun _ => leaf rfl rfl) (fun _ => leaf rfl rfl) (fun _ => leaf rfl rfl) ?_
    (fun _ => leaf rfl rfl) ?_ ?_ (fun _ _ ih => ih) ?_ ?_ ?_ k ks t h
  · intro value n hn v hv
    obtain rfl := List.mem_singleton.mp hn
    cases hv
    exact List.mem_singleton_self _
  · intro text ks t _ _ ih n hn value hv
    rcases List.mem_cons.mp hn with rfl | hn
    · cases hv
    · exact List.mem_cons_of_mem _ (ih n hn value hv)
  · intro text ks ts _ _ ih n hn value hv
    rcases Expr.mem_nodes_call.mp hn with rfl | ⟨a, ha, hn⟩
    · cases hv
    · simp [ih a ha n hn value hv]
  · intro ks t _ ih n hn value hv
    simp [ih n hn value hv]
  · intro op ks ls l r _ _ hl hr n hn value hv
    rcases Expr.mem_nodes_combine hn with hnone | hn | hn
    · rw [hnone] at hv
      cases hv
    · exact List.mem_append_left _ (hl n hn value hv)
    · exact List.mem_append_right _ (List.mem_cons_of_mem _ (hr n hn value hv))
  · intro ks t _ ih
    exact List.forall_mem_singleton.mpr ih
  · intro ks ls t ts _ _ ht hts
    refine List.forall_mem_cons.mpr ⟨fun n hn value hv => ?_, fun u hu n hn value hv => ?_⟩
    · exact List.mem_append_left _ (ht n hn value hv)
    · exact List.mem_append_right _ (List.mem_cons_of_mem _ (hts u hu n hn value hv))

variable {c c' : Counter} {source : String} {e : Expr NodeId}

theorem spelled_of_parseSource (h : parseSource c source = (.ok e, c')) :
    ∀ n ∈ e.nodes, n.Spelled := by
  intro n hn
  have hw := wellFormed_of_parseSource h n hn
  cases n with
  | number label value =>
    obtain ⟨ks, hs, hd, _⟩ := parseSource_eq_ok_iff.mp h
    have hmem : (Expr.number label value).erase ∈ e.erase.nodes := by
      rw [Expr.nodes_erase]
      exact List.mem_map_of_mem hn
    exact Lexer.ne_nan_of_scans hs value (hd.number_mem _ hmem value rfl)
  | reference label path => exact Reference.WellFormed.spelled hw
  | binary => exact hw
  | call label callee arguments => exact ⟨Reference.WellFormed.spelled hw.1, hw.2⟩
  | _ => trivial

theorem Reference.Spelled.comesApart {path : Reference} (h : path.Spelled) (schema : Schema) :
    path.ComesApart schema := by
  obtain ⟨segments⟩ := path
  cases segments with
  | nil => exact absurd rfl h.nonempty
  | cons first members =>
    have hfirst : (⟨first :: members⟩ : Reference).first = first := rfl
    refine ⟨members, by simp [Reference.from?], rfl, fun table ht => ?_⟩
    rw [hfirst] at ht
    constructor
    · simp only [Typing.referenceType, hfirst, ht, List.tail_cons]
    · intro d
      simp only [Sql.compileReference, ht]
      rfl

theorem comesApart_of_spelled (h : ∀ n ∈ e.nodes, n.Spelled) (schema : Schema) :
    ∀ path ∈ e.references ++ e.callees, path.ComesApart schema := by
  intro path hpath
  rcases List.mem_append.mp hpath with hpath | hpath
  · obtain ⟨label, hn⟩ := Expr.mem_references.mp hpath
    exact Reference.Spelled.comesApart (h _ hn) schema
  · obtain ⟨label, arguments, hn⟩ := Expr.mem_callees.mp hpath
    exact Reference.Spelled.comesApart (h _ hn).1 schema

/-- Every node of an expression that was read from a source is one that a source can spell. So every
path in it comes apart, whatever the schema; the same holds of the bodies of the specs of a schema
in use, which the compiler enters from the expression. -/
theorem parsed_expressions_wellFormed (h : parseSource c source = (.ok e, c')) :
    (∀ n ∈ e.nodes, n.Spelled) ∧ ∀ schema : Schema,
      (∀ path ∈ e.references ++ e.callees, path.ComesApart schema) ∧
      (schema.Built → ∀ spec ∈ schema.specs, (∀ n ∈ spec.body.nodes, n.Spelled) ∧
        ∀ path ∈ spec.body.references ++ spec.body.callees, path.ComesApart schema) := by
  have he := spelled_of_parseSource h
  refine ⟨he, fun schema => ⟨comesApart_of_spelled he schema, ?_⟩⟩
  intro hbuilt spec hspec
  obtain ⟨_, c₁, c₂, hp⟩ := hbuilt.spec spec hspec
  have hbody := spelled_of_parseSource hp
  exact ⟨hbody, comesApart_of_spelled hbody schema⟩

/-- Names that start like words of the language, and a sign that belongs to a number. -/
theorem parsed_expressions_wellFormed_names : ∃ e c',
    parseSource sales.counter "NOT nota(Account.Owner, And1.or, null_) OR -2 < _x" =
      (.ok e, c') ∧ e.nodes.length = 9 ∧
    e.references ++ e.callees =
      [⟨["Account", "Owner"]⟩, ⟨["And1", "or"]⟩, ⟨["null_"]⟩, ⟨["_x"]⟩, ⟨["nota"]⟩] ∧
    (∀ n ∈ e.nodes, n.Spelled) ∧
    (∀ path ∈ e.references ++ e.callees, path.ComesApart sales) ∧
    sales.Built ∧ ∀ spec ∈ sales.specs, ∀ n ∈ spec.body.nodes, n.Spelled := by
  have hread : (parseSource sales.counter
      "NOT nota(Account.Owner, And1.or, null_) OR -2 < _x").1.toOption.any (fun e =>
        e.nodes.length = 9 ∧ e.references ++ e.callees =
          [⟨["Account", "Owner"]⟩, ⟨["And1", "or"]⟩, ⟨["null_"]⟩, ⟨["_x"]⟩, ⟨["nota"]⟩]) =
      true := by
    decide +kernel
  obtain ⟨e, c', hp, hchecks⟩ := parseSource_of_any hread
  obtain ⟨hcount, hpaths⟩ := of_decide_eq_true hchecks
  obtain ⟨hnodes, hschema⟩ := parsed_expressions_wellFormed hp
  obtain ⟨hapart, hbodies⟩ := hschema sales
  exact ⟨e, c', hp, hcount, hpaths, hnodes, hapart, sales_built,
    fun spec hspec => (hbodies sales_built spec hspec).1⟩

end RowSpec
