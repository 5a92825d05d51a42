import Mathlib.Data.List.Forall2
import RowSpec.Proofs.Unfolding

/-! The numbers of nodes are of no account. The parser hands them out and never looks at them, so
from any two counts it reads the same shape, or fails with the same error. Both checks see the shape
alone, and so does the compiler where no reducer is called. -/
namespace RowSpec

inductive Agree {ε α β : Type} (R : α → β → Prop) : Except ε α → Except ε β → Prop where
  | error (e : ε) : Agree R (.error e) (.error e)
  | ok {a : α} {b : β} (h : R a b) : Agree R (.ok a) (.ok b)

def Expr.SameShape {ι κ : Type} (e : Expr ι) (e' : Expr κ) : Prop := e.erase = e'.erase

namespace Parser

open RowSpec.Expr

inductive Frame.Alike : Frame → Frame → Prop where
  | operator {left left' : Expr NodeId} (op : Operator) (h : left.SameShape left') :
    Alike (.operator left op) (.operator left' op)
  | negation : Alike .negation .negation
  | group : Alike .group .group
  | call (callee : Reference) {arguments arguments' : List (Expr NodeId)}
    (h : eraseAll arguments = eraseAll arguments') :
    Alike (.call callee arguments) (.call callee arguments')

inductive Focus.Alike : Focus → Focus → Prop where
  | wanted : Alike .wanted .wanted
  | name (path : Reference) : Alike (.name path) (.name path)
  | operand {e e' : Expr NodeId} (h : e.SameShape e') : Alike (.operand e) (.operand e')

structure State.Alike (s t : State) : Prop where
  stack : List.Forall₂ Frame.Alike s.stack t.stack
  focus : s.focus.Alike t.focus

variable {e e' : Expr NodeId} {c c' : Counter} {stack stack' : List Frame} {s t : State}

theorem alike_initial (c c' : Counter) : (initial c).Alike (initial c') := ⟨.nil, .wanted⟩

theorem alike_complete (h : e.SameShape e') (hs : List.Forall₂ Frame.Alike stack stack') :
    (complete e c stack).Alike (complete e' c' stack') := by
  induction hs generalizing e e' c c' with
  | nil => exact ⟨.nil, .operand h⟩
  | cons hframe hs ih =>
    cases hframe with
    | negation => exact ih (congrArg (Expr.negation ()) h)
    | operator op hleft => exact ⟨.cons (.operator op hleft) hs, .operand h⟩
    | group => exact ⟨.cons .group hs, .operand h⟩
    | call callee harguments => exact ⟨.cons (.call callee harguments) hs, .operand h⟩

theorem sameShape_combine {left left' : Expr NodeId} (label label' : NodeId) (op : Operator)
    (hleft : left.SameShape left') (h : e.SameShape e') :
    (combine label op left e).SameShape (combine label' op left' e') := by
  unfold SameShape at hleft h ⊢
  rw [erase_combine, erase_combine, hleft, h]

theorem alike_closeOperators {least : Nat} (h : e.SameShape e')
    (hs : List.Forall₂ Frame.Alike stack stack') :
    (closeOperators least e c stack).Alike (closeOperators least e' c' stack') := by
  induction hs generalizing e e' c c' with
  | nil => exact ⟨.nil, .operand h⟩
  | cons hframe hs ih =>
    cases hframe with
    | operator op hleft =>
      by_cases hleast : least ≤ op.precedence
      · simp only [closeOperators, if_pos hleast]
        exact ih (sameShape_combine _ _ op hleft h)
      · simp only [closeOperators, if_neg hleast]
        exact ⟨.cons (.operator op hleft) hs, .operand h⟩
    | negation => exact ⟨.cons .negation hs, .operand h⟩
    | group => exact ⟨.cons .group hs, .operand h⟩
    | call callee harguments => exact ⟨.cons (.call callee harguments) hs, .operand h⟩

theorem alike_settleName (h : s.Alike t) (next : TokenKind) :
    (s.settleName next).Alike (t.settleName next) := by
  obtain ⟨stack, focus, c⟩ := s
  obtain ⟨stack', focus', c'⟩ := t
  obtain ⟨hstack, hfocus⟩ := h
  cases hfocus with
  | wanted => exact ⟨hstack, .wanted⟩
  | operand he => exact ⟨hstack, .operand he⟩
  | name path =>
    by_cases hnext : next = .openParen
    · simp only [State.settleName, if_pos hnext]
      exact ⟨hstack, .name path⟩
    · simp only [State.settleName, if_neg hnext]
      exact alike_complete rfl hstack

theorem alike_settle (h : s.Alike t) (next : TokenKind) :
    (s.settle next).Alike (t.settle next) := by
  have hnamed := alike_settleName h next
  unfold State.settle
  generalize s.settleName next = s at hnamed
  generalize t.settleName next = t at hnamed
  obtain ⟨stack, focus, c⟩ := s
  obtain ⟨stack', focus', c'⟩ := t
  obtain ⟨hstack, hfocus⟩ := hnamed
  cases hfocus with
  | wanted => exact ⟨hstack, .wanted⟩
  | name path => exact ⟨hstack, .name path⟩
  | operand he => exact alike_closeOperators he hstack

theorem alike_readName (h : List.Forall₂ Frame.Alike s.stack t.stack) (path : Reference) :
    (s.readName path).Alike (t.readName path) := by
  unfold State.readName
  split
  · exact alike_complete rfl h
  · exact alike_complete rfl h
  · exact alike_complete rfl h
  · exact ⟨.cons .negation h, .wanted⟩
  · exact ⟨h, .name path⟩

theorem agree_shiftOperand (h : List.Forall₂ Frame.Alike s.stack t.stack) (token : Token) :
    Agree State.Alike (s.shiftOperand token) (t.shiftOperand token) := by
  unfold State.shiftOperand
  split
  · exact .ok (alike_complete rfl h)
  · exact .ok (alike_complete rfl h)
  · exact .ok (alike_readName h _)
  · exact .ok ⟨.cons .group h, .wanted⟩
  · exact .error _

theorem eraseAll_snoc {arguments arguments' : List (Expr NodeId)}
    (ha : eraseAll arguments = eraseAll arguments') (h : e.SameShape e') :
    eraseAll (arguments ++ [e]) = eraseAll (arguments' ++ [e']) := by
  rw [eraseAll_eq_map, eraseAll_eq_map] at ha ⊢
  rw [List.map_append, List.map_append, ha, List.map_singleton, List.map_singleton, h]

theorem agree_shiftBehind (h : List.Forall₂ Frame.Alike s.stack t.stack) (he : e.SameShape e')
    (token : Token) : Agree State.Alike (s.shiftBehind e token) (t.shiftBehind e' token) := by
  obtain ⟨stack, focus, c⟩ := s
  obtain ⟨stack', focus', c'⟩ := t
  obtain ⟨kind, span⟩ := token
  cases h with
  | nil =>
    cases kind with
    | operator op => exact .ok ⟨.cons (.operator op he) .nil, .wanted⟩
    | _ => exact .error _
  | cons hframe hs =>
    cases hframe with
    | operator op hleft =>
      cases kind with
      | operator op' =>
        exact .ok ⟨.cons (.operator op' he) (.cons (.operator op hleft) hs), .wanted⟩
      | _ => exact .error _
    | negation =>
      cases kind with
      | operator op => exact .ok ⟨.cons (.operator op he) (.cons .negation hs), .wanted⟩
      | _ => exact .error _
    | group =>
      cases kind with
      | operator op => exact .ok ⟨.cons (.operator op he) (.cons .group hs), .wanted⟩
      | closeParen => exact .ok (alike_complete he hs)
      | _ => exact .error _
    | call callee ha =>
      cases kind with
      | operator op => exact .ok ⟨.cons (.operator op he) (.cons (.call callee ha) hs), .wanted⟩
      | closeParen =>
        exact .ok (alike_complete (congrArg (Expr.call () callee) (eraseAll_snoc ha he)) hs)
      | comma => exact .ok ⟨.cons (.call callee (eraseAll_snoc ha he)) hs, .wanted⟩
      | _ => exact .error _

theorem agree_shift (h : s.Alike t) (token : Token) :
    Agree State.Alike (s.shift token) (t.shift token) := by
  obtain ⟨hstack, hfocus⟩ := h
  unfold State.shift
  generalize hs : s.focus = focus at hfocus
  generalize ht : t.focus = focus' at hfocus
  cases hfocus with
  | wanted => exact agree_shiftOperand hstack token
  | name path => exact .ok ⟨.cons (.call path rfl) hstack, .wanted⟩
  | operand he => exact agree_shiftBehind hstack he token

theorem agree_finish (h : s.Alike t) : Agree SameShape s.finish t.finish := by
  obtain ⟨stack, focus, c⟩ := s
  obtain ⟨stack', focus', c'⟩ := t
  obtain ⟨hstack, hfocus⟩ := h
  cases hfocus with
  | wanted | name => exact .error _
  | operand he =>
    cases hstack with
    | nil => exact .ok he
    | cons => exact .error _

/-- Step by step the two states stay alike, so they stop at the same token. -/
theorem agree_run (h : s.Alike t) (tokens : List Token) :
    Agree SameShape (s.run tokens).result (t.run tokens).result := by
  induction tokens generalizing s t with
  | nil => exact agree_finish (alike_settle h .endOfInput)
  | cons token tokens ih =>
    have hsettled := alike_settle h token.kind
    have hshift := agree_shift hsettled token
    by_cases hend : token.kind = .endOfInput
    · simp only [State.run, if_pos hend]
      exact agree_finish hsettled
    · simp only [State.run, if_neg hend]
      generalize (s.settle token.kind).shift token = x at hshift
      generalize (t.settle token.kind).shift token = y at hshift
      cases hshift with
      | error error => exact .error error
      | ok hnext => exact ih hnext

end Parser

/-- From any two counts a source reads as one shape, or fails with one error. -/
theorem agree_parseSource (c c' : Counter) (source : String) :
    Agree Expr.SameShape (parseSource c source).1 (parseSource c' source).1 := by
  unfold parseSource
  cases tokenize source with
  | error error => exact .error _
  | ok tokens =>
    have hrun := Parser.agree_run (Parser.alike_initial c c') tokens
    simp only [parse]
    generalize ((Parser.initial c).run tokens).result = x at hrun
    generalize ((Parser.initial c').run tokens).result = y at hrun
    cases hrun with
    | error error => exact .error _
    | ok h => exact .ok h

namespace Expr

variable {ι : Type} {schema : Schema}

theorem callees_erase (e : Expr ι) : e.erase.callees = e.callees := by
  rw [callees, callees, nodes_erase, List.filterMap_map]
  congr 1
  funext n
  cases n <;> rfl

theorem typeOf_erase (schema : Schema) (e : Expr ι) : e.erase.typeOf schema = e.typeOf schema := by
  unfold typeOf
  induction e using Expr.induction with
  | binary _ _ _ _ hl hr | conjunction _ _ _ hl hr | disjunction _ _ _ hl hr =>
    simp only [erase, postorder, hl, hr, Typing.visit]
  | negation _ _ hc => simp only [erase, postorder, hc, Typing.visit]
  | call label callee arguments ih =>
    have hall : (postorderAll (Typing.visit schema) (eraseAll arguments)).map Prod.snd =
        (postorderAll (Typing.visit schema) arguments).map Prod.snd := by
      simp only [postorderAll_eq_map, eraseAll_eq_map, List.map_map]
      exact List.map_congr_left ih
    simp only [erase, postorder, Typing.visit, hall]
  | _ => rfl

theorem childPath?_erase (e : Expr ι) : e.erase.childPath? = e.childPath? := by
  cases e <;> rfl

theorem visit_erase (schema : Schema) (tables : List String) (e : Expr ι) :
    Scope.visit schema tables e.erase = Scope.visit schema tables e := by
  cases e with
  | call label callee arguments =>
    have hhead : (eraseAll arguments).head?.bind childPath? = arguments.head?.bind childPath? := by
      cases arguments with
      | nil => rfl
      | cons a as => exact childPath?_erase a
    simp only [erase, Scope.visit, Scope.visitCall, hhead]
  | _ => rfl

theorem preorder_erase (schema : Schema) (tables : List String) (e : Expr ι) :
    e.erase.preorder (Scope.visit schema) tables = e.preorder (Scope.visit schema) tables := by
  induction e using Expr.induction generalizing tables with
  | binary _ _ _ _ hl hr | conjunction _ _ _ hl hr | disjunction _ _ _ hl hr =>
    simp only [erase, preorder, hl, hr, Scope.visit]
  | negation _ _ hc => simp only [erase, preorder, hc, Scope.visit]
  | call label callee arguments ih =>
    have hall : ∀ tables, preorderAll (Scope.visit schema) tables (eraseAll arguments) =
        preorderAll (Scope.visit schema) tables arguments := by
      intro tables
      induction arguments with
      | nil => rfl
      | cons a as iha =>
        obtain ⟨ha, has⟩ := List.forall_mem_cons.mp ih
        simp only [eraseAll, preorderAll, ha, iha has]
    have hvisit := visit_erase schema tables (.call label callee arguments)
    rw [erase] at hvisit ⊢
    simp only [preorder, hvisit, hall]
  | _ => rfl

theorem checkScope_erase (schema : Schema) (root : String) (e : Expr ι) :
    e.erase.checkScope schema root = e.checkScope schema root := by
  rw [checkScope, checkScope, preorder_erase]

end Expr

namespace Sql

open RowSpec.Expr

variable {schema : Schema} {inline : Inline}

/-- A call of a spec looks at what its arguments come to, not at the arguments. -/
theorem compileSpec_arguments (name : String) {xs ys : List (Expr NodeId × Build Term)}
    (h : xs.map Prod.snd = ys.map Prod.snd) :
    compileSpec schema inline name xs = compileSpec schema inline name ys := by
  have hlength : xs.length = ys.length := by
    rw [← List.length_map Prod.snd, h, List.length_map]
  unfold compileSpec
  cases schema.spec? name with
  | none => rfl
  | some spec =>
    match xs, ys with
    | [], [] => rfl
    | [(_, x)], [(_, y)] =>
      obtain rfl : x = y := by simpa using h
      rfl
    | _ :: _ :: xs, _ :: _ :: ys =>
      obtain hrest : xs.length = ys.length := by simpa using hlength
      simp only [List.length_cons, hrest]
    | [], _ :: _ | _ :: _, [] | [_], _ :: _ :: _ | _ :: _ :: _, [_] => simp at hlength

theorem compileCall_arguments {callee : Reference} (label label' : NodeId)
    {xs ys : List (Expr NodeId × Build Term)} (hr : callee.reducer? = none)
    (h : xs.map Prod.snd = ys.map Prod.snd) :
    compileCall schema inline label callee xs = compileCall schema inline label' callee ys := by
  unfold compileCall
  cases hname : callee.single? with
  | none => rfl
  | some name =>
    rw [Reference.reducer?_of_single? hname] at hr
    simp only [hr]
    exact compileSpec_arguments name h

/-- Without a reducer, an expression is compiled the same however its nodes are numbered. -/
theorem postorder_withIds {t : Expr Unit} (hr : ∀ callee ∈ t.callees, callee.reducer? = none)
    (c c' : Counter) : (t.withIds c).1.postorder (visit schema inline) =
      (t.withIds c').1.postorder (visit schema inline) := by
  have hnodes : ∀ label callee arguments, .call label callee arguments ∈ t.nodes →
      callee.reducer? = none :=
    fun label callee arguments hn => hr callee (mem_callees.mpr ⟨label, arguments, hn⟩)
  clear hr
  induction t using Expr.induction generalizing c c' with
  | binary label op left right hl hr | conjunction label left right hl hr
  | disjunction label left right hl hr =>
    have hleft := hl c c' fun l k as hn => hnodes l k as (by simp [nodes, hn])
    have hright := hr (left.withIds c).2 (left.withIds c').2 fun l k as hn =>
      hnodes l k as (by simp [nodes, hn])
    simp only [withIds, postorder, visit, hleft, hright]
  | negation label child hc =>
    have hchild := hc c c' fun l k as hn => hnodes l k as (by simp [nodes, hn])
    simp only [withIds, postorder, visit, hchild]
  | call label callee arguments ih =>
    have hall : ∀ c c',
        (postorderAll (visit schema inline) (withIdsAll c arguments).1).map Prod.snd =
          (postorderAll (visit schema inline) (withIdsAll c' arguments).1).map Prod.snd := by
      have hbelow : ∀ a ∈ arguments, ∀ l k as, .call l k as ∈ a.nodes → k.reducer? = none :=
        fun a ha l k as hn => hnodes l k as (mem_nodes_argument ha _ hn)
      clear hnodes
      induction arguments with
      | nil => exact fun _ _ => rfl
      | cons a as iha =>
        obtain ⟨ha, has⟩ := List.forall_mem_cons.mp ih
        obtain ⟨hbelow, hbelows⟩ := List.forall_mem_cons.mp hbelow
        intro c c'
        simp only [withIdsAll, postorderAll, List.map_cons, ha c c' hbelow]
        rw [iha has hbelows (a.withIds c).2 (a.withIds c').2]
    simp only [withIds, postorder, visit]
    exact compileCall_arguments _ _ (hnodes label callee arguments (self_mem_nodes _)) (hall c c')
  | _ => simp only [withIds, postorder, visit]

theorem compile_withIds (schema : Schema) {t : Expr Unit}
    (hr : ∀ callee ∈ t.callees, callee.reducer? = none) (c c' : Counter) :
    compile schema (t.withIds c).1 = compile schema (t.withIds c').1 := by
  obtain ⟨inline, h⟩ := exists_compile_eq_postorder schema
  rw [h, h, postorder_withIds hr c c']

end Sql

namespace Schema

variable {s : Schema} {c c' : Counter}

theorem checkScope_counter {ι : Type} (root : String) (e : Expr ι) :
    e.checkScope { s with counter := c } root = e.checkScope s root := by
  have hvisit : @Scope.visit ι { s with counter := c } = Scope.visit s := by
    funext tables e
    cases e <;> rfl
  rw [Expr.checkScope, Expr.checkScope, hvisit]

theorem check_spec_counter (spec : Spec) : spec.check { s with counter := c } = spec.check s := by
  simp only [Spec.check, Expr.checkBoolean_counter, checkScope_counter]

theorem statement_counter (spec : Spec) :
    spec.statement { s with counter := c } = spec.statement s := by
  simp only [Spec.statement, Sql.select_counter]

theorem check_counter : ({ s with counter := c } : Schema).check = s.check := by
  have hspec : Spec.check { s with counter := c } = Spec.check s := by
    funext spec
    exact check_spec_counter spec
  rw [check, check, hspec]

theorem selectExpr_counter (table : String) (e : Expr NodeId) :
    ({ s with counter := c } : Schema).selectExpr table e = s.selectExpr table e := by
  simp only [selectExpr, Expr.checkBoolean_counter, checkScope_counter, Sql.select_counter]

theorem selectExpr_withIds (table : String) {t : Expr Unit}
    (hr : ∀ callee ∈ t.callees, callee.reducer? = none) (c c' : Counter) :
    s.selectExpr table (t.withIds c).1 = s.selectExpr table (t.withIds c').1 := by
  have htype : ∀ c, (t.withIds c).1.typeOf s = t.typeOf s := by
    intro c
    rw [← Expr.typeOf_erase, Expr.erase_withIds]
  have hscope : ∀ c, (t.withIds c).1.checkScope s table = t.checkScope s table := by
    intro c
    rw [← Expr.checkScope_erase, Expr.erase_withIds]
  have hselect : Sql.select s table (t.withIds c).1 = Sql.select s table (t.withIds c').1 := by
    rw [Sql.select, Sql.select, Sql.compile_withIds s hr c c']
  simp only [selectExpr, Expr.checkBoolean, htype, hscope, hselect]

/-- Whether a source calls a reducer may be read off from any count. -/
theorem callees_of_parseSource {source : String}
    (hr : ∀ e c', parseSource .start source = (.ok e, c') →
      ∀ callee ∈ e.callees, callee.reducer? = none)
    {e : Expr NodeId} (h : parseSource c source = (.ok e, c')) :
    ∀ callee ∈ e.erase.callees, callee.reducer? = none := by
  have hagree := agree_parseSource .start c source
  rcases hstart : parseSource .start source with ⟨x, c₀⟩
  rw [h, hstart] at hagree
  cases hagree with
  | ok hshape =>
    rw [← hshape, Expr.callees_erase]
    exact hr _ c₀ hstart

/-- What a source without a reducer of its own comes to does not hang on the ids taken before. -/
theorem compileSource_counter (table : String) {source : String}
    (hr : ∀ e c', parseSource .start source = (.ok e, c') →
      ∀ callee ∈ e.callees, callee.reducer? = none) :
    (({ s with counter := c } : Schema).compileSource table source).1 =
      (s.compileSource table source).1 := by
  have hagree := agree_parseSource c s.counter source
  rw [compileSource, compileSource, readOver_eq, readOver_eq,
    table?_congr (s := s) (t := { s with counter := c }) rfl]
  by_cases htable : (s.table? table).isNone = true
  · rw [if_pos htable, if_pos htable]
  · rw [if_neg htable, if_neg htable]
    rcases hc : parseSource c source with ⟨x, c₁⟩
    rcases hs : parseSource s.counter source with ⟨y, c₂⟩
    rw [hc, hs] at hagree
    cases hagree with
    | error error =>
      rw [readExpr_error (s := { s with counter := c }) hc, readExpr_error hs]
    | @ok a b hshape =>
      obtain ⟨_, _, _, ha⟩ := parseSource_eq_ok_iff.mp hc
      obtain ⟨_, _, _, hb⟩ := parseSource_eq_ok_iff.mp hs
      have hselect : s.selectExpr table (a.erase.withIds c).1 =
          s.selectExpr table (a.erase.withIds s.counter).1 :=
        selectExpr_withIds table (callees_of_parseSource hr hc) c s.counter
      rw [ha, hshape, hb] at hselect
      rw [readExpr_ok (s := { s with counter := c }) hc, readExpr_ok hs]
      simp only [selectExpr_counter, hselect]

end Schema

end RowSpec
