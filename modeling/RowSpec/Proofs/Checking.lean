import RowSpec.Proofs.CallNesting
import RowSpec.Proofs.Paths
import RowSpec.Scope

/-! What the two checks of an expression establish. Typing fixes the shape of every call and keeps
functions out of the operands; only `null` has type `any`, and only a reference stands for a row. A
scope is found for every node, so the first argument of a reducer is a path to children. -/
namespace RowSpec

theorem ok_of_bind {ε α β : Type} {x : Except ε α} {f : α → Except ε β} {b : β} :
    (x >>= f) = .ok b → ∃ a, x = .ok a ∧ f a = .ok b := by
  intro h
  match x with
  | .ok a => exact ⟨a, rfl, h⟩

theorem ok_bind {ε α β : Type} {x : Except ε α} {f : α → Except ε β} {a : α} {b : β}
    (hx : x = .ok a) (hf : f a = .ok b) : (x >>= f) = .ok b := by
  rw [hx]
  exact hf

theorem ok_of_any {ε α : Type} {x : Except ε α} {p : α → Bool} (h : x.toOption.any p = true) :
    ∃ a, x = .ok a ∧ p a = true := by
  cases x with
  | error error => cases h
  | ok a => exact ⟨a, rfl, h⟩

theorem FieldType.ty_isValue (t : FieldType) : t.ty ≠ .any ∧ t.ty.isFunction = false := by
  cases t <;> simp [FieldType.ty, Ty.isFunction]

def Reference.reducer? (callee : Reference) : Option Reducer := callee.single?.bind Reducer.ofName?

theorem Reference.reducer?_of_single? {callee : Reference} {name : String}
    (h : callee.single? = some name) : callee.reducer? = Reducer.ofName? name := by
  rw [reducer?, h]
  rfl

theorem Reference.eq_of_single? {path : Reference} {name : String}
    (h : path.single? = some name) : path = ⟨[name]⟩ := by
  obtain ⟨segments⟩ := path
  unfold single? at h
  split at h
  · next hs => cases h; rw [← hs]
  · cases h

namespace Typing

variable {schema : Schema}

/-- A path from a table ends at a row or at a field, neither of which can be called. -/
theorem memberType_isValue {path : Reference} {t : Table} {members : List String} {ty : Ty}
    (h : memberType schema path t members = .ok ty) : ty ≠ .any ∧ ty.isFunction = false := by
  obtain ⟨_, _, _, ⟨_, rfl⟩ | ⟨_, field, _, _, rfl⟩⟩ := memberType_eq_ok h
  · simp [Ty.isFunction]
  · exact field.type.ty_isValue

/-- A function is a reducer, or a spec that is not named like one. -/
theorem functionType?_eq_some {name : String} {ty : Ty} (h : functionType? schema name = some ty) :
    (∃ reducer, Reducer.ofName? name = some reducer ∧ ty = .function .boolean [.any, .any]) ∨
      ∃ s, s.name = name ∧ schema.callee? ⟨[name]⟩ = some s ∧
        ty = .function .boolean [.table s.table] := by
  unfold functionType? at h
  split at h
  · next hr =>
    obtain ⟨reducer, hr⟩ := Option.isSome_iff_exists.mp hr
    exact Or.inl ⟨reducer, hr, (Option.some.inj h).symm⟩
  · next hr =>
    obtain ⟨s, hs, rfl⟩ := Option.map_eq_some_iff.mp h
    obtain rfl := (Schema.spec?_eq_some hs).2
    exact Or.inr ⟨s, rfl, Schema.callee?_eq_some.mpr ⟨rfl, by simpa using hr, hs⟩, rfl⟩

theorem functionType?_isFunction {name : String} {ty : Ty}
    (h : functionType? schema name = some ty) : ty.isFunction = true := by
  obtain ⟨_, _, rfl⟩ | ⟨_, _, _, rfl⟩ := functionType?_eq_some h
  · rfl
  · rfl

theorem referenceType_eq_ok {path : Reference} {ty : Ty} (h : referenceType schema path = .ok ty) :
    (∃ t, schema.table? path.first = some t ∧
        memberType schema path t path.segments.tail = .ok ty) ∨
      (schema.table? path.first = none ∧ ∃ name, path.single? = some name ∧
        functionType? schema name = some ty) := by
  unfold referenceType at h
  split at h
  · next t ht => exact Or.inl ⟨t, ht, h⟩
  · next ht =>
    split at h
    · next found hf =>
      cases h
      exact Or.inr ⟨ht, Option.bind_eq_some_iff.mp hf⟩
    · cases h

theorem memberType_of_referenceType {path : Reference} {ty : Ty}
    (h : referenceType schema path = .ok ty) (hf : ty.isFunction = false) :
    ∃ t, schema.table? path.first = some t ∧
      memberType schema path t path.segments.tail = .ok ty := by
  rcases referenceType_eq_ok h with hmember | ⟨_, _, _, hfun⟩
  · exact hmember
  · rw [functionType?_isFunction hfun] at hf
    cases hf

theorem follows_of_referenceType {path : Reference} {name : String}
    (h : referenceType schema path = .ok (.table name)) :
    ∃ t u, schema.table? path.first = some t ∧ Follows schema t path.segments.tail u ∧
      u.name = name := by
  obtain ⟨t, ht, hmember⟩ := memberType_of_referenceType h rfl
  obtain ⟨u, hfollow, hu⟩ := follows_of_memberType hmember
  exact ⟨t, u, ht, hfollow, hu⟩

theorem functionType?_of_referenceType {path : Reference} {ty : Ty}
    (h : referenceType schema path = .ok ty) (hf : ty.isFunction = true) :
    schema.table? path.first = none ∧ ∃ name, path.single? = some name ∧
      functionType? schema name = some ty := by
  rcases referenceType_eq_ok h with ⟨_, _, hmember⟩ | hfun
  · rw [(memberType_isValue hmember).2] at hf
    cases hf
  · exact hfun

theorem coalesce_eq_some_iff {a b c : Ty} : a.coalesce b = some c ↔
    (a = .any ∧ c = b) ∨ (b = .any ∧ c = a) ∨ (a = b ∧ c = a) := by
  unfold Ty.coalesce
  grind

/-- Arithmetic is on numbers. An equality takes any two values of one type, and `null` with all of
them; the other operators take two values of one type that has an order. -/
theorem binaryType_eq_ok_iff {op : Operator} {a b ty : Ty} : binaryType op a b = .ok ty ↔
    (op.isArithmetic = true ∧ a = .number ∧ b = .number ∧ ty = .number) ∨
      (op.isArithmetic = false ∧ op.isEquality = false ∧ a = b ∧ a.isOrderable = true ∧
        ty = .boolean) ∨
      (op.isArithmetic = false ∧ op.isEquality = true ∧ a.isFunction = false ∧
        b.isFunction = false ∧ (a = b ∨ a = .any ∨ b = .any) ∧ ty = .boolean) := by
  constructor
  · intro h
    unfold binaryType at h
    split at h
    · next ha =>
      split at h
      · next hab => exact Or.inl ⟨ha, hab.1, hab.2, (Except.ok.inj h).symm⟩
      · cases h
    · next ha =>
      right
      rw [Bool.not_eq_true] at ha
      split at h
      · cases h
      · next hf =>
        rw [Bool.or_eq_true, not_or, Bool.not_eq_true, Bool.not_eq_true] at hf
        split at h
        · cases h
        · next hany =>
          split at h
          · cases h
          · next found hfound =>
            split at h
            · next hop =>
              cases h
              have hcases := coalesce_eq_some_iff.mp hfound
              by_cases heq : op.isEquality = true
              · exact Or.inr ⟨ha, heq, hf.1, hf.2, by grind, rfl⟩
              · rw [Bool.not_eq_true] at heq
                simp only [heq, Bool.not_false, and_true, not_or] at hany
                simp only [heq, Bool.false_or] at hop
                rcases hcases with ⟨h, _⟩ | ⟨h, _⟩ | ⟨rfl, rfl⟩
                · exact absurd h hany.1
                · exact absurd h hany.2
                · exact Or.inl ⟨ha, heq, rfl, hop, rfl⟩
            · cases h
  · rintro (⟨ha, rfl, rfl, rfl⟩ | ⟨ha, heq, rfl, ho, rfl⟩ | ⟨ha, heq, hfa, hfb, hab, rfl⟩)
    · simp [binaryType, ha]
    · cases a <;> simp_all [binaryType, Ty.isOrderable, Ty.isFunction, Ty.coalesce]
    · obtain ⟨found, hfound⟩ : ∃ found, a.coalesce b = some found := by
        rcases hab with h | h | h
        · exact ⟨a, coalesce_eq_some_iff.mpr (Or.inr (Or.inr ⟨h, rfl⟩))⟩
        · exact ⟨b, coalesce_eq_some_iff.mpr (Or.inl ⟨h, rfl⟩)⟩
        · exact ⟨a, coalesce_eq_some_iff.mpr (Or.inr (Or.inl ⟨h, rfl⟩))⟩
      simp [binaryType, ha, heq, hfa, hfb, hfound]

theorem binaryType_eq_ok {op : Operator} {a b ty : Ty} (h : binaryType op a b = .ok ty) :
    a.isFunction = false ∧ b.isFunction = false ∧ (ty = .number ∨ ty = .boolean) := by
  rcases binaryType_eq_ok_iff.mp h with
    ⟨_, rfl, rfl, rfl⟩ | ⟨_, _, rfl, ho, rfl⟩ | ⟨_, _, hfa, hfb, _, rfl⟩
  · exact ⟨rfl, rfl, Or.inl rfl⟩
  · have hf : a.isFunction = false := by cases a <;> simp_all [Ty.isOrderable, Ty.isFunction]
    exact ⟨hf, hf, Or.inr rfl⟩
  · exact ⟨hfa, hfb, Or.inr rfl⟩

theorem coalesce_table {ty : Ty} {name : String} (h : (ty.coalesce (.table name)).isNone = false) :
    ty = .any ∨ ty = .table name := by
  obtain ⟨found, hfound⟩ := Option.isSome_iff_exists.mp (by simpa using h)
  rcases coalesce_eq_some_iff.mp hfound with ⟨h, _⟩ | ⟨h, _⟩ | ⟨h, _⟩
  · exact Or.inl h
  · cases h
  · exact Or.inr h

theorem checkArguments_eq_ok {callee : Reference} {arguments : List (Except TypeError Ty)}
    {parameters : List Ty} (h : checkArguments callee arguments parameters = .ok ()) :
    ∀ p ∈ arguments.zip parameters, ∃ ty, p.1 = .ok ty ∧ (ty.coalesce p.2).isNone = false := by
  fun_induction checkArguments callee arguments parameters with
  | case1 argument arguments parameter parameters ih =>
    obtain ⟨ty, hty, hrest⟩ := ok_of_bind h
    split at hrest
    · cases hrest
    · next hn =>
      exact List.forall_mem_cons.mpr ⟨⟨ty, hty, Bool.eq_false_iff.mpr hn⟩, ih hrest⟩
  | case2 arguments parameters hne =>
    match arguments, parameters with
    | [], _ | _ :: _, [] => simp
    | a :: as, p :: ps => exact absurd rfl (hne a as p ps rfl)

theorem callType_eq_ok {callee : Reference} {arguments : List (Except TypeError Ty)} {ty : Ty}
    (h : callType schema callee arguments = .ok ty) :
    ∃ parameters, referenceType schema callee = .ok (.function ty parameters) ∧
      arguments.length = parameters.length ∧
      ∀ p ∈ arguments.zip parameters, ∃ ty, p.1 = .ok ty ∧ (ty.coalesce p.2).isNone = false := by
  obtain ⟨found, hf, h⟩ := ok_of_bind h
  split at h
  · next returns parameters =>
    split at h
    · next hlen =>
      obtain ⟨_, hargs, h⟩ := ok_of_bind h
      cases h
      exact ⟨parameters, hf, hlen, checkArguments_eq_ok hargs⟩
    · cases h
  · cases h

theorem checkArguments_of_forall {callee : Reference} {arguments : List (Except TypeError Ty)}
    {parameters : List Ty} (h : ∀ p ∈ arguments.zip parameters, ∃ ty, p.1 = .ok ty ∧
      (ty.coalesce p.2).isNone = false) : checkArguments callee arguments parameters = .ok () := by
  fun_induction checkArguments callee arguments parameters with
  | case1 argument arguments parameter parameters ih =>
    obtain ⟨⟨ty, hty, hfit⟩, hrest⟩ := List.forall_mem_cons.mp h
    simp only at hty hfit
    refine ok_bind hty ?_
    simp only [hfit]
    exact ih hrest
  | case2 => rfl

theorem callType_of_function {callee : Reference} {arguments : List (Except TypeError Ty)}
    {returns : Ty} {parameters : List Ty}
    (hf : referenceType schema callee = .ok (.function returns parameters))
    (hlen : arguments.length = parameters.length)
    (h : ∀ p ∈ arguments.zip parameters, ∃ ty, p.1 = .ok ty ∧ (ty.coalesce p.2).isNone = false) :
    callType schema callee arguments = .ok returns := by
  refine ok_bind hf ?_
  simp only [hlen, if_true]
  exact ok_bind (checkArguments_of_forall h) rfl

/-- A callee is a reducer, which takes two arguments, or a spec, which takes one. -/
theorem function_of_referenceType {callee : Reference} {returns : Ty} {parameters : List Ty}
    (h : referenceType schema callee = .ok (.function returns parameters)) : returns = .boolean ∧
      ((∃ reducer, callee.reducer? = some reducer ∧ parameters = [.any, .any]) ∨
        ∃ s, schema.callee? callee = some s ∧ parameters = [.table s.table]) := by
  obtain ⟨_, name, hname, hf⟩ := functionType?_of_referenceType h rfl
  have hcallee := Reference.eq_of_single? hname
  rcases functionType?_eq_some hf with ⟨reducer, hr, hty⟩ | ⟨s, _, hs, hty⟩
  · cases hty
    exact ⟨rfl, Or.inl ⟨reducer, (Reference.reducer?_of_single? hname).trans hr, rfl⟩⟩
  · cases hty
    exact ⟨rfl, Or.inr ⟨s, by rw [hcallee]; exact hs, rfl⟩⟩

end Typing

namespace Expr

open Typing

variable {schema : Schema} {label : NodeId} {ty : Ty}

theorem typeOf_operands {op : Operator} {l r : Expr NodeId}
    (h : (binary label op l r).typeOf schema = .ok ty) : ∃ a b, l.typeOf schema = .ok a ∧
      r.typeOf schema = .ok b ∧ binaryType op a b = .ok ty := by
  obtain ⟨a, ha, h⟩ := ok_of_bind h
  obtain ⟨b, hb, h⟩ := ok_of_bind h
  exact ⟨a, b, ha, hb, h⟩

theorem typeOf_binary {op : Operator} {l r : Expr NodeId}
    (h : (binary label op l r).typeOf schema = .ok ty) : ∃ a b, l.typeOf schema = .ok a ∧
      r.typeOf schema = .ok b ∧ a.isFunction = false ∧ b.isFunction = false ∧
      (ty = .number ∨ ty = .boolean) := by
  obtain ⟨a, b, ha, hb, h⟩ := typeOf_operands h
  obtain ⟨hfa, hfb, hty⟩ := binaryType_eq_ok h
  exact ⟨a, b, ha, hb, hfa, hfb, hty⟩

theorem both_boolean {x y : Except TypeError Ty} {error : Ty → Ty → TypeError}
    (h : (x >>= fun a => y >>= fun b =>
      if a = .boolean ∧ b = .boolean then .ok .boolean else .error (error a b)) = .ok ty) :
    x = .ok .boolean ∧ y = .ok .boolean ∧ ty = .boolean := by
  obtain ⟨a, ha, hrest⟩ := ok_of_bind h
  obtain ⟨b, hb, hty⟩ := ok_of_bind hrest
  split at hty
  · next hab =>
    obtain ⟨rfl, rfl⟩ := hab
    exact ⟨ha, hb, (Except.ok.inj hty).symm⟩
  · cases hty

theorem typeOf_conjunction {l r : Expr NodeId}
    (h : (conjunction label l r).typeOf schema = .ok ty) :
    l.typeOf schema = .ok .boolean ∧ r.typeOf schema = .ok .boolean ∧ ty = .boolean :=
  @both_boolean _ _ _ .incompatibleConjuncts h

theorem typeOf_disjunction {l r : Expr NodeId}
    (h : (disjunction label l r).typeOf schema = .ok ty) :
    l.typeOf schema = .ok .boolean ∧ r.typeOf schema = .ok .boolean ∧ ty = .boolean :=
  @both_boolean _ _ _ .incompatibleDisjuncts h

theorem typeOf_negation {c : Expr NodeId} (h : (negation label c).typeOf schema = .ok ty) :
    c.typeOf schema = .ok .boolean ∧ ty = .boolean := by
  obtain ⟨a, ha, h⟩ := ok_of_bind h
  simp only [Typing.visit] at h
  split at h
  · next hc =>
    subst hc
    exact ⟨ha, (Except.ok.inj h).symm⟩
  · cases h

theorem typeOf_call_eq (schema : Schema) (label : NodeId) (callee : Reference)
    (arguments : List (Expr NodeId)) : (call label callee arguments).typeOf schema =
      callType schema callee (arguments.map (typeOf schema)) := by
  simp only [typeOf, postorder, Typing.visit, postorderAll_eq_map, List.map_map]
  rfl

/-- A typed call is of a reducer, with a child and a predicate, or of a spec, with `null` or a row
of its table. -/
theorem typeOf_call {callee : Reference} {arguments : List (Expr NodeId)}
    (h : (call label callee arguments).typeOf schema = .ok ty) : ty = .boolean ∧
      ((∃ reducer child predicate a b, callee.reducer? = some reducer ∧
          arguments = [child, predicate] ∧ child.typeOf schema = .ok a ∧
          predicate.typeOf schema = .ok b) ∨
        ∃ s argument, schema.callee? callee = some s ∧ arguments = [argument] ∧
          (argument.typeOf schema = .ok .any ∨ argument.typeOf schema = .ok (.table s.table))) := by
  rw [typeOf_call_eq] at h
  obtain ⟨parameters, hf, hlen, hargs⟩ := callType_eq_ok h
  obtain ⟨rfl, ⟨reducer, hr, rfl⟩ | ⟨s, hs, rfl⟩⟩ := function_of_referenceType hf
  · match arguments with
    | [child, predicate] =>
      obtain ⟨⟨a, ha, _⟩, hb⟩ := List.forall_mem_cons.mp hargs
      obtain ⟨b, hb, _⟩ := List.forall_mem_singleton.mp hb
      exact ⟨rfl, Or.inl ⟨reducer, child, predicate, a, b, hr, rfl, ha, hb⟩⟩
  · match arguments with
    | [argument] =>
      obtain ⟨a, ha, hfit⟩ := List.forall_mem_singleton.mp hargs
      refine ⟨rfl, Or.inr ⟨s, argument, hs, rfl, ?_⟩⟩
      rcases coalesce_table hfit with rfl | rfl
      · exact Or.inl ha
      · exact Or.inr ha

theorem typeOf_compound {e : Expr NodeId} (h : e.typeOf schema = .ok ty)
    (hn : ∀ label, e ≠ .null label) (hr : ∀ label path, e ≠ .reference label path) :
    ty ∈ [.boolean, .number, .string] := by
  cases e with
  | null label => exact absurd rfl (hn label)
  | reference label path => exact absurd rfl (hr label path)
  | boolean | number | string => cases h; simp
  | binary =>
    obtain ⟨_, _, _, _, _, _, rfl | rfl⟩ := typeOf_binary h <;> simp
  | conjunction => rw [(typeOf_conjunction h).2.2]; simp
  | disjunction => rw [(typeOf_disjunction h).2.2]; simp
  | negation => rw [(typeOf_negation h).2]; simp
  | call => rw [(typeOf_call h).1]; simp

theorem eq_null_of_typeOf {e : Expr NodeId} (h : e.typeOf schema = .ok .any) :
    ∃ label, e = .null label := by
  cases e with
  | null label => exact ⟨label, rfl⟩
  | reference label path =>
    obtain ⟨_, _, hmember⟩ := memberType_of_referenceType h rfl
    exact absurd rfl (memberType_isValue hmember).1
  | _ => exact absurd (typeOf_compound h (by simp) (by simp)) (by simp)

theorem eq_reference_of_typeOf {e : Expr NodeId} {table : String}
    (h : e.typeOf schema = .ok (.table table)) : ∃ label path, e = .reference label path ∧
      referenceType schema path = .ok (.table table) := by
  cases e with
  | null label => cases h
  | reference label path => exact ⟨label, path, rfl, h⟩
  | _ => exact absurd (typeOf_compound h (by simp) (by simp)) (by simp)

theorem eq_reference_of_isFunction {e : Expr NodeId} (h : e.typeOf schema = .ok ty)
    (hf : ty.isFunction = true) : ∃ label path, e = .reference label path ∧
      referenceType schema path = .ok ty := by
  cases e with
  | null label => cases h; cases hf
  | reference label path => exact ⟨label, path, rfl, h⟩
  | _ =>
    have hty := typeOf_compound h (by simp) (by simp)
    simp only [List.mem_cons, List.not_mem_nil, or_false] at hty
    rcases hty with rfl | rfl | rfl <;> cases hf

theorem visit_of_preorder {ι ε α : Type} {visit : α → Expr ι → Except ε α} {e : Expr ι} {acc a : α}
    (h : e.preorder visit acc = .ok a) : ∀ n ∈ e.nodes, ∃ acc a, visit acc n = .ok a := by
  induction e using Expr.induction generalizing acc a with
  | binary label op left right hl hr | conjunction label left right hl hr
  | disjunction label left right hl hr =>
    obtain ⟨inner, hself, h⟩ := ok_of_bind h
    obtain ⟨_, hleft, h⟩ := ok_of_bind h
    obtain ⟨_, hright, _⟩ := ok_of_bind h
    refine List.forall_mem_cons.mpr ⟨⟨acc, inner, hself⟩, ?_⟩
    exact List.forall_mem_append.mpr ⟨hl hleft, hr hright⟩
  | negation label child hc =>
    obtain ⟨inner, hself, h⟩ := ok_of_bind h
    obtain ⟨_, hchild, _⟩ := ok_of_bind h
    exact List.forall_mem_cons.mpr ⟨⟨acc, inner, hself⟩, hc hchild⟩
  | call label callee arguments ih =>
    obtain ⟨inner, hself, hrest⟩ := ok_of_bind h
    obtain ⟨_, hall, _⟩ := ok_of_bind hrest
    refine List.forall_mem_cons.mpr ⟨⟨acc, inner, hself⟩, ?_⟩
    clear h hself hrest
    induction arguments with
    | nil => simp [nodesAll]
    | cons e es ihes =>
      obtain ⟨_, he, hes⟩ := ok_of_bind hall
      obtain ⟨ihe, ihrest⟩ := List.forall_mem_cons.mp ih
      exact List.forall_mem_append.mpr ⟨ihe he, ihes ihrest hes⟩
  | _ => exact List.forall_mem_singleton.mpr ⟨acc, a, h⟩

/-- The first argument of a reducer is a path to children. -/
theorem childPath?_of_checkScope {e : Expr NodeId} {root : String}
    (h : e.checkScope schema root = .ok ()) {callee : Reference} {arguments : List (Expr NodeId)}
    (hn : .call label callee arguments ∈ e.nodes) {reducer : Reducer}
    (hr : callee.reducer? = some reducer) :
    ∃ child path, arguments.head? = some child ∧ child.childPath? = some path := by
  obtain ⟨_, hp, _⟩ := ok_of_bind h
  obtain ⟨tables, found, hv⟩ := visit_of_preorder hp _ hn
  obtain ⟨name, hname, hred⟩ := Option.bind_eq_some_iff.mp hr
  simp only [Scope.visit, Scope.visitCall, hname, hred, Option.isSome_some, if_true] at hv
  split at hv
  · next path hpath =>
    obtain ⟨child, hhead, hchild⟩ := Option.bind_eq_some_iff.mp hpath
    exact ⟨child, path, hhead, hchild⟩
  · cases hv

end Expr

end RowSpec
