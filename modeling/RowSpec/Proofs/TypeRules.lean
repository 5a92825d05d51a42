import RowSpec.Proofs.ReducerCalls
import RowSpec.Proofs.Resolution
import RowSpec.Proofs.Scoping

/-! The rules of typing, and the type checker that goes by them. Every part of a typed expression is
typed by a rule of its own, the arguments of calls included. Only `null` has the type `any`, only a
path over parents has the type of a table, and only the name of a reducer or of a spec is a
function. -/
namespace RowSpec

variable {schema : Schema} {e : Expr NodeId} {ty : Ty}

inductive HasType (schema : Schema) : Expr NodeId → Ty → Prop where
  | null (label : NodeId) : HasType schema (.null label) .any
  | boolean (label : NodeId) (value : Bool) : HasType schema (.boolean label value) .boolean
  | number (label : NodeId) (value : Double) : HasType schema (.number label value) .number
  | string (label : NodeId) (value : String) : HasType schema (.string label value) .string
  | row (label : NodeId) {path : Reference} {u : Table} (h : path.EndsAt schema u) :
    HasType schema (.reference label path) (.table u.name)
  | field (label : NodeId) {path : Reference} {t u : Table} {hops : List String} {field : Field}
    (ht : schema.table? path.first = some t)
    (h : Resolves schema t path.segments.tail hops u (some field)) :
    HasType schema (.reference label path) field.type.ty
  | reducerName (label : NodeId) {name : String} (ht : schema.table? name = none)
    (hr : Reducer.IsName name) :
    HasType schema (.reference label ⟨[name]⟩) (.function .boolean [.any, .any])
  | specName (label : NodeId) {spec : Spec} (ht : schema.table? spec.name = none)
    (hs : schema.callee? ⟨[spec.name]⟩ = some spec) :
    HasType schema (.reference label ⟨[spec.name]⟩) (.function .boolean [.table spec.table])
  | arithmetic (label : NodeId) {op : Operator} {left right : Expr NodeId}
    (hop : op ∈ [.mul, .div, .add, .sub]) (hl : HasType schema left .number)
    (hr : HasType schema right .number) : HasType schema (.binary label op left right) .number
  | order (label : NodeId) {op : Operator} {left right : Expr NodeId} {ty : Ty}
    (hop : op ∈ [.lt, .gt, .le, .ge]) (hty : ty ∈ [.number, .string, .date])
    (hl : HasType schema left ty) (hr : HasType schema right ty) :
    HasType schema (.binary label op left right) .boolean
  | equality (label : NodeId) {op : Operator} {left right : Expr NodeId} {a b : Ty}
    (hop : op ∈ [.eq, .ne]) (hl : HasType schema left a) (hr : HasType schema right b)
    (ha : a.isFunction = false) (hb : b.isFunction = false)
    (hab : a = b ∨ (∃ label', left = .null label') ∨ ∃ label', right = .null label') :
    HasType schema (.binary label op left right) .boolean
  | conjunction (label : NodeId) {left right : Expr NodeId} (hl : HasType schema left .boolean)
    (hr : HasType schema right .boolean) : HasType schema (.conjunction label left right) .boolean
  | disjunction (label : NodeId) {left right : Expr NodeId} (hl : HasType schema left .boolean)
    (hr : HasType schema right .boolean) : HasType schema (.disjunction label left right) .boolean
  | negation (label : NodeId) {child : Expr NodeId} (h : HasType schema child .boolean) :
    HasType schema (.negation label child) .boolean
  | reducer (label : NodeId) {name : String} {child predicate : Expr NodeId} {a b : Ty}
    (ht : schema.table? name = none) (hr : Reducer.IsName name)
    (hc : HasType schema child a) (hp : HasType schema predicate b) :
    HasType schema (.call label ⟨[name]⟩ [child, predicate]) .boolean
  | specNull (label label' : NodeId) {spec : Spec} (ht : schema.table? spec.name = none)
    (hs : schema.callee? ⟨[spec.name]⟩ = some spec) :
    HasType schema (.call label ⟨[spec.name]⟩ [.null label']) .boolean
  | specRow (label label' : NodeId) {spec : Spec} {path : Reference} {u : Table}
    (ht : schema.table? spec.name = none) (hs : schema.callee? ⟨[spec.name]⟩ = some spec)
    (hpath : path.EndsAt schema u) (hu : u.name = spec.table) :
    HasType schema (.call label ⟨[spec.name]⟩ [.reference label' path]) .boolean

theorem Operator.isArithmetic_iff {op : Operator} :
    op.isArithmetic = true ↔ op ∈ [.mul, .div, .add, .sub] := by
  cases op <;> simp [isArithmetic]

theorem Operator.isEquality_iff {op : Operator} : op.isEquality = true ↔ op ∈ [.eq, .ne] := by
  cases op <;> simp [isEquality]

theorem Operator.mem_order_iff {op : Operator} : op ∈ [.lt, .gt, .le, .ge] ↔
    op.isArithmetic = false ∧ op.isEquality = false ∧ op ≠ .and ∧ op ≠ .or := by
  cases op <;> simp [isArithmetic, isEquality]

theorem Ty.isOrderable_iff : ty.isOrderable = true ↔ ty ∈ [.number, .string, .date] := by
  cases ty <;> simp [isOrderable]

namespace Typing

theorem coalesce_any (ty : Ty) : (ty.coalesce .any).isNone = false := by
  rw [coalesce_eq_some_iff.mpr (Or.inr (Or.inl ⟨rfl, rfl⟩))]
  rfl

theorem referenceType_reducer {name : String} (ht : schema.table? name = none)
    (hr : Reducer.IsName name) :
    referenceType schema ⟨[name]⟩ = .ok (.function .boolean [.any, .any]) := by
  have hfirst : schema.table? (Reference.first ⟨[name]⟩) = none := ht
  have hname := Reducer.isSome_ofName?_iff.mpr hr
  simp only [referenceType, hfirst]
  simp [Reference.single?, functionType?, hname]

theorem referenceType_spec {spec : Spec} (ht : schema.table? spec.name = none)
    (hs : schema.callee? ⟨[spec.name]⟩ = some spec) :
    referenceType schema ⟨[spec.name]⟩ = .ok (.function .boolean [.table spec.table]) := by
  have hfirst : schema.table? (Reference.first ⟨[spec.name]⟩) = none := ht
  obtain ⟨_, hred, hspec⟩ := Schema.callee?_eq_some.mp hs
  simp only [referenceType, hfirst]
  simp [Reference.single?, functionType?, hred, hspec]

end Typing

namespace HasType

open Typing

/-- The checker finds what the rules say. -/
theorem typeOf (h : HasType schema e ty) : e.typeOf schema = .ok ty := by
  induction h with
  | null | boolean | number | string => rfl
  | row label h => exact h.referenceType
  | @field label path t u hops field ht h =>
    exact (referenceType_of_table ht).trans (memberType_of_resolves h path)
  | reducerName label ht hr => exact referenceType_reducer ht hr
  | specName label ht hs => exact referenceType_spec ht hs
  | arithmetic label hop hl hr ihl ihr =>
    refine ok_bind ihl (ok_bind ihr (binaryType_eq_ok_iff.mpr ?_))
    exact Or.inl ⟨Operator.isArithmetic_iff.mpr hop, rfl, rfl, rfl⟩
  | order label hop hty hl hr ihl ihr =>
    refine ok_bind ihl (ok_bind ihr (binaryType_eq_ok_iff.mpr ?_))
    obtain ⟨ha, heq, _⟩ := Operator.mem_order_iff.mp hop
    exact Or.inr (Or.inl ⟨ha, heq, rfl, Ty.isOrderable_iff.mpr hty, rfl⟩)
  | @equality label op left right a b hop hl hr ha hb hab ihl ihr =>
    refine ok_bind ihl (ok_bind ihr (binaryType_eq_ok_iff.mpr ?_))
    have heq := Operator.isEquality_iff.mpr hop
    have harith : op.isArithmetic = false := by cases op <;> simp_all [Operator.isArithmetic]
    refine Or.inr (Or.inr ⟨harith, heq, ha, hb, ?_, rfl⟩)
    rcases hab with hab | ⟨_, rfl⟩ | ⟨_, rfl⟩
    · exact Or.inl hab
    · exact Or.inr (Or.inl (Except.ok.inj ihl).symm)
    · exact Or.inr (Or.inr (Except.ok.inj ihr).symm)
  | conjunction label hl hr ihl ihr => exact ok_bind ihl (ok_bind ihr rfl)
  | disjunction label hl hr ihl ihr => exact ok_bind ihl (ok_bind ihr rfl)
  | negation label h ih => exact ok_bind ih rfl
  | @reducer label name child predicate a b ht hr hc hp ihc ihp =>
    rw [Expr.typeOf_call_eq]
    apply callType_of_function (referenceType_reducer ht hr) rfl
    refine List.forall_mem_cons.mpr ⟨⟨a, ihc, coalesce_any a⟩, ?_⟩
    exact List.forall_mem_singleton.mpr ⟨b, ihp, coalesce_any b⟩
  | specNull label label' ht hs =>
    rw [Expr.typeOf_call_eq]
    apply callType_of_function (referenceType_spec ht hs) rfl
    exact List.forall_mem_singleton.mpr ⟨.any, rfl, rfl⟩
  | @specRow label label' spec path u ht hs hpath hu =>
    rw [Expr.typeOf_call_eq]
    apply callType_of_function (referenceType_spec ht hs) rfl
    refine List.forall_mem_singleton.mpr ⟨.table u.name, hpath.referenceType, ?_⟩
    rw [coalesce_eq_some_iff.mpr (Or.inr (Or.inr ⟨congrArg Ty.table hu, rfl⟩))]
    rfl

/-- The parts of a typed expression are typed, by the rules that its own rule rests on. -/
theorem of_mem (h : HasType schema e ty) : ∀ n ∈ e.nodes, ∃ t, HasType schema n t := by
  -- the node itself is a part too, so its own rule is carried along
  have hself := h
  induction h with
  | null | boolean | number | string | row | field | reducerName | specName =>
    exact List.forall_mem_singleton.mpr ⟨_, hself⟩
  | arithmetic label hop hl hr ihl ihr | order label hop hty hl hr ihl ihr
  | equality label hop hl hr ha hb hab ihl ihr | conjunction label hl hr ihl ihr
  | disjunction label hl hr ihl ihr =>
    refine List.forall_mem_cons.mpr ⟨⟨_, hself⟩, ?_⟩
    exact List.forall_mem_append.mpr ⟨ihl hl, ihr hr⟩
  | negation label h ih => exact List.forall_mem_cons.mpr ⟨⟨_, hself⟩, ih h⟩
  | reducer label ht hr hc hp ihc ihp =>
    intro n hn
    rcases Expr.mem_nodes_call.mp hn with rfl | ⟨a, ha, hna⟩
    · exact ⟨_, hself⟩
    · rcases List.mem_pair.mp ha with rfl | rfl
      · exact ihc hc n hna
      · exact ihp hp n hna
  | specNull label label' ht hs =>
    intro n hn
    rcases Expr.mem_nodes_call.mp hn with rfl | ⟨a, ha, hna⟩
    · exact ⟨_, hself⟩
    · obtain rfl := List.mem_singleton.mp ha
      obtain rfl := List.mem_singleton.mp hna
      exact ⟨_, .null label'⟩
  | specRow label label' ht hs hpath hu =>
    intro n hn
    rcases Expr.mem_nodes_call.mp hn with rfl | ⟨a, ha, hna⟩
    · exact ⟨_, hself⟩
    · obtain rfl := List.mem_singleton.mp ha
      obtain rfl := List.mem_singleton.mp hna
      exact ⟨_, .row label' hpath⟩

end HasType

namespace Typing

theorem hasType_of_referenceType {path : Reference} (hpath : path.segments ≠ []) (label : NodeId)
    (h : referenceType schema path = .ok ty) : HasType schema (.reference label path) ty := by
  rcases referenceType_eq_ok h with ⟨t, ht, hmember⟩ | ⟨ht, name, hname, hfun⟩
  · obtain ⟨hops, u, field?, hresolves, rfl⟩ := memberType_eq_ok_iff.mp hmember
    cases field? with
    | none =>
      obtain ⟨htail, hfollow⟩ := hresolves.eq_of_row
      rw [← htail] at hfollow
      exact .row label ⟨hpath, t, ht, hfollow⟩
    | some field => exact .field label ht hresolves
  · obtain rfl := Reference.eq_of_single? hname
    rcases functionType?_eq_some hfun with ⟨reducer, hr, rfl⟩ | ⟨s, rfl, hs, rfl⟩
    · exact .reducerName label ht (Reducer.isSome_ofName?_iff.mp (Option.isSome_of_eq_some hr))
    · exact .specName label ht hs

theorem hasType_of_binaryType {label : NodeId} {op : Operator} {left right : Expr NodeId} {a b : Ty}
    (hop : op ≠ .and ∧ op ≠ .or) (hl : HasType schema left a) (hr : HasType schema right b)
    (h : binaryType op a b = .ok ty) : HasType schema (.binary label op left right) ty := by
  rcases binaryType_eq_ok_iff.mp h with
    ⟨ha, rfl, rfl, rfl⟩ | ⟨ha, heq, rfl, ho, rfl⟩ | ⟨_, heq, hfa, hfb, hab, rfl⟩
  · exact .arithmetic label (Operator.isArithmetic_iff.mp ha) hl hr
  · exact .order label (Operator.mem_order_iff.mpr ⟨ha, heq, hop⟩) (Ty.isOrderable_iff.mp ho) hl hr
  · refine .equality label (Operator.isEquality_iff.mp heq) hl hr hfa hfb ?_
    rcases hab with hab | rfl | rfl
    · exact Or.inl hab
    · exact Or.inr (Or.inl (Expr.eq_null_of_typeOf hl.typeOf))
    · exact Or.inr (Or.inr (Expr.eq_null_of_typeOf hr.typeOf))

/-- The callee of a typed call is a name that no table has. -/
theorem callee_of_typeOf_call {label : NodeId} {callee : Reference} {arguments : List (Expr NodeId)}
    (h : (Expr.call label callee arguments).typeOf schema = .ok ty) :
    ∃ name, callee = ⟨[name]⟩ ∧ schema.table? name = none := by
  rw [Expr.typeOf_call_eq] at h
  obtain ⟨parameters, hf, _⟩ := callType_eq_ok h
  obtain ⟨htable, name, hname, _⟩ := functionType?_of_referenceType hf rfl
  obtain rfl := Reference.eq_of_single? hname
  exact ⟨name, rfl, htable⟩

end Typing

open Typing

/-- What the checker finds is by the rules. -/
theorem hasType_of_typeOf (he : e.WellFormed) (h : e.typeOf schema = .ok ty) :
    HasType schema e ty := by
  induction e using Expr.induction generalizing ty with
  | null label => cases h; exact .null label
  | boolean label value => cases h; exact .boolean label value
  | number label value => cases h; exact .number label value
  | string label value => cases h; exact .string label value
  | reference label path =>
    have hpath : path.WellFormed := he _ (Expr.self_mem_nodes _)
    exact hasType_of_referenceType hpath.lexical.1 label h
  | binary label op left right hl hr =>
    obtain ⟨hnode, hparts⟩ := List.forall_mem_cons.mp he
    obtain ⟨hleft, hright⟩ := List.forall_mem_append.mp hparts
    obtain ⟨a, b, ha, hb, hop⟩ := Expr.typeOf_operands h
    exact hasType_of_binaryType hnode (hl hleft ha) (hr hright hb) hop
  | conjunction label left right hl hr =>
    obtain ⟨_, hparts⟩ := List.forall_mem_cons.mp he
    obtain ⟨hleft, hright⟩ := List.forall_mem_append.mp hparts
    obtain ⟨ha, hb, rfl⟩ := Expr.typeOf_conjunction h
    exact .conjunction label (hl hleft ha) (hr hright hb)
  | disjunction label left right hl hr =>
    obtain ⟨_, hparts⟩ := List.forall_mem_cons.mp he
    obtain ⟨hleft, hright⟩ := List.forall_mem_append.mp hparts
    obtain ⟨ha, hb, rfl⟩ := Expr.typeOf_disjunction h
    exact .disjunction label (hl hleft ha) (hr hright hb)
  | negation label child hc =>
    obtain ⟨_, hchild⟩ := List.forall_mem_cons.mp he
    obtain ⟨ha, rfl⟩ := Expr.typeOf_negation h
    exact .negation label (hc hchild ha)
  | call label callee arguments ih =>
    have hpart : ∀ a ∈ arguments, a.WellFormed :=
      fun a ha n hn => he n (Expr.mem_nodes_argument ha n hn)
    obtain ⟨name, rfl, htable⟩ := callee_of_typeOf_call h
    obtain ⟨rfl, ⟨reducer, child, predicate, a, b, hr, rfl, ha, hb⟩ |
      ⟨s, argument, hs, rfl, harg⟩⟩ := Expr.typeOf_call h
    · have hname : Reducer.IsName name :=
        Reducer.isSome_ofName?_iff.mp (Option.isSome_of_eq_some hr)
      exact .reducer label htable hname (ih child (by simp) (hpart child (by simp)) ha)
        (ih predicate (by simp) (hpart predicate (by simp)) hb)
    · obtain ⟨hname, _⟩ := Schema.callee?_eq_some.mp hs
      cases hname
      rcases harg with harg | harg
      · obtain ⟨label', rfl⟩ := Expr.eq_null_of_typeOf harg
        exact .specNull label label' htable hs
      · obtain ⟨label', path, rfl, hty⟩ := Expr.eq_reference_of_typeOf harg
        have hpath : path.WellFormed := 
          hpart (.reference label' path) (by simp) _ (Expr.self_mem_nodes _)
        obtain ⟨u, hends, hu⟩ := Reference.endsAt_of_referenceType hpath.lexical.1 hty
        exact .specRow label label' htable hs hends hu

/-- The checker accepts an expression that was read from a source exactly if the rules do, and with
the same type. All parts of it are then accepted by the rules as well, and what their types are
tells where they come from. -/
theorem accepted_by_rules {c c' : Counter} {source : String}
    (hp : parseSource c source = (.ok e, c')) (schema : Schema) :
    (∀ ty, e.typeOf schema = .ok ty ↔ HasType schema e ty) ∧
    ∀ ty, e.typeOf schema = .ok ty → ∀ n ∈ e.nodes, ∃ t, n.typeOf schema = .ok t ∧
      HasType schema n t ∧ (t = .any → ∃ label, n = .null label) ∧
      (∀ name, t = .table name → ∃ label path u, n = .reference label path ∧
        path.EndsAt schema u ∧ schema.table? name = some u) ∧
      (t.isFunction = true → ∃ label name, n = .reference label ⟨[name]⟩ ∧
        schema.table? name = none ∧ (Reducer.IsName name ∨ schema.HasSpec name)) := by
  have he := wellFormed_of_parseSource hp
  refine ⟨fun ty => ⟨hasType_of_typeOf he, HasType.typeOf⟩, ?_⟩
  intro ty h n hn
  obtain ⟨t, hrule⟩ := (hasType_of_typeOf he h).of_mem n hn
  have ht := hrule.typeOf
  refine ⟨t, ht, hrule, ?_, ?_, ?_⟩
  · rintro rfl
    exact Expr.eq_null_of_typeOf ht
  · rintro name rfl
    obtain ⟨label, path, rfl, hty⟩ := Expr.eq_reference_of_typeOf ht
    have hpath : path.WellFormed := he _ hn
    obtain ⟨u, hends, rfl⟩ := Reference.endsAt_of_referenceType hpath.lexical.1 hty
    exact ⟨label, path, u, rfl, hends, hends.registered⟩
  · intro hf
    obtain ⟨label, path, rfl, hty⟩ := Expr.eq_reference_of_isFunction ht hf
    obtain ⟨htable, name, hname, hfun⟩ := functionType?_of_referenceType hty hf
    obtain rfl := Reference.eq_of_single? hname
    refine ⟨label, name, rfl, htable, ?_⟩
    rcases functionType?_eq_some hfun with ⟨reducer, hr, _⟩ | ⟨s, rfl, hs, _⟩
    · exact Or.inl (Reducer.isSome_ofName?_iff.mp (Option.isSome_of_eq_some hr))
    · exact Or.inr ⟨s, (Schema.spec?_eq_some (Schema.callee?_eq_some.mp hs).2.2).1, rfl⟩

/-- A spec, a reducer, arithmetic, an order and an equality with `null`, all in one condition. -/
theorem accepted_by_rules_sales : ∃ e c', parseSource sales.counter
      "Busy(Account.Owner) and not (Account.Id * 2 >= 3 or all(Contact, Contact.Id != null))" =
        (.ok e, c') ∧ e.typeOf sales = .ok .boolean ∧ HasType sales e .boolean ∧
      e.nodes.length = 15 ∧ ∀ n ∈ e.nodes, ∃ t, n.typeOf sales = .ok t ∧
        HasType sales n t := by
  have hread : (parseSource sales.counter
      "Busy(Account.Owner) and not (Account.Id * 2 >= 3 or all(Contact, Contact.Id != null))"
        ).1.toOption.any (fun e => e.typeOf sales = .ok .boolean ∧ e.nodes.length = 15) =
      true := by
    decide +kernel
  obtain ⟨e, c', hp, hchecks⟩ := parseSource_of_any hread
  obtain ⟨hty, hcount⟩ := of_decide_eq_true hchecks
  obtain ⟨hrules, hnodes⟩ := accepted_by_rules hp sales
  refine ⟨e, c', hp, hty, (hrules _).mp hty, hcount, ?_⟩
  intro n hn
  obtain ⟨t, ht, hrule, _⟩ := hnodes _ hty n hn
  exact ⟨t, ht, hrule⟩

end RowSpec
