import RowSpec.Proofs.Operations
import RowSpec.Proofs.Requests

/-! From one schema to another with the same tables. What one of them types, has in scope or
compiles, the other does in the same way, if it knows the specs that this comes to. So a spec that
is added changes nothing for what was there before it, and a source comes to the same statement by
itself and as a spec. -/
namespace RowSpec

namespace Expr

variable {ι : Type}

def loneNames (e : Expr ι) : List String := (e.references ++ e.callees).filterMap Reference.single?

theorem mem_loneNames_reference {e : Expr ι} {label : ι} {path : Reference} {name : String}
    (h : .reference label path ∈ e.nodes) (hname : path.single? = some name) :
    name ∈ e.loneNames :=
  List.mem_filterMap.mpr ⟨path, List.mem_append_left _ (mem_references.mpr ⟨label, h⟩), hname⟩

theorem mem_loneNames_callee {e : Expr ι} {label : ι} {callee : Reference}
    {arguments : List (Expr ι)} {name : String} (h : .call label callee arguments ∈ e.nodes)
    (hname : callee.single? = some name) : name ∈ e.loneNames :=
  List.mem_filterMap.mpr
    ⟨callee, List.mem_append_right _ (mem_callees.mpr ⟨label, arguments, h⟩), hname⟩

theorem loneNames_subset {e a : Expr ι} (h : ∀ n ∈ a.nodes, n ∈ e.nodes) :
    ∀ name ∈ a.loneNames, name ∈ e.loneNames := by
  intro name hname
  obtain ⟨path, hpath, hsingle⟩ := List.mem_filterMap.mp hname
  rcases List.mem_append.mp hpath with hpath | hpath
  · obtain ⟨label, hn⟩ := mem_references.mp hpath
    exact mem_loneNames_reference (h _ hn) hsingle
  · obtain ⟨label, arguments, hn⟩ := mem_callees.mp hpath
    exact mem_loneNames_callee (h _ hn) hsingle

end Expr

/-- The second schema has the tables of the first, and knows each of the names as a spec that the
first knows as one. -/
structure Schema.SharesWith (s t : Schema) (names : List String) : Prop where
  tables : t.tables = s.tables
  specs : ∀ name ∈ names, ∀ spec, s.spec? name = some spec → t.spec? name = some spec

variable {s t : Schema}

namespace Typing

theorem referenceType_shared {names : List String} (h : s.SharesWith t names) {path : Reference}
    (hpath : ∀ name, path.single? = some name → name ∈ names) {ty : Ty}
    (hty : referenceType s path = .ok ty) : referenceType t path = .ok ty := by
  rcases referenceType_eq_ok hty with ⟨table, htable, hmember⟩ | ⟨htable, name, hname, hfun⟩
  · simp only [referenceType, Schema.table?_congr h.tables, htable, memberType_congr h.tables,
      hmember]
  · have hfun' : functionType? t name = some ty := by
      unfold functionType? at hfun ⊢
      split at hfun
      · next hred => rw [if_pos hred]; exact hfun
      · next hred =>
        rw [if_neg hred]
        obtain ⟨spec, hspec, hty⟩ := Option.map_eq_some_iff.mp hfun
        rw [h.specs name (hpath name hname) spec hspec]
        exact congrArg some hty
    simp only [referenceType, Schema.table?_congr h.tables, htable, hname, Option.bind_some, hfun']

end Typing

theorem Schema.SharesWith.of_subset {names names' : List String} (h : s.SharesWith t names)
    (hsub : ∀ name ∈ names', name ∈ names) : s.SharesWith t names' :=
  ⟨h.tables, fun name hname => h.specs name (hsub name hname)⟩

theorem Schema.SharesWith.below {e a : Expr NodeId} (h : s.SharesWith t e.loneNames)
    (hsub : ∀ n ∈ a.nodes, n ∈ e.nodes) : s.SharesWith t a.loneNames :=
  h.of_subset (Expr.loneNames_subset hsub)

namespace Expr

open Typing

theorem typeOf_shared {e : Expr NodeId} (h : s.SharesWith t e.loneNames) {ty : Ty}
    (hty : e.typeOf s = .ok ty) : e.typeOf t = .ok ty := by
  induction e using induction generalizing ty with
  | null | boolean | number | string => exact hty
  | reference label path =>
    exact referenceType_shared h (fun name => mem_loneNames_reference (self_mem_nodes _)) hty
  | binary label op left right hl hr | conjunction label left right hl hr
  | disjunction label left right hl hr =>
    obtain ⟨a, ha, hrest⟩ := ok_of_bind hty
    obtain ⟨b, hb, hvisit⟩ := ok_of_bind hrest
    have hleft := hl (h.below (by simp +contextual [nodes])) ha
    have hright := hr (h.below (by simp +contextual [nodes])) hb
    exact ok_bind hleft (ok_bind hright hvisit)
  | negation label child hc =>
    obtain ⟨a, ha, hvisit⟩ := ok_of_bind hty
    have hchild := hc (h.below (by simp +contextual [nodes])) ha
    exact ok_bind hchild hvisit
  | call label callee arguments ih =>
    rw [typeOf_call_eq] at hty ⊢
    obtain ⟨parameters, hf, hlen, hargs⟩ := callType_eq_ok hty
    have hf' := referenceType_shared h (fun name => mem_loneNames_callee (self_mem_nodes _)) hf
    rw [List.length_map] at hlen
    have hargs' : ∀ p ∈ (arguments.map (typeOf t)).zip parameters,
        ∃ ty, p.1 = .ok ty ∧ (ty.coalesce p.2).isNone = false := by
      rw [List.zip_map_left] at hargs ⊢
      rw [List.forall_mem_map] at hargs ⊢
      intro p hp
      obtain ⟨a, ha, hfit⟩ := hargs p hp
      have hmem := (List.of_mem_zip (a := p.1) (b := p.2) hp).1
      exact ⟨a, ih p.1 hmem (h.below (mem_nodes_argument hmem)) ha, hfit⟩
    exact callType_of_function hf' (by rw [List.length_map, hlen]) hargs'

theorem preorderAll_of_forall {ι ε α : Type} {visit visit' : α → Expr ι → Except ε α}
    {es : List (Expr ι)} (h : ∀ e ∈ es, ∀ acc a, e.preorder visit acc = .ok a →
      e.preorder visit' acc = .ok a) {acc : α} (hall : preorderAll visit acc es = .ok ()) :
    preorderAll visit' acc es = .ok () := by
  induction es generalizing acc with
  | nil => exact hall
  | cons e es ih =>
    obtain ⟨he, hes⟩ := List.forall_mem_cons.mp h
    obtain ⟨x, hfirst, hrest⟩ := ok_of_bind hall
    exact ok_bind (he acc x hfirst) (ih hes hrest)

theorem preorder_of_visit {ι ε α : Type} {visit visit' : α → Expr ι → Except ε α} {e : Expr ι}
    (hvisit : ∀ n ∈ e.nodes, ∀ acc out, visit acc n = .ok out → visit' acc n = .ok out) {acc a : α}
    (h : e.preorder visit acc = .ok a) : e.preorder visit' acc = .ok a := by
  induction e using Expr.induction generalizing acc a with
  | null | boolean | number | string | reference => exact hvisit _ (self_mem_nodes _) _ _ h
  | binary label op left right hl hr | conjunction label left right hl hr
  | disjunction label left right hl hr =>
    obtain ⟨inner, hself, h⟩ := ok_of_bind h
    obtain ⟨x, hleft, h⟩ := ok_of_bind h
    obtain ⟨y, hright, h⟩ := ok_of_bind h
    have hself' := hvisit _ (self_mem_nodes _) _ _ hself
    have hleft' := hl (fun n hn => hvisit n (by simp [nodes, hn])) hleft
    have hright' := hr (fun n hn => hvisit n (by simp [nodes, hn])) hright
    exact ok_bind hself' (ok_bind hleft' (ok_bind hright' h))
  | negation label child hc =>
    obtain ⟨inner, hself, h⟩ := ok_of_bind h
    obtain ⟨x, hchild, h⟩ := ok_of_bind h
    have hself' := hvisit _ (self_mem_nodes _) _ _ hself
    have hchild' := hc (fun n hn => hvisit n (by simp [nodes, hn])) hchild
    exact ok_bind hself' (ok_bind hchild' h)
  | call label callee arguments ih =>
    obtain ⟨inner, hself, h⟩ := ok_of_bind h
    obtain ⟨x, hall, h⟩ := ok_of_bind h
    have hself' := hvisit _ (self_mem_nodes _) _ _ hself
    have hall' : preorderAll visit' inner arguments = .ok () :=
      preorderAll_of_forall (fun a ha acc out =>
        ih a ha fun n hn => hvisit n (mem_nodes_argument ha n hn)) hall
    exact ok_bind hself' (ok_bind hall' h)

end Expr

namespace Scope

theorem isSome_spec?_shared {names : List String} (h : s.SharesWith t names) {name : String}
    (hname : name ∈ names) (hs : (s.spec? name).isSome = true) : (t.spec? name).isSome = true := by
  obtain ⟨spec, hspec⟩ := Option.isSome_iff_exists.mp hs
  rw [h.specs name hname spec hspec]
  rfl

theorem visitReference_eq_ok_iff {tables out : List String} {path : Reference} :
    visitReference s tables path = .ok out ↔ path.segments ≠ [] ∧
      (path.single?.any s.isCallable = true ∨ path.first ∈ tables) ∧ out = tables := by
  unfold visitReference
  by_cases hne : path.segments = []
  · simp [hne]
  · by_cases hcallable : path.single?.any s.isCallable = true
    · simp [hne, hcallable, eq_comm]
    · by_cases hfirst : path.first ∈ tables
      · simp [hne, hcallable, hfirst, eq_comm]
      · simp [hne, hcallable, hfirst]

theorem visitReference_shared {names : List String} (h : s.SharesWith t names) {path : Reference}
    (hpath : ∀ name, path.single? = some name → name ∈ names) {tables out : List String}
    (hvisit : visitReference s tables path = .ok out) :
    visitReference t tables path = .ok out := by
  obtain ⟨hne, hfound, hout⟩ := visitReference_eq_ok_iff.mp hvisit
  refine visitReference_eq_ok_iff.mpr ⟨hne, hfound.imp_left fun hcallable => ?_, hout⟩
  cases hname : path.single? with
  | none => rw [hname] at hcallable; cases hcallable
  | some name =>
    rw [hname, Option.any_some, Schema.isCallable, Bool.or_eq_true] at hcallable
    rw [Option.any_some, Schema.isCallable, Bool.or_eq_true]
    exact hcallable.imp_right (isSome_spec?_shared h (hpath name hname))

theorem visitCall_shared {names : List String} (h : s.SharesWith t names) {callee : Reference}
    (hcallee : ∀ name, callee.single? = some name → name ∈ names) {arguments : List (Expr NodeId)}
    {tables out : List String} (hvisit : visitCall s tables callee arguments = .ok out) :
    visitCall t tables callee arguments = .ok out := by
  unfold visitCall at hvisit ⊢
  split at hvisit
  · cases hvisit
  · next name hname =>
    by_cases hred : (Reducer.ofName? name).isSome = true
    · rw [if_pos hred] at hvisit ⊢
      exact hvisit
    · rw [if_neg hred] at hvisit ⊢
      split at hvisit
      · next hs => rw [if_pos (isSome_spec?_shared h (hcallee name hname) hs)]; exact hvisit
      · cases hvisit

end Scope

theorem Expr.checkScope_shared {e : Expr NodeId} (h : s.SharesWith t e.loneNames) {root : String}
    (hscope : e.checkScope s root = .ok ()) : e.checkScope t root = .ok () := by
  obtain ⟨out, hp, _⟩ := ok_of_bind hscope
  refine ok_bind (preorder_of_visit (fun n hn acc out hv => ?_) hp) rfl
  cases n with
  | reference label path =>
    exact Scope.visitReference_shared h (fun name => mem_loneNames_reference hn) hv
  | call label callee arguments =>
    exact Scope.visitCall_shared h (fun name => mem_loneNames_callee hn) hv
  | _ => exact hv

namespace Sql

/-- Whatever the first compilation succeeds with, the second does too, and it adds the same. -/
def Redoes {α : Type} (x y : Build α) : Prop :=
  ∀ d a d', x.run d = (.ok a, d') → y.run d = (.ok a, d')

theorem Redoes.refl {α : Type} (x : Build α) : Redoes x x := fun _ _ _ h => h

theorem Redoes.bind {α β : Type} {x y : Build α} {f g : α → Build β} (hx : Redoes x y)
    (hf : ∀ a, Redoes (f a) (g a)) : Redoes (x >>= f) (y >>= g) := by
  intro d b d' h
  obtain ⟨a, d₁, hrun, hrest⟩ := Attempt.run_bind_eq_ok h
  rw [Attempt.run_bind_ok (hx d a d₁ hrun)]
  exact hf a d₁ b d' hrest

theorem resolve_congr (h : t.tables = s.tables) (table : String) (child : Expr NodeId) :
    Reduction.resolve t table child = Reduction.resolve s table child := by
  simp only [Reduction.resolve, Schema.table?_congr h]

theorem redoes_compileReduction (h : t.tables = s.tables) (reducer : Reducer) (id : NodeId)
    (child : Expr NodeId) {p q : Option (Build Term)}
    (hpq : ∀ r : Reduction, Redoes (r.condition p) (r.condition q)) :
    Redoes (compileReduction s reducer id child p) (compileReduction t reducer id child q) := by
  intro d term d' hrun
  obtain ⟨r, condition, nested, hresolve, hc, rfl, rfl⟩ := compileReduction_eq_ok hrun
  have hc' := hpq r _ _ _ hc
  simp only [compileReduction, resolve_congr h, hresolve, hc']

variable {f g : Expr NodeId → Build Term}

theorem redoes_compileReducer (h : t.tables = s.tables) (reducer : Reducer) (id : NodeId)
    {arguments : List (Expr NodeId)} (hfg : ∀ a ∈ arguments, Redoes (f a) (g a)) :
    Redoes (compileReducer s reducer id (arguments.map fun a => (a, f a)))
      (compileReducer t reducer id (arguments.map fun a => (a, g a))) := by
  match arguments with
  | [child] => exact redoes_compileReduction h reducer id child fun r => .refl (r.condition none)
  | [child, predicate] =>
    exact redoes_compileReduction h reducer predicate.label child fun r => hfg predicate (by simp)
  | [] | _ :: _ :: _ :: _ =>
    intro d term d' hrun
    cases hrun

theorem redoes_compileSpec {inline inline' : Inline} {name : String}
    (hspec : ∀ spec, s.spec? name = some spec → t.spec? name = some spec ∧
      ∀ row term nested, inline spec row = (.ok term, nested) →
        inline' spec row = (.ok term, nested))
    {arguments : List (Expr NodeId)} (hfg : ∀ a ∈ arguments, Redoes (f a) (g a)) :
    Redoes (compileSpec s inline name (arguments.map fun a => (a, f a)))
      (compileSpec t inline' name (arguments.map fun a => (a, g a))) := by
  intro d term d' hrun
  obtain ⟨spec, a, argument, found, d₁, row, nested, hs, hargs, ha, hrow, hi, rfl⟩ :=
    compileSpec_eq_ok hrun
  obtain ⟨hs', hinline⟩ := hspec spec hs
  match arguments with
  | [a'] =>
    cases hargs
    have ha' := hfg a (by simp) _ _ _ ha
    simp only [compileSpec, hs', List.map_cons, List.map_nil]
    rw [Attempt.run_bind_ok ha']
    simp only [hrow, hinline row term nested hi]
    rfl

theorem redoes_postorder {inline inline' : Inline} {e : Expr NodeId} (h : t.tables = s.tables)
    (hspec : ∀ spec, e.Calls s spec → t.spec? spec.name = some spec ∧
      ∀ row term nested, inline spec row = (.ok term, nested) →
        inline' spec row = (.ok term, nested)) :
    Redoes (e.postorder (visit s inline)) (e.postorder (visit t inline')) := by
  induction e using Expr.induction with
  | null | boolean | number | string => exact .refl _
  | reference label path =>
    simp only [Expr.postorder, visit, compileReference_congr h]
    exact .refl _
  | binary label op left right hl hr | conjunction label left right hl hr
  | disjunction label left right hl hr =>
    have hleft := hl fun spec hs => hspec spec (hs.of_subset (by simp +contextual [Expr.nodes]))
    have hright := hr fun spec hs => hspec spec (hs.of_subset (by simp +contextual [Expr.nodes]))
    exact hleft.bind fun _ => hright.bind fun _ => .refl _
  | negation label child hc =>
    have hchild := hc fun spec hs => hspec spec (hs.of_subset (by simp +contextual [Expr.nodes]))
    exact hchild.bind fun _ => .refl _
  | call label callee arguments ih =>
    have hargs : ∀ a ∈ arguments,
        Redoes (a.postorder (visit s inline)) (a.postorder (visit t inline')) := fun a ha =>
      ih a ha fun spec hs => hspec spec (hs.of_subset (Expr.mem_nodes_argument ha))
    simp only [Expr.postorder, visit, Expr.postorderAll_eq_map]
    intro d term d' hrun
    unfold compileCall at hrun ⊢
    split at hrun
    · cases hrun
    · next name hname =>
      split at hrun
      · next reducer hred =>
        exact redoes_compileReducer h reducer label hargs d term d' hrun
      · next hred =>
        refine redoes_compileSpec (fun spec hs => ?_) hargs d term d' hrun
        obtain rfl := (Schema.spec?_eq_some hs).2
        exact hspec spec (Expr.calls_of_mem (Expr.self_mem_nodes _)
          (Schema.callee?_eq_some.mpr ⟨hname, hred, hs⟩))

theorem redoes_compileWithin {e : Expr NodeId} (h : t.tables = s.tables) {n : Nat}
    (hreach : ∀ spec, e.Reaches s spec → t.spec? spec.name = some spec) :
    Redoes (compileWithin s n e) (compileWithin t n e) := by
  induction n generalizing e with
  | zero =>
    refine redoes_postorder h fun spec hs => ⟨hreach spec (.direct hs), ?_⟩
    intro row term nested hi
    cases hi
  | succ n ih =>
    refine redoes_postorder h fun spec hs => ⟨hreach spec (.direct hs), ?_⟩
    intro row term nested hi
    exact ih (fun spec' hs' => hreach spec' (.step hs hs')) _ _ _ hi

theorem compile_eq_compileWithin {e : Expr NodeId} {n : Nat} (h : e.NestsWithin s n) :
    compile s e = compileWithin s n e := by
  rcases Nat.le_total n s.specs.length with hle | hle
  · exact (compileWithin_congr h hle).symm
  · exact compileWithin_congr h.specs hle

/-- A schema that knows the specs an expression comes to compiles it to the same. -/
theorem redoes_compile {e : Expr NodeId} (h : t.tables = s.tables)
    (hreach : ∀ spec, e.Reaches s spec → t.spec? spec.name = some spec) :
    Redoes (compile s e) (compile t e) := by
  intro d term d' hrun
  have hrun' := redoes_compileWithin h hreach d term d' hrun
  rw [compile_eq_compileWithin (nestsWithin_of_run_ok hrun')]
  exact hrun'

theorem select_redoes {e : Expr NodeId} (h : Redoes (compile s e) (compile t e)) {table : String}
    {stmt : Statement} (hs : select s table e = .ok stmt) : select t table e = .ok stmt := by
  obtain ⟨condition, d, hrun, rfl⟩ := select_eq_ok hs
  rw [select, h _ _ _ hrun]

end Sql

namespace Schema

theorem Extends.sharesWith (h : s.Extends t) (names : List String) : s.SharesWith t names :=
  ⟨h.tables, fun _ _ _ => h.spec?⟩

theorem Extends.redoes_compile (h : s.Extends t) (e : Expr NodeId) :
    Sql.Redoes (Sql.compile s e) (Sql.compile t e) :=
  Sql.redoes_compile h.tables fun _ hspec => h.spec? hspec.spec?

theorem Extends.check_spec (h : s.Extends t) {spec : Spec} (hs : spec.check s = .ok ()) :
    spec.check t = .ok () := by
  obtain ⟨hty, hscope⟩ := check_spec_eq_ok_iff.mp hs
  exact check_spec_eq_ok_iff.mpr
    ⟨Expr.typeOf_shared (h.sharesWith _) hty, Expr.checkScope_shared (h.sharesWith _) hscope⟩

theorem Extends.statement (h : s.Extends t) {spec : Spec} {stmt : Sql.Statement}
    (hs : spec.statement s = .ok stmt) : spec.statement t = .ok stmt :=
  mapError_ok (Sql.select_redoes (h.redoes_compile spec.body) (ok_of_mapError hs))

/-- Registering a spec takes nothing away: what could be typed, was in scope or compiled before is
so behind it, in the same way. So specs that pass their check and have a statement keep both,
whatever is asked of the schema later on. -/
theorem addSpec_conservative (s : Schema) :
    (∀ name table source, (s.addSpec name table source).1 = .ok () →
      let t := (s.addSpec name table source).2
      (∃ body, t.specs = s.specs ++ [⟨name, table, source, body⟩]) ∧ ∀ e : Expr NodeId,
        (∀ ty, e.typeOf s = .ok ty → e.typeOf t = .ok ty) ∧
        (∀ root, e.checkScope s root = .ok () → e.checkScope t root = .ok ()) ∧
        ∀ d term d', (Sql.compile s e).run d = (.ok term, d') →
          (Sql.compile t e).run d = (.ok term, d')) ∧
    ∀ operations, ∀ spec ∈ s.specs, spec.check s = .ok () →
      let t := s.performAll operations
      spec ∈ t.specs ∧ spec.check t = .ok () ∧
        ∀ stmt, spec.statement s = .ok stmt → spec.statement t = .ok stmt := by
  constructor
  · intro name table source h
    have hextends : s.Extends (s.addSpec name table source).2 :=
      extends_perform s (.addSpec name table source)
    obtain ⟨_, _, body, c, _, _, hspecs⟩ := addSpec_eq_ok h
    refine ⟨⟨body, hspecs⟩, fun e => ⟨fun ty => ?_, fun root => ?_, ?_⟩⟩
    · exact Expr.typeOf_shared (hextends.sharesWith _)
    · exact Expr.checkScope_shared (hextends.sharesWith _)
    · exact hextends.redoes_compile e
  · intro operations spec hs hcheck
    have hextends := extends_performAll s operations
    exact ⟨hextends.specs.subset hs, hextends.check_spec hcheck, fun stmt => hextends.statement⟩

/-- Specs that call "Calm" and are called in turn leave it as it is. -/
theorem addSpec_conservative_office : ∃ spec ∈ office.specs, ∃ stmt term d,
    spec.name = "Calm" ∧ spec.check office = .ok () ∧ spec.statement office = .ok stmt ∧
    (Sql.compile office spec.body).run (.ofRow "User" "Account.Owner") = (.ok term, d) ∧
    (office.addSpec "Idle" "Account" "Calm(Account.Owner)").1 = .ok () ∧
    let t := (office.addSpec "Idle" "Account" "Calm(Account.Owner)").2
    spec.body.typeOf t = .ok .boolean ∧ spec.body.checkScope t "User" = .ok () ∧
    (Sql.compile t spec.body).run (.ofRow "User" "Account.Owner") = (.ok term, d) ∧
    let u := office.performAll [.addSpec "Idle" "Account" "Calm(Account.Owner)",
      .addSpec "Calm" "User" "null", .addSpec "Left" "User" "all(Account, Idle(Account))"]
    u.specs.map Spec.name = ["Busy", "Calm", "Idle", "Left"] ∧ spec ∈ u.specs ∧
      spec.check u = .ok () ∧ spec.statement u = .ok stmt := by
  obtain ⟨hadd, hkept⟩ := addSpec_conservative office
  obtain ⟨spec, hmem, hname⟩ : ∃ spec ∈ office.specs, spec.name = "Calm" := by decide +kernel
  have hspecs : ∀ spec ∈ office.specs, spec.table = "User" ∧ spec.check office = .ok () ∧
      (spec.statement office).toOption.any (fun _ => true) = true ∧
      ((Sql.compile office spec.body).run (.ofRow "User" "Account.Owner")).1.toOption.any
        (fun _ => true) = true := by decide +kernel
  obtain ⟨htable, hcheck, hstatement, hcompile⟩ := hspecs spec hmem
  have hnew : (office.addSpec "Idle" "Account" "Calm(Account.Owner)").1 = .ok () := by
    decide +kernel
  obtain ⟨stmt, hstmt, _⟩ := ok_of_any hstatement
  obtain ⟨term, hterm, _⟩ := ok_of_any hcompile
  obtain ⟨hty, hscope⟩ := check_spec_eq_ok_iff.mp hcheck
  rw [htable] at hscope
  obtain ⟨_, hexpr⟩ := hadd _ _ _ hnew
  obtain ⟨htyped, hscoped, hcompiled⟩ := hexpr spec.body
  obtain ⟨hmem', hcheck', hstmt'⟩ := hkept [.addSpec "Idle" "Account" "Calm(Account.Owner)",
    .addSpec "Calm" "User" "null", .addSpec "Left" "User" "all(Account, Idle(Account))"] spec hmem
    hcheck
  exact ⟨spec, hmem, stmt, term, _, hname, hcheck, hstmt, Prod.ext hterm rfl, hnew,
    htyped _ hty, hscoped _ hscope, hcompiled _ _ _ (Prod.ext hterm rfl), by decide +kernel, hmem',
    hcheck', hstmt' stmt hstmt⟩

/-! Back to the schema before a spec was registered. -/

variable {name : String} {new : Spec}

theorem spec?_of_append (ht : t.specs = s.specs ++ [new]) (hname : name ≠ new.name)
    {spec : Spec} (h : t.spec? name = some spec) : s.spec? name = some spec := by
  rw [t.indexed.spec?, ht, List.find?_append] at h
  rw [s.indexed.spec?]
  simpa [hname.symm] using h

theorem spec?_append_self (ht : t.specs = s.specs ++ [new])
    (hname : s.spec? new.name = none) : t.spec? new.name = some new := by
  rw [s.indexed.spec?] at hname
  rw [t.indexed.spec?, ht, List.find?_append, hname]
  simp

theorem sharesWith_of_append (htables : t.tables = s.tables) (ht : t.specs = s.specs ++ [new])
    {names : List String} (hname : new.name ∉ names) : t.SharesWith s names :=
  ⟨htables.symm, fun _ hmem _ => spec?_of_append ht (ne_of_mem_of_not_mem hmem hname)⟩

/-- A body that compiles does not come to its own spec, so it compiles without it. -/
theorem select_of_append (htables : t.tables = s.tables) (ht : t.specs = s.specs ++ [new])
    (hname : s.spec? new.name = none) {table : String} {stmt : Sql.Statement}
    (h : Sql.select t table new.body = .ok stmt) : Sql.select s table new.body = .ok stmt := by
  have hreach : ∀ spec, new.body.Reaches t spec → s.spec? spec.name = some spec := by
    intro spec hr
    refine spec?_of_append ht (fun heq => ?_) hr.spec?
    have hself : spec = new := by
      have hspec := hr.spec?
      rw [heq, spec?_append_self ht hname] at hspec
      exact (Option.some.inj hspec).symm
    obtain ⟨_, _, hrun, _⟩ := Sql.select_eq_ok h
    exact (Sql.nestsWithin_of_run_ok hrun).not_reaches (hself ▸ hr)
  exact Sql.select_redoes (Sql.redoes_compile htables.symm hreach) h

/-- A source that compiles may be registered under any new name, and the spec then passes its check
and has the same statement. It is so the other way round too, unless the source uses the name of the
spec by itself. -/
theorem compileSource_agrees_with_spec (hname : s.spec? name = none) (table source : String)
    (stmt : Sql.Statement) :
    let t := (s.addSpec name table source).2
    ((s.compileSource table source).1 = .ok stmt →
      (s.addSpec name table source).1 = .ok () ∧ ∃ spec, t.spec? name = some spec ∧
        spec.table = table ∧ spec.source = source ∧ spec.check t = .ok () ∧
        spec.statement t = .ok stmt) ∧
    ∀ spec, (s.addSpec name table source).1 = .ok () → t.spec? name = some spec →
      spec.check t = .ok () → spec.statement t = .ok stmt → name ∉ spec.body.loneNames →
      (s.compileSource table source).1 = .ok stmt := by
  intro t
  constructor
  · intro h
    obtain ⟨htable, e, c, hp, hty, hscope, hselect⟩ := compileSource_eq_ok_iff.mp h
    obtain ⟨hadd, _, hspecs⟩ := addSpec_of_parseSource hname htable hp
    have hextends : s.Extends t := extends_perform s (.addSpec name table source)
    refine ⟨hadd, ⟨name, table, source, e⟩, ?_, rfl, rfl, ?_, ?_⟩
    · exact spec?_append_self hspecs hname
    · exact hextends.check_spec (check_spec_eq_ok_iff.mpr ⟨hty, hscope⟩)
    · exact hextends.statement (mapError_ok hselect)
  · intro spec hadd hspec hcheck hstmt hlone
    obtain ⟨_, htable, body, c, hp, htables, ht⟩ := addSpec_eq_ok hadd
    obtain rfl : spec = ⟨name, table, source, body⟩ :=
      Option.some.inj (hspec.symm.trans (spec?_append_self ht hname))
    obtain ⟨hty, hscope⟩ := check_spec_eq_ok_iff.mp hcheck
    have hback := sharesWith_of_append htables ht hlone
    refine compileSource_eq_ok_iff.mpr ⟨htable, body, c, hp, ?_, ?_, ?_⟩
    · exact Expr.typeOf_shared hback hty
    · exact Expr.checkScope_shared hback hscope
    · exact select_of_append htables ht hname (ok_of_mapError hstmt)

theorem compileSource_agrees_with_spec_office : ∃ stmt spec, office.spec? "Idle" = none ∧
    let t := (office.addSpec "Idle" "Account" "Calm(Account.Owner) and not Account.Open").2
    (office.addSpec "Idle" "Account" "Calm(Account.Owner) and not Account.Open").1 = .ok () ∧
    t.spec? "Idle" = some spec ∧ spec.check t = .ok () ∧ spec.statement t = .ok stmt ∧
    "Idle" ∉ spec.body.loneNames ∧
    (office.compileSource "Account" "Calm(Account.Owner) and not Account.Open").1 = .ok stmt := by
  have hname : office.spec? "Idle" = none := Option.isNone_iff_eq_none.mp (by decide +kernel)
  have hcompile : (office.compileSource "Account"
      "Calm(Account.Owner) and not Account.Open").1.toOption.any (fun _ => true) = true := by
    decide +kernel
  obtain ⟨stmt, hstmt, _⟩ := ok_of_any hcompile
  obtain ⟨hthere, hback⟩ := compileSource_agrees_with_spec hname "Account"
    "Calm(Account.Owner) and not Account.Open" stmt
  obtain ⟨hadd, spec, hspec, _, _, hcheck, hstatement⟩ := hthere hstmt
  have hlone : ∀ spec ∈ (office.addSpec "Idle" "Account"
      "Calm(Account.Owner) and not Account.Open").2.specs, "Idle" ∉ spec.body.loneNames := by
    decide +kernel
  have hlone := hlone spec (spec?_eq_some hspec).1
  exact ⟨stmt, spec, hname, hadd, hspec, hcheck, hstatement, hlone,
    hback spec hadd hspec hcheck hstatement hlone⟩

-- a spec with the name of a table brings the table into scope where it is not joined
example : (office.compileSource "Account" "Busy(User)").1 =
      .error (.scope (.notJoined "User")) ∧
    let t := (office.addSpec "User" "Account" "Busy(User)").2
    t.check = .ok () ∧ ∀ spec ∈ t.specs, (spec.statement t).toOption.isSome = true := by
  decide +kernel

end Schema

end RowSpec
