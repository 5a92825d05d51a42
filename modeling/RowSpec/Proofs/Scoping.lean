import RowSpec.Proofs.Extension

/-! Which expressions have all their references in scope, said of each node and the nodes it lies
below. No table is passed down: a reference looks up through the calls around it for a reducer that
brings its table in. The check accepts exactly these expressions. -/
namespace RowSpec

def Reducer.IsName (name : String) : Prop := Text.lower name ∈ ["any", "none", "all"]

theorem Reducer.isSome_ofName?_iff {name : String} :
    (Reducer.ofName? name).isSome = true ↔ Reducer.IsName name := by
  unfold Reducer.ofName? Reducer.IsName
  split
  · next h => simp [h]
  · next h => simp [h]
  · next h => simp [h]
  · next hany hnone hall =>
    refine iff_of_false Bool.false_ne_true fun h => ?_
    simp only [List.mem_cons, List.not_mem_nil, or_false] at h
    rcases h with h | h | h
    · exact hany h
    · exact hnone h
    · exact hall h

theorem Reference.single?_eq_some_iff {path : Reference} {name : String} :
    path.single? = some name ↔ path.segments = [name] := by
  unfold Reference.single?
  split
  · next found h => simp [h]
  · next h =>
    constructor
    · intro hnone
      cases hnone
    · intro hname
      exact absurd hname (h name)

namespace Schema

def HasSpec (schema : Schema) (name : String) : Prop := ∃ spec ∈ schema.specs, spec.name = name

theorem isSome_spec?_iff {schema : Schema} {name : String} :
    (schema.spec? name).isSome = true ↔ schema.HasSpec name := by
  simp [schema.indexed.spec?, HasSpec]

def CallsSpec (schema : Schema) (name : String) : Prop :=
  schema.HasSpec name ∧ ¬ Reducer.IsName name

theorem isCallable_iff {schema : Schema} {name : String} :
    schema.isCallable name = true ↔ Reducer.IsName name ∨ schema.CallsSpec name := by
  rw [isCallable, Bool.or_eq_true, Reducer.isSome_ofName?_iff, isSome_spec?_iff, CallsSpec]
  by_cases hred : Reducer.IsName name
  · simp [hred]
  · simp [hred]

end Schema

namespace Expr

variable {ι : Type}

inductive Occurs : Expr ι → List (Expr ι) → Expr ι → Prop where
  | here (e : Expr ι) : Occurs e [] e
  | inside {e child n : Expr ι} {above : List (Expr ι)} (hc : child ∈ e.children)
    (h : Occurs child above n) : Occurs e (e :: above) n

def Joins (table : String) : Expr ι → Prop
  | .call _ callee (.reference _ path :: _) =>
    (∃ name, callee.segments = [name] ∧ Reducer.IsName name) ∧ path.segments.head? = some table
  | _ => False

theorem Joins.isName {table : String} {label : ι} {callee : Reference} {arguments : List (Expr ι)}
    (h : (call label callee arguments).Joins table) :
    ∃ name, callee.segments = [name] ∧ Reducer.IsName name := by
  unfold Joins at h
  split at h
  · next heq =>
    cases heq
    exact h.1
  · cases h

/-- Whether a node is right where it stands, below the nodes `above`. The `tables` are joined from
the start, and the names in `IsSpec` call specs. -/
def InScope (IsSpec : String → Prop) (tables : List String) (above : List (Expr ι)) :
    Expr ι → Prop
  | .reference _ path => path.segments ≠ [] ∧
    ((∃ name, path.segments = [name] ∧ (Reducer.IsName name ∨ IsSpec name)) ∨
      path.first ∈ tables ∨ ∃ outer ∈ above, outer.Joins path.first)
  | .call _ callee arguments => ∃ name, callee.segments = [name] ∧
    ((Reducer.IsName name ∧ ∃ label path rest, arguments = .reference label path :: rest ∧
        (path.segments.length = 1 ∨ path.segments.length = 2)) ∨
      IsSpec name)
  | _ => True

def WellScoped (IsSpec : String → Prop) (tables : List String) (e : Expr ι) : Prop :=
  ∀ above n, Occurs e above n → InScope IsSpec tables above n

variable {IsSpec : String → Prop} {tables inner : List String} {e n : Expr ι}
  {above : List (Expr ι)}

theorem wellScoped_iff : e.WellScoped IsSpec tables ↔ InScope IsSpec tables [] e ∧
    ∀ child ∈ e.children, ∀ above n, Occurs child above n →
      InScope IsSpec tables (e :: above) n := by
  constructor
  · intro h
    exact ⟨h [] e (.here e), fun child hc above n hn => h (e :: above) n (.inside hc hn)⟩
  · rintro ⟨hself, hbelow⟩ above n hn
    cases hn with
    | here => exact hself
    | inside hc hn => exact hbelow _ hc _ _ hn

/-- The outermost node may as well have joined its tables from the start. -/
theorem inScope_cons (h : ∀ table, table ∈ inner ↔ table ∈ tables ∨ e.Joins table) :
    InScope IsSpec tables (e :: above) n ↔ InScope IsSpec inner above n := by
  cases n with
  | reference label path => simp only [InScope, List.exists_mem_cons_iff, h, or_assoc]
  | _ => exact Iff.rfl

theorem preorderAll_eq_ok_iff {ε α : Type} {visit : α → Expr ι → Except ε α} {acc : α}
    {es : List (Expr ι)} : preorderAll visit acc es = .ok () ↔
      ∀ e ∈ es, ∃ out, e.preorder visit acc = .ok out := by
  induction es with
  | nil => exact iff_of_true rfl fun _ h => nomatch h
  | cons e es ih =>
    rw [List.forall_mem_cons, ← ih]
    constructor
    · intro h
      obtain ⟨out, he, hes⟩ := ok_of_bind h
      exact ⟨⟨out, he⟩, hes⟩
    · rintro ⟨⟨out, he⟩, hes⟩
      exact ok_bind he hes

/-- A walk succeeds if the visit of the node does, and so do the walks of its children from what the
visit hands down. Nothing passes from one child to the next. -/
theorem preorder_ok_iff {ε α : Type} {visit : α → Expr ι → Except ε α} {acc : α} :
    (∃ out, e.preorder visit acc = .ok out) ↔ ∃ below, visit acc e = .ok below ∧
      ∀ child ∈ e.children, ∃ out, child.preorder visit below = .ok out := by
  cases e with
  | binary label op left right | conjunction label left right | disjunction label left right =>
    simp only [children, List.forall_mem_cons]
    constructor
    · rintro ⟨out, h⟩
      obtain ⟨below, hself, h⟩ := ok_of_bind h
      obtain ⟨l, hleft, h⟩ := ok_of_bind h
      obtain ⟨r, hright, _⟩ := ok_of_bind h
      exact ⟨below, hself, ⟨l, hleft⟩, ⟨r, hright⟩, List.forall_mem_nil _⟩
    · rintro ⟨below, hself, ⟨l, hleft⟩, ⟨r, hright⟩, _⟩
      exact ⟨below, ok_bind hself (ok_bind hleft (ok_bind hright rfl))⟩
  | negation label child =>
    simp only [children, List.forall_mem_singleton]
    constructor
    · rintro ⟨out, h⟩
      obtain ⟨below, hself, h⟩ := ok_of_bind h
      obtain ⟨c, hchild, _⟩ := ok_of_bind h
      exact ⟨below, hself, c, hchild⟩
    · rintro ⟨below, hself, c, hchild⟩
      exact ⟨below, ok_bind hself (ok_bind hchild rfl)⟩
  | call label callee arguments =>
    simp only [children, ← preorderAll_eq_ok_iff]
    constructor
    · rintro ⟨out, h⟩
      obtain ⟨below, hself, h⟩ := ok_of_bind h
      obtain ⟨_, hall, _⟩ := ok_of_bind h
      exact ⟨below, hself, hall⟩
    · rintro ⟨below, hself, hall⟩
      exact ⟨below, ok_bind hself (ok_bind hall rfl)⟩
  | _ => exact exists_congr fun _ => (and_iff_left (List.forall_mem_nil _)).symm

end Expr

namespace Scope

open RowSpec.Expr

variable {ι : Type} {schema : Schema} {tables out : List String} {e : Expr ι}

theorem visitCall_eq_ok_iff {callee : Reference} {arguments : List (Expr ι)} :
    visitCall schema tables callee arguments = .ok out ↔ ∃ name, callee.segments = [name] ∧
      ((Reducer.IsName name ∧ ∃ label path rest, arguments = .reference label path :: rest ∧
          (path.segments.length = 1 ∨ path.segments.length = 2) ∧ out = tables ++ [path.first]) ∨
        schema.CallsSpec name ∧ out = tables) := by
  constructor
  · intro h
    unfold visitCall at h
    split at h
    · cases h
    · next name hname =>
      refine ⟨name, Reference.single?_eq_some_iff.mp hname, ?_⟩
      split at h
      · next hred =>
        refine Or.inl ⟨Reducer.isSome_ofName?_iff.mp hred, ?_⟩
        split at h
        · next path hpath =>
          obtain ⟨child, hhead, hchild⟩ := Option.bind_eq_some_iff.mp hpath
          obtain ⟨label, rfl, hlength⟩ := childPath?_eq_some_iff.mp hchild
          obtain ⟨rest, rfl⟩ := List.head?_eq_some_iff.mp hhead
          cases h
          exact ⟨label, path, rest, rfl, hlength, rfl⟩
        · cases h
      · next hred =>
        rw [Reducer.isSome_ofName?_iff] at hred
        split at h
        · next hspec =>
          cases h
          exact Or.inr ⟨⟨Schema.isSome_spec?_iff.mp hspec, hred⟩, rfl⟩
        · cases h
  · rintro ⟨name, hname, ⟨hred, label, path, rest, rfl, hlength, rfl⟩ | ⟨⟨hspec, hred⟩, rfl⟩⟩
    · have hpath := childPath?_eq_some_iff.mpr ⟨label, rfl, hlength⟩
      simp only [visitCall, Reference.single?_eq_some_iff.mpr hname,
        Reducer.isSome_ofName?_iff.mpr hred, if_true, List.head?_cons, Option.bind_some, hpath]
    · rw [← Reducer.isSome_ofName?_iff] at hred
      simp only [visitCall, Reference.single?_eq_some_iff.mpr hname, if_neg hred,
        Schema.isSome_spec?_iff.mpr hspec, if_true]

theorem any_isCallable_iff {path : Reference} : path.single?.any schema.isCallable = true ↔
    ∃ name, path.segments = [name] ∧ (Reducer.IsName name ∨ schema.CallsSpec name) := by
  simp only [Option.any_eq_true, Reference.single?_eq_some_iff, Schema.isCallable_iff]

/-- A visit succeeds on the nodes that are in scope with nothing around them. -/
theorem visit_ok_iff : (∃ out, visit schema tables e = .ok out) ↔
    InScope schema.CallsSpec tables [] e := by
  cases e with
  | reference label path =>
    simp [visit, visitReference_eq_ok_iff, any_isCallable_iff, InScope]
  | call label callee arguments =>
    simp only [visit, visitCall_eq_ok_iff, InScope]
    constructor
    · rintro ⟨out, name, hname, ⟨hred, label, path, rest, harguments, hlength, _⟩ | ⟨hspec, _⟩⟩
      · exact ⟨name, hname, Or.inl ⟨hred, label, path, rest, harguments, hlength⟩⟩
      · exact ⟨name, hname, Or.inr hspec⟩
    · rintro ⟨name, hname, ⟨hred, label, path, rest, harguments, hlength⟩ | hspec⟩
      · exact ⟨_, name, hname, Or.inl ⟨hred, label, path, rest, harguments, hlength, rfl⟩⟩
      · exact ⟨_, name, hname, Or.inr ⟨hspec, rfl⟩⟩
  | _ => exact iff_of_true ⟨tables, rfl⟩ trivial

/-- A visit hands down the tables that it was given and those that the node joins. -/
theorem mem_of_visit (h : visit schema tables e = .ok out) (table : String) :
    table ∈ out ↔ table ∈ tables ∨ e.Joins table := by
  cases e with
  | reference label path =>
    obtain ⟨_, _, rfl⟩ := visitReference_eq_ok_iff.mp h
    exact (or_iff_left id).symm
  | call label callee arguments =>
    obtain ⟨name, hname, ⟨hred, _, path, rest, rfl, hlength, rfl⟩ | ⟨⟨_, hred⟩, rfl⟩⟩ :=
      visitCall_eq_ok_iff.mp h
    · have hfirst : path.segments.head? = some path.first := by
        obtain ⟨segment, rest, hsegments⟩ := List.exists_cons_of_length_pos (l := path.segments)
          (by omega)
        simp [Reference.first, hsegments]
      simp only [Joins, hfirst, List.mem_append, List.mem_singleton, Option.some.injEq]
      exact or_congr_right ⟨fun heq => ⟨⟨name, hname, hred⟩, heq.symm⟩, fun hjoins => hjoins.2.symm⟩
    · refine (or_iff_left fun hjoins => ?_).symm
      obtain ⟨name', hname', hred'⟩ := hjoins.isName
      obtain rfl : name = name' := List.singleton_inj.mp (hname.symm.trans hname')
      exact hred hred'
  | _ =>
    cases h
    exact (or_iff_left id).symm

end Scope

namespace Expr

/-- The walk and the look-up through the nodes around a reference agree, whatever tables are joined
from the start. -/
theorem preorder_visit_iff {ι : Type} {schema : Schema} (e : Expr ι) (tables : List String) :
    (∃ out, e.preorder (Scope.visit schema) tables = .ok out) ↔
      e.WellScoped schema.CallsSpec tables := by
  -- the walk of a child starts with more tables, those that its parent joins
  induction e using induction_children generalizing tables with
  | step e ih =>
    rw [preorder_ok_iff, wellScoped_iff]
    constructor
    · rintro ⟨inner, hvisit, hchildren⟩
      refine ⟨Scope.visit_ok_iff.mp ⟨inner, hvisit⟩, fun child hc above n hn => ?_⟩
      rw [inScope_cons (Scope.mem_of_visit hvisit)]
      exact (ih child hc inner).mp (hchildren child hc) above n hn
    · rintro ⟨hself, hbelow⟩
      obtain ⟨inner, hvisit⟩ := Scope.visit_ok_iff.mpr hself
      refine ⟨inner, hvisit, fun child hc => (ih child hc inner).mpr fun above n hn => ?_⟩
      rw [← inScope_cons (Scope.mem_of_visit hvisit)]
      exact hbelow child hc above n hn

/-- The check of scopes accepts exactly the well-scoped expressions. -/
theorem checkScope_iff_wellScoped {ι : Type} (schema : Schema) (root : String) (e : Expr ι) :
    e.checkScope schema root = .ok () ↔ e.WellScoped schema.CallsSpec [root] := by
  rw [← preorder_visit_iff]
  constructor
  · intro h
    obtain ⟨out, hwalk, _⟩ := ok_of_bind h
    exact ⟨out, hwalk⟩
  · rintro ⟨out, hwalk⟩
    exact ok_bind hwalk rfl

/-- A spec may be registered under the name of a reducer. By that name the reducer is called, also
where the call could only be one of the spec. -/
theorem checkScope_hides_spec : ∃ schema : Schema,
    Schema.office.addSpec "any" "User" "true" = (.ok (), schema) ∧ schema.HasSpec "any" ∧
    (.call ⟨2⟩ ⟨["any"]⟩ [.null ⟨1⟩] : Expr NodeId).WellScoped schema.HasSpec ["User"] ∧
    (.call ⟨2⟩ ⟨["any"]⟩ [.null ⟨1⟩] : Expr NodeId).checkScope schema "User" =
      .error .referenceRequired := by
  have hadd : (Schema.office.addSpec "any" "User" "true").1 = .ok () := by decide +kernel
  obtain ⟨_, _, body, c, _, _, hspecs⟩ := Schema.addSpec_eq_ok hadd
  have hspec : (Schema.office.addSpec "any" "User" "true").2.HasSpec "any" := by
    rw [Schema.HasSpec, hspecs]
    exact ⟨_, List.mem_append_right _ (List.mem_singleton_self _), rfl⟩
  refine ⟨_, Prod.ext hadd rfl, hspec, ?_, rfl⟩
  refine wellScoped_iff.mpr ⟨⟨"any", rfl, Or.inr hspec⟩, ?_⟩
  refine List.forall_mem_singleton.mpr fun above n hn => ?_
  cases hn with
  | here => trivial
  | inside hc _ => cases hc

end Expr

end RowSpec
