import Mathlib.Data.List.Perm.Basic
import RowSpec.Expr.Trace
import RowSpec.Proofs.Tree

/-! Which nodes the two walks visit, in which order, and where they stop. A node is known by its
place, the way down to it from the root, and the order of the visits is said of places alone. A
walker that notes down each of its calls takes one note for each place, in that order, whatever its
notes do besides; so a walk stops at the first note that fails and leaves those before it. -/
namespace RowSpec

namespace Attempt

variable {σ ε α β γ : Type}

theorem bind_assoc (x : Attempt σ ε α) (f : α → Attempt σ ε β) (g : β → Attempt σ ε γ) :
    x >>= f >>= g = x >>= fun a => f a >>= g := by
  apply congrArg Attempt.mk
  funext s
  change ((x >>= f) >>= g).run s = (x >>= fun a => f a >>= g).run s
  rw [run_bind, run_bind, run_bind]
  rcases x.run s with ⟨error | a, t⟩
  · rfl
  · rfl

theorem id_map (x : Attempt σ ε α) : id <$> x = x := by
  apply congrArg Attempt.mk
  funext s
  change (x >>= fun a => pure a).run s = x.run s
  rw [run_bind]
  rcases x.run s with ⟨error | a, t⟩
  · rfl
  · rfl

theorem lawfulMonad : LawfulMonad (Attempt σ ε) := .mk' _ id_map (fun _ _ => rfl) bind_assoc

end Attempt

namespace Expr

variable {ι α β ε δ : Type}

/-! ### Places -/

/-- The node at a place. Each number of the place says which child to go down to. -/
def node? (e : Expr ι) : List Nat → Option (Expr ι)
  | [] => some e
  | i :: p => e.children[i]?.bind fun child => child.node? p

/-- The node at the first place is visited before that at the second. A node that `first` picks
comes before all nodes below it, any other node behind them; what lies below a child comes before
what lies below a child further right. -/
inductive Precedes (first : Expr ι → Bool) : Expr ι → List Nat → List Nat → Prop where
  | above {e : Expr ι} {i : Nat} {p : List Nat} (h : first e = true) : Precedes first e [] (i :: p)
  | behind {e : Expr ι} {i : Nat} {p : List Nat} (h : first e = false) :
    Precedes first e (i :: p) []
  | across {e : Expr ι} {i j : Nat} {p q : List Nat} (h : i < j) :
    Precedes first e (i :: p) (j :: q)
  | within {e child : Expr ι} {i : Nat} {p q : List Nat} (hc : e.children[i]? = some child)
    (h : Precedes first child p q) : Precedes first e (i :: p) (i :: q)

theorem Precedes.irrefl {first : Expr ι → Bool} (p : List Nat) :
    ∀ e : Expr ι, ¬ Precedes first e p p := by
  induction p with
  | nil =>
    intro e h
    cases h
  | cons i p ih =>
    intro e h
    cases h with
    | across hlt => exact Nat.lt_irrefl i hlt
    | within hc hp => exact ih _ hp

structure Arranges (first : Expr ι → Bool) (e : Expr ι) (visits : List (List Nat × Expr ι)) :
    Prop where
  once : (visits.map Prod.fst).Nodup
  all : ∀ p n, (p, n) ∈ visits ↔ e.node? p = some n
  ordered : visits.Pairwise fun v w => Precedes first e v.1 w.1

theorem length_nodes_child {e child : Expr ι} (h : child ∈ e.children) :
    child.nodes.length < e.nodes.length := by
  have hsub : child.nodes.Sublist (e.children.flatMap nodes) :=
    List.sublist_flatten_of_mem (List.mem_map_of_mem h)
  rw [nodes_eq e, List.length_cons]
  exact Nat.lt_succ_of_le hsub.length_le

def visits (first : Expr ι → Bool) (e : Expr ι) : List (List Nat × Expr ι) :=
  let below := e.children.zipIdx.attach.flatMap fun c =>
    (visits first c.val.1).map fun v => (c.val.2 :: v.1, v.2)
  if first e then ([], e) :: below else below ++ [([], e)]
termination_by e.nodes.length
decreasing_by exact length_nodes_child (List.fst_mem_of_mem_zipIdx c.property)

def visitsBelow (first : Expr ι → Bool) (e : Expr ι) : List (List Nat × Expr ι) :=
  e.children.zipIdx.flatMap fun c => (visits first c.1).map fun v => (c.2 :: v.1, v.2)

theorem visits_eq (first : Expr ι → Bool) (e : Expr ι) : visits first e =
    if first e then ([], e) :: visitsBelow first e else visitsBelow first e ++ [([], e)] := by
  have hbelow : (e.children.zipIdx.attach.flatMap fun c =>
      (visits first c.val.1).map fun v => (c.val.2 :: v.1, v.2)) = visitsBelow first e := by
    rw [List.flatMap_subtype (g := fun c => (visits first c.1).map fun v => (c.2 :: v.1, v.2))
      fun _ _ => rfl, List.unattach_attach]
    rfl
  rw [visits, hbelow]

variable {first : Expr ι → Bool} {e : Expr ι}

theorem mem_visits_iff {v : List Nat × Expr ι} :
    v ∈ visits first e ↔ v = ([], e) ∨ v ∈ visitsBelow first e := by
  rw [visits_eq]
  split
  · exact List.mem_cons
  · rw [List.mem_append, List.mem_singleton, or_comm]

theorem mem_visitsBelow {v : List Nat × Expr ι} : v ∈ visitsBelow first e ↔
    ∃ i child p, e.children[i]? = some child ∧ (p, v.2) ∈ visits first child ∧ v.1 = i :: p := by
  obtain ⟨q, n⟩ := v
  simp only [visitsBelow, List.mem_flatMap, List.mem_map, Prod.exists, Prod.mk.injEq,
    List.mem_zipIdx_iff_getElem?]
  constructor
  · rintro ⟨child, i, hc, p, n, hn, rfl, rfl⟩
    exact ⟨i, child, p, hc, hn, rfl⟩
  · rintro ⟨i, child, p, hc, hn, rfl⟩
    exact ⟨child, i, hc, p, n, hn, rfl, rfl⟩

theorem mem_visits (first : Expr ι → Bool) (e : Expr ι) :
    ∀ p n, (p, n) ∈ visits first e ↔ e.node? p = some n := by
  induction e using induction_children with
  | step e ih =>
    intro p n
    rw [mem_visits_iff, mem_visitsBelow]
    cases p with
    | nil => simp [node?, eq_comm]
    | cons i p =>
      simp only [node?, Option.bind_eq_some_iff, Prod.mk.injEq, List.cons.injEq, reduceCtorEq,
        false_and, false_or]
      constructor
      · rintro ⟨_, child, _, hc, hn, rfl, rfl⟩
        exact ⟨child, hc, (ih child (List.mem_of_getElem? hc) p n).mp hn⟩
      · rintro ⟨child, hc, hn⟩
        exact ⟨i, child, p, hc, (ih child (List.mem_of_getElem? hc) p n).mpr hn, rfl, rfl⟩

theorem pairwise_visitsBelow
    (ih : ∀ child ∈ e.children,
      (visits first child).Pairwise fun v w => Precedes first child v.1 w.1) :
    (visitsBelow first e).Pairwise fun v w => Precedes first e v.1 w.1 := by
  rw [visitsBelow, List.pairwise_flatMap]
  constructor
  · rintro ⟨child, i⟩ hmem
    have hc : e.children[i]? = some child := List.mem_zipIdx_iff_getElem?.mp hmem
    rw [List.pairwise_map]
    exact (ih child (List.mem_of_getElem? hc)).imp fun h => .within hc h
  · -- Places below different children differ in their first number, which grows to the right.
    have hindex : (e.children.zipIdx.map Prod.snd).Pairwise (· < ·) := by
      rw [List.zipIdx_map_snd]
      exact List.pairwise_lt_range'
    refine (List.pairwise_map.mp hindex).imp fun hlt v hv w hw => ?_
    obtain ⟨_, _, rfl⟩ := List.mem_map.mp hv
    obtain ⟨_, _, rfl⟩ := List.mem_map.mp hw
    exact .across hlt

theorem pairwise_visits (first : Expr ι → Bool) (e : Expr ι) :
    (visits first e).Pairwise fun v w => Precedes first e v.1 w.1 := by
  induction e using induction_children with
  | step e ih =>
    rw [visits_eq]
    split
    · next h =>
      refine List.pairwise_cons.mpr ⟨fun v hv => ?_, pairwise_visitsBelow ih⟩
      obtain ⟨i, child, p, _, _, hp⟩ := mem_visitsBelow.mp hv
      rw [hp]
      exact .above h
    · next h =>
      refine List.pairwise_append.mpr
        ⟨pairwise_visitsBelow ih, List.pairwise_singleton _ _, fun v hv w hw => ?_⟩
      obtain ⟨i, child, p, _, _, hp⟩ := mem_visitsBelow.mp hv
      rw [hp, List.mem_singleton.mp hw]
      exact .behind (Bool.eq_false_iff.mpr h)

theorem visits_arranges (first : Expr ι → Bool) (e : Expr ι) :
    Arranges first e (visits first e) where
  once := by
    rw [List.Nodup, List.pairwise_map]
    refine (pairwise_visits first e).imp fun {v w} h heq => ?_
    rw [heq] at h
    exact h.irrefl
  all := mem_visits first e
  ordered := pairwise_visits first e

/-- What is said of the visits below a node is said of those of its children. -/
theorem map_visitsBelow {f : List Nat × Expr ι → ε} {g : Expr ι → List Nat × Expr ι → ε}
    (h : ∀ i child p n, e.children[i]? = some child → f (i :: p, n) = g child (p, n)) :
    (visitsBelow first e).map f =
      e.children.flatMap fun child => (visits first child).map (g child) := by
  calc (visitsBelow first e).map f
      = e.children.zipIdx.flatMap fun c => (visits first c.1).map (g c.1) := by
        rw [visitsBelow, List.map_flatMap]
        refine List.flatMap_congr fun c hmem => ?_
        have hc : e.children[c.2]? = some c.1 := List.mem_zipIdx_iff_getElem?.mp hmem
        rw [List.map_map]
        exact List.map_congr_left fun v _ => h c.2 c.1 v.1 v.2 hc
    _ = (e.children.zipIdx.map Prod.fst).flatMap fun child =>
          (visits first child).map (g child) := by
        rw [List.flatMap_map]
    _ = e.children.flatMap fun child => (visits first child).map (g child) := by
        rw [List.zipIdx_map_fst]

/-- Any order visits the nodes that there are, as often as they are there. -/
theorem visits_perm_nodes (first : Expr ι → Bool) (e : Expr ι) :
    ((visits first e).map Prod.snd).Perm e.nodes := by
  induction e using induction_children with
  | step e ih =>
    have hbelow : ((visitsBelow first e).map Prod.snd).Perm (e.children.flatMap nodes) := by
      rw [map_visitsBelow (g := fun _ => Prod.snd) fun _ _ _ _ _ => rfl]
      exact List.Perm.flatMap_left _ ih
    rw [visits_eq, nodes_eq]
    split
    · exact hbelow.cons e
    · rw [List.map_append]
      exact (List.perm_append_singleton e _).trans (hbelow.cons e)

theorem length_visits (first : Expr ι → Bool) (e : Expr ι) :
    (visits first e).length = e.nodes.length := by
  rw [← (visits_perm_nodes first e).length_eq, List.length_map]

/-! ### Layers -/

def isCall : Expr ι → Bool
  | .call .. => true
  | _ => false

def layer (value : Expr ι → α) (argument : Expr ι → β) : Expr ι → Layer ι α β
  | .null _ => .null
  | .boolean _ b => .boolean b
  | .number _ x => .number x
  | .string _ s => .string s
  | .reference _ path => .reference path
  | .binary _ op left right => .binary op (value left) (value right)
  | .conjunction _ left right => .conjunction (value left) (value right)
  | .disjunction _ left right => .disjunction (value left) (value right)
  | .negation _ child => .negation (value child)
  | .call label callee arguments => .call label callee (arguments.map fun a => (a, argument a))

def Layer.walkArguments {m : Type → Type} [Monad m] : Layer ι α (m β) → m (Layer ι α β)
  | .null => pure .null
  | .boolean b => pure (.boolean b)
  | .number x => pure (.number x)
  | .string s => pure (.string s)
  | .reference path => pure (.reference path)
  | .binary op left right => pure (.binary op left right)
  | .conjunction left right => pure (.conjunction left right)
  | .disjunction left right => pure (.disjunction left right)
  | .negation child => pure (.negation child)
  | .call label callee arguments => do
    let done ← arguments.mapM fun a => do let result ← a.2; pure (a.1, result)
    pure (.call label callee done)

def Layer.unwalked : Layer ι α β → Layer ι α Unit
  | .null => .null
  | .boolean b => .boolean b
  | .number x => .number x
  | .string s => .string s
  | .reference path => .reference path
  | .binary op left right => .binary op left right
  | .conjunction left right => .conjunction left right
  | .disjunction left right => .disjunction left right
  | .negation child => .negation child
  | .call label callee arguments => .call label callee (arguments.map fun a => (a.1, ()))

/-! ### Notes -/

section notes

variable {m : Type → Type} [Monad m] {note : ε → m Unit}

def takeNotes (note : ε → m Unit) (result : α) : List ε → m α
  | [] => pure result
  | event :: events => do
    note event
    takeNotes note result events

variable [LawfulMonad m]

/-- Notes that are taken in two runs might be taken in one. -/
theorem takeNotes_bind {a : α} {b : β} {f : α → m β} {more : List ε}
    (h : f a = takeNotes note b more) (events : List ε) :
    takeNotes note a events >>= f = takeNotes note b (events ++ more) := by
  induction events with
  | nil => rw [takeNotes, pure_bind, h, List.nil_append]
  | cons event events ih => simp only [takeNotes, bind_assoc, ih, List.cons_append]

theorem takeNotes_map (a : α) (f : α → β) (events : List ε) :
    (takeNotes note a events >>= fun a => pure (f a)) = takeNotes note (f a) events := by
  have hpure : pure (f a) = takeNotes note (f a) [] := rfl
  have hbind := takeNotes_bind (f := fun a => pure (f a)) hpure events
  rwa [List.append_nil] at hbind

/-- Walks that take notes, one after the other, take all their notes in turn. -/
theorem mapM_takeNotes {walk : Expr ι → m α} {notes : Expr ι → List ε} {result : Expr ι → α}
    (es : List (Expr ι)) (h : ∀ e ∈ es, walk e = takeNotes note (result e) (notes e)) :
    es.mapM walk = takeNotes note (es.map result) (es.flatMap notes) := by
  induction es with
  | nil => rfl
  | cons e es ih =>
    obtain ⟨he, hes⟩ := List.forall_mem_cons.mp h
    rw [List.mapM_cons, he, List.flatMap_cons]
    apply takeNotes_bind
    rw [ih hes, takeNotes_map, List.map_cons]

/-! ### Pre-order -/

theorem preorderAll_eq_mapM (visit : α → Expr ι → m α) (acc : α) (es : List (Expr ι)) :
    preorderAll visit acc es = es.mapM (preorder visit acc) >>= fun _ => pure () := by
  induction es with
  | nil => simp [preorderAll]
  | cons e es ih =>
    rw [preorderAll, ih, List.mapM_cons]
    simp only [bind_assoc, pure_bind]

/-- One step of the walk, the same for all kinds of nodes. -/
theorem preorder_node (visit : α → Expr ι → m α) (acc : α) (e : Expr ι) :
    e.preorder visit acc = visit acc e >>= fun inner =>
      e.children.mapM (preorder visit inner) >>= fun _ => pure inner := by
  cases e with
  | call label callee arguments =>
    simp only [preorder, preorderAll_eq_mapM, children, bind_assoc, pure_bind]
  | _ =>
    simp only [preorder, children, List.mapM_cons, List.mapM_nil, bind_assoc, pure_bind, bind_pure]

structure HandsDown (answer : α → Expr ι → α) (start : α) (e : Expr ι) (given : List Nat → α) :
    Prop where
  root : given [] = start
  child : ∀ p i n, e.node? p = some n → i < n.children.length →
    given (p ++ [i]) = answer (given p) n

def handed (answer : α → Expr ι → α) (acc : α) (e : Expr ι) : List Nat → α
  | [] => acc
  | i :: p => e.children[i]?.elim acc fun child => handed answer (answer acc e) child p

theorem handed_append (answer : α → Expr ι → α) {i : Nat} {n : Expr ι}
    (hi : i < n.children.length) (p : List Nat) : ∀ (acc : α) (e : Expr ι), e.node? p = some n →
      handed answer acc e (p ++ [i]) = answer (handed answer acc e p) n := by
  induction p with
  | nil =>
    intro acc e hn
    cases hn
    simp [handed, hi]
  | cons j p ih =>
    intro acc e hn
    obtain ⟨child, hc, hn⟩ := Option.bind_eq_some_iff.mp hn
    simp only [List.cons_append, handed, hc, Option.elim_some]
    exact ih _ child hn

theorem handed_handsDown (answer : α → Expr ι → α) (start : α) (e : Expr ι) :
    HandsDown answer start e (handed answer start e) where
  root := rfl
  child p _ _ hn hi := handed_append answer hi p start e hn

theorem preorder_eq_takeNotes {visit : α → Expr ι → m α} {event : α → Expr ι → ε}
    {answer : α → Expr ι → α}
    (h : ∀ acc n, visit acc n = takeNotes note (answer acc n) [event acc n]) (e : Expr ι) :
    ∀ acc, e.preorder visit acc = takeNotes note (answer acc e)
      ((visits (fun _ => true) e).map fun v => event (handed answer acc e v.1) v.2) := by
  induction e using induction_children with
  | step e ih =>
    intro acc
    -- From its first number on, a place below the node is a place in a child, which starts from
    -- what the node answers.
    have hbelow : ((visitsBelow (fun _ => true) e).map fun v =>
          event (handed answer acc e v.1) v.2) =
        e.children.flatMap fun child => (visits (fun _ => true) child).map fun v =>
          event (handed answer (answer acc e) child v.1) v.2 := by
      apply map_visitsBelow
      intro i child p n hc
      simp only [handed, hc, Option.elim_some]
    rw [preorder_node, h, visits_eq, if_pos rfl, List.map_cons, hbelow]
    apply takeNotes_bind
    rw [mapM_takeNotes e.children fun child hc => ih child hc (answer acc e), takeNotes_map]
    rfl

/-! ### Post-order -/

def SendsUp (answer : Layer ι β β → β) (value : Expr ι → β) : Prop :=
  ∀ n, value n = answer (n.layer value value)

def reduce (answer : Layer ι β β → β) (e : Expr ι) : β := e.postorder (m := Id) answer

theorem reduce_sendsUp (answer : Layer ι β β → β) : SendsUp answer (reduce answer) := by
  intro n
  cases n with
  | call label callee arguments =>
    rw [reduce, postorder, postorderAll_eq_map]
    rfl
  | _ => rfl

def postNotes (event : Layer ι α Unit → ε) (value : Expr ι → α) (e : Expr ι) : List ε :=
  (visits isCall e).map fun v => event (v.2.layer value fun _ => ())

theorem postNotes_eq (event : Layer ι α Unit → ε) (value : Expr ι → α) (e : Expr ι) :
    postNotes event value e =
      if e.isCall then
        event (e.layer value fun _ => ()) :: e.children.flatMap (postNotes event value)
      else e.children.flatMap (postNotes event value) ++ [event (e.layer value fun _ => ())] := by
  have hbelow : ((visitsBelow isCall e).map fun v => event (v.2.layer value fun _ => ())) =
      e.children.flatMap (postNotes event value) :=
    map_visitsBelow fun _ _ _ _ _ => rfl
  rw [postNotes, visits_eq]
  split
  · rw [List.map_cons, hbelow]
  · rw [List.map_append, hbelow, List.map_singleton]

theorem postorder_eq_takeNotes {visit : Layer ι α (m α) → m α} {event : Layer ι α Unit → ε}
    {answer : Layer ι α α → α} {value : Expr ι → α}
    (h : ∀ l, visit l = note (event l.unwalked) >>= fun _ => l.walkArguments >>= fun done =>
      pure (answer done))
    (hvalue : SendsUp answer value) (e : Expr ι) :
    e.postorder visit = takeNotes note (value e) (postNotes event value e) := by
  induction e using induction with
  | binary label op left right hl hr | conjunction label left right hl hr
  | disjunction label left right hl hr =>
    -- Two binds for the operands; the note of the node itself comes last.
    rw [hvalue, postNotes_eq]
    simp only [isCall, Bool.false_eq_true, if_false, children, List.flatMap_cons, List.flatMap_nil,
      List.append_nil, List.append_assoc, postorder, hl, hr]
    apply takeNotes_bind
    apply takeNotes_bind
    rw [h, Layer.walkArguments, pure_bind]
    rfl
  | negation label child hc =>
    rw [hvalue, postNotes_eq]
    simp only [isCall, Bool.false_eq_true, if_false, children, List.flatMap_cons, List.flatMap_nil,
      List.append_nil, postorder, hc]
    apply takeNotes_bind
    rw [h, Layer.walkArguments, pure_bind]
    rfl
  | call label callee arguments ih =>
    -- The note of the call comes first, and the walker itself walks the arguments.
    have hwalk : ∀ a ∈ arguments, (a.postorder visit >>= fun result => pure (a, result)) =
        takeNotes note (a, value a) (postNotes event value a) := by
      intro a ha
      rw [ih a ha, takeNotes_map]
    rw [hvalue, postNotes_eq, postorder, h, postorderAll_eq_map, Layer.walkArguments,
      List.mapM_map]
    simp only [Function.comp_def]
    rw [mapM_takeNotes arguments hwalk]
    simp only [takeNotes_map, Layer.unwalked, List.map_map]
    rfl
  | _ =>
    rw [hvalue, postNotes_eq, postorder, h, Layer.walkArguments, pure_bind]
    rfl

end notes

/-! ### Limits -/

theorem run_log_none (event : ε) (seen : List ε) :
    (log none event).run seen = (.ok (), seen ++ [event]) := rfl

theorem run_log_some {limit : Nat} (event : ε) {seen : List ε} (h : seen.length < limit) :
    (log (some limit) event).run seen = (.ok (), seen ++ [event]) := by
  simp [log, Attempt.run_bind, Nat.not_le.mpr h]

theorem run_log_full {limit : Nat} (event : ε) {seen : List ε} (h : limit ≤ seen.length) :
    (log (some limit) event).run seen = (.error ⟨⟩, seen) := by
  simp [log, Attempt.run_bind, h]

theorem run_takeNotes_none (result : α) (events : List ε) :
    ∀ seen, (takeNotes (log none) result events).run seen = (.ok result, seen ++ events) := by
  induction events with
  | nil => intro seen; simp [takeNotes]
  | cons event events ih =>
    intro seen
    rw [takeNotes, Attempt.run_bind_ok (run_log_none event seen), ih, List.append_assoc]
    rfl

/-- The log never grows beyond the limit; the first note that finds it full ends the run. -/
theorem run_takeNotes_some (limit : Nat) (result : α) (events : List ε) :
    ∀ seen, seen.length ≤ limit → (takeNotes (log (some limit)) result events).run seen =
      (if limit < seen.length + events.length then .error ⟨⟩ else .ok result,
        (seen ++ events).take limit) := by
  induction events with
  | nil =>
    intro seen hle
    simp [takeNotes, List.take_of_length_le hle, Nat.not_lt.mpr hle]
  | cons event events ih =>
    intro seen hle
    rw [takeNotes]
    by_cases hlt : seen.length < limit
    · rw [Attempt.run_bind_ok (run_log_some event hlt), ih _ (by simp; omega)]
      simp [Nat.add_assoc, Nat.add_comm 1]
    · have heq : seen.length = limit := by omega
      rw [Attempt.run_bind_error (run_log_full event (by omega)), if_pos (by simp; omega), ← heq,
        List.take_left]

/-! ### Walkers that log -/

attribute [local instance] Attempt.lawfulMonad

def LogsCalls (visit : Option Nat → α → Expr ι → Logged ε α) (event : α → Expr ι → ε)
    (answer : α → Expr ι → α) : Prop :=
  ∀ limit acc n, visit limit acc n = do
    log limit (event acc n)
    pure (answer acc n)

/-- In post-order: a call of the walker writes one event, then walks the arguments, if the node is a
call, and answers with a result. -/
def LogsLayers (visit : Option Nat → Layer ι β (Logged δ β) → Logged δ β)
    (event : Layer ι β Unit → δ) (answer : Layer ι β β → β) : Prop :=
  ∀ limit l, visit limit l = do
    log limit (event l.unwalked)
    let done ← l.walkArguments
    pure (answer done)

/-- Without a limit a walk logs an event for each node. With a limit it logs the first of these, and
it fails if there are more. -/
structure FailsFast (e : Expr ι) (walk : Option Nat → Logged ε α) (result : α)
    (events : List ε) : Prop where
  one_each : events.length = e.nodes.length
  unlimited : (walk none).run [] = (.ok result, events)
  limited : ∀ limit, (walk (some limit)).run [] =
    (if limit < e.nodes.length then .error ⟨⟩ else .ok result, events.take limit)

theorem failsFast_takeNotes {walk : Option Nat → Logged ε α} {result : α} {events : List ε}
    (hlength : events.length = e.nodes.length)
    (h : ∀ limit, walk limit = takeNotes (log limit) result events) :
    FailsFast e walk result events where
  one_each := hlength
  unlimited := by rw [h, run_takeNotes_none, List.nil_append]
  limited limit := by
    rw [h, run_takeNotes_some limit result events [] (Nat.zero_le _), ← hlength]
    simp

/-! ### The walkers of the traces -/

def depthEvent (depth : Nat) : Expr NodeId → Nat × PreEvent
  | .null _ => (depth, .null)
  | .boolean _ value => (depth, .boolean value)
  | .number _ value => (depth, .number value)
  | .string _ value => (depth, .string value)
  | .reference _ path => (depth, .reference path)
  | .binary _ op left right => (depth, .binary op left.label right.label)
  | .conjunction _ left right => (depth, .conjunction left.label right.label)
  | .disjunction _ left right => (depth, .disjunction left.label right.label)
  | .negation _ child => (depth, .negation child.label)
  | .call _ callee arguments => (depth, .call callee arguments.length)

def depthAnswer (depth : Nat) (n : Expr NodeId) : Nat :=
  if n.isCall then depth + 10 else if n.children.isEmpty then depth else depth + 1

theorem depthVisit_logsCalls : LogsCalls depthVisit depthEvent depthAnswer := by
  intro limit depth n
  cases n <;> rfl

def countEvent : Layer NodeId Nat Unit → PostEvent
  | .null => .null
  | .boolean value => .boolean value
  | .number value => .number value
  | .string value => .string value
  | .reference path => .reference path
  | .binary op left right => .binary op left right
  | .conjunction left right => .conjunction left right
  | .disjunction left right => .disjunction left right
  | .negation child => .negation child
  | .call id callee arguments => .call id callee arguments.length

def countAnswer : Layer NodeId Nat Nat → Nat
  | .binary _ left right | .conjunction left right | .disjunction left right => left + right + 1
  | .negation child => child + 1
  | .call _ _ arguments => arguments.foldr (fun a n => a.2 + n) 0 + 1
  | _ => 1

theorem sumWalks_eq_mapM (arguments : List (Expr NodeId × Logged ε Nat)) :
    sumWalks (arguments.map Prod.snd) =
      (arguments.mapM fun a => a.2 >>= fun result => pure (a.1, result)) >>= fun done =>
        pure (done.foldr (fun a n => a.2 + n) 0) := by
  induction arguments with
  | nil => rfl
  | cons a arguments ih =>
    rw [List.map_cons, sumWalks, ih, List.mapM_cons]
    simp only [bind_assoc, pure_bind, List.foldr_cons]

theorem countVisit_logsLayers : LogsLayers countVisit countEvent countAnswer := by
  intro limit l
  cases l with
  | call id callee arguments =>
    simp only [countVisit, sumWalks_eq_mapM, Layer.walkArguments, Layer.unwalked, countEvent,
      countAnswer, bind_assoc, pure_bind, List.length_map]
  | _ => rfl

/-- Both walks call the walker once for each node. In pre-order a node comes before its children,
from left to right, and each child is handed what the call for the node answered; in post-order a
node that is no call comes behind its children and is told their results. A walk whose walker fails
ends there. -/
theorem walks_visit_once_in_order
    {preVisit : Option Nat → α → Expr ι → Logged ε α} {preEvent : α → Expr ι → ε}
    {preAnswer : α → Expr ι → α} {postVisit : Option Nat → Layer ι β (Logged δ β) → Logged δ β}
    {postEvent : Layer ι β Unit → δ} {postAnswer : Layer ι β β → β}
    (hpre : LogsCalls preVisit preEvent preAnswer)
    (hpost : LogsLayers postVisit postEvent postAnswer) (start : α) (e : Expr ι) :
    (∃ visits given, Arranges (fun _ => true) e visits ∧ HandsDown preAnswer start e given ∧
      FailsFast e (fun limit => e.preorder (preVisit limit) start) (preAnswer start e)
        (visits.map fun v => preEvent (given v.1) v.2)) ∧
    ∃ visits value, Arranges isCall e visits ∧ SendsUp postAnswer value ∧
      FailsFast e (fun limit => e.postorder (postVisit limit)) (value e)
        (visits.map fun v => postEvent (v.2.layer value fun _ => ())) := by
  constructor
  · refine ⟨visits (fun _ => true) e, handed preAnswer start e, visits_arranges _ e,
      handed_handsDown preAnswer start e, failsFast_takeNotes ?_ fun limit => ?_⟩
    · rw [List.length_map, length_visits]
    · exact preorder_eq_takeNotes (hpre limit) e start
  · refine ⟨visits isCall e, reduce postAnswer, visits_arranges _ e, reduce_sendsUp postAnswer,
      failsFast_takeNotes ?_ fun limit => ?_⟩
    · rw [List.length_map, length_visits]
    · exact postorder_eq_takeNotes (hpost limit) (reduce_sendsUp postAnswer) e

def sampleWalk : Expr NodeId :=
  .conjunction ⟨6⟩ (.negation ⟨2⟩ (.boolean ⟨1⟩ true))
    (.call ⟨5⟩ ⟨["ANY"]⟩ [.reference ⟨3⟩ ⟨["A"]⟩, .null ⟨4⟩])

/-- The fifth call of the walker fails, whichever way the six nodes are walked. -/
theorem walks_visit_once_in_order_sample :
    LogsCalls depthVisit depthEvent depthAnswer ∧ LogsLayers countVisit countEvent countAnswer ∧
    (∃ visits given, Arranges (fun _ => true) sampleWalk visits ∧
      HandsDown depthAnswer 0 sampleWalk given ∧
      sampleWalk.tracePreorder none =
        (.ok 1, visits.map fun v => depthEvent (given v.1) v.2) ∧
      sampleWalk.tracePreorder (some 4) =
        (.error ⟨⟩, (visits.map fun v => depthEvent (given v.1) v.2).take 4)) ∧
    ∃ visits value, Arranges isCall sampleWalk visits ∧ SendsUp countAnswer value ∧
      sampleWalk.tracePostorder none =
        (.ok 6, visits.map fun v => countEvent (v.2.layer value fun _ => ())) ∧
      sampleWalk.tracePostorder (some 4) = (.error ⟨⟩,
        (visits.map fun v => countEvent (v.2.layer value fun _ => ())).take 4) := by
  have hnodes : 4 < sampleWalk.nodes.length := by decide +kernel
  have hcount : (sampleWalk.tracePostorder none).1 = .ok 6 := by decide +kernel
  obtain ⟨⟨visits, given, harr, hdown, hruns⟩, visits', value, harr', hup, hruns'⟩ :=
    walks_visit_once_in_order depthVisit_logsCalls countVisit_logsLayers 0 sampleWalk
  refine ⟨depthVisit_logsCalls, countVisit_logsLayers,
    ⟨visits, given, harr, hdown, hruns.unlimited, ?_⟩,
    visits', value, harr', hup, ?_, ?_⟩
  · rw [tracePreorder, hruns.limited, if_pos hnodes]
  · have hlog := congrArg Prod.snd hruns'.unlimited
    exact Prod.ext hcount hlog
  · rw [tracePostorder, hruns'.limited, if_pos hnodes]

end Expr

end RowSpec
