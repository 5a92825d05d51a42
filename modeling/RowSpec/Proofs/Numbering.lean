import Mathlib.Data.List.Nodup
import RowSpec.Proofs.RoundTrip

/-! How a reading numbers the nodes. Each node that it builds takes one id, also if the reading
fails in the end. A reading that succeeds has numbered the nodes of its expression in post-order,
without a gap. -/
namespace RowSpec

namespace Parser

def Frame.built : Frame → Nat
  | .operator left _ => left.nodes.length
  | .negation | .group => 0
  | .call _ arguments => (Expr.nodesAll arguments).length

def Frame.builtAll : List Frame → Nat
  | [] => 0
  | frame :: frames => frame.built + builtAll frames

def Focus.built : Focus → Nat
  | .wanted | .name _ => 0
  | .operand e => e.nodes.length

/-- The number of nodes in a state. None is ever dropped, so this is also how many were built. -/
def State.built (s : State) : Nat := Frame.builtAll s.stack + s.focus.built

def State.stop (s : State) : List Token → State
  | [] => s.settle .endOfInput
  | token :: tokens =>
    let settled := s.settle token.kind
    if token.kind = .endOfInput then settled
    else match settled.shift token with
      | .ok s => stop s tokens
      | .error _ => settled

theorem State.run_counter (s : State) (tokens : List Token) :
    (s.run tokens).counter = (s.stop tokens).counter := by
  fun_induction State.stop s tokens with
  | case1 s => rfl
  | case2 s token tokens settled hend => simp [State.run, hend, settled]
  | case3 s token tokens settled hend next hshift ih =>
    simp only [State.run, hend, if_false]
    simpa only [settled, hshift] using ih
  | case4 s token tokens settled hend error hshift =>
    simp only [State.run, hend, if_false]
    simp only [settled] at hshift
    simp only [hshift, settled]

def State.Tallies (c : Counter) (s : State) : Prop :=
  s.counter.count = c.count + UInt32.ofNat s.built

variable {c : Counter}

theorem tallies_initial (c : Counter) : (initial c).Tallies c := by
  simp [State.Tallies, initial, State.built, Frame.builtAll, Focus.built]

theorem tally_next {k : UInt32} {n : Nat} (h : k = c.count + UInt32.ofNat n) :
    k + 1 = c.count + UInt32.ofNat (n + 1) := by
  rw [h, UInt32.ofNat_add, UInt32.add_assoc]
  rfl

theorem tallies_complete {e : Expr NodeId} {k : Counter} {stack : List Frame}
    (h : State.Tallies c ⟨stack, .operand e, k⟩) : (complete e k stack).Tallies c := by
  fun_induction complete e k stack with
  | case1 e k stack ih =>
    apply ih
    have hnext := tally_next h
    simpa [State.Tallies, State.built, Frame.builtAll, Frame.built, Focus.built, Expr.nodes,
      Counter.next, Nat.add_assoc] using hnext
  | case2 => exact h

theorem nodes_combine_length (label : NodeId) (op : Operator) (left right : Expr NodeId) :
    (Expr.combine label op left right).nodes.length =
      left.nodes.length + right.nodes.length + 1 := by
  cases op <;> simp [Expr.combine, Expr.nodes]

theorem tallies_closeOperators {least : Nat} {e : Expr NodeId} {k : Counter} {stack : List Frame}
    (h : State.Tallies c ⟨stack, .operand e, k⟩) :
    (closeOperators least e k stack).Tallies c := by
  fun_induction closeOperators least e k stack with
  | case1 e k left op stack hb ih =>
    apply ih
    have hnext := tally_next h
    simp only [State.Tallies, State.built, Frame.builtAll, Frame.built, Focus.built,
      nodes_combine_length, Counter.next] at hnext ⊢
    rw [hnext]
    congr 2
    omega
  | case2 | case3 => exact h

theorem tallies_settle {s : State} (h : s.Tallies c) (next : TokenKind) :
    (s.settle next).Tallies c := by
  obtain ⟨stack, focus, k⟩ := s
  cases focus with
  | wanted => exact h
  | operand e => exact tallies_closeOperators h
  | name path =>
    by_cases hn : next = .openParen
    · simpa [State.settle, State.settleName, State.settleOperators, hn] using h
    · have hname : (complete (.reference k.fresh path) k.next stack).Tallies c :=
        tallies_complete (tally_next h)
      obtain ⟨rest, e, k', he⟩ := complete_focus (.reference k.fresh path) k.next stack
      rw [he] at hname
      simp only [State.settle, State.settleName, if_neg hn, he]
      exact tallies_closeOperators hname

theorem tallies_readName {stack : List Frame} {k : Counter}
    (h : State.Tallies c ⟨stack, .wanted, k⟩) (path : Reference) :
    (State.readName ⟨stack, .wanted, k⟩ path).Tallies c := by
  unfold State.readName
  split
  · exact tallies_complete (tally_next h)
  · exact tallies_complete (tally_next h)
  · exact tallies_complete (tally_next h)
  · simpa [State.Tallies, State.built, Frame.builtAll, Frame.built] using h
  · exact h

theorem tallies_shiftOperand {stack : List Frame} {k : Counter} {token : Token} {u : State}
    (h : State.Tallies c ⟨stack, .wanted, k⟩)
    (hu : State.shiftOperand ⟨stack, .wanted, k⟩ token = .ok u) : u.Tallies c := by
  unfold State.shiftOperand at hu
  split at hu
  · cases hu
    exact tallies_complete (tally_next h)
  · cases hu
    exact tallies_complete (tally_next h)
  · cases hu
    exact tallies_readName h _
  · cases hu
    simpa [State.Tallies, State.built, Frame.builtAll, Frame.built] using h
  · cases hu

theorem nodesAll_append (es fs : List (Expr NodeId)) :
    Expr.nodesAll (es ++ fs) = Expr.nodesAll es ++ Expr.nodesAll fs := by
  induction es with
  | nil => rfl
  | cons e es ih => simp [Expr.nodesAll, ih]

theorem tallies_shiftBehind {stack : List Frame} {e : Expr NodeId} {k : Counter} {token : Token}
    {u : State} (h : State.Tallies c ⟨stack, .operand e, k⟩)
    (hu : State.shiftBehind ⟨stack, .operand e, k⟩ e token = .ok u) : u.Tallies c := by
  unfold State.shiftBehind at hu
  split at hu
  · cases hu
    simpa [State.Tallies, State.built, Frame.builtAll, Frame.built, Focus.built,
      Nat.add_comm] using h
  · next hs =>
    cases hu
    apply tallies_complete
    simp only at hs
    simpa [hs, State.Tallies, State.built, Frame.builtAll, Frame.built, Focus.built] using h
  · next callee arguments stack' _ hs =>
    cases hu
    apply tallies_complete
    simp only at hs
    subst hs
    have hnext := tally_next h
    simp only [State.Tallies, State.built, Frame.builtAll, Frame.built, Focus.built,
      Counter.next, Expr.nodes, nodesAll_append, Expr.nodesAll, List.append_nil,
      List.length_append, List.length_cons] at hnext ⊢
    rw [hnext]
    congr 2
    omega
  · next callee arguments stack' _ hs =>
    cases hu
    simp only at hs
    subst hs
    simp only [State.Tallies, State.built, Frame.builtAll, Frame.built, Focus.built,
      nodesAll_append, Expr.nodesAll, List.append_nil, List.length_append] at h ⊢
    rw [h]
    congr 2
    omega
  · cases hu
  · cases hu
  · cases hu

theorem tallies_shift {s u : State} {token : Token} (h : s.Tallies c)
    (hu : s.shift token = .ok u) : u.Tallies c := by
  obtain ⟨stack, focus, k⟩ := s
  cases focus with
  | wanted => exact tallies_shiftOperand h hu
  | operand e => exact tallies_shiftBehind h hu
  | name path =>
    cases hu
    simpa [State.Tallies, State.built, Frame.builtAll, Frame.built, Focus.built,
      Expr.nodesAll] using h

theorem tallies_stop {s : State} (h : s.Tallies c) (tokens : List Token) :
    (s.stop tokens).Tallies c := by
  fun_induction State.stop s tokens with
  | case1 s => exact tallies_settle h _
  | case2 s token tokens settled hend => exact tallies_settle h _
  | case3 s token tokens settled hend next hshift ih =>
    exact ih (tallies_shift (tallies_settle h _) hshift)
  | case4 s token tokens settled hend error hshift => exact tallies_settle h _

theorem State.built_of_finish {s : State} {e : Expr NodeId} (h : s.finish = .ok e) :
    s.built = e.nodes.length := by
  obtain ⟨stack, focus, k⟩ := s
  unfold State.finish at h
  split at h
  · next hfocus hstack =>
    simp only at hfocus hstack
    cases h
    simp [State.built, hfocus, hstack, Frame.builtAll, Focus.built]
  · cases h

theorem State.built_stop {s : State} {tokens : List Token} {e : Expr NodeId}
    (h : (s.run tokens).result = .ok e) : (s.stop tokens).built = e.nodes.length := by
  fun_induction State.stop s tokens with
  | case1 s => exact built_of_finish h
  | case2 s token tokens settled hend =>
    simp only [State.run, hend, if_true] at h
    simp only [settled, hend]
    exact built_of_finish h
  | case3 s token tokens settled hend next hshift ih =>
    apply ih
    simp only [settled] at hshift
    simpa only [State.run, hend, if_false, hshift] using h
  | case4 s token tokens settled hend error hshift =>
    simp only [settled] at hshift
    simp only [State.run, hend, if_false, hshift] at h
    cases h

end Parser

def idsTaken (c : Counter) (source : String) : Nat :=
  match tokenize source with
  | .error _ => 0
  | .ok tokens => ((Parser.initial c).stop tokens).built

theorem parseSource_count (c : Counter) (source : String) :
    (parseSource c source).2.count = c.count + UInt32.ofNat (idsTaken c source) := by
  cases ht : tokenize source with
  | error error => simp [parseSource, idsTaken, ht]
  | ok tokens =>
    simp only [parseSource, idsTaken, ht, parse, Parser.State.run_counter]
    exact Parser.tallies_stop (Parser.tallies_initial c) tokens

theorem idsTaken_of_parseSource {c c' : Counter} {source : String} {e : Expr NodeId}
    (h : parseSource c source = (.ok e, c')) : idsTaken c source = e.nodes.length := by
  cases ht : tokenize source with
  | error error => simp [parseSource, ht] at h
  | ok tokens =>
    simp only [parseSource, ht] at h
    obtain ⟨hresult, _⟩ := Prod.mk.inj h
    simp only [idsTaken, ht]
    apply Parser.State.built_stop
    cases hr : (parse c tokens).result with
    | error error => simp [hr, Except.mapError] at hresult
    | ok e' =>
      obtain rfl : e' = e := by simpa [hr, Except.mapError] using hresult
      exact hr

def Counter.after (k : Nat) : Counter := ⟨.ofNat k⟩

def NodeId.behind (k n : Nat) : List NodeId := (List.range' (k + 1) n).map fun i => ⟨.ofNat i⟩

theorem Counter.next_after (k : Nat) : (after k).next = after (k + 1) := by
  simp [after, next, UInt32.ofNat_add]

theorem Counter.fresh_after (k : Nat) : [(after k).fresh] = NodeId.behind k 1 := by
  simp [after, fresh, NodeId.behind, UInt32.ofNat_add]

theorem Counter.eq_after {c : Counter} {k : Nat} (h : c.count.toNat = k) : c = .after k := by
  obtain ⟨count⟩ := c
  simp [after, ← h]

theorem NodeId.behind_add (k n m : Nat) : behind k (n + m) = behind k n ++ behind (k + n) m := by
  have hrange := @List.range'_append_1 (k + 1) n m
  rw [behind, ← hrange, List.map_append, behind, behind, Nat.add_right_comm]

theorem NodeId.toNat_behind {k n : Nat} (h : k + n < UInt32.size) :
    (behind k n).map (fun id => id.val.toNat) = List.range' (k + 1) n := by
  rw [behind, List.map_map]
  refine (List.map_congr_left fun i hi => ?_).trans (List.map_id _)
  rw [List.mem_range'_1] at hi
  have hlt : i < UInt32.size := by omega
  rw [Function.comp_apply, UInt32.toNat_ofNat']
  exact Nat.mod_eq_of_lt hlt

structure Spans (lo hi : Nat) (ids : List NodeId) : Prop where
  nodup : ids.Nodup
  range : ∀ id ∈ ids, lo < id.val.toNat ∧ id.val.toNat ≤ hi

theorem Spans.append {lo mid hi : Nat} {xs ys : List NodeId} (hx : Spans lo mid xs)
    (hy : Spans mid hi ys) (hlo : lo ≤ mid) (hhi : mid ≤ hi) : Spans lo hi (xs ++ ys) where
  nodup := by
    rw [List.nodup_append]
    refine ⟨hx.nodup, hy.nodup, ?_⟩
    rintro a ha b hb rfl
    have hxa := hx.range a ha
    have hya := hy.range a hb
    omega
  range := by
    rw [List.forall_mem_append]
    constructor
    · intro id hid
      have hrange := hx.range id hid
      omega
    · intro id hid
      have hrange := hy.range id hid
      omega

theorem Spans.perm {lo hi : Nat} {xs ys : List NodeId} (h : Spans lo hi xs) (hp : xs.Perm ys) :
    Spans lo hi ys where
  nodup := hp.nodup_iff.mp h.nodup
  range id hid := h.range id (hp.mem_iff.mpr hid)

theorem spans_behind {k n : Nat} (h : k + n < UInt32.size) :
    Spans k (k + n) (NodeId.behind k n) := by
  have htoNat := NodeId.toNat_behind h
  constructor
  · have hnodup : (List.range' (k + 1) n).Nodup := List.nodup_range'
    rw [← htoNat] at hnodup
    exact List.Nodup.of_map _ hnodup
  · intro id hid
    have hmem : id.val.toNat ∈ (NodeId.behind k n).map fun id => id.val.toNat :=
      List.mem_map_of_mem hid
    rw [htoNat, List.mem_range'_1] at hmem
    omega

namespace Expr

variable {ι : Type}

def ids (e : Expr NodeId) : List NodeId := e.nodes.map label

mutual
/-- The labels in post-order: those of the operands or arguments from left to right, then that of
the node. -/
def labels : Expr ι → List ι
  | .binary label _ left right => labels left ++ labels right ++ [label]
  | .conjunction label left right => labels left ++ labels right ++ [label]
  | .disjunction label left right => labels left ++ labels right ++ [label]
  | .negation label child => labels child ++ [label]
  | .call label _ arguments => labelsAll arguments ++ [label]
  | .null label | .boolean label _ | .number label _ | .string label _ | .reference label _ =>
    [label]

def labelsAll : List (Expr ι) → List ι
  | [] => []
  | e :: es => labels e ++ labelsAll es
end

theorem labels_perm (e : Expr ι) : e.labels.Perm (e.nodes.map label) := by
  induction e using induction with
  | null | boolean | number | string | reference => exact .refl _
  | binary _ _ l r hl hr | conjunction _ l r hl hr | disjunction _ l r hl hr =>
    simp only [labels, nodes, List.map_cons, List.map_append, label]
    exact (List.perm_append_singleton _ _).trans ((hl.append hr).cons _)
  | negation _ child hc =>
    simp only [labels, nodes, List.map_cons, label]
    exact (List.perm_append_singleton _ _).trans (hc.cons _)
  | call _ _ arguments ih =>
    have all : (labelsAll arguments).Perm ((nodesAll arguments).map label) := by
      induction arguments with
      | nil => exact .refl _
      | cons a as iha =>
        obtain ⟨ha, has⟩ := List.forall_mem_cons.mp ih
        simp only [labelsAll, nodesAll, List.map_append]
        exact ha.append (iha has)
    simp only [labels, nodes, List.map_cons, label]
    exact (List.perm_append_singleton _ _).trans (all.cons _)

def TakesInOrder (t : Expr ι) : Prop :=
  ∀ k, (t.withIds (.after k)).1.labels = NodeId.behind k t.nodes.length ∧
    (t.withIds (.after k)).2 = .after (k + t.nodes.length)

theorem takesInOrder_all {ts : List (Expr ι)} (h : ∀ t ∈ ts, t.TakesInOrder) (k : Nat) :
    labelsAll (withIdsAll (.after k) ts).1 = NodeId.behind k (nodesAll ts).length ∧
      (withIdsAll (.after k) ts).2 = .after (k + (nodesAll ts).length) := by
  induction ts generalizing k with
  | nil => exact ⟨rfl, rfl⟩
  | cons t ts ih =>
    obtain ⟨ht, hts⟩ := List.forall_mem_cons.mp h
    obtain ⟨hfirst, hmid⟩ := ht k
    obtain ⟨hrest, hend⟩ := ih hts (k + t.nodes.length)
    simp only [withIdsAll, labelsAll, nodesAll, List.length_append]
    rw [hmid, hfirst, hrest, hend, NodeId.behind_add, Nat.add_assoc]
    exact ⟨rfl, rfl⟩

theorem takesInOrder (t : Expr ι) : t.TakesInOrder := by
  induction t using induction with
  | null | boolean | number | string | reference =>
    exact fun k => ⟨Counter.fresh_after k, Counter.next_after k⟩
  | binary _ _ l r hl hr | conjunction _ l r hl hr | disjunction _ l r hl hr =>
    intro k
    obtain ⟨hleft, hmid⟩ := hl k
    obtain ⟨hright, hend⟩ := hr (k + l.nodes.length)
    simp only [withIds, labels, nodes, List.length_cons, List.length_append]
    rw [hmid, hleft, hright, hend, Counter.fresh_after, Counter.next_after, NodeId.behind_add,
      NodeId.behind_add, Nat.add_assoc, Nat.add_assoc]
    exact ⟨rfl, rfl⟩
  | negation _ child hc =>
    intro k
    obtain ⟨hchild, hend⟩ := hc k
    simp only [withIds, labels, nodes, List.length_cons]
    rw [hchild, hend, Counter.fresh_after, Counter.next_after, NodeId.behind_add, Nat.add_assoc]
    exact ⟨rfl, rfl⟩
  | call _ callee arguments ih =>
    intro k
    obtain ⟨hall, hend⟩ := takesInOrder_all ih k
    simp only [withIds, labels, nodes, List.length_cons]
    rw [hall, hend, Counter.fresh_after, Counter.next_after, NodeId.behind_add, Nat.add_assoc]
    exact ⟨rfl, rfl⟩

def Counts (t : Expr ι) : Prop :=
  ∀ c n, c.count.toNat = n → n + t.nodes.length < UInt32.size →
    Spans n (n + t.nodes.length) (t.withIds c).1.ids ∧
      (t.withIds c).2.count.toNat = n + t.nodes.length

theorem counts (t : Expr ι) : t.Counts := by
  intro c n hc hlt
  obtain rfl := Counter.eq_after hc
  obtain ⟨hlabels, hend⟩ := t.takesInOrder n
  have hspans := spans_behind hlt
  rw [← hlabels] at hspans
  refine ⟨hspans.perm (labels_perm _), ?_⟩
  rw [hend, Counter.after, UInt32.toNat_ofNat']
  exact Nat.mod_eq_of_lt hlt

theorem nodes_erase_length (e : Expr ι) : e.erase.nodes.length = e.nodes.length := by
  rw [nodes_erase, List.length_map]

theorem label_withIds (t : Expr ι) (c : Counter) :
    (t.withIds c).1.label.val = (t.withIds c).2.count := by
  cases t <;> rfl

theorem last_withIdsAll (ts : List (Expr ι)) (c : Counter) :
    ∀ a ∈ (withIdsAll c ts).1.getLast?, a.label.val = (withIdsAll c ts).2.count := by
  induction ts generalizing c with
  | nil => simp [withIdsAll]
  | cons t ts ih =>
    intro a ha
    simp only [withIdsAll] at ha ⊢
    cases ts with
    | nil =>
      simp only [withIdsAll, List.getLast?_singleton, Option.mem_some] at ha ⊢
      rw [← ha]
      exact t.label_withIds c
    | cons u us =>
      rw [withIdsAll, List.getLast?_cons_cons] at ha
      exact ih (t.withIds c).2 a ha

def NumbersCalls (e : Expr NodeId) : Prop :=
  ∀ label callee arguments, .call label callee arguments ∈ e.nodes →
    ∀ a ∈ arguments.getLast?, label.val = a.label.val + 1

theorem numbersCalls_all {ts : List (Expr ι)} (h : ∀ t ∈ ts, ∀ c, (t.withIds c).1.NumbersCalls) :
    ∀ c, ∀ a ∈ (withIdsAll c ts).1, a.NumbersCalls := by
  induction ts with
  | nil => simp [withIdsAll]
  | cons t ts ih =>
    intro c
    obtain ⟨ht, hts⟩ := List.forall_mem_cons.mp h
    exact List.forall_mem_cons.mpr ⟨ht c, ih hts (t.withIds c).2⟩

theorem numbersCalls_withIds (t : Expr ι) : ∀ c, (t.withIds c).1.NumbersCalls := by
  induction t using induction with
  | null | boolean | number | string | reference =>
    intro c label callee arguments hn
    simp [withIds, nodes] at hn
  | binary _ _ l r hl hr | conjunction _ l r hl hr | disjunction _ l r hl hr =>
    intro c label callee arguments hn
    simp only [withIds, nodes, List.mem_cons, reduceCtorEq, false_or, List.mem_append] at hn
    rcases hn with hn | hn
    · exact hl c label callee arguments hn
    · exact hr (l.withIds c).2 label callee arguments hn
  | negation _ child hc =>
    intro c label callee arguments hn
    simp only [withIds, nodes, List.mem_cons, reduceCtorEq, false_or] at hn
    exact hc c label callee arguments hn
  | call _ callee' ts ih =>
    intro c label callee arguments hn
    rcases mem_nodes_call.mp hn with heq | ⟨a, ha, hn⟩
    · cases heq
      intro a ha
      rw [last_withIdsAll ts c a ha]
      rfl
    · exact numbersCalls_all ih c a ha label callee arguments hn

end Expr

/-- A parse that succeeds numbers the nodes from the count on. -/
theorem labels_of_parse {k : Nat} {tokens : List Token} {e : Expr NodeId}
    (h : (parse (.after k) tokens).result = .ok e) :
    e.labels = NodeId.behind k e.nodes.length ∧
      (parse (.after k) tokens).counter = .after (k + e.nodes.length) := by
  obtain ⟨he, hcounter⟩ := eq_withIds_of_parse h
  obtain ⟨hlabels, hend⟩ := e.erase.takesInOrder k
  rw [← he] at hlabels
  rw [hcounter, hend, hlabels, e.nodes_erase_length]
  exact ⟨rfl, rfl⟩

theorem numbersCalls_of_parseSource {c c' : Counter} {source : String} {e : Expr NodeId}
    (h : parseSource c source = (.ok e, c')) : e.NumbersCalls := by
  obtain ⟨_, _, _, hids⟩ := parseSource_eq_ok_iff.mp h
  have hnumbers := e.erase.numbersCalls_withIds c
  rwa [hids] at hnumbers

/-- The ids of an expression are those that its reading took. -/
theorem spans_of_parseSource {c c' : Counter} {source : String} {e : Expr NodeId} {n : Nat}
    (h : parseSource c source = (.ok e, c')) (hc : c.count.toNat = n)
    (hn : n + idsTaken c source < UInt32.size) : Spans n (n + idsTaken c source) e.ids := by
  rw [idsTaken_of_parseSource h] at hn ⊢
  obtain ⟨_, _, _, hids⟩ := parseSource_eq_ok_iff.mp h
  obtain ⟨hspans, _⟩ := e.erase.counts c n hc (by rw [e.nodes_erase_length]; exact hn)
  rw [hids, e.nodes_erase_length] at hspans
  exact hspans

theorem toNat_parseSource {c : Counter} {source : String} {n : Nat} (hc : c.count.toNat = n)
    (hn : n + idsTaken c source < UInt32.size) :
    (parseSource c source).2.count.toNat = n + idsTaken c source := by
  have hsize : UInt32.size = 2 ^ 32 := rfl
  rw [parseSource_count, UInt32.toNat_add, UInt32.toNat_ofNat', hc]
  omega

end RowSpec
