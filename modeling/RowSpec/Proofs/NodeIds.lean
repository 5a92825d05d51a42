import Mathlib.Data.List.Perm.Basic
import RowSpec.Proofs.Numbering
import RowSpec.Proofs.Operations

/-! Node ids over the life of a schema. As long as the ids taken fit into a word, no two nodes of
the specs of a schema and of the expressions read against it have the same id. -/
namespace RowSpec

namespace Schema

/-- The source that an operation comes to read. A registration under a taken name or over an unknown
table is refused before, and so is a compilation over an unknown table. -/
def reads? (s : Schema) : Operation → Option String
  | .addSpec name table source =>
    if (s.spec? name).isSome || (s.table? table).isNone then none else some source
  | .readExpr source => some source
  | .compileSource table source => if (s.table? table).isNone then none else some source

def taken (s : Schema) (operation : Operation) : Nat :=
  match s.reads? operation with
  | none => 0
  | some source => idsTaken s.counter source

def returned? (s : Schema) : Operation → Option (Expr NodeId)
  | .readExpr source => (s.readExpr source).1.toOption
  | _ => none

def takenAll (s : Schema) : List Operation → Nat
  | [] => 0
  | operation :: operations => s.taken operation + takenAll (s.perform operation) operations

def returnedAll (s : Schema) : List Operation → List (Expr NodeId)
  | [] => []
  | operation :: operations =>
    (s.returned? operation).toList ++ returnedAll (s.perform operation) operations

def nodeIds (s : Schema) (returned : List (Expr NodeId)) : List NodeId :=
  (s.specs.map Spec.body ++ returned).flatMap Expr.labels

structure Numbered (s : Schema) (n : Nat) (returned : List (Expr NodeId)) : Prop where
  count : s.counter.count.toNat = n
  spans : Spans 0 n (s.nodeIds returned)

variable {s : Schema} {n : Nat} {returned : List (Expr NodeId)}

theorem counter_perform (s : Schema) (operation : Operation) :
    (s.perform operation).counter = match s.reads? operation with
      | none => s.counter
      | some source => (parseSource s.counter source).2 := by
  cases operation with
  | addSpec name table source =>
    simp only [perform, reads?, toRegistry_addSpec]
    rcases s.toRegistry.addSpec_outcome name table source with
      ⟨hname, h⟩ | ⟨hname, htable, h⟩ | ⟨hname, htable, c, ⟨e, hp, h⟩ | ⟨body, hp, h⟩⟩
    · simp [h, hname]
    · simp [h, hname, htable]
    · obtain ⟨t, ht⟩ := Option.isSome_iff_exists.mp htable
      simp [h, hname, ht, hp]
    · obtain ⟨t, ht⟩ := Option.isSome_iff_exists.mp htable
      simp [h, hname, ht, hp, Registry.push]
  | readExpr source => rfl
  | compileSource table source =>
    simp only [perform, compileSource_snd, readOver_eq, reads?]
    split
    · rfl
    · rfl

/-- At most one expression is kept, as the body of a spec or handed out. -/
theorem nodeIds_perform (s : Schema) (operation : Operation) (returned : List (Expr NodeId)) :
    let ids := (s.perform operation).nodeIds (returned ++ (s.returned? operation).toList)
    ids = s.nodeIds returned ∨ ∃ source e c, s.reads? operation = some source ∧
      parseSource s.counter source = (.ok e, c) ∧ (s.nodeIds returned ++ e.labels).Perm ids := by
  cases operation with
  | addSpec name table source =>
    simp only [perform, reads?, returned?, Option.toList_none, List.append_nil, nodeIds,
      toRegistry_addSpec]
    rcases s.toRegistry.addSpec_outcome name table source with
      ⟨hname, h⟩ | ⟨hname, htable, h⟩ | ⟨hname, htable, c, ⟨e, hp, h⟩ | ⟨body, hp, h⟩⟩
    · exact Or.inl (by rw [h])
    · exact Or.inl (by rw [h])
    · exact Or.inl (by rw [h])
    · obtain ⟨t, ht⟩ := Option.isSome_iff_exists.mp htable
      refine Or.inr ⟨source, body, c, by simp [hname, ht], hp, ?_⟩
      rw [h]
      simp only [Registry.push, List.map_append, List.flatMap_append, List.map_singleton,
        List.flatMap_singleton, List.append_assoc]
      exact List.perm_append_comm.append_left _
  | readExpr source =>
    obtain ⟨r, c, hp⟩ : ∃ r c, parseSource s.counter source = (r, c) := ⟨_, _, rfl⟩
    cases r with
    | error e =>
      simp only [perform, returned?, readExpr_error hp]
      exact Or.inl (by simp [nodeIds, Except.toOption])
    | ok e =>
      simp only [perform, returned?, readExpr_ok hp]
      refine Or.inr ⟨source, e, c, rfl, hp, ?_⟩
      simp [nodeIds, Except.toOption]
  | compileSource table source =>
    refine Or.inl ?_
    simp only [perform, compileSource_snd, readOver_eq, returned?, Option.toList_none,
      List.append_nil]
    split
    · rfl
    · rfl

theorem Numbered.perform (h : s.Numbered n returned) (operation : Operation)
    (hn : n + s.taken operation < UInt32.size) :
    (s.perform operation).Numbered (n + s.taken operation)
      (returned ++ (s.returned? operation).toList) := by
  have hcounter := counter_perform s operation
  constructor
  · rw [hcounter]
    unfold taken at hn ⊢
    cases hreads : s.reads? operation with
    | none => exact h.count
    | some source =>
      rw [hreads] at hn
      exact toNat_parseSource h.count hn
  · rcases nodeIds_perform s operation returned with hids | ⟨source, e, c, hreads, hp, hids⟩
    · rw [hids]
      exact ⟨h.spans.nodup, fun id hid => (h.spans.range id hid).imp_right (by omega)⟩
    · have htaken : s.taken operation = idsTaken s.counter source := by rw [taken, hreads]
      rw [htaken] at hn ⊢
      -- what was read took its ids behind all that were there
      have hread := (spans_of_parseSource hp h.count hn).perm (Expr.labels_perm e).symm
      exact (h.spans.append hread (Nat.zero_le n) (by omega)).perm hids

theorem Numbered.performAll (h : s.Numbered n returned) {operations : List Operation}
    (hn : n + s.takenAll operations < UInt32.size) :
    (s.performAll operations).Numbered (n + s.takenAll operations)
      (returned ++ s.returnedAll operations) := by
  induction operations generalizing s n returned with
  | nil => simpa [takenAll, returnedAll, Schema.performAll] using h
  | cons operation operations ih =>
    simp only [takenAll, returnedAll] at hn ⊢
    rw [← Nat.add_assoc] at hn ⊢
    rw [← List.append_assoc]
    exact ih (h.perform operation (by omega)) hn

theorem numbered_of_ofTables {tables : List Table} (h : ofTables tables = .ok s) :
    s.Numbered 0 [] := by
  obtain ⟨_, _, hspecs, hcounter⟩ := ofTables_eq_ok h
  refine ⟨by rw [hcounter]; rfl, ?_, ?_⟩
  · rw [nodeIds, hspecs]
    exact List.nodup_nil
  · simp [nodeIds, hspecs]

inductive Took : Schema → Nat → Prop where
  | ofTables {tables : List Table} {s : Schema} (h : ofTables tables = .ok s) : Took s 0
  | addSpec {s : Schema} {n : Nat} (h : Took s n) {name table : String} (source : String)
    (hname : s.spec? name = none) (htable : (s.table? table).isSome = true) :
    Took (s.addSpec name table source).2 (n + idsTaken s.counter source)
  | readExpr {s : Schema} {n : Nat} (h : Took s n) (source : String) :
    Took (s.readExpr source).2 (n + idsTaken s.counter source)

theorem took_of_tables {tables : List Table}
    (h : firstRepeated [] (tables.map Table.name) = none) : Took (withTables tables) 0 :=
  .ofTables (ofTables_withTables h)

theorem Took.built (h : s.Took n) : s.Built := by
  induction h with
  | ofTables h => exact .ofTables h
  | addSpec _ source _ _ ih => exact ih.addSpec _ _ source
  | readExpr _ source ih => exact ih.readExpr source

theorem Numbered.forget (h : s.Numbered n returned) : s.Numbered n [] := by
  have hsub : (s.nodeIds []).Sublist (s.nodeIds returned) := by
    simp [nodeIds]
  refine ⟨h.count, h.spans.nodup.sublist hsub, fun id hid => h.spans.range id (hsub.subset hid)⟩

theorem Took.numbered (h : s.Took n) (hn : n < UInt32.size) : s.Numbered n [] := by
  induction h with
  | ofTables h => exact numbered_of_ofTables h
  | @addSpec s n _ name table source hname htable ih =>
    have htaken : s.taken (.addSpec name table source) = idsTaken s.counter source := by
      obtain ⟨t, ht⟩ := Option.isSome_iff_exists.mp htable
      simp [taken, reads?, hname, ht]
    rw [← htaken] at hn ⊢
    exact (ih (by omega)).perform _ hn
  | @readExpr s n _ source ih =>
    exact ((ih (by omega)).perform (.readExpr source) hn).forget

def specIds (s : Schema) : List NodeId := s.specs.flatMap fun spec => spec.body.ids

/-- Up to the last word no id is handed out twice. -/
theorem Took.spans (h : s.Took n) (hn : n < UInt32.size) :
    s.counter.count.toNat = n ∧ Spans 0 n s.specIds := by
  obtain ⟨hcount, hspans⟩ := h.numbered hn
  refine ⟨hcount, hspans.perm ?_⟩
  rw [nodeIds, List.append_nil, List.flatMap_map]
  exact List.Perm.flatMap_left _ fun spec _ => Expr.labels_perm spec.body

end Schema

/-- A parse that succeeds numbers the nodes in post-order from the count on, and moves the count by
as many. So the ids of all specs of a schema and of all expressions read against it are different,
as long as the ids taken fit into a word, those that went to operations that fail included. -/
theorem node_ids_exact_and_unique :
    (∀ (k : Nat) (tokens : List Token) (e : Expr NodeId), (parse (.after k) tokens).result = .ok e →
      e.labels = NodeId.behind k e.nodes.length ∧
        (parse (.after k) tokens).counter = .after (k + e.nodes.length) ∧
        (k + e.nodes.length < UInt32.size →
          e.labels.map (fun id => id.val.toNat) = List.range' (k + 1) e.nodes.length)) ∧
    ∀ (tables : List Table) (start : Schema) (operations : List Schema.Operation),
      Schema.ofTables tables = .ok start → start.takenAll operations < UInt32.size →
      (start.performAll operations).counter = .after (start.takenAll operations) ∧
        ((start.performAll operations).nodeIds (start.returnedAll operations)).Nodup := by
  constructor
  · intro k tokens e he
    obtain ⟨hlabels, hcounter⟩ := labels_of_parse he
    refine ⟨hlabels, hcounter, fun hlt => ?_⟩
    rw [hlabels]
    exact NodeId.toNat_behind hlt
  · intro tables start operations h hn
    have hrun := (Schema.numbered_of_ofTables h).performAll (by rwa [Nat.zero_add])
    rw [Nat.zero_add, List.nil_append] at hrun
    exact ⟨Counter.eq_after hrun.count, hrun.spans.nodup⟩

/-- Of the ids of the day, two went to a source that ends too early and two to a compilation. -/
theorem node_ids_exact_and_unique_office :
    (∃ tokens e, tokenize "not any(Account, 1 * x = 2) or f(y)" = .ok tokens ∧
      (parse (.after 7) tokens).result = .ok e ∧
      e.nodes.map (fun n => n.label.val.toNat) = [18, 15, 14, 8, 13, 11, 9, 10, 12, 17, 16] ∧
      e.labels.map (fun id => id.val.toNat) = [8, 9, 10, 11, 12, 13, 14, 15, 16, 17, 18] ∧
      (parse (.after 7) tokens).counter = .after 18) ∧
    ∃ start, Schema.ofTables Schema.offices = .ok start ∧ start.takenAll Schema.day = 15 ∧
      (Schema.office.nodeIds (start.returnedAll Schema.day)).length = 11 ∧
      Schema.office.counter = .after 15 ∧
      (Schema.office.nodeIds (start.returnedAll Schema.day)).Nodup := by
  obtain ⟨hparse, hrun⟩ := node_ids_exact_and_unique
  constructor
  · have hread : (tokenize "not any(Account, 1 * x = 2) or f(y)").toOption.any (fun tokens =>
        (parse (.after 7) tokens).result.toOption.any fun e =>
          e.nodes.map (fun n => n.label.val.toNat) = [18, 15, 14, 8, 13, 11, 9, 10, 12, 17, 16]) =
        true := by
      decide +kernel
    obtain ⟨tokens, htokens, hread⟩ := ok_of_any hread
    obtain ⟨e, he, hnodes⟩ := ok_of_any hread
    have hnodes := of_decide_eq_true hnodes
    have hlength : e.nodes.length = 11 := by
      rw [← List.length_map (fun n : Expr NodeId => n.label.val.toNat), hnodes]
      rfl
    obtain ⟨_, hcounter, hlabels⟩ := hparse 7 tokens e he
    rw [hlength] at hlabels hcounter
    exact ⟨tokens, e, htokens, he, hnodes, hlabels (by decide), hcounter⟩
  · have hstart : Schema.ofTables Schema.offices = .ok (.withTables Schema.offices) :=
      Schema.ofTables_withTables (by decide)
    have htaken : (Schema.withTables Schema.offices).takenAll Schema.day = 15 := by
      decide +kernel
    obtain ⟨hcounter, hnodup⟩ := hrun _ _ Schema.day hstart (by rw [htaken]; decide)
    rw [htaken] at hcounter
    exact ⟨_, hstart, htaken, by decide +kernel, hcounter, hnodup⟩

end RowSpec
