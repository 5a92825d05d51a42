import RowSpec.Program
import RowSpec.Proofs.Erasure

/-! A dialogue as a whole. The lines before a line may have moved the count of ids and picked a root
table, and nothing else. So the root table is known from the lines, and what is printed for a line
that calls no reducer of its own hangs on the root table alone, whatever has been said before. -/
namespace RowSpec

namespace Session

def hearAll (s : Session) : List String → Option Session
  | [] => some s
  | line :: lines => (s.hear line).bind fun heard => heard.2.hearAll lines

def pick? (schema : Schema) (line : String) : Option String :=
  match Command.ofLine? line with
  | some (.setTable name) => if (schema.table? name).isSome then some name else none
  | _ => none

/-- The line is a command, an expression in which no reducer is called, or no expression at all. -/
def CallsNoReducer (line : String) : Prop :=
  ∀ source e c, Command.ofLine? line = some (.expression source) →
    parseSource .start source = (.ok e, c) → ∀ callee ∈ e.callees, callee.reducer? = none

theorem callsNoReducer_iff {line : String} :
    (Command.ofLine? line).all (fun
      | .expression source => (parseSource .start source).1.toOption.all fun e =>
        e.callees.all (·.reducer? = none)
      | _ => true) = true ↔ CallsNoReducer line := by
  unfold CallsNoReducer
  constructor
  · intro h source e c hcommand hparse
    rw [hcommand] at h
    simpa [hparse, Except.toOption] using h
  · intro h
    cases hcommand : Command.ofLine? line with
    | none => rfl
    | some command =>
      cases command with
      | expression source =>
        rcases hparse : parseSource .start source with ⟨_ | e, c⟩
        · simp [hparse, Except.toOption]
        · simpa [hparse, Except.toOption] using h source e c hcommand hparse
      | _ => rfl

instance (line : String) : Decidable (CallsNoReducer line) := decidable_of_iff _ callsNoReducer_iff

/-- Over the schema, the text is what is printed for the line behind the history. -/
def Prints (schema : Schema) (history : List String) (line text : String) : Prop :=
  (Program.converse (ofSchema schema) (history.map .ok ++ [.ok line])).1 =
    (Program.converse (ofSchema schema) (history.map .ok)).1 ++ text

variable {schema : Schema} {s s' : Session} {line text : String} {c : Counter}

theorem pick?_counter : pick? { schema with counter := c } = pick? schema := rfl

structure MovesOn (s : Session) (picked? : Option String) (s' : Session) : Prop where
  schema : ∃ c, s'.schema = { s.schema with counter := c }
  root : s'.root? = picked?.or s.root?

theorem MovesOn.refl (s : Session) : s.MovesOn none s := ⟨⟨s.schema.counter, rfl⟩, rfl⟩

theorem movesOn_respond {command : Command} (hline : Command.ofLine? line = some command)
    (h : s.respond command = some (text, s')) : s.MovesOn (pick? s.schema line) s' := by
  unfold pick?
  rw [hline]
  cases command with
  | help | showTable | listSpecs =>
    cases h
    exact .refl s
  | quit => cases h
  | setTable name =>
    simp only [respond] at h
    by_cases hname : (s.schema.table? name).isSome = true
    · rw [if_pos hname] at h
      cases h
      simp only [if_pos hname]
      exact ⟨⟨s.schema.counter, rfl⟩, rfl⟩
    · rw [if_neg hname] at h
      cases h
      simp only [if_neg hname]
      exact .refl s
  | showSpec name =>
    simp only [respond] at h
    split at h
    · cases h
      exact .refl s
    · cases h
      exact .refl s
  | check =>
    simp only [respond] at h
    split at h
    · cases h
      exact .refl s
    · cases h
      exact .refl s
  | expression source =>
    simp only [respond] at h
    split at h
    · cases h
      exact .refl s
    · next table _ =>
      cases h
      refine ⟨?_, rfl⟩
      rw [Schema.compileSource_snd, Schema.readOver_eq]
      split
      · exact ⟨s.schema.counter, rfl⟩
      · exact ⟨_, rfl⟩

/-- A line takes up ids and may pick a root table, and that is all. -/
theorem movesOn_hear (h : s.hear line = some (text, s')) : s.MovesOn (pick? s.schema line) s' := by
  unfold hear at h
  split at h
  · next hline =>
    cases h
    simp only [pick?, hline]
    exact .refl s
  · next command hline => exact movesOn_respond hline h

/-- Behind a history stands the table that was picked last. -/
theorem movesOn_hearAll {history : List String} (h : s.hearAll history = some s') :
    s.MovesOn (history.filterMap (pick? s.schema)).getLast? s' := by
  induction history generalizing s with
  | nil =>
    obtain rfl := Option.some.inj h
    exact .refl s
  | cons line history ih =>
    obtain ⟨⟨text, s₁⟩, hline, hrest⟩ := Option.bind_eq_some_iff.mp h
    obtain ⟨⟨c₁, hschema₁⟩, hroot₁⟩ := movesOn_hear hline
    obtain ⟨⟨c, hschema⟩, hroot⟩ := ih hrest
    rw [hschema₁] at hschema hroot
    refine ⟨⟨c, hschema⟩, ?_⟩
    rw [hroot, hroot₁, pick?_counter]
    cases hpick : pick? s.schema line with
    | none => rw [List.filterMap_cons_none hpick, Option.none_or]
    | some name =>
      rw [List.filterMap_cons_some hpick, List.getLast?_cons]
      cases (history.filterMap (pick? s.schema)).getLast? with
      | none => rfl
      | some later => rfl

theorem isSome_of_pick? {name : String} (h : pick? schema line = some name) :
    (schema.table? name).isSome = true := by
  unfold pick? at h
  split at h
  · split at h
    · next hname =>
      cases h
      exact hname
    · cases h
  · cases h

/-- The root table is one of the schema's, from the start and whenever one is picked. -/
theorem isSome_of_root? {history : List String} {name : String}
    (h : (history.filterMap (pick? schema)).getLast?.or (schema.tables.head?.map Table.name) =
      some name) : (schema.table? name).isSome = true := by
  rcases Option.or_eq_some_iff.mp h with hpick | ⟨_, hfirst⟩
  · obtain ⟨line, _, hline⟩ := List.mem_filterMap.mp (List.mem_of_getLast? hpick)
    exact isSome_of_pick? hline
  · obtain ⟨table, htable, rfl⟩ := Option.map_eq_some_iff.mp hfirst
    rw [schema.indexed.table?, List.find?_isSome]
    exact ⟨table, List.mem_of_mem_head? htable, beq_self_eq_true _⟩

theorem root?_eq_none_iff {history : List String} :
    (history.filterMap (pick? schema)).getLast?.or (schema.tables.head?.map Table.name) = none ↔
      schema.tables = [] := by
  constructor
  · intro h
    simpa using (Option.or_eq_none_iff.mp h).2
  · intro hempty
    cases hroot : (history.filterMap (pick? schema)).getLast?.or
      (schema.tables.head?.map Table.name) with
    | none => rfl
    | some name =>
      have hname := isSome_of_root? hroot
      rw [schema.indexed.table?, hempty] at hname
      cases hname

/-- Where no reducer is called, the count of ids does not show in what is printed. -/
theorem hear_counter (hline : CallsNoReducer line) (hs : s.schema = { schema with counter := c }) :
    (s.hear line).map Prod.fst = ((⟨schema, s.root?⟩ : Session).hear line).map Prod.fst := by
  obtain ⟨_, root?⟩ := s
  obtain rfl := hs
  unfold hear
  cases hcommand : Command.ofLine? line with
  | none => rfl
  | some command =>
    cases command with
    | help | quit | showTable | listSpecs => rfl
    | setTable name =>
      have htable : ({ schema with counter := c } : Schema).table? name = schema.table? name := rfl
      simp only [respond, htable]
      split
      · rfl
      · rfl
    | showSpec name =>
      have hspec : ({ schema with counter := c } : Schema).spec? name = schema.spec? name := rfl
      simp only [respond, hspec, Schema.check_spec_counter, Schema.statement_counter]
      cases schema.spec? name with
      | none => rfl
      | some spec => rfl
    | check =>
      simp only [respond, Schema.check_counter]
      cases schema.check with
      | ok => rfl
      | error error => rfl
    | expression source =>
      cases root? with
      | none => rfl
      | some table =>
        have hcompile := @Schema.compileSource_counter schema c table source fun e c' hp =>
          hline source e c' hcommand hp
        simp only [respond, Option.map_some, hcompile]

theorem converse_append {history : List String} (h : s.hearAll history = some s')
    (lines : List (Except Program.InputFault String)) :
    (Program.converse s (history.map .ok ++ lines)).1 =
      (Program.converse s (history.map .ok)).1 ++ (Program.converse s' lines).1 := by
  induction history generalizing s with
  | nil =>
    obtain rfl := Option.some.inj h
    simp [Program.converse]
  | cons line history ih =>
    obtain ⟨⟨text, s₁⟩, hline, hrest⟩ := Option.bind_eq_some_iff.mp h
    simp only [List.map_cons, List.cons_append, Program.converse, hline, ih hrest,
      String.append_assoc]

theorem prints_hear {history : List String} (h : (ofSchema schema).hearAll history = some s)
    (line : String) : Prints schema history line (((s.hear line).map Prod.fst).getD "") := by
  unfold Prints
  rw [converse_append h]
  congr 1
  rw [Program.converse]
  cases s.hear line with
  | none => rfl
  | some heard => simp [Program.converse]

/-- Along every dialogue the root table is the one picked last, or the first of the schema, and is
one of the schema's. Two histories that leave one root table leave nothing else that shows: behind
both the same is printed for a line in which no reducer is called. -/
theorem responses_ignore_history {history : List String}
    (h : (ofSchema schema).hearAll history = some s) :
    (s.root? = (history.filterMap (pick? schema)).getLast?.or
        (schema.tables.head?.map Table.name) ∧
      (s.root? = none ↔ schema.tables = []) ∧
      ∀ name ∈ s.root?, (schema.table? name).isSome = true) ∧
    ∀ history' s', (ofSchema schema).hearAll history' = some s' → s'.root? = s.root? →
      ∀ line, CallsNoReducer line → (s'.hear line).map Prod.fst = (s.hear line).map Prod.fst ∧
        ∃ text, Prints schema history line text ∧ Prints schema history' line text := by
  obtain ⟨⟨c, hschema⟩, hroot⟩ := movesOn_hearAll h
  refine ⟨⟨hroot, ?_, ?_⟩, ?_⟩
  · rw [hroot]
    exact root?_eq_none_iff
  · intro name hname
    rw [hroot] at hname
    exact isSome_of_root? hname
  · intro history' s' h' hsame line hline
    obtain ⟨⟨c', hschema'⟩, _⟩ := movesOn_hearAll h'
    have hheard : (s'.hear line).map Prod.fst = (s.hear line).map Prod.fst := by
      rw [hear_counter hline hschema, hear_counter hline hschema', hsame]
    refine ⟨hheard, _, prints_hear h line, ?_⟩
    rw [← hheard]
    exact prints_hear h' line

/-- One history has picked tables, one of them unknown, and tried an expression that does not read;
the other has compiled a reducer. -/
theorem responses_ignore_history_office : ∃ s s',
    (ofSchema Schema.office).hearAll
        [":table Account", "any(User, true", "Account.Open", ":t User", ":table Desk"] = some s ∧
      (ofSchema Schema.office).hearAll ["any(Account, Account.Open) and User.Active"] =
        some s' ∧
      s.schema.counter ≠ s'.schema.counter ∧ s'.root? = s.root? ∧
      CallsNoReducer "User.Active and not Calm(User)" ∧
      (s'.hear "User.Active and not Calm(User)").map Prod.fst =
        (s.hear "User.Active and not Calm(User)").map Prod.fst := by
  have hlong : ((ofSchema Schema.office).hearAll
      [":table Account", "any(User, true", "Account.Open", ":t User", ":table Desk"]).map
        (fun s => (s.root?, s.schema.counter)) = some (some "User", ⟨18⟩) := by decide +kernel
  have hshort : ((ofSchema Schema.office).hearAll
      ["any(Account, Account.Open) and User.Active"]).map
        (fun s => (s.root?, s.schema.counter)) = some (some "User", ⟨20⟩) := by decide +kernel
  have hline : CallsNoReducer "User.Active and not Calm(User)" := by decide +kernel
  obtain ⟨s, hs, hleft⟩ := Option.map_eq_some_iff.mp hlong
  obtain ⟨s', hs', hleft'⟩ := Option.map_eq_some_iff.mp hshort
  obtain ⟨hroot, hcounter⟩ := Prod.mk.inj hleft
  obtain ⟨hroot', hcounter'⟩ := Prod.mk.inj hleft'
  have hsame : s'.root? = s.root? := hroot'.trans hroot.symm
  have hapart : s.schema.counter ≠ s'.schema.counter := by
    rw [hcounter, hcounter']
    decide
  obtain ⟨_, hresponses⟩ := responses_ignore_history hs
  exact ⟨s, s', hs, hs', hapart, hsame, hline, (hresponses _ s' hs' hsame _ hline).1⟩

-- the names of a reducer hold the number of its call
example : ¬ CallsNoReducer "any(Account, Account.Open)" ∧
    ((ofSchema Schema.office).hear "any(Account, Account.Open)").map Prod.fst ≠
      (((ofSchema Schema.office).hearAll ["null"]).bind
        (·.hear "any(Account, Account.Open)")).map Prod.fst := by decide +kernel

end Session

end RowSpec
