import RowSpec.Json.Shape
import RowSpec.Proofs.Operations

/-! Records that are written read back, in every text format whose reader inverts its writer on
strings, lists and objects. A record is written along its keys, of which some may be left out: the
reader asks for none of these, and the blank record has no value there. -/
namespace RowSpec.Json

variable {σ α β : Type}

/-- The reader takes the text from the front of any input, and leaves what stands behind it. -/
def Takes (reader : Reader α) (text : List Char) (a : α) : Prop :=
  ∀ rest, reader.run (text ++ rest) = (.ok a, rest)

theorem Takes.map {reader : Reader α} {text : List Char} {a : α} (h : Takes reader text a)
    (f : α → β) : Takes (do return f (← reader)) text (f a) := by
  intro rest
  rw [Attempt.run_bind_ok (h rest)]
  rfl

inductive Codec.Writes (codec : Codec) : List Char → Prop where
  | string (s : String) : codec.Writes (codec.writeString s)
  | list {items : List (List Char)} (h : ∀ item ∈ items, codec.Writes item) :
    codec.Writes (codec.writeList items)
  | object {members : List (String × List Char)} (h : ∀ m ∈ members, codec.Writes m.2) :
    codec.Writes (codec.writeObject members)

inductive Visitor.Visits (codec : Codec) (visitor : Visitor σ α) :
    σ → List (String × List Char) → σ → Prop where
  | nil (s : σ) : Visits codec visitor s [] s
  | cons {s s' t : σ} {name : String} {text : List Char} {members : List (String × List Char)}
    {value : Reader σ} (haccept : visitor.member s name = .ok value) (hw : codec.Writes text)
    (htake : Takes value text s') (more : Visits codec visitor s' members t) :
    Visits codec visitor s ((name, text) :: members) t

/-- The reader of the codec inverts its writer on strings, lists and objects: a string gives itself,
a list its elements, and an object its members in their order. -/
structure Codec.Lawful (codec : Codec) : Prop where
  string (s : String) : Takes codec.readString (codec.writeString s) s
  optional {α : Type} {value : Reader α} {text : List Char} {a : α} (hw : codec.Writes text)
    (h : Takes value text a) : Takes (codec.readOptional value) text (some a)
  list {α : Type} {element : Reader α} {write : α → List Char} {values : List α}
    (h : ∀ a ∈ values, codec.Writes (write a) ∧ Takes element (write a) a) :
    Takes (codec.readList element) (codec.writeList (values.map write)) values
  object {σ α : Type} {visitor : Visitor σ α} {members : List (String × List Char)} {t : σ} {a : α}
    (h : visitor.Visits codec visitor.start members t) (ha : visitor.endObject t = .ok a) :
    Takes (codec.readRecord visitor) (codec.writeObject members) a
  finish : codec.finish.run [] = (.ok (), [])

variable {codec : Codec}

/-- The record `value` comes about along the keys: what is written for a key is read into the record
so far, and a key for which nothing is written is not asked for. -/
inductive Fills (codec : Codec) (value : α) : List (Key α) → α → Prop where
  | nil : Fills codec value [] value
  | write {key : Key α} {keys : List (Key α)} {a b : α} {text : List Char}
    (htext : key.write value = some text) (hw : codec.Writes text)
    (hread : Takes (key.read a) text b) (more : Fills codec value keys b) :
    Fills codec value (key :: keys) a
  | leave {key : Key α} {keys : List (Key α)} {a : α} (htext : key.write value = none)
    (hkey : key.required = false) (more : Fills codec value keys a) :
    Fills codec value (key :: keys) a

namespace Shape

structure Restores (codec : Codec) (shape : Shape α) (value : α) : Prop where
  writes : codec.Writes (shape.write codec value)
  takes : Takes (shape.read codec) (shape.write codec value) value

theorem writes_members {keys : List (Key α)} {a value : α} (h : Fills codec value keys a) :
    ∀ m ∈ keys.filterMap (Key.member? value), codec.Writes m.2 := by
  induction h with
  | nil => simp
  | write htext hw _ _ ih =>
    rw [List.filterMap_cons, Key.member?, htext]
    exact List.forall_mem_cons.mpr ⟨hw, ih⟩
  | leave htext _ _ ih =>
    rw [List.filterMap_cons, Key.member?, htext]
    exact ih

theorem member_of_mem {shape : Shape α} {p : Progress α} {key : Key α}
    (hnames : (shape.keys.map Key.name).Nodup) (hkey : key ∈ shape.keys)
    (hnew : key.name ∉ p.seen) :
    (shape.visitor codec).member p key.name = .ok (take p key) := by
  have hfind : shape.keys.find? (·.name == key.name) = some key :=
    (find?_eq_some_iff_of_nodup hnames).mpr ⟨hkey, rfl⟩
  simp [visitor, hfind, hnew]

/-- The keys are met in their order, so the ones seen are among those before: none is met twice, and
a required one is not passed by. -/
theorem visits_members {shape : Shape α} (hnames : (shape.keys.map Key.name).Nodup)
    {keys : List (Key α)} {a value : α} (h : Fills codec value keys a)
    {before : List (Key α)} {seen : List String} (hkeys : shape.keys = before ++ keys)
    (hseen : ∀ name ∈ seen, name ∈ before.map Key.name)
    (hbefore : ∀ key ∈ before, key.required = true → key.name ∈ seen) :
    ∃ p : Progress α, p.value = value ∧
      (∀ key ∈ shape.keys, key.required = true → key.name ∈ p.seen) ∧
      (shape.visitor codec).Visits codec ⟨a, seen⟩ (keys.filterMap (Key.member? value)) p := by
  induction h generalizing before seen with
  | nil =>
    rw [List.append_nil] at hkeys
    exact ⟨⟨value, seen⟩, rfl, hkeys ▸ hbefore, .nil _⟩
  | @write key keys a b text htext hw hread more ih =>
    have hmem : key ∈ shape.keys := by simp [hkeys]
    have hnew : key.name ∉ seen := by
      intro hold
      rw [hkeys, List.map_append, List.map_cons, List.nodup_append] at hnames
      exact hnames.2.2 _ (hseen _ hold) _ List.mem_cons_self rfl
    obtain ⟨p, hvalue, hrequired, hvisits⟩ := @ih (before ++ [key]) (key.name :: seen)
      (by simp [hkeys]) (by grind) (by grind)
    refine ⟨p, hvalue, hrequired, ?_⟩
    rw [List.filterMap_cons, Key.member?, htext]
    have haccept := @member_of_mem _ codec _ ⟨a, seen⟩ _ hnames hmem hnew
    exact .cons haccept hw (hread.map (Progress.mk · (key.name :: seen))) hvisits
  | @leave key keys a htext hkey more ih =>
    rw [List.filterMap_cons, Key.member?, htext]
    exact @ih (before ++ [key]) seen (by simp [hkeys]) (by grind) (by grind)

theorem restores_of_fills (hc : codec.Lawful) {shape : Shape α}
    (hnames : (shape.keys.map Key.name).Nodup) {value : α}
    (h : Fills codec value shape.keys shape.blank) : shape.Restores codec value := by
  refine ⟨.object (writes_members h), ?_⟩
  obtain ⟨p, rfl, hrequired, hvisits⟩ := visits_members hnames h (List.nil_append _).symm
    (fun name hname => absurd hname List.not_mem_nil)
    (fun key hkey => absurd hkey List.not_mem_nil)
  have hmissing : shape.keys.find? (lacks p) = none := by
    rw [List.find?_eq_none]
    intro key hkey hlacks
    simp only [lacks, Bool.and_eq_true, decide_eq_true_eq] at hlacks
    exact hlacks.2 (hrequired key hkey hlacks.1)
  refine hc.object hvisits ?_
  simp only [visitor, hmissing]

theorem Restores.readText (hc : codec.Lawful) {shape : Shape α} {value : α}
    (h : shape.Restores codec value) :
    shape.readText codec (String.ofList (shape.write codec value)) = .ok value := by
  have hread := h.takes []
  rw [List.append_nil] at hread
  rw [Shape.readText, readWhole, String.toList_ofList, Attempt.run_bind_ok hread,
    Attempt.run_bind_ok hc.finish]
  rfl

end Shape

namespace Fills

variable {keys : List (Key α)} {a value : α}

theorem string (hc : codec.Lawful) (name : String) (get : α → String) (set : α → String → α)
    (more : Fills codec value keys (set a (get value))) :
    Fills codec value (.string codec name get set :: keys) a :=
  .write rfl (.string _) ((hc.string (get value)).map (set a)) more

theorem optional (hc : codec.Lawful) (name : String) (get : α → Option String)
    (set : α → Option String → α) (hblank : set a none = a)
    (more : Fills codec value keys (set a (get value))) :
    Fills codec value (.optional codec name get set :: keys) a := by
  cases hvalue : get value with
  | none =>
    rw [hvalue, hblank] at more
    exact .leave (by simp [Key.optional, hvalue]) rfl more
  | some s =>
    rw [hvalue] at more
    have htext : (Key.optional codec name get set).write value = some (codec.writeString s) := by
      simp [Key.optional, hvalue]
    exact .write htext (.string s) ((hc.optional (.string s) (hc.string s)).map (set a)) more

theorem list (hc : codec.Lawful) (name : String) (required : Bool) {item : Shape β}
    (get : α → List β) (set : α → List β → α) (hitems : ∀ b ∈ get value, item.Restores codec b)
    (more : Fills codec value keys (set a (get value))) :
    Fills codec value (.list codec name required item get set :: keys) a := by
  have hlist := hc.list fun b hb => ⟨(hitems b hb).writes, (hitems b hb).takes⟩
  refine .write rfl (.list ?_) (hlist.map (set a)) more
  intro text htext
  obtain ⟨b, hb, rfl⟩ := List.mem_map.mp htext
  exact (hitems b hb).writes

end Fills

end RowSpec.Json
