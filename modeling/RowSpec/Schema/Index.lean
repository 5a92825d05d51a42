import Std.Data.TreeMap.Lemmas

/-! Names with positions. An index stands beside a list of entries and says at which place of the
list a name is found; it is kept up by hand, one entry after the other. -/
namespace RowSpec

abbrev Index := Std.TreeMap String Nat

namespace Index

/-- Each name is at the place where it first stands in the list, and there is no other name. -/
def Marks (index : Index) (names : List String) : Prop :=
  ∀ name, index[name]? = names.findIdx? (· == name)

variable {index : Index} {names : List String}

theorem marks_nil : Marks ∅ [] := fun _ => Std.TreeMap.getElem?_emptyc

theorem Marks.contains_iff (h : index.Marks names) {name : String} :
    index.contains name = true ↔ name ∈ names := by
  rw [Std.TreeMap.contains_eq_isSome_getElem?, h, List.findIdx?_isSome, List.any_eq_true]
  simp

/-- A new name goes in with the length of the list, and its entry behind the others. -/
theorem Marks.insert (h : index.Marks names) {name : String} (hnew : index.contains name = false) :
    Marks (index.insert name names.length) (names ++ [name]) := by
  intro other
  rw [Std.TreeMap.getElem?_insert, h, List.findIdx?_append]
  by_cases heq : name = other
  · subst heq
    have hfree : name ∉ names := fun hmem => by simp [h.contains_iff.mpr hmem] at hnew
    have hnone : names.findIdx? (· == name) = none :=
      List.findIdx?_eq_none_iff.mpr fun x hx => beq_eq_false_iff_ne.mpr fun he => hfree (he ▸ hx)
    simp [hnone]
  · have hcompare : compare name other ≠ .eq := fun he => heq (Std.LawfulEqOrd.eq_of_compare he)
    simp [hcompare, heq]

variable {α : Type} {key : α → String} {entries : List α}

/-- What stands at the place of a name is the first entry of that name. -/
theorem Marks.fetch [Inhabited α] (h : index.Marks (entries.map key)) (name : String) :
    index[name]?.map (entries[·]!) = entries.find? (key · == name) := by
  rw [h, List.findIdx?_map]
  clear h
  induction entries with
  | nil => rfl
  | cons entry entries ih =>
    rw [List.findIdx?_cons, List.find?_cons]
    by_cases hkey : key entry == name
    · simp [hkey]
    · simpa [hkey, Function.comp_def] using ih

end Index

end RowSpec
