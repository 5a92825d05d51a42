import RowSpec.Config.File
import RowSpec.Proofs.JsonReading

/-! The text of a configuration gives the configuration back. In each of the five records a key that
may be left out is one without which the record can be read. -/
namespace RowSpec.Config

open Json

variable {codec : Codec}

theorem restores_field (hc : codec.Lawful) (f : Config.Field) :
    (fieldShape codec).Restores codec f := by
  refine Shape.restores_of_fills hc (by simp [fieldShape, Key.string, Key.optional]) ?_
  apply Fills.string hc
  apply Fills.optional hc
  · rfl
  · exact .nil

theorem restores_parent (hc : codec.Lawful) (p : Config.Parent) :
    (parentShape codec).Restores codec p := by
  refine Shape.restores_of_fills hc (by simp [parentShape, Key.string, Key.optional]) ?_
  apply Fills.string hc
  apply Fills.optional hc
  · rfl
  apply Fills.optional hc
  · rfl
  · exact .nil

theorem restores_table (hc : codec.Lawful) (t : Config.Table) :
    (tableShape codec).Restores codec t := by
  refine Shape.restores_of_fills hc (by simp [tableShape, Key.string, Key.optional, Key.list]) ?_
  apply Fills.string hc
  apply Fills.optional hc
  · rfl
  apply Fills.list hc
  · exact fun f _ => restores_field hc f
  apply Fills.list hc
  · exact fun p _ => restores_parent hc p
  · exact .nil

theorem restores_spec (hc : codec.Lawful) (s : Config.Spec) :
    (specShape codec).Restores codec s := by
  refine Shape.restores_of_fills hc (by simp [specShape, Key.string]) ?_
  apply Fills.string hc
  apply Fills.string hc
  apply Fills.string hc
  exact .nil

theorem restores_config (hc : codec.Lawful) (c : Config) : (shape codec).Restores codec c := by
  refine Shape.restores_of_fills hc (by simp [shape, Key.list]) ?_
  apply Fills.list hc
  · exact fun t _ => restores_table hc t
  apply Fills.list hc
  · exact fun s _ => restores_spec hc s
  · exact .nil

theorem decode_encode (hc : codec.Lawful) (c : Config) : decode codec (c.encode codec) = .ok c := by
  rw [decode, encode, (restores_config hc c).readText hc]
  rfl

/-- In a format whose reader inverts its writer on strings, lists and objects, every configuration
is read from its text as it was written, whichever of its values are there and whatever the strings,
so both give the same schema or the same error. -/
theorem config_reads_back (codec : Codec) (hc : codec.Lawful) (c : Config) :
    decode codec (c.encode codec) = .ok c ∧
      (decode codec (c.encode codec)).map Config.schema = .ok c.schema := by
  rw [decode_encode hc c]
  exact ⟨rfl, rfl⟩

theorem ofText_toJson (c : Config) : ofText c.toJson = .ok c := decode_encode lawful_codec c

/-- Some optional values are there and some are not, some lists are empty, and the source of the spec
has characters that are escaped. -/
def sample : Config where
  tables :=
    [⟨"User", none, [⟨"Name", none⟩], []⟩,
      ⟨"Team", some "Key", [], [⟨"Boss", some "User", none⟩]⟩]
  specs := [⟨"Named", "User", "User.Name !=\n\"a\\b\""⟩]

theorem config_reads_back_sample : Json.codec.Lawful ∧
    sample.toJson =
      "\x7b\"tables\":[\x7b\"table\":\"User\",\"fields\":[\x7b\"name\":\"Name\"\x7d]," ++
      "\"parents\":[]\x7d," ++
      "\x7b\"table\":\"Team\",\"id\":\"Key\",\"fields\":[]," ++
      "\"parents\":[\x7b\"name\":\"Boss\",\"table\":\"User\"\x7d]\x7d]," ++
      "\"specs\":[\x7b\"name\":\"Named\",\"table\":\"User\"," ++
      "\"spec\":\"User.Name !=\\n\\\"a\\\\b\\\"\"\x7d]\x7d" ∧
    ofText sample.toJson = .ok sample ∧
    (ofText sample.toJson).map Config.schema = .ok sample.schema := by
  refine ⟨lawful_codec, by decide +kernel, ?_⟩
  exact config_reads_back Json.codec lawful_codec sample

end RowSpec.Config
