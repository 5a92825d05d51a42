import RowSpec.Json.Reader

/-! Text formats for strings, lists and objects, as far as records are written and read with them. -/
namespace RowSpec.Json

/-- How a record is put together while it is read: from the members of an object by their names, or
from the values of a list in their order. A member is refused before its value is looked at. -/
structure Visitor (σ α : Type) where
  name : String
  start : σ
  member : σ → String → Except Mismatch (Reader σ)
  endObject : σ → Except Mismatch α
  element : σ → Option (Reader σ)
  endList : σ → Except Mismatch α

structure Codec where
  writeString : String → List Char
  writeList : List (List Char) → List Char
  writeObject : List (String × List Char) → List Char
  readString : Reader String
  readOptional : {α : Type} → Reader α → Reader (Option α)
  readList : {α : Type} → Reader α → Reader (List α)
  readRecord : {σ α : Type} → Visitor σ α → Reader α
  skipValue : Reader Unit
  finish : Reader Unit

end RowSpec.Json
