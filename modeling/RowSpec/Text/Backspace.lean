import RowSpec.Text.Basic
import RowSpec.Text.Cluster

/-! Lines as they were typed: a backspace takes back what was typed before it, one cluster at a
time. -/
namespace RowSpec.Text

def dropBack : Nat → List Char → List Char
  | 0, cs => cs
  | _ + 1, [] => []
  | n + 1, c :: cs => dropBack (n + 1 - c.utf8Size) cs

/-- What has been typed: the text backwards, and the sizes in bytes of its clusters, the last one
first. A size is kept in one byte, so a backspace leaves full multiples of 256 bytes. -/
structure Typed where
  text : List Char
  sizes : List Nat
  deriving DecidableEq, Repr

namespace Typed

def add (t : Typed) (cluster : List Char) : Typed :=
  ⟨cluster.reverse ++ t.text, byteCount cluster % 256 :: t.sizes⟩

def takeBack (t : Typed) : Typed :=
  match t.sizes with
  | [] => t
  | size :: sizes => ⟨dropBack size t.text, sizes⟩

def type (t : Typed) (cluster : List Char) : Typed :=
  if cluster = ['\x08'] then t.takeBack else t.add cluster

end Typed

def applyBackspaces (cs : List Char) : List Char :=
  ((clusters cs).foldl Typed.type ⟨[], []⟩).text.reverse

end RowSpec.Text
