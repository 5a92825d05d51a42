import RowSpec.Text.Basic

/-! White space: the characters with the Unicode property White_Space, and trimming by them. -/
namespace RowSpec.Text

/-- The ranges of White_Space, ends included: 25 characters in all. -/
def blankRanges : List (Nat × Nat) :=
  [(0x9, 0xD), (0x20, 0x20), (0x85, 0x85), (0xA0, 0xA0), (0x1680, 0x1680), (0x2000, 0x200A),
    (0x2028, 0x2029), (0x202F, 0x202F), (0x205F, 0x205F), (0x3000, 0x3000)]

def isBlank (c : Char) : Bool := inRanges blankRanges c

def trimStart (cs : List Char) : List Char := cs.dropWhile isBlank

def trim (cs : List Char) : List Char := (trimStart (trimStart cs).reverse).reverse

/-- The characters before the first blank, and those after it if there is one. -/
def splitAtBlank (cs : List Char) : List Char × Option (List Char) :=
  match cs.dropWhile (fun c => !isBlank c) with
  | [] => (cs, none)
  | _ :: rest => (cs.takeWhile (fun c => !isBlank c), some rest)

end RowSpec.Text
