import RowSpec.Text.ClusterBreak

/-! User-perceived characters: a text falls into clusters of characters that are seen as one, such
as a letter and its accents, a flag, a syllable or a joined emoji. -/
namespace RowSpec.Text

namespace ClusterBreak

/-- No neighbour is joined to these, except that a line feed follows a carriage return. -/
def standsAlone : ClusterBreak → Bool
  | carriageReturn | lineFeed | control => true
  | _ => false

/-- These belong to whatever character is before them. -/
def attaches : ClusterBreak → Bool
  | extend | linker | nonJoiner | joiner | spacing => true
  | _ => false

end ClusterBreak

/-- What the end of a text may combine with: an odd number of regional indicators with one more, a
pictograph with a joiner, a pictograph and a joiner with another pictograph, a consonant with a
linker, a consonant and a linker with another consonant. Characters that extend the last one may
stand in between. -/
inductive Tail where
  | plain
  | regional
  | pictograph
  | joined
  | consonant
  | linked
  deriving DecidableEq, Repr

namespace Tail

/-- A character that extends the last one; a pictograph is no longer joined behind it. -/
def extend : Tail → Tail
  | pictograph => pictograph
  | consonant => consonant
  | linked => linked
  | _ => plain

def link : Tail → Tail
  | pictograph => pictograph
  | consonant | linked => linked
  | _ => plain

def join : Tail → Tail
  | pictograph => joined
  | consonant => consonant
  | linked => linked
  | _ => plain

def next (t : Tail) : ClusterBreak → Tail
  | .regional => if t = regional then plain else regional
  | .pictograph => pictograph
  | .consonant => consonant
  | .extend => t.extend
  | .linker => t.link
  | .nonJoiner => if t = pictograph then pictograph else plain
  | .joiner => t.join
  | _ => plain

end Tail

structure ClusterEnd where
  last : ClusterBreak
  tail : Tail
  deriving DecidableEq, Repr

namespace ClusterEnd

def start : ClusterEnd := ⟨.control, .plain⟩

def next (e : ClusterEnd) (b : ClusterBreak) : ClusterEnd := ⟨b, e.tail.next b⟩

/-- Whether a character that is not attached to just any other joins the cluster at the end. -/
def combines (e : ClusterEnd) : ClusterBreak → Bool
  | .regional => e.tail = .regional
  | .pictograph => e.tail = .joined
  | .consonant => e.tail = .linked
  | .leading | .openSyllable | .closedSyllable => e.last = .leading
  | .vowel => e.last = .leading || e.last = .openSyllable || e.last = .vowel
  | .trailing =>
    e.last = .openSyllable || e.last = .vowel || e.last = .closedSyllable || e.last = .trailing
  | _ => false

/-- Whether the next character belongs to the cluster at the end. -/
def joins (e : ClusterEnd) (b : ClusterBreak) : Bool :=
  if e.last.standsAlone || b.standsAlone then e.last = .carriageReturn && b = .lineFeed
  else b.attaches || e.last = .prepend || e.combines b

def split (e : ClusterEnd) : List Char → List Char × List (List Char)
  | [] => ([], [])
  | c :: cs =>
    let (own, more) := split (e.next (clusterBreak c)) cs
    if e.joins (clusterBreak c) then (c :: own, more) else ([], (c :: own) :: more)

end ClusterEnd

def clusters (cs : List Char) : List (List Char) := (ClusterEnd.start.split cs).2

end RowSpec.Text
