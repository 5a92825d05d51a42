/-! String literals: quoted text in which a backslash escapes the quote and itself.
Any other escaped character keeps its backslash when it is read. -/
namespace RowSpec.Text

def escapeChar (c : Char) : List Char :=
  if c = '\\' then ['\\', '\\'] else if c = '\'' then ['\\', '\''] else [c]

def quote (s : String) : String :=
  String.ofList ('\'' :: (s.toList.flatMap escapeChar ++ ['\'']))

/-- The text of a literal's body, read between two of the given quotes. -/
def unescape (quote : Char) : List Char → List Char
  | [] => []
  | '\\' :: c :: cs =>
    if c = quote ∨ c = '\\' then c :: unescape quote cs else '\\' :: c :: unescape quote cs
  | c :: cs => c :: unescape quote cs

/-- Splits behind the closing quote: the body, still escaped, and what follows the literal. -/
def splitQuoted (quote : Char) : List Char → Option (List Char × List Char)
  | [] => none
  | '\\' :: c :: cs => (splitQuoted quote cs).map fun p => ('\\' :: c :: p.1, p.2)
  | c :: cs =>
    if c = quote then some ([], cs) else (splitQuoted quote cs).map fun p => (c :: p.1, p.2)

theorem splitQuoted_eq_some {quote : Char} {cs body rest : List Char}
    (h : splitQuoted quote cs = some (body, rest)) : cs = body ++ quote :: rest := by
  fun_induction splitQuoted quote cs generalizing body rest with
  | case1 => simp at h
  | case2 c cs ih =>
    obtain ⟨p, hp, e⟩ := Option.map_eq_some_iff.1 h
    obtain ⟨rfl, rfl⟩ := Prod.mk.inj e
    simpa using ih hp
  | case3 cs => simp at h; obtain ⟨rfl, rfl⟩ := h; simp
  | case4 c cs _ _ ih =>
    obtain ⟨p, hp, e⟩ := Option.map_eq_some_iff.1 h
    obtain ⟨rfl, rfl⟩ := Prod.mk.inj e
    simpa using ih hp

end RowSpec.Text
