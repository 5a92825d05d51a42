import RowSpec.Json.Text
import RowSpec.Proofs.CodecLaws

/-! JSON that is written reads back: the laws of a text format hold of JSON. What is written for a
string, a list or an object ends with a character of its own, so a reader takes it from the front of
any input and leaves the rest. -/
namespace RowSpec.Json

variable {σ α : Type}

theorem run_peek {c : Char} (hc : isSpace c = false) (cs : List Char) :
    peek.run (c :: cs) = (.ok c, c :: cs) := by
  have hdrop : (c :: cs).dropWhile isSpace = c :: cs := by simp [hc]
  simp [peek, peek?, Attempt.run_bind, hdrop]

theorem run_drop_one (c : Char) (cs : List Char) : (drop 1).run (c :: cs) = (.ok (), cs) := rfl

/-! ### Strings -/

def Piece.IsFor (c : Char) : Piece → Prop
  | .char d => d = c
  | .unit code => code = c.toNat ∧ code < 0xD800

theorem hexValue?_hexDigit : ∀ n < 16, hexValue? (hexDigit n) = some n := by decide

theorem hexUnit?_hexDigit {n : Nat} (h : n < 256) :
    hexUnit? '0' '0' (hexDigit (n / 16)) (hexDigit (n % 16)) = some n := by
  have hzero : hexValue? '0' = some 0 := rfl
  have hhigh : hexValue? (hexDigit (n / 16)) = some (n / 16) := hexValue?_hexDigit _ (by omega)
  have hlow : hexValue? (hexDigit (n % 16)) = some (n % 16) := hexValue?_hexDigit _ (by omega)
  simp [hexUnit?, hzero, hhigh, hlow]
  omega

/-- A character is escaped by a letter, escaped by its number, or stands for itself. -/
theorem writeChar_cases (c : Char) :
    (∃ d, writeChar c = ['\\', d] ∧ d ≠ 'u' ∧ escape? d = some c) ∨
      (c.toNat < 32 ∧ writeChar c =
        ['\\', 'u', '0', '0', hexDigit (c.toNat / 16), hexDigit (c.toNat % 16)]) ∨
      (writeChar c = [c] ∧ c ≠ '"' ∧ c ≠ '\\' ∧ ¬ c < ' ') := by
  by_cases hletter : c ∈ ['"', '\\', '\x08', '\x0c', '\n', '\r', '\t']
  · left
    simp only [List.mem_cons, List.not_mem_nil, or_false] at hletter
    rcases hletter with rfl | rfl | rfl | rfl | rfl | rfl | rfl
    · exact ⟨'"', rfl, by decide, rfl⟩
    · exact ⟨'\\', rfl, by decide, rfl⟩
    · exact ⟨'b', rfl, by decide, rfl⟩
    · exact ⟨'f', rfl, by decide, rfl⟩
    · exact ⟨'n', rfl, by decide, rfl⟩
    · exact ⟨'r', rfl, by decide, rfl⟩
    · exact ⟨'t', rfl, by decide, rfl⟩
  · right
    simp only [List.mem_cons, not_or] at hletter
    obtain ⟨hquote, hslash, hb, hf, hn, hr, ht, _⟩ := hletter
    by_cases hc : c < ' '
    · exact Or.inl ⟨hc, by simp only [writeChar, hquote, hslash, hb, hf, hn, hr, ht, hc, if_true,
        if_false]⟩
    · exact Or.inr ⟨by simp only [writeChar, hquote, hslash, hb, hf, hn, hr, ht, hc, if_false],
        hquote, hslash, hc⟩

theorem pieces_writeChar (c : Char) (rest : List Char) : ∃ piece : Piece,
    pieces (writeChar c ++ rest) = piece.before (pieces rest) ∧ piece.IsFor c := by
  rcases writeChar_cases c with ⟨d, htext, hd, hescape⟩ | ⟨hc, htext⟩ | ⟨htext, hquote, hslash, hc⟩
  · exact ⟨.char c, by simp [htext, pieces, hd, hescape], rfl⟩
  · have hunit := hexUnit?_hexDigit (show c.toNat < 256 by omega)
    exact ⟨.unit c.toNat, by simp [htext, pieces, hunit], rfl, by omega⟩
  · exact ⟨.char c, by simp [htext, pieces, hslash, hc], rfl⟩

theorem characters_cons {piece : Piece} {c : Char} (h : piece.IsFor c) (rest : List Char)
    (more : List Piece) :
    characters (.closed rest) (piece :: more) =
      (characters (.closed rest) more).map fun p => (c :: p.1, p.2) := by
  cases piece with
  | char d =>
    obtain rfl : d = c := h
    rw [characters]
  | unit code =>
    obtain ⟨rfl, hcode⟩ := h
    have hlead : isLead c.toNat = false := by simp [isLead]; omega
    have htrail : isTrail c.toNat = false := by simp [isTrail]; omega
    -- A unit looks at the piece behind it, for it might be the first of a pair.
    rcases more with _ | ⟨_ | _, more⟩
    · simp [characters, hlead, htrail, Except.map]
    · cases hmore : characters (.closed rest) more <;>
        simp [characters, hlead, htrail, hmore, Except.map]
    · simp [characters, hlead, htrail]

theorem characters_pieces (cs rest : List Char) : ∃ found,
    pieces (cs.flatMap writeChar ++ '"' :: rest) = (found, .closed rest) ∧
      characters (.closed rest) found = .ok (cs, rest) := by
  induction cs with
  | nil => exact ⟨[], by simp [pieces], by simp [characters]⟩
  | cons c cs ih =>
    obtain ⟨found, hpieces, hfound⟩ := ih
    obtain ⟨piece, hpiece, hc⟩ := pieces_writeChar c (cs.flatMap writeChar ++ '"' :: rest)
    refine ⟨piece :: found, ?_, ?_⟩
    · rw [List.flatMap_cons, List.append_assoc, hpiece, hpieces]
      rfl
    · rw [characters_cons hc, hfound]
      rfl

theorem takes_stringBody (s : String) :
    Takes stringBody (s.toList.flatMap writeChar ++ ['"']) s := by
  intro rest
  obtain ⟨found, hpieces, hfound⟩ := characters_pieces s.toList rest
  simp [stringBody, hpieces, hfound]

theorem takes_readString (s : String) : Takes readString (writeString s) s := by
  intro rest
  rw [readString, writeString, List.cons_append, Attempt.run_bind_ok (run_peek rfl _), if_pos rfl,
    Attempt.run_bind_ok (run_drop_one _ _)]
  exact takes_stringBody s rest

/-! ### Repetition -/

inductive Runs (step : σ → Reader (Option σ)) : Nat → σ → List Char → σ → List Char → Prop where
  | done {s text rest} (h : (step s).run text = (.ok none, rest)) : Runs step 0 s text s rest
  | next {n s s' t text text' rest} (h : (step s).run text = (.ok (some s'), text'))
      (more : Runs step n s' text' t rest) : Runs step (n + 1) s text t rest

theorem Runs.repeatSteps {step : σ → Reader (Option σ)} {n m : Nat} {s t : σ}
    {text rest : List Char} (h : Runs step n s text t rest) (hm : n < m) :
    (repeatSteps step m s).run text = (.ok t, rest) := by
  induction h generalizing m with
  | done h =>
    obtain ⟨k, rfl⟩ : ∃ k, m = k + 1 := ⟨m - 1, by omega⟩
    rw [Json.repeatSteps, Attempt.run_bind_ok h]
    rfl
  | next h _ ih =>
    obtain ⟨k, rfl⟩ : ∃ k, m = k + 1 := ⟨m - 1, by omega⟩
    rw [Json.repeatSteps, Attempt.run_bind_ok h]
    exact ih (by omega)

def joined : Bool → List (List Char) → List Char
  | _, [] => []
  | first, item :: items => (if first then [] else [',']) ++ item ++ joined false items

theorem separate_eq_joined (items : List (List Char)) : separate items = joined true items := by
  induction items with
  | nil => rfl
  | cons item items ih =>
    cases items with
    | nil => simp [separate, joined]
    | cons next items => simpa [separate, joined] using ih

theorem length_le_joined {items : List (List Char)} (h : ∀ item ∈ items, item ≠ [])
    (first : Bool) : items.length ≤ (joined first items).length := by
  induction items generalizing first with
  | nil => exact Nat.zero_le _
  | cons item items ih =>
    have hitem : 0 < item.length := List.length_pos_of_ne_nil (h item List.mem_cons_self)
    have hitems := ih (fun item hitem => h item (List.mem_cons_of_mem _ hitem)) false
    simp only [joined, List.length_append, List.length_cons]
    omega

/-- Every item takes a character, so the length of the text allows a step for each. -/
theorem Runs.repeatToEnd {step : σ → Reader (Option σ)} {s t : σ} {items : List (List Char)}
    {text rest : List Char} (hitems : ∀ item ∈ items, item ≠ [])
    (h : Runs step items.length s (joined true items ++ text) t rest) :
    (repeatToEnd step s).run (joined true items ++ text) = (.ok t, rest) := by
  have hlength := length_le_joined hitems true
  rw [Json.repeatToEnd, Attempt.run_bind_ok (Attempt.run_read _)]
  apply h.repeatSteps
  rw [List.length_append]
  omega

/-! ### Lists -/

/-- The text starts as a value does: with no space, not with the end of a list, and not as `null`. -/
def Opens (text : List Char) : Prop :=
  ∃ c cs, text = c :: cs ∧ isSpace c = false ∧ c ≠ ']' ∧ c ≠ 'n'

theorem Opens.ne_nil {text : List Char} (h : Opens text) : text ≠ [] := by
  obtain ⟨c, cs, rfl, -⟩ := h
  exact List.cons_ne_nil c cs

theorem opens_of_writes {text : List Char} (h : codec.Writes text) : Opens text := by
  cases h with
  | string => exact ⟨'"', _, rfl, rfl, by decide, by decide⟩
  | list => exact ⟨'[', _, rfl, rfl, by decide, by decide⟩
  | object => exact ⟨'\x7b', _, rfl, rfl, by decide, by decide⟩

theorem takes_readOptional {value : Reader α} {text : List Char} {a : α} (ho : Opens text)
    (h : Takes value text a) : Takes (readOptional value) text (some a) := by
  intro rest
  obtain ⟨c, cs, rfl, hspace, -, hn⟩ := ho
  have hpeek : peek.run (c :: cs ++ rest) = (.ok c, c :: cs ++ rest) := run_peek hspace _
  rw [readOptional, Attempt.run_bind_ok hpeek, if_neg hn]
  exact h.map some rest

theorem hasElement_item {text : List Char} (h : Opens text) (first : Bool) (rest : List Char) :
    (hasElement first).run ((if first then [] else [',']) ++ text ++ rest) =
      (.ok true, text ++ rest) := by
  obtain ⟨c, cs, rfl, hspace, hc, -⟩ := h
  have hpeek : peek.run (c :: cs ++ rest) = (.ok c, c :: cs ++ rest) := run_peek hspace _
  cases first with
  | true =>
    rw [hasElement, if_pos rfl, List.nil_append, Attempt.run_bind_ok hpeek, if_neg hc, if_pos rfl]
    rfl
  | false =>
    rw [hasElement, if_neg (by decide), List.append_assoc, List.singleton_append,
      Attempt.run_bind_ok (run_peek rfl _), if_neg (by decide), if_neg (by decide), if_pos rfl,
      Attempt.run_bind_ok (run_drop_one _ _), Attempt.run_bind_ok hpeek, if_neg hc]
    rfl

theorem elementStep_item {element : Reader α} {text : List Char} {a : α} (ho : Opens text)
    (ha : Takes element text a) (read : List α) (first : Bool) (rest : List Char) :
    (elementStep (collect element) ⟨read, first⟩).run
        ((if first then [] else [',']) ++ text ++ rest) =
      (.ok (some ⟨a :: read, false⟩), rest) := by
  simp only [elementStep, collect]
  rw [Attempt.run_bind_ok (hasElement_item ho first rest), if_pos rfl,
    Attempt.run_bind_ok (ha.map (· :: read) rest)]
  rfl

theorem elementStep_end (element : Reader α) (s : Standing (List α)) (rest : List Char) :
    (elementStep (collect element) s).run (']' :: rest) = (.ok none, ']' :: rest) := by
  have hend : (hasElement s.first).run (']' :: rest) = (.ok false, ']' :: rest) := by
    rw [hasElement, Attempt.run_bind_ok (run_peek rfl _), if_pos rfl]
    rfl
  simp only [elementStep, collect]
  rw [Attempt.run_bind_ok hend, if_neg (by decide)]
  rfl

theorem runs_elementStep {element : Reader α} {write : α → List Char} (values : List α)
    (h : ∀ a ∈ values, Opens (write a) ∧ Takes element (write a) a) (read : List α) (first : Bool)
    (rest : List Char) : ∃ last,
    Runs (elementStep (collect element)) values.length ⟨read, first⟩
      (joined first (values.map write) ++ ']' :: rest) ⟨values.reverse ++ read, last⟩
      (']' :: rest) := by
  induction values generalizing read first with
  | nil => exact ⟨first, .done (elementStep_end element _ rest)⟩
  | cons a values ih =>
    obtain ⟨ho, ha⟩ := h a List.mem_cons_self
    obtain ⟨last, hmore⟩ := ih (fun b hb => h b (List.mem_cons_of_mem a hb)) (a :: read) false
    refine ⟨last, ?_⟩
    rw [List.reverse_cons, List.append_assoc, List.singleton_append]
    refine .next ?_ hmore
    rw [List.map_cons, joined, List.append_assoc]
    exact elementStep_item ho ha read first _

theorem run_closeList (rest : List Char) : closeList.run (']' :: rest) = (.ok (), rest) := by
  rw [closeList, Attempt.run_bind_ok (run_peek rfl _), if_pos rfl]
  rfl

theorem takes_readList {element : Reader α} {write : α → List Char} {values : List α}
    (h : ∀ a ∈ values, Opens (write a) ∧ Takes element (write a) a) :
    Takes (readList element) (writeList (values.map write)) values := by
  intro rest
  have hitems : ∀ item ∈ values.map write, item ≠ [] := by
    intro item hitem
    obtain ⟨a, ha, rfl⟩ := List.mem_map.mp hitem
    exact (h a ha).1.ne_nil
  have helements : (readElements (collect element) []).run
      (joined true (values.map write) ++ ']' :: rest) = (.ok values.reverse, ']' :: rest) := by
    obtain ⟨last, hruns⟩ := runs_elementStep values h [] true rest
    rw [← @List.length_map _ _ values write, List.append_nil] at hruns
    rw [readElements, Attempt.run_bind_ok (hruns.repeatToEnd hitems)]
    rfl
  have htext : writeList (values.map write) ++ rest =
      '[' :: (joined true (values.map write) ++ ']' :: rest) := by
    simp [writeList, separate_eq_joined]
  rw [htext, readList, Attempt.run_bind_ok (run_peek rfl _), if_pos rfl,
    Attempt.run_bind_ok (run_drop_one _ _), Attempt.run_bind_ok helements,
    Attempt.run_bind_ok (run_closeList rest), List.reverse_reverse]
  rfl

/-! ### Objects -/

theorem nextKey?_name (name : String) (first : Bool) (rest : List Char) :
    (nextKey? first).run ((if first then [] else [',']) ++ writeString name ++ rest) =
      (.ok (some name), rest) := by
  have hname : (do drop 1; return some (← stringBody) : Reader (Option String)).run
      (writeString name ++ rest) = (.ok (some name), rest) := by
    rw [writeString, List.cons_append, Attempt.run_bind_ok (run_drop_one _ _)]
    exact (takes_stringBody name).map some rest
  have hpeek : peek.run (writeString name ++ rest) = (.ok '"', writeString name ++ rest) :=
    run_peek rfl _
  cases first with
  | true =>
    rw [nextKey?, if_pos rfl, List.nil_append, Attempt.run_bind_ok hpeek, if_neg (by decide),
      if_pos rfl, if_pos rfl]
    exact hname
  | false =>
    rw [nextKey?, if_neg (by decide), List.append_assoc, List.singleton_append,
      Attempt.run_bind_ok (run_peek rfl _), if_neg (by decide), if_neg (by decide), if_pos rfl,
      Attempt.run_bind_ok (run_drop_one _ _), Attempt.run_bind_ok hpeek, if_pos rfl]
    exact hname

variable {visitor : Visitor σ α}

theorem memberStep_item {s t : σ} {name : String} {text : List Char} {value : Reader σ}
    (haccept : visitor.member s name = .ok value) (htake : Takes value text t) (first : Bool)
    (rest : List Char) :
    (memberStep visitor.member ⟨s, first⟩).run
        ((if first then [] else [',']) ++ writeMember (name, text) ++ rest) =
      (.ok (some ⟨t, false⟩), rest) := by
  have htext : (if first then [] else [',']) ++ writeMember (name, text) ++ rest =
      (if first then [] else [',']) ++ writeString name ++ (':' :: (text ++ rest)) := by
    simp [writeMember]
  have hcolon : colon.run (':' :: (text ++ rest)) = (.ok (), text ++ rest) := rfl
  rw [htext, memberStep, Attempt.run_bind_ok (nextKey?_name name first _)]
  simp only [haccept, accept]
  rw [Attempt.run_bind_ok (Attempt.run_pure _ _), Attempt.run_bind_ok hcolon,
    Attempt.run_bind_ok (htake rest)]
  rfl

theorem memberStep_end (s : Standing σ) (rest : List Char) :
    (memberStep visitor.member s).run ('\x7d' :: rest) = (.ok none, '\x7d' :: rest) := by
  have hend : (nextKey? s.first).run ('\x7d' :: rest) = (.ok none, '\x7d' :: rest) := by
    rw [nextKey?, Attempt.run_bind_ok (run_peek rfl _), if_pos rfl]
    rfl
  rw [memberStep, Attempt.run_bind_ok hend]
  rfl

theorem runs_memberStep {s t : σ} {members : List (String × List Char)}
    (h : visitor.Visits codec s members t) (first : Bool) (rest : List Char) : ∃ last,
    Runs (memberStep visitor.member) members.length ⟨s, first⟩
      (joined first (members.map writeMember) ++ '\x7d' :: rest) ⟨t, last⟩ ('\x7d' :: rest) := by
  induction h generalizing first with
  | nil s => exact ⟨first, .done (memberStep_end _ rest)⟩
  | cons haccept _ htake _ ih =>
    obtain ⟨last, hmore⟩ := ih false
    refine ⟨last, .next ?_ hmore⟩
    rw [List.map_cons, joined, List.append_assoc]
    exact memberStep_item haccept htake first _

theorem takes_readRecord {members : List (String × List Char)} {t : σ} {a : α}
    (h : visitor.Visits codec visitor.start members t) (ha : visitor.endObject t = .ok a) :
    Takes (readRecord visitor) (writeObject members) a := by
  intro rest
  have hitems : ∀ item ∈ members.map writeMember, item ≠ [] := by
    intro item hitem
    obtain ⟨m, _, rfl⟩ := List.mem_map.mp hitem
    exact List.cons_ne_nil _ _
  have hmembers : (readMembers visitor.member visitor.start).run
      (joined true (members.map writeMember) ++ '\x7d' :: rest) = (.ok t, '\x7d' :: rest) := by
    obtain ⟨last, hruns⟩ := runs_memberStep h true rest
    rw [← @List.length_map _ _ members writeMember] at hruns
    rw [readMembers, Attempt.run_bind_ok (hruns.repeatToEnd hitems)]
    rfl
  have htext : writeObject members ++ rest =
      '\x7b' :: (joined true (members.map writeMember) ++ '\x7d' :: rest) := by
    simp [writeObject, separate_eq_joined]
  rw [htext, readRecord, Attempt.run_bind_ok (run_peek rfl _), if_neg (by decide), if_pos rfl,
    Attempt.run_bind_ok (run_drop_one _ _), Attempt.run_bind_ok hmembers, ha, accept,
    Attempt.run_bind_ok (Attempt.run_pure _ _), Attempt.run_bind_ok (run_drop_one _ _)]
  rfl

theorem lawful_codec : codec.Lawful where
  string := takes_readString
  optional hw h := takes_readOptional (opens_of_writes hw) h
  list h := takes_readList fun a ha => ⟨opens_of_writes (h a ha).1, (h a ha).2⟩
  object := takes_readRecord
  finish := rfl

end RowSpec.Json
