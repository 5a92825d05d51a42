import Mathlib.Algebra.Group.Nat.Defs
import Mathlib.Data.List.TakeWhile
import RowSpec.Decimal.Layout

/-! The text of a finite double: a sign, digits, and a fraction if there is one. It reads back as
the double that it was written for, since reading depends on the quotient alone and the search for
the shortest decimal only ever ends at one with the rank that it started from. -/
namespace RowSpec

namespace Double

theorem divRound_mul_right (num den k : Nat) (hk : 0 < k) :
    divRound (num * k) (den * k) = divRound num den := by
  have hlt : ∀ a b : Nat, a * k < b * k ↔ a < b := fun a b => Nat.mul_lt_mul_right hk
  simp only [divRound, Nat.mul_div_mul_right _ _ hk, Nat.mul_mod_mul_right, ← Nat.mul_assoc, hlt]

theorem nearestRank_mul_right (num den k : Nat) (hk : 0 < k) :
    nearestRank (num * k) (den * k) = nearestRank num den := by
  simp only [nearestRank, Nat.mul_div_mul_right _ _ hk, Nat.mul_right_comm den k,
    divRound_mul_right _ _ _ hk]

theorem nearestRank_congr {a b c d : Nat} (hb : 0 < b) (hd : 0 < d) (h : a * d = c * b) :
    nearestRank a b = nearestRank c d := by
  rw [← nearestRank_mul_right a b d hd, ← nearestRank_mul_right c d b hb, h, Nat.mul_comm b d]

theorem divRound_one (n : Nat) : divRound n 1 = n := by simp [divRound, Nat.mod_one]

theorem nearestRank_units (rank : Nat) : nearestRank (units rank) 1 = rank := by
  unfold units
  split
  · next h =>
    have hlog : rank.log2 - 52 = 0 := by
      rcases Nat.eq_zero_or_pos rank with rfl | hpos
      · simp
      · have := (Nat.log2_lt (by omega)).mpr h
        omega
    simp [nearestRank, hlog, divRound_one]
  · next h =>
    -- a rank is made of the number of its binade and its place within the binade
    have hpos : 0 < binade := by decide
    have hq : 0 < rank / binade := Nat.div_pos (Nat.le_of_not_lt h) hpos
    have hm : rank % binade < binade := Nat.mod_lt _ hpos
    have hsplit := Nat.div_add_mod' rank binade
    obtain ⟨q, hq⟩ := Nat.exists_eq_succ_of_ne_zero hq.ne'
    generalize rank % binade = m at hm hsplit ⊢
    rw [hq, Nat.succ_sub_one]
    have hpow : Nat.pow 2 q = 2 ^ q := rfl
    have hlog : ((binade + m) * 2 ^ q).log2 = 52 + q := by
      have hne : (binade + m) * 2 ^ q ≠ 0 := Nat.mul_ne_zero (by omega) (Nat.two_pow_pos q).ne'
      rw [Nat.log2_eq_iff hne]
      change 2 ^ (52 + q) ≤ (2 ^ 52 + m) * 2 ^ q ∧ (2 ^ 52 + m) * 2 ^ q < 2 ^ (52 + q + 1)
      change m < 2 ^ 52 at hm
      rw [Nat.pow_add, show 52 + q + 1 = 53 + q by omega, Nat.pow_add]
      constructor
      · exact Nat.mul_le_mul_right _ (by omega)
      · exact Nat.mul_lt_mul_of_pos_right (by omega) (Nat.two_pow_pos q)
    have hround : divRound ((binade + m) * 2 ^ q) (2 ^ q) = binade + m := by
      have := divRound_mul_right (binade + m) 1 (2 ^ q) (Nat.two_pow_pos q)
      rwa [Nat.one_mul, divRound_one] at this
    rw [hpow]
    simp only [nearestRank, Nat.div_one, Nat.one_mul, hlog, Nat.add_sub_cancel_left, hpow, hround]
    rw [← hsplit, hq, Nat.succ_mul]
    omega

end Double

namespace Decimal

theorem pow_pos_of_pos {b : Nat} (hb : 0 < b) (n : Nat) : 0 < Nat.pow b n := Nat.pow_pos hb

theorem unitsToScale_pos : 0 < unitsToScale := by
  unfold unitsToScale
  exact pow_pos_of_pos (by decide) _

/-- Whatever grid the search ends on, it has not left the rank. -/
theorem search_rank {tie : Tie} {rank value : Nat} (h : (Scaled.mk value 0).rank = rank)
    (scale : Nat) : (search tie rank value scale).rank = rank := by
  induction scale with
  | zero => exact h
  | succ scale ih =>
    simp only [search]
    split
    · next both =>
      simp only [Bool.and_eq_true, decide_eq_true_eq] at both
      have hn : nearer tie value (scale + 1) (value / Nat.pow 10 (scale + 1)) =
            value / Nat.pow 10 (scale + 1) ∨
          nearer tie value (scale + 1) (value / Nat.pow 10 (scale + 1)) =
            value / Nat.pow 10 (scale + 1) + 1 := by
        unfold nearer
        grind
      rcases hn with hn | hn <;> rw [hn]
      · exact both.1
      · exact both.2
    · split
      · next below => exact of_decide_eq_true below
      · split
        · next above => exact of_decide_eq_true above
        · exact ih

theorem shortest_rank (tie : Tie) (rank : Nat) : (shortest tie rank).rank = rank := by
  refine search_rank ?_ _
  have hs := Double.nearestRank_mul_right (Double.units rank) 1 unitsToScale unitsToScale_pos
  rw [Nat.one_mul, Double.nearestRank_units] at hs
  simpa [Scaled.rank] using hs

theorem ofDigits_eq (ds : List Char) : ofDigits ds = Nat.ofDigitChars 10 ds 0 := rfl

theorem ofDigits_append (as bs : List Char) :
    ofDigits (as ++ bs) = ofDigits as * 10 ^ bs.length + ofDigits bs := by
  rw [ofDigits_eq, Nat.ofDigitChars_append, Nat.ofDigitChars_eq_ofDigitChars_zero, Nat.mul_comm]
  rfl

theorem ofDigits_zeros (n : Nat) : ofDigits (zeros n) = 0 := by
  simp [ofDigits_eq, zeros]

theorem ofDigits_digits (n : Nat) : ofDigits (digits n) = n := Nat.ofDigitChars_ten_toDigits

theorem stripZeros_append (ds : List Char) :
    (stripZeros ds).1 ++ zeros (stripZeros ds).2 = ds := by
  have hsplit := List.takeWhile_append_dropWhile (p := (· == '0')) (l := ds.reverse)
  have hzeros : ∀ c ∈ ds.reverse.takeWhile (· == '0'), c = '0' :=
    fun c hc => by simpa using List.mem_takeWhile_imp hc
  simp only [stripZeros]
  generalize ds.reverse.takeWhile (· == '0') = back at hsplit hzeros ⊢
  generalize ds.reverse.dropWhile (· == '0') = front at hsplit
  obtain rfl : ds = front.reverse ++ back.reverse := by
    rw [← List.reverse_append, hsplit, List.reverse_reverse]
  have hback : back.reverse = zeros back.length := by
    rw [zeros, List.eq_replicate_iff]
    exact ⟨List.length_reverse, fun c hc => hzeros c (List.mem_reverse.mp hc)⟩
  rw [List.length_append, List.length_reverse, List.length_reverse, Nat.add_sub_cancel,
    List.take_left' List.length_reverse, hback]

theorem isDigit_digits {n : Nat} {c : Char} (h : c ∈ digits n) : c.isDigit = true :=
  Nat.isDigit_of_mem_toDigits (by decide) (by decide) h

theorem isDigit_zeros {n : Nat} {c : Char} (h : c ∈ zeros n) : c.isDigit = true := by
  rw [List.eq_of_mem_replicate h]
  decide

@[simp] theorem length_zeros (n : Nat) : (zeros n).length = n := List.length_replicate

/-- Tenths, taken as often as the finest grid has places, make up halves and fifths. -/
theorem unitsInOne_mul_unitsToScale {n : Nat} (hn : n = 1074) :
    Double.unitsInOne * unitsToScale = 10 ^ n := by
  rw [Double.unitsInOne, unitsToScale, ← hn]
  exact (Nat.mul_pow 2 5 n).symm

/-- The digits of a decimal around its point: at least one stands before it, and together they
denote the decimal. -/
structure Layout (d : Scaled) (whole fraction : List Char) : Prop where
  whole_ne_nil : whole ≠ []
  isDigit : ∀ c ∈ whole ++ fraction, c.isDigit = true
  value : ofDigits (whole ++ fraction) * (Double.unitsInOne * unitsToScale) =
    d.coefficient * 10 ^ (d.scale + fraction.length)

theorem layout_whole {d : Scaled} {more : Nat} (hd : d.scale = 1074 + more) :
    Layout d (digits d.coefficient ++ zeros more) [] := by
  refine ⟨by simp [digits, Nat.toDigits_ne_nil], ?_, ?_⟩
  · intro c hc
    rw [List.append_nil, List.mem_append] at hc
    rcases hc with hc | hc
    · exact isDigit_digits hc
    · exact isDigit_zeros hc
  · generalize hn : 1074 = n at hd
    rw [unitsInOne_mul_unitsToScale hn.symm, List.append_nil, ofDigits_append, ofDigits_zeros,
      ofDigits_digits, length_zeros, Nat.add_zero, Nat.mul_assoc, ← Nat.pow_add, hd,
      Nat.add_comm more n]
    rfl

theorem layout_fraction {d : Scaled} {padding dropped : Nat} {whole fraction : List Char}
    (hd : d.scale + (fraction.length + dropped) = 1074) (hw : whole ≠ [])
    (h : zeros padding ++ digits d.coefficient = whole ++ (fraction ++ zeros dropped)) :
    Layout d whole fraction := by
  refine ⟨hw, ?_, ?_⟩
  · intro c hc
    have hmem : c ∈ zeros padding ++ digits d.coefficient := by
      rw [h, ← List.append_assoc]
      exact List.mem_append_left _ hc
    rcases List.mem_append.mp hmem with hz | hz
    · exact isDigit_zeros hz
    · exact isDigit_digits hz
  · have hcoefficient : ofDigits (whole ++ fraction) * 10 ^ dropped = d.coefficient := by
      have hv := congrArg ofDigits h
      rw [ofDigits_append, ofDigits_zeros, ofDigits_digits, ← List.append_assoc,
        ofDigits_append _ (zeros dropped), ofDigits_zeros, length_zeros] at hv
      omega
    rw [unitsInOne_mul_unitsToScale hd, ← hcoefficient, Nat.mul_assoc, ← Nat.pow_add]
    congr 2
    omega

theorem layout_parts (d : Scaled) : Layout d d.parts.1 d.parts.2 := by
  unfold Scaled.parts
  split
  · next h =>
    obtain ⟨more, hm⟩ := Nat.exists_eq_add_of_le h
    rw [hm, Nat.add_sub_cancel_left]
    exact layout_whole hm
  · next h =>
    simp only
    generalize hpad : zeros (1074 - d.scale + 1 - (digits d.coefficient).length) ++
      digits d.coefficient = padded
    have hlen : 1074 - d.scale < padded.length := by
      rw [← hpad, List.length_append, length_zeros]
      omega
    have hstrip := stripZeros_append (padded.drop (padded.length - (1074 - d.scale)))
    have hback := congrArg List.length hstrip
    rw [List.length_append, length_zeros, List.length_drop] at hback
    have hsplit := List.take_append_drop (padded.length - (1074 - d.scale)) padded
    rw [← hstrip] at hsplit
    refine layout_fraction (by omega) ?_ (hpad.trans hsplit.symm)
    intro hnil
    have := congrArg List.length hnil
    rw [List.length_take, List.length_nil] at this
    omega

theorem nearestRank_layout {d : Scaled} {whole fraction : List Char}
    (h : Layout d whole fraction) :
    Double.nearestRank (ofDigits (whole ++ fraction) * Double.unitsInOne)
      (Nat.pow 10 fraction.length) = d.rank := by
  refine Double.nearestRank_congr (pow_pos_of_pos (by decide) _) unitsToScale_pos ?_
  rw [Nat.mul_assoc, h.value, Nat.mul_assoc]
  exact congrArg _ (Nat.pow_add 10 _ _)

theorem positional_eq (d : Scaled) :
    positional d = d.parts.1 ++ if d.parts.2 = [] then [] else '.' :: d.parts.2 := by
  unfold positional
  split
  · next whole h => simp [h]
  · next whole fraction hne h =>
    have hf : fraction ≠ [] := hne
    simp [h, hf]

theorem signed_eq (negative : Bool) (text : List Char) :
    signed negative text = String.ofList ((if negative then ['-'] else []) ++ text) := by
  cases negative <;> rfl

end Decimal

namespace Double

theorem ofUnits_eq {num den : Nat} {rank : Fin finiteCount} (h : nearestRank num den = rank)
    (negative : Bool) : ofUnits negative num den = finite negative rank := by
  have hlt : nearestRank num den < finiteCount := h ▸ rank.isLt
  rw [ofUnits, dif_pos hlt]
  simp only [h, Fin.eta]

theorem ofDecimal_layout {d : Decimal.Scaled} {whole fraction : List Char}
    (h : Decimal.Layout d whole fraction) {rank : Fin finiteCount} (hr : d.rank = rank)
    (negative : Bool) : ofDecimal negative (Decimal.ofDigits (whole ++ fraction)) fraction.length =
      finite negative rank :=
  ofUnits_eq ((Decimal.nearestRank_layout h).trans hr) negative

/-- The text of a number: a sign if it is negative, then digits, and behind a point more digits if
there is a fraction. -/
theorem render_finite (negative : Bool) (rank : Fin finiteCount) : ∃ whole fraction : List Char,
    (finite negative rank).render = String.ofList ((if negative then ['-'] else []) ++
      (whole ++ if fraction = [] then [] else '.' :: fraction)) ∧
    whole ≠ [] ∧ (∀ c ∈ whole ++ fraction, c.isDigit = true) ∧
    ofDecimal negative (Decimal.ofDigits (whole ++ fraction)) fraction.length =
      finite negative rank := by
  have hl := Decimal.layout_parts (Decimal.shortest .up rank)
  have hr := Decimal.shortest_rank .up rank
  refine ⟨_, _, ?_, hl.whole_ne_nil, hl.isDigit, ofDecimal_layout hl hr negative⟩
  rw [render, Decimal.signed_eq, Decimal.positional_eq]

end Double

end RowSpec
