import Csc412.Checker.Expect
import Csc412.Lib.Numeral

/-!
# What `??>=N??` matches

One alternative takes the numbers with more digits than `N`, and each of the others those
that have the digits of `N` up to some place and a larger digit there.
-/

namespace Csc412.Checker

open RegularExpression Lib.Numeral

/-! ## Languages -/

theorem mem_sum {α : Type} {rs : List (RegularExpression α)} {w : List α} :
    w ∈ rs.sum.matches' ↔ ∃ r ∈ rs, w ∈ r.matches' := by
  induction rs with
  | nil => simp [Language.notMem_zero]
  | cons r rs ih =>
    rw [List.sum_cons, matches'_add, Language.mem_add, ih]
    simp

theorem mem_digitFrom {d : Nat} {w : List Digit} :
    w ∈ (digitFrom d).matches' ↔ ∃ c : Digit, d ≤ c.val ∧ w = [c] := by
  simp only [digitFrom, mem_sum, List.mem_map, List.mem_filter, List.mem_finRange, true_and,
    decide_eq_true_eq]
  constructor
  · rintro ⟨_, ⟨c, hc, rfl⟩, hw⟩
    exact ⟨c, hc, hw⟩
  · rintro ⟨c, hc, rfl⟩
    exact ⟨_, ⟨c, hc, rfl⟩, rfl⟩

theorem mem_anyDigit {w : List Digit} : w ∈ anyDigit.matches' ↔ w.length = 1 := by
  rw [anyDigit, mem_digitFrom, List.length_eq_one_iff]
  simp

theorem mem_digits {k : Nat} {w : List Digit} : w ∈ (anyDigit ^ k).matches' ↔ w.length = k := by
  induction k generalizing w with
  | zero => simp [Language.mem_one]
  | succ k ih =>
    rw [matches'_pow, pow_succ', ← matches'_pow, Language.mem_mul]
    constructor
    · rintro ⟨a, ha, b, hb, rfl⟩
      rw [List.length_append, mem_anyDigit.mp ha, ih.mp hb, Nat.add_comm]
    · intro hw
      obtain ⟨c, cs, rfl⟩ := List.exists_cons_of_length_eq_add_one hw
      exact ⟨[c], mem_anyDigit.mpr rfl, cs, ih.mpr (by simpa using hw), rfl⟩

theorem mem_star_anyDigit (w : List Digit) : w ∈ (star anyDigit).matches' := by
  rw [matches'_star, Language.mem_kstar]
  refine ⟨w.map fun c => [c], (List.flatMap_singleton' w).symm, fun y hy => ?_⟩
  obtain ⟨c, -, rfl⟩ := List.mem_map.mp hy
  exact mem_anyDigit.mpr rfl

theorem mem_manyDigits {k : Nat} {w : List Digit} : w ∈ (manyDigits k).matches' ↔ k ≤ w.length := by
  rw [manyDigits, matches'_mul, Language.mem_mul]
  constructor
  · rintro ⟨a, ha, b, -, rfl⟩
    rw [List.length_append, mem_digits.mp ha]
    omega
  · intro hk
    exact ⟨w.take k, mem_digits.mpr (by simpa using hk), w.drop k, mem_star_anyDigit _,
      List.take_append_drop k w⟩

theorem mem_zeros {w : List Digit} : w ∈ zeros.matches' ↔ ∃ z, w = List.replicate z 0 := by
  rw [zeros, matches'_star, Language.mem_kstar]
  constructor
  · rintro ⟨l, rfl, hl⟩
    refine ⟨l.flatten.length, List.eq_replicate_of_mem fun c hc => ?_⟩
    obtain ⟨y, hy, hc⟩ := List.mem_flatten.mp hc
    have hzero : y = [0] := hl y hy
    rw [hzero] at hc
    exact List.mem_singleton.mp hc
  · rintro ⟨z, rfl⟩
    refine ⟨List.replicate z [0], by simp, fun y hy => ?_⟩
    rw [List.eq_of_mem_replicate hy]
    rfl

theorem mem_literal {ds w : List Digit} : w ∈ (literal ds).matches' ↔ w = ds := by
  induction ds generalizing w with
  | nil => exact Language.mem_one w
  | cons d ds ih =>
    have hmul : (literal (d :: ds)).matches' = (char d).matches' * (literal ds).matches' := rfl
    rw [hmul, Language.mem_mul]
    constructor
    · rintro ⟨a, ha, b, hb, rfl⟩
      obtain rfl : a = [d] := ha
      rw [ih.mp hb]
      rfl
    · rintro rfl
      exact ⟨[d], rfl, ds, ih.mpr rfl, rfl⟩

/-! ## Numbers -/

def number (ds : List Digit) : Nat := value 10 (ds.map Fin.val)

theorem number_cons (d : Digit) (ds : List Digit) :
    number (d :: ds) = d * 10 ^ ds.length + number ds := by
  simp [number, value_cons]

theorem number_lt (ds : List Digit) : number ds < 10 ^ ds.length := by
  have h : value 10 (ds.map Fin.val) < 10 ^ (ds.map Fin.val).length := value_lt fun d hd => by
    obtain ⟨c, -, rfl⟩ := List.mem_map.mp hd
    exact c.isLt
  simpa [number] using h

theorem number_zeros (z : Nat) (ds : List Digit) :
    number (List.replicate z 0 ++ ds) = number ds := by
  simp [number, value_zeros]

/-- Two numerals of one length are compared at the first place where they differ. -/
theorem number_le_cons {d c : Digit} {ds cs : List Digit} (h : ds.length = cs.length) :
    number (d :: ds) ≤ number (c :: cs) ↔ d.val < c.val ∨ d = c ∧ number ds ≤ number cs := by
  have hds := number_lt ds
  have hcs := number_lt cs
  rw [number_cons, number_cons, ← h]
  rw [← h] at hcs
  rcases Nat.lt_trichotomy d.val c.val with hlt | heq | hgt
  · have hmul : (d.val + 1) * 10 ^ ds.length ≤ c.val * 10 ^ ds.length := Nat.mul_le_mul_right _ hlt
    rw [Nat.add_mul, Nat.one_mul] at hmul
    simp only [hlt, true_or, iff_true]
    omega
  · have hdc : d = c := Fin.ext heq
    subst hdc
    simp
  · have hmul : (c.val + 1) * 10 ^ ds.length ≤ d.val * 10 ^ ds.length := Nat.mul_le_mul_right _ hgt
    rw [Nat.add_mul, Nat.one_mul] at hmul
    have hne : d ≠ c := by
      rintro rfl
      exact Nat.lt_irrefl _ hgt
    simp only [Nat.lt_asymm hgt, hne, false_and, or_false, iff_false, Nat.not_le]
    omega

/-- `s` has the digits of `dig` up to place `i`, and there a digit that decides. -/
def Decides (dig s : List Digit) (i : Nat) : Prop :=
  ∃ c t, s = dig.take i ++ c :: t ∧ t.length = dig.length - (i + 1) ∧
    ((digitAt dig i).val < c.val ∨ i + 1 = dig.length ∧ digitAt dig i = c)

theorem decides_zero {d : Digit} {ds s : List Digit} :
    Decides (d :: ds) s 0 ↔ ∃ c t, s = c :: t ∧ t.length = ds.length ∧
    (d.val < c.val ∨ ds = [] ∧ d = c) := by
  simp [Decides, digitAt, List.length_eq_zero_iff]

theorem decides_succ {d : Digit} {ds s : List Digit} {i : Nat} :
    Decides (d :: ds) s (i + 1) ↔ ∃ t, s = d :: t ∧ Decides ds t i := by
  constructor
  · rintro ⟨c, t, rfl, hlen, hc⟩
    exact ⟨ds.take i ++ c :: t, rfl, c, t, rfl, by simpa using hlen, by simpa [digitAt] using hc⟩
  · rintro ⟨_, rfl, c, t, rfl, hlen, hc⟩
    exact ⟨c, t, rfl, by simpa using hlen, by simpa [digitAt] using hc⟩

theorem number_le_iff {dig s : List Digit} (hdig : dig ≠ []) :
    (dig.length = s.length ∧ number dig ≤ number s) ↔ ∃ i < dig.length, Decides dig s i := by
  induction dig generalizing s with
  | nil => exact absurd rfl hdig
  | cons d ds ih =>
    have hsplit : (∃ i < (d :: ds).length, Decides (d :: ds) s i) ↔
        Decides (d :: ds) s 0 ∨ ∃ i < ds.length, Decides (d :: ds) s (i + 1) := by
      constructor
      · rintro ⟨i | i, hi, hd⟩
        · exact .inl hd
        · exact .inr ⟨i, by simpa using hi, hd⟩
      · rintro (hd | ⟨i, hi, hd⟩)
        · exact ⟨0, by simp, hd⟩
        · exact ⟨i + 1, by simpa using hi, hd⟩
    rw [hsplit, decides_zero]
    simp only [decides_succ]
    constructor
    · rintro ⟨hlen, hle⟩
      obtain ⟨c, cs, rfl⟩ := List.exists_cons_of_length_pos (l := s) (by rw [← hlen]; simp)
      have hlen' : ds.length = cs.length := by simpa using hlen
      rcases (number_le_cons hlen').mp hle with hlt | ⟨rfl, hrest⟩
      · exact .inl ⟨c, cs, rfl, hlen'.symm, .inl hlt⟩
      · by_cases hds : ds = []
        · exact .inl ⟨d, cs, rfl, hlen'.symm, .inr ⟨hds, rfl⟩⟩
        · obtain ⟨i, hi, hd⟩ := (ih hds).mp ⟨hlen', hrest⟩
          exact .inr ⟨i, hi, cs, rfl, hd⟩
    · rintro (⟨c, t, rfl, hlen, hc⟩ | ⟨i, hi, t, rfl, hd⟩)
      · refine ⟨by simp [hlen], (number_le_cons hlen.symm).mpr ?_⟩
        rcases hc with hlt | ⟨rfl, rfl⟩
        · exact .inl hlt
        · exact .inr ⟨rfl, Nat.zero_le _⟩
      · have hds : ds ≠ [] := by
          rintro rfl
          simp at hi
        obtain ⟨hlen, hle⟩ := (ih hds).mpr ⟨i, hi, hd⟩
        exact ⟨by simp [hlen], (number_le_cons hlen).mpr (.inr ⟨rfl, hle⟩)⟩

/-! ## The alternatives -/

theorem mem_alternative {dig w : List Digit} {i : Nat} :
    (∃ r, alternative dig i = some r ∧ w ∈ r.matches') ↔ ∃ z s, w = List.replicate z 0 ++ s ∧
    Decides dig s i := by
  have hzeros : ∀ r : RegularExpression Digit, w ∈ (zeros * r).matches' ↔ ∃ z s,
      w = List.replicate z 0 ++ s ∧ s ∈ r.matches' := by
    intro r
    rw [matches'_mul, Language.mem_mul]
    constructor
    · rintro ⟨a, ha, s, hs, rfl⟩
      obtain ⟨z, rfl⟩ := mem_zeros.mp ha
      exact ⟨z, s, rfl, hs⟩
    · rintro ⟨z, s, rfl, hs⟩
      exact ⟨_, mem_zeros.mpr ⟨z, rfl⟩, s, hs, rfl⟩
  have hliteral : ∀ (r : RegularExpression Digit) (s : List Digit),
      s ∈ (literal (dig.take i) * r).matches' ↔ ∃ t, s = dig.take i ++ t ∧ t ∈ r.matches' := by
    intro r s
    rw [matches'_mul, Language.mem_mul]
    constructor
    · rintro ⟨a, ha, t, ht, rfl⟩
      rw [mem_literal.mp ha]
      exact ⟨t, rfl, ht⟩
    · rintro ⟨t, rfl, ht⟩
      exact ⟨_, mem_literal.mpr rfl, t, ht, rfl⟩
  by_cases hlast : i + 1 = dig.length
  · simp only [alternative, if_pos hlast, Option.some.injEq, exists_eq_left', hzeros, hliteral,
      mem_digitFrom]
    refine exists_congr fun z => exists_congr fun s => and_congr_right fun _ => ?_
    constructor
    · rintro ⟨_, rfl, c, hc, rfl⟩
      refine ⟨c, [], rfl, by simp [hlast], ?_⟩
      rcases Nat.lt_or_eq_of_le hc with hlt | heq
      · exact .inl hlt
      · exact .inr ⟨hlast, Fin.ext heq⟩
    · rintro ⟨c, t, rfl, hlen, hc⟩
      have ht : t = [] := List.eq_nil_of_length_eq_zero (by omega)
      subst ht
      refine ⟨[c], rfl, c, ?_, rfl⟩
      rcases hc with hlt | ⟨-, heq⟩
      · exact hlt.le
      · rw [heq]
  · have hrange : ∀ t : List Digit,
      t ∈ (digitFrom ((digitAt dig i).val + 1) * anyDigit ^ (dig.length - (i + 1))).matches' ↔
        ∃ c u, t = c :: u ∧ u.length = dig.length - (i + 1) ∧ (digitAt dig i).val < c.val := by
      intro t
      rw [matches'_mul, Language.mem_mul]
      constructor
      · rintro ⟨a, ha, u, hu, rfl⟩
        obtain ⟨c, hc, rfl⟩ := mem_digitFrom.mp ha
        exact ⟨c, u, rfl, mem_digits.mp hu, hc⟩
      · rintro ⟨c, u, rfl, hu, hc⟩
        exact ⟨[c], mem_digitFrom.mpr ⟨c, hc, rfl⟩, u, mem_digits.mpr hu, rfl⟩
    have hdec : ∀ s, Decides dig s i ↔ ∃ t, s = dig.take i ++ t ∧
        ∃ c u, t = c :: u ∧ u.length = dig.length - (i + 1) ∧ (digitAt dig i).val < c.val := by
      intro s
      simp only [Decides, hlast, false_and, or_false]
      constructor
      · rintro ⟨c, t, rfl, h⟩
        exact ⟨c :: t, rfl, c, t, rfl, h⟩
      · rintro ⟨_, rfl, c, t, rfl, h⟩
        exact ⟨c, t, rfl, h⟩
    by_cases hnine : digitAt dig i = 9
    · simp only [alternative, if_neg hlast, hnine, if_true, reduceCtorEq, false_and, exists_false,
        false_iff]
      rintro ⟨z, s, -, c, t, -, -, hc⟩
      rw [hnine] at hc
      have hlt := c.isLt
      rcases hc with hc | hc
      · exact absurd hc (by simp; omega)
      · exact hlast hc.1
    · simp only [alternative, if_neg hlast, if_neg hnine, Option.some.injEq, exists_eq_left',
        hzeros, hliteral, hrange, hdec]

theorem mem_alternatives {dig w : List Digit} (hdig : dig ≠ []) :
    w ∈ (alternatives dig).sum.matches' ↔
    ∃ z s, w = List.replicate z 0 ++ s ∧
      ((∃ c t, s = c :: t ∧ c ≠ 0 ∧ dig.length ≤ t.length) ∨ dig.length = s.length ∧
          number dig ≤ number s) := by
  have hlong : w ∈ (zeros * (digitFrom 1 * manyDigits dig.length)).matches' ↔
      ∃ z s, w = List.replicate z 0 ++ s ∧ ∃ c t, s = c :: t ∧ c ≠ 0 ∧ dig.length ≤ t.length := by
    simp only [matches'_mul, Language.mem_mul, mem_zeros, mem_digitFrom, mem_manyDigits]
    constructor
    · rintro ⟨_, ⟨z, rfl⟩, _, ⟨_, ⟨c, hc, rfl⟩, t, ht, rfl⟩, rfl⟩
      refine ⟨z, c :: t, rfl, c, t, rfl, ?_, ht⟩
      rintro rfl
      simp at hc
    · rintro ⟨z, _, rfl, c, t, rfl, hc, ht⟩
      refine ⟨_, ⟨z, rfl⟩, c :: t, ⟨[c], ⟨c, ?_, rfl⟩, t, ht, rfl⟩, rfl⟩
      exact Nat.pos_of_ne_zero fun h => hc (Fin.ext h)
  rw [mem_sum, alternatives]
  simp only [List.mem_cons, exists_eq_or_imp, hlong, List.mem_filterMap, List.mem_range,
    number_le_iff hdig]
  have hshort : (∃ r, (∃ i < dig.length, alternative dig i = some r) ∧ w ∈ r.matches') ↔
      ∃ z s, w = List.replicate z 0 ++ s ∧ ∃ i < dig.length, Decides dig s i := by
    constructor
    · rintro ⟨r, ⟨i, hi, hr⟩, hw⟩
      obtain ⟨z, s, hs, hd⟩ := mem_alternative.mp ⟨r, hr, hw⟩
      exact ⟨z, s, hs, i, hi, hd⟩
    · rintro ⟨z, s, hs, i, hi, hd⟩
      obtain ⟨r, hr, hw⟩ := mem_alternative.mpr ⟨z, s, hs, hd⟩
      exact ⟨r, ⟨i, hi, hr⟩, hw⟩
  rw [hshort]
  simp only [and_or_left, exists_or]

/-! ## All numbers that are large enough -/

theorem zeros_split (w : List Digit) :
    ∃ z s, w = List.replicate z 0 ++ s ∧ w.dropWhile (· = 0) = s ∧
    (s = [] ∨ ∃ c t, s = c :: t ∧ c ≠ 0) := by
  induction w with
  | nil => exact ⟨0, [], rfl, rfl, .inl rfl⟩
  | cons c w ih =>
    by_cases hc : c = 0
    · obtain ⟨z, s, hw, hdrop, hs⟩ := ih
      refine ⟨z + 1, s, ?_, ?_, hs⟩
      · rw [hc, hw, List.replicate_succ, List.cons_append]
      · simpa [hc] using hdrop
    · exact ⟨0, c :: w, rfl, by simp [hc], .inr ⟨c, w, rfl, hc⟩⟩

theorem strip_cases {contents : List Digit} (h : contents ≠ []) :
    number (stripZeros contents) = number contents ∧
      (stripZeros contents = [0] ∨ ∃ d ds, stripZeros contents = d :: ds ∧ d ≠ 0) := by
  obtain ⟨z, s, hw, hdrop, rfl | ⟨d, ds, rfl, hd⟩⟩ := zeros_split contents
  · have hlast : stripZeros contents = [0] := by
      rw [List.append_nil] at hw
      have hz : z - (z - 1) = 1 := by
        have hne : z ≠ 0 := by
          rintro rfl
          exact h hw
        omega
      unfold stripZeros
      rw [hdrop, hw, List.length_replicate, List.drop_replicate, hz]
      rfl
    refine ⟨?_, .inl hlast⟩
    rw [hlast, hw, number_zeros]
    rfl
  · have hstrip : stripZeros contents = d :: ds := by simp only [stripZeros, hdrop]
    refine ⟨?_, .inr ⟨d, ds, hstrip, hd⟩⟩
    rw [hstrip, hw, number_zeros]

theorem number_long {c : Digit} {t dig : List Digit} (hc : c ≠ 0) (ht : dig.length ≤ t.length) :
    number dig < number (c :: t) := by
  have hpos : 1 ≤ c.val := Nat.pos_of_ne_zero fun h => hc (Fin.ext h)
  calc number dig < 10 ^ dig.length := number_lt dig
    _ ≤ 10 ^ t.length := Nat.pow_le_pow_right (by decide) ht
    _ ≤ c.val * 10 ^ t.length := Nat.le_mul_of_pos_left _ hpos
    _ ≤ number (c :: t) := by
      rw [number_cons]
      exact Nat.le_add_right _ _

theorem mem_atLeast {contents w : List Digit} (h : contents ≠ []) :
    w ∈ (atLeast contents).matches' ↔ w ≠ [] ∧ number contents ≤ number w := by
  obtain ⟨hnumber, hstrip⟩ := strip_cases h
  have hdig : stripZeros contents ≠ [] := by
    rcases hstrip with hs | ⟨d, ds, hs, -⟩ <;> simp [hs]
  rw [atLeast, mem_alternatives hdig, ← hnumber]
  constructor
  · rintro ⟨z, s, rfl, ⟨c, t, rfl, hc, ht⟩ | ⟨hlen, hle⟩⟩
    · exact ⟨by simp, (number_zeros z _).symm ▸ (number_long hc ht).le⟩
    · refine ⟨fun hnil => ?_, (number_zeros z s).symm ▸ hle⟩
      rw [(List.append_eq_nil_iff.mp hnil).2] at hlen
      exact hdig (List.eq_nil_of_length_eq_zero hlen)
  · rintro ⟨hw, hle⟩
    obtain ⟨z, s, rfl, -, rfl | ⟨c, t, rfl, hc⟩⟩ := zeros_split w
    · -- `w` is zero, and so is `contents`
      rw [number_zeros] at hle
      rcases hstrip with hs | ⟨d, ds, hs, hd⟩
      · obtain ⟨z, rfl⟩ : ∃ z', z = z' + 1 :=
          Nat.exists_eq_succ_of_ne_zero fun hz => hw (by simp [hz])
        refine ⟨z, [0], by rw [List.replicate_succ', List.append_nil], .inr ?_⟩
        rw [hs]
        exact ⟨rfl, Nat.le_refl _⟩
      · have hlong : number [] < number (d :: ds) := number_long hd (Nat.zero_le _)
        rw [← hs] at hlong
        omega
    · rw [number_zeros] at hle
      refine ⟨z, c :: t, rfl, ?_⟩
      by_cases hlong : (stripZeros contents).length ≤ t.length
      · exact .inl ⟨c, t, rfl, hc, hlong⟩
      · refine .inr ⟨?_, hle⟩
        rcases hstrip with hs | ⟨d, ds, hs, hd⟩
        · rw [hs] at hlong ⊢
          simp only [List.length_cons, List.length_nil] at hlong ⊢
          omega
        · rw [hs] at hlong hle ⊢
          by_contra hne
          simp only [List.length_cons] at hlong hne
          have hshort : number (c :: t) < number (d :: ds) :=
            number_long hd (by simp only [List.length_cons]; omega)
          omega

/-- The expression takes a whole numeral of at least the number `contents`, zeros in
front or not, and nothing else. -/
theorem numberSpans_iff (contents : List Digit) (h : contents ≠ []) (s s' : List Char) :
    NumberSpans contents s s' ↔
    ∃ ds, ds ≠ [] ∧ s = showDigits ds ++ s' ∧ (∀ c ∈ s'.head?, c.isDigit = false) ∧
    number contents ≤ number ds := by
  unfold NumberSpans
  refine exists_congr fun ds => ?_
  rw [rmatch_iff_matches', mem_atLeast h]
  constructor
  · rintro ⟨⟨hds, hle⟩, hs, hend⟩
    exact ⟨hds, hs, hend, hle⟩
  · rintro ⟨hds, hs, hend, hle⟩
    exact ⟨⟨hds, hle⟩, hs, hend⟩

theorem numberSpans_iff_400 : NumberSpans [4, 0, 0] "0512 total".toList " total".toList :=
  (numberSpans_iff [4, 0, 0] (by simp) _ _).mpr ⟨[0, 5, 1, 2], by simp, rfl, by simp, by decide⟩

end Csc412.Checker
