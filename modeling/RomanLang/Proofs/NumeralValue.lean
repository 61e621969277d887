import Mathlib.Data.Fintype.Basic
import Mathlib.Tactic.FinCases
import Mathlib.Tactic.SplitIfs
import RomanLang.Numeral

/-! Values of numerals. A digit weighs more than all smaller ones together, so what is subtracted before it never
reaches its weight: every numeral is positive, in whatever order its digits stand. Where no larger digit follows, the
value of a numeral is the sum of the values of its parts, and so the places of a canonical numeral add up to its
number. -/

namespace RomanLang

namespace RomanDigit

/-- The weight of all smaller digits together. -/
def below : RomanDigit → Int
  | one => 0
  | five => 1
  | ten => 6
  | fifty => 16
  | hundred => 66
  | fiveHundred => 166
  | thousand => 666

variable {d e : RomanDigit}

theorem weight_pos (d : RomanDigit) : 0 < d.weight := by
  cases d <;> decide

theorem weight_le (d : RomanDigit) : d.weight ≤ 1000 := by
  cases d <;> decide

theorem below_nonneg (d : RomanDigit) : 0 ≤ d.below := by
  cases d <;> decide

theorem below_lt_weight (d : RomanDigit) : d.below < d.weight := by
  cases d <;> decide

theorem below_add_weight_le (h : d.weight < e.weight) : d.below + d.weight ≤ e.below := by
  revert h
  cases d <;> cases e <;> decide

theorem exists_letter_eq {c : Char} (h : c ∈ "IVXLCDM".toList) : ∃ d : RomanDigit, d.letter = c := by
  revert c
  simp only [String.reduceToList, List.forall_mem_cons]
  exact ⟨⟨one, rfl⟩, ⟨five, rfl⟩, ⟨ten, rfl⟩, ⟨fifty, rfl⟩, ⟨hundred, rfl⟩, ⟨fiveHundred, rfl⟩, ⟨thousand, rfl⟩,
    List.forall_mem_nil _⟩

end RomanDigit

theorem isRomanLetter_iff {c : Char} : isRomanLetter c = true ↔ c ∈ "IVXLCDM".toList := by
  constructor
  · intro h
    unfold isRomanLetter RomanDigit.ofLetter? at h
    split at h
    case h_8 => cases h
    all_goals decide
  · intro h
    obtain ⟨d, rfl⟩ := RomanDigit.exists_letter_eq h
    rw [isRomanLetter, RomanDigit.ofLetter?_letter]
    rfl

namespace Numeral

variable {d e : RomanDigit} {n xs ys rest : Numeral} {w w' : Int}

/-! ### Bounds -/

/-- A digit that is subtracted weighs no more than what the larger one behind it leaves over. -/
theorem below_lt_value (d : RomanDigit) (n : Numeral) : d.below < value (d :: n) := by
  induction n generalizing d with
  | nil => exact d.below_lt_weight
  | cons e n ih =>
    have hrest := ih e
    rw [value]
    split_ifs with h
    · have := RomanDigit.below_add_weight_le h
      omega
    · have := d.below_lt_weight
      have := e.below_nonneg
      omega

theorem one_le_value (h : n ≠ []) : 1 ≤ n.value := by
  obtain ⟨d, n, rfl⟩ := List.exists_cons_of_ne_nil h
  have := d.below_nonneg
  have := below_lt_value d n
  omega

theorem value_le (n : Numeral) : n.value ≤ 1000 * n.length := by
  induction n with
  | nil => exact Int.le_refl _
  | cons d n ih =>
    have hd := d.weight_le
    cases n with
    | nil => simpa [value] using hd
    | cons e n =>
      have := d.weight_pos
      rw [value, List.length_cons]
      split_ifs <;> omega

/-- A text that is read as a numeral, with a positive value of at most a thousand for each letter. -/
structure ReadsBounded (text : String) (n : Numeral) : Prop where
  read : ofString? text = some n
  positive : 1 ≤ n.value
  bounded : n.value ≤ 1000 * text.length

/-- Roman letters are the spelling of a numeral. -/
theorem exists_letters_eq {cs : List Char} (h : ∀ c ∈ cs, c ∈ "IVXLCDM".toList) : ∃ n, letters n = cs := by
  induction cs with
  | nil => exact ⟨[], rfl⟩
  | cons c cs ih =>
    rw [List.forall_mem_cons] at h
    obtain ⟨d, rfl⟩ := RomanDigit.exists_letter_eq h.1
    obtain ⟨n, rfl⟩ := ih h.2
    exact ⟨d :: n, rfl⟩

theorem exists_readsBounded {text : String} (hne : text ≠ "") (h : ∀ c ∈ text.toList, c ∈ "IVXLCDM".toList) :
    ∃ n, ReadsBounded text n := by
  obtain ⟨n, hn⟩ := exists_letters_eq h
  have hnil : n ≠ [] := by
    rintro rfl
    exact hne (String.toList_eq_nil_iff.mp hn.symm)
  have hlength : text.length = n.length := by
    rw [← String.length_toList, ← hn, letters, List.length_map]
  exact ⟨n, by rw [ofString?, ← hn, ofChars?_letters hnil], one_le_value hnil, hlength ▸ value_le n⟩

/-! ### Joining -/

/-- The first digit, if there is one, weighs at most `w`. -/
def HeadWithin (w : Int) (n : Numeral) : Prop :=
  ∀ d ∈ n.head?, d.weight ≤ w

theorem headWithin_cons : HeadWithin w (d :: n) ↔ d.weight ≤ w := by
  simp [HeadWithin]

theorem HeadWithin.mono (h : HeadWithin w n) (hw : w ≤ w') : HeadWithin w' n :=
  fun d hd => Int.le_trans (h d hd) hw

theorem HeadWithin.append (hx : HeadWithin w xs) (hy : HeadWithin w ys) : HeadWithin w (xs ++ ys) := by
  cases xs with
  | nil => exact hy
  | cons d xs => exact headWithin_cons.mpr (headWithin_cons.mp hx)

theorem value_cons (h : HeadWithin d.weight n) : value (d :: n) = d.weight + value n := by
  cases n with
  | nil => simp [value]
  | cons e n => rw [value, if_neg (Int.not_lt.mpr (headWithin_cons.mp h))]

/-- No digit of the first part is subtracted on account of the second one. -/
theorem value_append (h : ∀ d ∈ xs, HeadWithin d.weight ys) : value (xs ++ ys) = value xs + value ys := by
  induction xs with
  | nil => simp [value]
  | cons d xs ih =>
    rw [List.forall_mem_cons] at h
    cases xs with
    | nil => exact value_cons h.1
    | cons e xs =>
      have hrest := ih h.2
      rw [List.cons_append] at hrest
      rw [List.cons_append, List.cons_append, value, value, hrest, Int.add_assoc]

/-! ### Canonical numerals -/

/-- A decimal digit, spelled with the signs for one, five and ten of its place. -/
def spellDigit {α : Type} (one five ten : α) : Fin 10 → List α
  | 0 => []
  | 1 => [one]
  | 2 => [one, one]
  | 3 => [one, one, one]
  | 4 => [one, five]
  | 5 => [five]
  | 6 => [five, one]
  | 7 => [five, one, one]
  | 8 => [five, one, one, one]
  | 9 => [one, ten]

/-- The canonical numeral of a number, in the signs for 1, 5, 10, 50, 100, 500 and 1000: one sign for each thousand,
and then the hundreds, the tens and the units. -/
def canonical {α : Type} (i v x l c d m : α) (n : Nat) : List α :=
  List.replicate (n / 1000) m ++ (spellDigit c d m (Fin.ofNat 10 (n / 100)) ++
    (spellDigit x l c (Fin.ofNat 10 (n / 10)) ++ spellDigit i v x (Fin.ofNat 10 n)))

def canonicalText (n : Nat) : String :=
  String.ofList (canonical 'I' 'V' 'X' 'L' 'C' 'D' 'M' n)

def ofNat (n : Nat) : Numeral :=
  canonical .one .five .ten .fifty .hundred .fiveHundred .thousand n

theorem map_spellDigit {α β : Type} (f : α → β) (one five ten : α) (k : Fin 10) :
    (spellDigit one five ten k).map f = spellDigit (f one) (f five) (f ten) k := by
  fin_cases k <;> rfl

theorem letters_ofNat (n : Nat) : letters (ofNat n) = canonical 'I' 'V' 'X' 'L' 'C' 'D' 'M' n := by
  simp only [letters, ofNat, canonical, List.map_append, List.map_replicate, map_spellDigit]
  rfl

section Places
variable {unit half next : RomanDigit} (hhalf : half.weight = 5 * unit.weight) (hnext : next.weight = 10 * unit.weight)
include hhalf

theorem headWithin_spellDigit (k : Fin 10) : HeadWithin half.weight (spellDigit unit half next k) := by
  have := unit.weight_pos
  fin_cases k <;> simp [spellDigit, HeadWithin] <;> omega

include hnext

theorem weight_le_of_mem_spellDigit (k : Fin 10) : ∀ d ∈ spellDigit unit half next k, unit.weight ≤ d.weight := by
  have := unit.weight_pos
  fin_cases k <;> simp [spellDigit] <;> omega

theorem value_spellDigit (k : Fin 10) : value (spellDigit unit half next k) = k * unit.weight := by
  have hpos := unit.weight_pos
  have hunit : unit.weight < half.weight := by omega
  have hback : ¬half.weight < unit.weight := by omega
  have hten : unit.weight < next.weight := by omega
  fin_cases k <;> simp [spellDigit, value, hunit, hback, hten] <;> omega

/-- A place counts in full before smaller places. -/
theorem value_spellDigit_append (k : Fin 10) (h : HeadWithin unit.weight rest) :
    value (spellDigit unit half next k ++ rest) = k * unit.weight + value rest := by
  rw [value_append fun d hd => h.mono (weight_le_of_mem_spellDigit hhalf hnext k d hd),
    value_spellDigit hhalf hnext]

end Places

theorem value_replicate_thousand_append (k : Nat) (rest : Numeral) :
    value (List.replicate k .thousand ++ rest) = 1000 * k + value rest := by
  induction k with
  | zero => simp
  | succ k ih =>
    have hhead : HeadWithin RomanDigit.thousand.weight (List.replicate k .thousand ++ rest) := fun d _ => d.weight_le
    rw [List.replicate_succ, List.cons_append, value_cons hhead, ih, RomanDigit.weight]
    omega

theorem value_ofNat (n : Nat) : value (ofNat n) = n := by
  have hunits : HeadWithin RomanDigit.five.weight (spellDigit .one .five .ten (Fin.ofNat 10 n)) :=
    headWithin_spellDigit rfl _
  have htens : HeadWithin RomanDigit.fifty.weight (spellDigit .ten .fifty .hundred (Fin.ofNat 10 (n / 10))) :=
    headWithin_spellDigit rfl _
  -- a place that is empty leaves the next smaller one behind the larger one
  have hsmaller := htens.append (hunits.mono (by decide))
  rw [ofNat, canonical, value_replicate_thousand_append,
    value_spellDigit_append rfl rfl _ (hsmaller.mono (by decide)),
    value_spellDigit_append rfl rfl _ (hunits.mono (by decide)), value_spellDigit rfl rfl]
  simp only [RomanDigit.weight, Fin.val_ofNat]
  omega

/-- The canonical numeral of a positive number is read as that number. -/
theorem value_canonicalText (n : Nat) (h : 1 ≤ n) : (ofString? (canonicalText n)).map value = some (n : Int) := by
  have hne : ofNat n ≠ [] := by
    intro hnil
    have hvalue := value_ofNat n
    rw [hnil, value] at hvalue
    omega
  rw [ofString?, canonicalText, String.toList_ofList, ← letters_ofNat, ofChars?_letters hne, Option.map_some,
    value_ofNat]

/-- A digit is subtracted in every place, and there are more thousands than the signs go up to. -/
theorem value_canonicalText_large : canonicalText 5949 = "MMMMMCMXLIX" ∧ 1 ≤ 5949 ∧
    (ofString? (canonicalText 5949)).map value = some 5949 :=
  ⟨by decide, by decide, value_canonicalText 5949 (by decide)⟩

end Numeral

end RomanLang
