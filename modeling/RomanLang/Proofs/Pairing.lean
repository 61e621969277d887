import RomanLang.Session.Completeness

/-! Paired brackets. Some members of a list open and some close. They are paired when no beginning of the list
has more that close than open, and the list has as many of both. Paired lists can be joined and bracketed, and
members that neither open nor close do not matter. The brackets of a text are balanced exactly when they are
paired. -/

namespace RomanLang

/-- No beginning has more that close than open, and there are as many of both. -/
structure Paired {α : Type} (opening closing : α → Bool) (xs : List α) : Prop where
  take_le : ∀ n, (xs.take n).countP closing ≤ (xs.take n).countP opening
  count_eq : xs.countP closing = xs.countP opening

/-- Paired with `depth` open ones that stand before the list. -/
def PairedFrom {α : Type} (opening closing : α → Bool) (depth : Nat) (xs : List α) : Prop :=
  (∀ n, (xs.take n).countP closing ≤ depth + (xs.take n).countP opening) ∧
    xs.countP closing = depth + xs.countP opening

variable {α β : Type} {opening closing : α → Bool} {xs ys : List α} {x : α} {depth : Nat}

theorem paired_iff : Paired opening closing xs ↔ PairedFrom opening closing 0 xs := by
  simp only [PairedFrom, Nat.zero_add]
  exact ⟨fun h => ⟨h.take_le, h.count_eq⟩, fun h => ⟨h.1, h.2⟩⟩

/-! ### Joining -/

theorem Paired.append (hx : Paired opening closing xs) (hy : Paired opening closing ys) :
    Paired opening closing (xs ++ ys) where
  take_le n := by
    rw [List.take_append, List.countP_append, List.countP_append]
    exact Nat.add_le_add (hx.take_le n) (hy.take_le _)
  count_eq := by rw [List.countP_append, List.countP_append, hx.count_eq, hy.count_eq]

/-- Members that neither open nor close are paired. -/
theorem paired_of_forall (h : ∀ x ∈ xs, opening x = false ∧ closing x = false) : Paired opening closing xs where
  take_le n := by
    rw [List.countP_eq_zero.mpr fun x hx => by simp [(h x (List.mem_of_mem_take hx)).2]]
    exact Nat.zero_le _
  count_eq := by
    rw [List.countP_eq_zero.mpr fun x hx => by simp [(h x hx).2],
      List.countP_eq_zero.mpr fun x hx => by simp [(h x hx).1]]

theorem Paired.bracket {o c : α} (h : Paired opening closing xs) (ho : opening o = true) (ho' : closing o = false)
    (hc : closing c = true) (hc' : opening c = false) : Paired opening closing (o :: (xs ++ [c])) where
  take_le n := by
    cases n with
    | zero => simp
    | succ n =>
      -- the closing bracket is counted only behind the whole list
      have htake := h.take_le n
      have hlast : (([c].take (n - xs.length)).countP closing) ≤ 1 :=
        Nat.le_trans List.countP_le_length (List.length_take_le' _ _)
      rw [List.take_succ_cons, List.take_append, List.countP_cons_of_neg (by simp [ho']),
        List.countP_cons_of_pos ho, List.countP_append, List.countP_append]
      omega
  count_eq := by
    have := h.count_eq
    simp [List.countP_append, ho, ho', hc, hc', this]

/-! ### Members one by one -/

theorem pairedFrom_nil : PairedFrom opening closing depth [] ↔ depth = 0 := by
  simp [PairedFrom, eq_comm]

theorem pairedFrom_cons : PairedFrom opening closing depth (x :: xs) ↔
    (∀ n, (xs.take n).countP closing + (if closing x then 1 else 0) ≤
        depth + ((xs.take n).countP opening + if opening x then 1 else 0)) ∧
      xs.countP closing + (if closing x then 1 else 0) =
        depth + (xs.countP opening + if opening x then 1 else 0) := by
  rw [PairedFrom]
  simp only [List.countP_cons]
  refine and_congr_left fun _ => ⟨fun h n => ?_, fun h n => ?_⟩
  · simpa only [List.take_succ_cons, List.countP_cons] using h (n + 1)
  · cases n with
    | zero => simp
    | succ n => simpa only [List.take_succ_cons, List.countP_cons] using h n

theorem pairedFrom_cons_opening (ho : opening x = true) (hc : closing x = false) :
    PairedFrom opening closing depth (x :: xs) ↔ PairedFrom opening closing (depth + 1) xs := by
  simp only [pairedFrom_cons, ho, hc, if_true, Bool.false_eq_true, if_false]
  exact and_congr (forall_congr' fun n => by omega) (by omega)

theorem pairedFrom_cons_closing (ho : opening x = false) (hc : closing x = true) :
    PairedFrom opening closing (depth + 1) (x :: xs) ↔ PairedFrom opening closing depth xs := by
  simp only [pairedFrom_cons, ho, hc, if_true, Bool.false_eq_true, if_false]
  exact and_congr (forall_congr' fun n => by omega) (by omega)

theorem not_pairedFrom_zero (ho : opening x = false) (hc : closing x = true) :
    ¬PairedFrom opening closing 0 (x :: xs) := by
  rintro ⟨h, -⟩
  have := h 1
  simp [ho, hc] at this

theorem pairedFrom_cons_other (ho : opening x = false) (hc : closing x = false) :
    PairedFrom opening closing depth (x :: xs) ↔ PairedFrom opening closing depth xs := by
  simp only [pairedFrom_cons, ho, hc, Bool.false_eq_true, if_false, Nat.add_zero]
  exact Iff.rfl

/-- Members that open or close alike, before lists that are paired alike. -/
theorem pairedFrom_cons_congr {opening' closing' : β → Bool} {y : β} {zs : List β}
    (hdisjoint : opening x = true → closing x = false) (ho : opening' y = opening x) (hc : closing' y = closing x)
    (h : ∀ d, PairedFrom opening closing d xs ↔ PairedFrom opening' closing' d zs) :
    PairedFrom opening closing depth (x :: xs) ↔ PairedFrom opening' closing' depth (y :: zs) := by
  cases hox : opening x with
  | true =>
    have hcx := hdisjoint hox
    rw [pairedFrom_cons_opening hox hcx, pairedFrom_cons_opening (ho.trans hox) (hc.trans hcx), h]
  | false =>
    cases hcx : closing x with
    | true =>
      cases depth with
      | zero =>
        exact iff_of_false (not_pairedFrom_zero hox hcx) (not_pairedFrom_zero (ho.trans hox) (hc.trans hcx))
      | succ depth =>
        rw [pairedFrom_cons_closing hox hcx, pairedFrom_cons_closing (ho.trans hox) (hc.trans hcx), h]
    | false =>
      rw [pairedFrom_cons_other hox hcx, pairedFrom_cons_other (ho.trans hox) (hc.trans hcx), h]

theorem pairedFrom_append_other (h : ∀ x ∈ xs, opening x = false ∧ closing x = false) :
    PairedFrom opening closing depth (xs ++ ys) ↔ PairedFrom opening closing depth ys := by
  induction xs with
  | nil => exact Iff.rfl
  | cons x xs ih =>
    obtain ⟨ho, hc⟩ := h x List.mem_cons_self
    rw [List.cons_append, pairedFrom_cons_other ho hc, ih fun y hy => h y (List.mem_cons_of_mem x hy)]

/-! ### Other lists with the same brackets -/

/-- Members that are neither can be left out. -/
theorem paired_filter_iff {p : α → Bool} (h : ∀ x ∈ xs, p x = false → opening x = false ∧ closing x = false)
    (hdisjoint : ∀ x, opening x = true → closing x = false) :
    Paired opening closing (xs.filter p) ↔ Paired opening closing xs := by
  rw [paired_iff, paired_iff]
  generalize 0 = depth
  induction xs generalizing depth with
  | nil => exact Iff.rfl
  | cons x xs ih =>
    have ih' := ih fun y hy => h y (List.mem_cons_of_mem x hy)
    cases hp : p x with
    | true =>
      rw [List.filter_cons_of_pos hp]
      exact pairedFrom_cons_congr (hdisjoint x) rfl rfl ih'
    | false =>
      obtain ⟨ho, hc⟩ := h x List.mem_cons_self hp
      rw [List.filter_cons_of_neg (by simp [hp]), pairedFrom_cons_other ho hc, ih']

/-- When every bracket stands alone in the part that it belongs to, the parts are paired as the whole is. -/
theorem paired_flatMap_iff {parts : List β} {f : β → List α} (hdisjoint : ∀ x, opening x = true → closing x = false)
    (h : ∀ y ∈ parts, ∀ x ∈ f y, opening x = true ∨ closing x = true → f y = [x]) :
    Paired opening closing (parts.flatMap f) ↔
      Paired (fun y => (f y).any opening) (fun y => (f y).any closing) parts := by
  rw [paired_iff, paired_iff]
  generalize 0 = depth
  induction parts generalizing depth with
  | nil => rw [List.flatMap_nil, pairedFrom_nil, pairedFrom_nil]
  | cons y parts ih =>
    have ih' := ih fun z hz => h z (List.mem_cons_of_mem y hz)
    rw [List.flatMap_cons]
    by_cases hb : ∃ x ∈ f y, opening x = true ∨ closing x = true
    · obtain ⟨x, hx, hxb⟩ := hb
      have hf := h y List.mem_cons_self x hx hxb
      rw [hf, List.singleton_append]
      exact pairedFrom_cons_congr (hdisjoint x) (by simp [hf]) (by simp [hf]) ih'
    · have hnone : ∀ x ∈ f y, opening x = false ∧ closing x = false := fun x hx =>
        ⟨Bool.eq_false_iff.mpr fun ho => hb ⟨x, hx, .inl ho⟩, Bool.eq_false_iff.mpr fun hc => hb ⟨x, hx, .inr hc⟩⟩
      rw [pairedFrom_append_other hnone, pairedFrom_cons_other, ih']
      · simpa using fun x hx => (hnone x hx).1
      · simpa using fun x hx => (hnone x hx).2

theorem paired_congr {opening' closing' : α → Bool} (ho : ∀ x ∈ xs, opening x = opening' x)
    (hc : ∀ x ∈ xs, closing x = closing' x) : Paired opening closing xs ↔ Paired opening' closing' xs := by
  have hcount {p q : α → Bool} (h : ∀ x ∈ xs, p x = q x) (n : Nat) :
      (xs.take n).countP p = (xs.take n).countP q :=
    List.countP_congr fun x hx => by rw [h x (List.mem_of_mem_take hx)]
  have hall {p q : α → Bool} (h : ∀ x ∈ xs, p x = q x) : xs.countP p = xs.countP q :=
    List.countP_congr fun x hx => by rw [h x hx]
  constructor
  · rintro ⟨htake, hcounts⟩
    exact ⟨fun n => by rw [← hcount ho, ← hcount hc]; exact htake n, by rw [← hall ho, ← hall hc, hcounts]⟩
  · rintro ⟨htake, hcounts⟩
    exact ⟨fun n => by rw [hcount ho, hcount hc]; exact htake n, by rw [hall ho, hall hc, hcounts]⟩

theorem paired_map_iff {f : β → α} {zs : List β} :
    Paired opening closing (zs.map f) ↔ Paired (opening ∘ f) (closing ∘ f) zs := by
  constructor
  · rintro ⟨htake, hcount⟩
    exact ⟨fun n => by simpa only [← List.map_take, List.countP_map] using htake n,
      by simpa only [List.countP_map] using hcount⟩
  · rintro ⟨htake, hcount⟩
    exact ⟨fun n => by simpa only [← List.map_take, List.countP_map] using htake n,
      by simpa only [List.countP_map] using hcount⟩

/-! ### Texts -/

theorem balancedFrom_iff_pairedFrom (depth : Nat) (cs : List Char) :
    balancedFrom depth cs = true ↔ PairedFrom (· = '(') (· = ')') depth cs := by
  induction cs generalizing depth with
  | nil => rw [balancedFrom, decide_eq_true_iff, pairedFrom_nil]
  | cons c cs ih =>
    by_cases ho : c = '('
    · rw [balancedFrom.eq_def, pairedFrom_cons_opening (by simp [ho]) (by simp [ho]), ← ih]
      simp [ho]
    · by_cases hc : c = ')'
      · cases depth with
        | zero =>
          rw [iff_false_right (not_pairedFrom_zero (by simp [ho]) (by simp [hc]))]
          simp [balancedFrom, hc]
        | succ depth =>
          rw [pairedFrom_cons_closing (by simp [ho]) (by simp [hc]), ← ih]
          simp [balancedFrom, hc]
      · rw [pairedFrom_cons_other (by simp [ho]) (by simp [hc]), ← ih]
        simp [balancedFrom, ho, hc]

theorem balanced_iff_paired (cs : List Char) : balanced cs = true ↔ Paired (· = '(') (· = ')') cs := by
  rw [balanced, balancedFrom_iff_pairedFrom, paired_iff]

end RomanLang
