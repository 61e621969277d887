import Mathlib.Data.List.TakeWhile
import RomanLang.Text.Blank

/-! Trimming. Blanks at the two ends are all that is taken away from a text: what stands between two
characters that are no blanks stays. -/

namespace RomanLang.Text

/-- A text that does not consist of blanks alone. -/
def Solid (cs : List Char) : Prop :=
  ∃ c ∈ cs, isBlank c = false

variable {cs ds : List Char}

theorem trimLeft_eq_nil_iff : trimLeft cs = [] ↔ ¬Solid cs := by
  simp [trimLeft, List.dropWhile_eq_nil_iff, Solid]

theorem trimLeft_append (h : Solid cs) (ds : List Char) : trimLeft (cs ++ ds) = trimLeft cs ++ ds := by
  have hne : trimLeft cs ≠ [] := fun hnil => trimLeft_eq_nil_iff.mp hnil h
  rw [trimLeft] at hne
  rw [trimLeft, trimLeft, List.dropWhile_append, if_neg (by simpa using hne)]

theorem trimRight_append (h : Solid ds) (cs : List Char) : trimRight (cs ++ ds) = cs ++ trimRight ds := by
  have hrev : Solid ds.reverse := by simpa [Solid] using h
  rw [trimRight, List.reverse_append, trimLeft_append hrev, List.reverse_append, List.reverse_reverse, trimRight]

/-- Of two texts that are no blanks, each keeps the end at which they meet. -/
theorem trim_append_cons (hc : Solid cs) (hd : Solid ds) (c : Char) :
    trim (cs ++ c :: ds) = trimLeft cs ++ c :: trimRight ds := by
  rw [trim, trimLeft_append hc, List.append_cons, trimRight_append hd, ← List.append_cons]

theorem takeWhile_append_trimLeft (cs : List Char) : cs.takeWhile isBlank ++ trimLeft cs = cs :=
  List.takeWhile_append_dropWhile

theorem exists_trimRight_append (cs : List Char) :
    ∃ trail, trimRight cs ++ trail = cs ∧ ∀ c ∈ trail, isBlank c = true := by
  refine ⟨(cs.reverse.takeWhile isBlank).reverse, ?_, fun c hc => ?_⟩
  · rw [trimRight, ← List.reverse_append, takeWhile_append_trimLeft, List.reverse_reverse]
  · exact List.all_eq_true.mp List.all_takeWhile c (List.mem_reverse.mp hc)

theorem trim_eq_nil_iff : trim cs = [] ↔ ¬Solid cs := by
  constructor
  · rintro htrim ⟨c, hc, hb⟩
    obtain ⟨trail, happ, htrail⟩ := exists_trimRight_append (trimLeft cs)
    rw [← trim, htrim, List.nil_append] at happ
    rw [← takeWhile_append_trimLeft cs, ← happ, List.mem_append] at hc
    have hblank := hc.elim (List.all_eq_true.mp List.all_takeWhile c) (htrail c)
    rw [hb] at hblank
    cases hblank
  · intro h
    rw [trim, trimLeft_eq_nil_iff.mpr h]
    rfl

/-! ### Visible characters -/

/-- The characters that are no blanks. -/
def visible (cs : List Char) : List Char :=
  cs.filter (!isBlank ·)

theorem visible_append (cs ds : List Char) : visible (cs ++ ds) = visible cs ++ visible ds :=
  List.filter_append cs ds

theorem visible_eq_self (h : ∀ c ∈ cs, isBlank c = false) : visible cs = cs :=
  List.filter_eq_self.mpr fun c hc => by simp [h c hc]

theorem visible_eq_nil (h : ∀ c ∈ cs, isBlank c = true) : visible cs = [] :=
  List.filter_eq_nil_iff.mpr fun c hc => by simp [h c hc]

theorem visible_trimLeft (cs : List Char) : visible (trimLeft cs) = visible cs := by
  have hlead : visible (cs.takeWhile isBlank) = [] :=
    visible_eq_nil fun c hc => List.all_eq_true.mp List.all_takeWhile c hc
  conv => rhs; rw [← takeWhile_append_trimLeft cs, visible_append, hlead, List.nil_append]

theorem visible_trim (cs : List Char) : visible (trim cs) = visible cs := by
  obtain ⟨trail, happ, htrail⟩ := exists_trimRight_append (trimLeft cs)
  rw [← visible_trimLeft cs, trim, ← happ, visible_append, visible_eq_nil htrail, List.append_nil, happ]

/-- What is trimmed ends with the last visible character. -/
theorem getLast?_trimRight (cs : List Char) : (trimRight cs).getLast? = (visible cs).getLast? := by
  rw [trimRight, trimLeft, List.getLast?_reverse, visible, ← List.head?_reverse, ← List.filter_reverse,
    List.head?_filter, List.find?_eq_head?_dropWhile_not]
  simp

theorem getLast?_trim (cs : List Char) : (trim cs).getLast? = (visible cs).getLast? := by
  rw [trim, getLast?_trimRight, visible_trimLeft]

end RomanLang.Text
