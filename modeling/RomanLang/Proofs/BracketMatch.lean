import RomanLang.Proofs.Indexed.Windows
import RomanLang.Proofs.RunBalance
import RomanLang.Proofs.WindowUse

/-! The bracket that closes the first one. A search for a closing bracket stops behind tokens whose own brackets are
paired, but for those that were open before. So the bracket that closes the first token is where, for the first time,
as many brackets have closed as have opened. There is none when a delimiter or the end comes first, and then every
production that looks for it blames the first token. -/

namespace RomanLang.Window

variable {tokens rest us after : List Token} {first t : Token} {s : BracketSplit} {depth depth' c : Nat}

/-! ### Brackets one by one -/

theorem opens_of_text (h : t.text = "(") : t.opens = true ∧ t.closes = false := by
  simp [Token.opens, Token.closes, h]

theorem closes_of_text (h : t.text = ")") : t.opens = false ∧ t.closes = true := by
  simp [Token.opens, Token.closes, h]

theorem pairedFrom_open (h : t.text = "(") : PairedFrom Token.opens Token.closes depth (t :: us) ↔
    PairedFrom Token.opens Token.closes (depth + 1) us :=
  pairedFrom_cons_opening (opens_of_text h).1 (opens_of_text h).2

theorem pairedFrom_close (h : t.text = ")") : PairedFrom Token.opens Token.closes (depth + 1) (t :: us) ↔
    PairedFrom Token.opens Token.closes depth us :=
  pairedFrom_cons_closing (closes_of_text h).1 (closes_of_text h).2

theorem pairedFrom_pass (ho : t.text ≠ "(") (hc : t.text ≠ ")") :
    PairedFrom Token.opens Token.closes depth (t :: us) ↔ PairedFrom Token.opens Token.closes depth us :=
  pairedFrom_cons_other (decide_eq_false ho) (decide_eq_false hc)

/-! ### Searching -/

/-- A split at the bracket that closes the last of `depth + 1` open ones. -/
structure Closing (depth : Nat) (tokens : List Token) (s : BracketSplit) : Prop where
  split : s.before ++ s.closing :: s.after = tokens
  undelimited : Undelimited s.block
  closes : s.closing.text = ")"
  paired : PairedFrom Token.opens Token.closes depth s.before

theorem Closing.head (h : Closing depth (t :: tokens) s) : t.isDelimiter = false := by
  obtain ⟨before, closing, after⟩ := s
  apply h.undelimited
  cases before with
  | nil =>
    obtain ⟨rfl, -⟩ := List.cons.inj h.split
    exact List.mem_singleton_self _
  | cons x us =>
    obtain ⟨rfl, -⟩ := List.cons.inj h.split
    exact List.mem_cons_self

/-- The first token is passed over when it does not close the last bracket. -/
theorem closing_cons_iff (hd : t.isDelimiter = false) (hlast : depth = 0 → t.text ≠ ")")
    (hpaired : ∀ {us}, PairedFrom Token.opens Token.closes depth (t :: us) ↔
      PairedFrom Token.opens Token.closes depth' us) :
    Closing depth (t :: tokens) s ↔ ∃ u, Closing depth' tokens u ∧ u.cons t = s := by
  constructor
  · rintro ⟨hsplit, hu, hc, hp⟩
    obtain ⟨before, closing, after⟩ := s
    cases before with
    | nil =>
      obtain ⟨rfl, -⟩ := List.cons.inj hsplit
      exact absurd hc (hlast (pairedFrom_nil.mp hp))
    | cons x us =>
      obtain ⟨rfl, hrest⟩ := List.cons.inj hsplit
      exact ⟨⟨us, closing, after⟩, ⟨hrest, (List.forall_mem_cons.mp hu).2, hc, hpaired.mp hp⟩, rfl⟩
  · rintro ⟨u, ⟨hsplit, hu, hc, hp⟩, rfl⟩
    exact ⟨congrArg (t :: ·) hsplit, List.forall_mem_cons.mpr ⟨hd, hu⟩, hc, hpaired.mpr hp⟩

/-- The next bracket that closes is the last one, if no other is open. -/
theorem closing_zero_iff (hd : t.isDelimiter = false) (hc : t.text = ")") :
    Closing 0 (t :: tokens) s ↔ s = ⟨[], t, tokens⟩ := by
  constructor
  · rintro ⟨hsplit, -, -, hp⟩
    obtain ⟨before, closing, after⟩ := s
    cases before with
    | nil =>
      obtain ⟨rfl, rfl⟩ := List.cons.inj hsplit
      rfl
    | cons x us =>
      obtain ⟨rfl, -⟩ := List.cons.inj hsplit
      exact absurd hp (not_pairedFrom_zero (closes_of_text hc).1 (closes_of_text hc).2)
  · rintro rfl
    exact ⟨rfl, List.forall_mem_singleton.mpr hd, hc, pairedFrom_nil.mpr rfl⟩

theorem splitClose?_eq_some_iff : splitClose? ((depth + 1 : Nat) : Int) tokens = some s ↔ Closing depth tokens s := by
  induction tokens generalizing depth s with
  | nil =>
    refine iff_of_false (fun h => by cases h) fun h => ?_
    have hsplit := h.split
    simp at hsplit
  | cons t tokens ih =>
    rw [splitClose?]
    by_cases hd : t.isDelimiter = true
    · rw [if_pos hd]
      refine iff_of_false (fun h => by cases h) fun h => ?_
      rw [h.head] at hd
      cases hd
    · rw [if_neg hd]
      rw [Bool.not_eq_true] at hd
      by_cases ho : t.text = "("
      · rw [if_pos ho, Option.map_eq_some_iff, closing_cons_iff hd (fun _ => by simp [ho]) (pairedFrom_open ho)]
        exact exists_congr fun u => and_congr_left fun _ => ih
      · rw [if_neg ho]
        by_cases hc : t.text = ")"
        · rw [if_pos hc]
          cases depth with
          | zero =>
            rw [if_pos (by simp), closing_zero_iff hd hc, Option.some.injEq, eq_comm]
          | succ depth =>
            have hback : ((depth + 1 + 1 : Nat) : Int) - 1 = ((depth + 1 : Nat) : Int) := by omega
            rw [hback, if_neg (by omega), Option.map_eq_some_iff,
              closing_cons_iff hd (fun h => absurd h (Nat.succ_ne_zero depth)) (pairedFrom_close hc)]
            exact exists_congr fun u => and_congr_left fun _ => ih
        · rw [if_neg hc, Option.map_eq_some_iff, closing_cons_iff hd (fun _ => hc) (pairedFrom_pass ho hc)]
          exact exists_congr fun u => and_congr_left fun _ => ih

theorem closingSplit?_eq_some_iff (hd : first.isDelimiter = false) (ht : first.text = "(") :
    closingSplit? (first :: rest) = some s ↔ ∃ u, Closing 0 rest u ∧ u.cons first = s := by
  have hopen : closingSplit? (first :: rest) = (splitClose? ((0 + 1 : Nat) : Int) rest).map (.cons first) :=
    splitClose?_open hd ht
  rw [hopen, Option.map_eq_some_iff]
  exact exists_congr fun u => and_congr_left fun _ => splitClose?_eq_some_iff

/-! ### Counting -/

/-- The tokens up to the index `c` hold no delimiter and as many brackets that close as open, and every shorter
beginning holds fewer that close. -/
structure ClosesAt (c : Nat) (tokens : List Token) : Prop where
  index : c < tokens.length
  undelimited : Undelimited (tokens.take (c + 1))
  count_eq : (tokens.take (c + 1)).countP Token.opens = (tokens.take (c + 1)).countP Token.closes
  count_lt : ∀ n, 0 < n → n ≤ c → (tokens.take n).countP Token.closes < (tokens.take n).countP Token.opens

theorem countP_cons_open (h : t.text = "(") (us : List Token) :
    (t :: us).countP Token.opens = us.countP Token.opens + 1 ∧ (t :: us).countP Token.closes = us.countP Token.closes :=
  ⟨List.countP_cons_of_pos (opens_of_text h).1, List.countP_cons_of_neg (by simp [opens_of_text h])⟩

theorem countP_concat_close (h : t.text = ")") (us : List Token) :
    (us ++ [t]).countP Token.opens = us.countP Token.opens ∧
      (us ++ [t]).countP Token.closes = us.countP Token.closes + 1 := by
  simp [List.countP_append, closes_of_text h]

theorem countP_concat_of_ne_close (h : t.text ≠ ")") (us : List Token) :
    us.countP Token.opens ≤ (us ++ [t]).countP Token.opens ∧
      (us ++ [t]).countP Token.closes = us.countP Token.closes := by
  simp [List.countP_append, show t.closes = false from decide_eq_false h]

/-- Behind an open bracket, counts that meet for the first time are paired brackets and one that closes. -/
theorem closesAt_append_iff (hd : first.isDelimiter = false) (ht : first.text = "(") :
    ClosesAt (us.length + 1) (first :: (us ++ t :: after)) ↔ Closing 0 (us ++ t :: after) ⟨us, t, after⟩ := by
  have htake (n : Nat) (hn : n ≤ us.length) :
      (first :: (us ++ t :: after)).take (n + 1) = first :: us.take n := by
    rw [List.take_succ_cons, List.take_append_of_le_length hn]
  have hall : (first :: (us ++ t :: after)).take (us.length + 1 + 1) = first :: (us ++ [t]) := by
    rw [List.take_succ_cons, List.take_length_add_append]
    rfl
  obtain ⟨hopens, hcloses⟩ := countP_cons_open ht (us ++ [t])
  constructor
  · rintro ⟨-, hu, heq, hlt⟩
    rw [hall, hopens, hcloses] at heq
    rw [hall] at hu
    have hle (n : Nat) : (us.take n).countP Token.closes ≤ 0 + (us.take n).countP Token.opens := by
      have h := hlt (min n us.length + 1) (Nat.succ_pos _) (Nat.succ_le_succ (Nat.min_le_right _ _))
      rw [htake _ (Nat.min_le_right _ _), (countP_cons_open ht _).1, (countP_cons_open ht _).2,
        ← List.take_eq_take_min] at h
      omega
    have hus := hle us.length
    rw [List.take_length] at hus
    -- the counts can only meet at a bracket that closes
    have htext : t.text = ")" := by
      by_contra hne
      obtain ⟨ho, hc⟩ := countP_concat_of_ne_close hne us
      omega
    have hpaired : us.countP Token.closes = 0 + us.countP Token.opens := by
      obtain ⟨ho, hc⟩ := countP_concat_close htext us
      omega
    exact ⟨rfl, (List.forall_mem_cons.mp hu).2, htext, hle, hpaired⟩
  · rintro ⟨-, hu, (htext : t.text = ")"), (hpaired : PairedFrom Token.opens Token.closes 0 us)⟩
    obtain ⟨hle, heq⟩ := hpaired
    refine ⟨by simp, by rw [hall]; exact List.forall_mem_cons.mpr ⟨hd, hu⟩, ?_, fun n hpos hn => ?_⟩
    · obtain ⟨ho, hc⟩ := countP_concat_close htext us
      rw [hall]
      omega
    · obtain ⟨m, rfl⟩ := Nat.exists_eq_succ_of_ne_zero (Nat.ne_of_gt hpos)
      have hm := hle m
      rw [Nat.succ_eq_add_one, htake m (by omega), (countP_cons_open ht _).1, (countP_cons_open ht _).2]
      omega

/-- The index at which the first token is closed is found by the search. -/
theorem closesAt_iff (hd : first.isDelimiter = false) (ht : first.text = "(") :
    ClosesAt c (first :: rest) ↔ (closingSplit? (first :: rest)).map (·.before.length) = some c := by
  constructor
  · intro h
    cases c with
    | zero =>
      have heq := h.count_eq
      simp [opens_of_text ht] at heq
    | succ m =>
      have hm : m < rest.length := Nat.lt_of_succ_lt_succ h.index
      obtain ⟨us, t, after, rfl, rfl⟩ : ∃ us t after, rest = us ++ t :: after ∧ m = us.length :=
        ⟨rest.take m, rest[m], rest.drop (m + 1), by rw [← List.drop_eq_getElem_cons, List.take_append_drop],
          (List.length_take_of_le (Nat.le_of_lt hm)).symm⟩
      have hs := (closingSplit?_eq_some_iff hd ht).mpr ⟨_, (closesAt_append_iff hd ht).mp h, rfl⟩
      rw [hs]
      rfl
  · intro h
    obtain ⟨s, hs, rfl⟩ := Option.map_eq_some_iff.mp h
    obtain ⟨u, hu, rfl⟩ := (closingSplit?_eq_some_iff hd ht).mp hs
    obtain ⟨us, t, after⟩ := u
    obtain rfl := hu.split
    exact (closesAt_append_iff hd ht).mpr hu

/-! ### The productions -/

theorem remainder_delimiter? (tokens : List Token) : Remainder (delimiter? tokens).toList := by
  intro d hd
  rw [Option.head?_toList] at hd
  exact (Option.filter_eq_some_iff.mp hd).2

/-- A delimiter at the end does not change the search. -/
theorem closingSplit?_dropDelimiter (tokens : List Token) : closingSplit? tokens =
    (closingSplit? (dropDelimiter tokens)).map (·.extend (delimiter? tokens).toList) := by
  rw [← closingSplit?_append_of_remainder (remainder_delimiter? tokens), Indexed.dropDelimiter_append]

theorem dropDelimiter_cons (hd : first.isDelimiter = false) (rest : List Token) :
    dropDelimiter (first :: rest) = first :: dropDelimiter rest :=
  Undelimited.dropDelimiter_append (List.forall_mem_singleton.mpr hd) rest

section Unclosed
open Parse
variable (h : closingSplit? (first :: rest) = none) (hd : first.isDelimiter = false) (limit : Limit) (level : Level)
include h

theorem bracketed_of_unclosed : bracketed limit level first rest = .error ⟨.unclosed, some first⟩ := by
  rw [bracketed_eq, h]

include hd

theorem closingSplit?_cons_dropDelimiter : closingSplit? (first :: dropDelimiter rest) = none := by
  rwa [closingSplit?_dropDelimiter, Option.map_eq_none_iff, dropDelimiter_cons hd] at h

theorem group_of_unclosed (ht : first.text = "(") :
    group limit level (first :: rest) = .error ⟨.unclosed, some first⟩ := by
  have hmore := closingSplit?_cons_dropDelimiter h hd
  rw [group_eq, dropDelimiter_cons hd]
  simp only [ht, ne_eq, not_true_eq_false, if_false, hmore]

theorem operation_of_unclosed (hk : first.kind = .openParen) :
    operation limit level (first :: rest) = .error ⟨.unclosed, some first⟩ := by
  have hmore := closingSplit?_cons_dropDelimiter h hd
  rw [operation_eq, dropDelimiter_cons hd]
  simp only [hk, if_true, hmore]

end Unclosed

/-! ### The match -/

/-- The search finds the index `c` just when the first token is closed there. It finds none just when there is no such
index, and then the productions that start with a bracket blame the first token. -/
theorem matchingClose_exact (ht : first.text = "(") (hd : first.isDelimiter = false) :
    (∀ c, (closingSplit? (first :: rest)).map (·.before.length) = some c ↔ ClosesAt c (first :: rest)) ∧
      (∀ c, Indexed.matchingClose (first :: rest) = .ok c ↔ ClosesAt c (first :: rest)) ∧
      (Indexed.matchingClose (first :: rest) = .error (.fault ⟨.unclosed, some first⟩) ↔
        ¬∃ c, ClosesAt c (first :: rest)) ∧
      ((¬∃ c, ClosesAt c (first :: rest)) → ∀ limit level,
        Parse.bracketed limit level first rest = .error ⟨.unclosed, some first⟩ ∧
        Parse.group limit level (first :: rest) = .error ⟨.unclosed, some first⟩ ∧
        (first.kind = .openParen →
          Parse.operation limit level (first :: rest) = .error ⟨.unclosed, some first⟩)) := by
  have hindex (c : Nat) : ClosesAt c (first :: rest) ↔
      (closingSplit? (first :: rest)).map (·.before.length) = some c := closesAt_iff hd ht
  simp only [hindex]
  cases h : closingSplit? (first :: rest) with
  | none =>
    simp only [Indexed.matchingClose_of_none h, Option.map_none, reduceCtorEq, exists_false, not_false_eq_true,
      implies_true, true_and, forall_const]
    exact fun limit level => ⟨bracketed_of_unclosed h limit level, group_of_unclosed h hd limit level ht,
      operation_of_unclosed h hd limit level⟩
  | some s => simp [Indexed.matchingClose_of_some h]

namespace BracketMatch

/-- The tokens of some texts, one after the other. -/
def tokensOf (texts : List String) : List Token :=
  texts.map (.ofText · none)

end BracketMatch

open BracketMatch in
/-- In `( ( ) a ) ) ; )` the first bracket is closed at the index 4, and in `( ( ) ; )` it is never closed. -/
theorem matchingClose_exact_nested :
    ((Token.ofText "(" none).text = "(" ∧ (Token.ofText "(" none).isDelimiter = false) ∧
      ClosesAt 4 (.ofText "(" none :: tokensOf ["(", ")", "a", ")", ")", ";", ")"]) ∧
      ¬∃ c, ClosesAt c (.ofText "(" none :: tokensOf ["(", ")", ";", ")"]) := by
  have ht : (Token.ofText "(" none).text = "(" := by decide
  have hd : (Token.ofText "(" none).isDelimiter = false := by decide
  refine ⟨⟨ht, hd⟩, ((matchingClose_exact ht hd).1 4).mp (by decide), (matchingClose_exact ht hd).2.2.1.mp ?_⟩
  exact Indexed.matchingClose_of_none (by decide)

end RomanLang.Window
