import RomanLang.Proofs.FaultPlace
import RomanLang.Proofs.Indexed.Productions

/-! Looks at a window by index. Each of them is in range, whatever the window is, or where what is known of
the window says so, and gives what a look at the list gives. -/

namespace RomanLang

@[simp] theorem mapError_ok {α ε ε' : Type} (g : ε → ε') (a : α) : (Except.ok a).mapError g = .ok a := rfl

@[simp] theorem mapError_error {α ε ε' : Type} (g : ε → ε') (e : ε) :
    (Except.error e : Except ε α).mapError g = .error (g e) := rfl

@[simp] theorem mapError_bind {α β ε ε' : Type} (g : ε → ε') (x : Except ε α) (f : α → Except ε β) :
    (x >>= f).mapError g = x.mapError g >>= fun a => (f a).mapError g := by
  cases x <;> rfl

@[simp] theorem mapError_map {α β ε ε' : Type} (g : ε → ε') (f : α → β) (x : Except ε α) :
    (f <$> x).mapError g = f <$> x.mapError g := by
  cases x <;> rfl

@[simp] theorem ok_bind {α β ε : Type} (a : α) (f : α → Except ε β) : (Except.ok a >>= f) = f a := rfl

@[simp] theorem error_bind {α β ε : Type} (e : ε) (f : α → Except ε β) : (Except.error e >>= f) = .error e := rfl

namespace Indexed

open Window

variable {tokens us vs : List Token} {t : Token} {i : Nat} {q : Token → Bool}

theorem read_eq_ok (h : tokens[i]? = some t) : read tokens i = .ok t := by
  rw [read, h]

@[simp] theorem read_cons_zero (t : Token) (ts : List Token) : read (t :: ts) 0 = .ok t := rfl

@[simp] theorem read_cons_succ (t : Token) (ts : List Token) (i : Nat) : read (t :: ts) (i + 1) = read ts i := by
  rw [read, read, List.getElem?_cons_succ]

theorem read_append (us : List Token) (t : Token) (vs : List Token) : read (us ++ t :: vs) us.length = .ok t :=
  read_eq_ok (by simp)

@[simp] theorem first?_eq (tokens : List Token) : first? tokens = .ok tokens.head? := by
  cases tokens <;> rfl

@[simp] theorem holdsAt_eq (q : Token → Bool) (tokens : List Token) (i : Nat) :
    holdsAt q tokens i = .ok (tokens[i]?.any q) := by
  unfold holdsAt
  split_ifs with h
  · rw [read_eq_ok (List.getElem?_eq_getElem h), List.getElem?_eq_getElem h]
    rfl
  · rw [List.getElem?_eq_none (by omega)]
    rfl

@[simp] theorem readOr_eq (tokens : List Token) (i : Nat) (other : Token) :
    readOr tokens i other = .ok (tokens[i]?.getD other) := by
  unfold readOr
  split_ifs with h
  · rw [read_eq_ok (List.getElem?_eq_getElem h), List.getElem?_eq_getElem h]
    rfl
  · rw [List.getElem?_eq_none (by omega)]
    rfl

@[simp] theorem find_eq (q : Token → Bool) (tokens : List Token) (i : Nat) :
    find q tokens i = .ok (((tokens.drop i).findIdx? q).map (i + ·)) := by
  fun_induction find q tokens i with
  | case1 i h ih =>
    rw [read_eq_ok (List.getElem?_eq_getElem h), ok_bind, List.drop_eq_getElem_cons h, List.findIdx?_cons]
    split_ifs with hq
    · rfl
    · rw [ih]
      simp [Function.comp_def, Nat.add_assoc, Nat.add_comm 1]
  | case2 i h =>
    rw [List.drop_eq_nil_of_le (by omega)]
    rfl

theorem findBack_eq_none {start : Nat} (h : ∀ t ∈ tokens.drop (start + 1), q t = false) (hi : i ≤ tokens.length) :
    findBack q tokens start i = .ok none := by
  induction i with
  | zero => rfl
  | succ i ih =>
    unfold findBack
    split_ifs with hs
    · have hget := List.getElem?_eq_getElem hi
      have hmem : tokens[i] ∈ tokens.drop (start + 1) := by
        rw [List.mem_drop_iff_getElem]
        exact ⟨i - (start + 1), by omega, by congr; omega⟩
      rw [read_eq_ok hget, ok_bind, h _ hmem]
      exact ih (by omega)
    · rfl

/-- The search backwards stops at the last token where `q` holds. -/
theorem findBack_append {start : Nat} (ht : q t = true) (hvs : ∀ u ∈ vs, q u = false) (hs : start < us.length) :
    findBack q (us ++ t :: vs) start (us ++ t :: vs).length = .ok (some us.length) := by
  have hstep : ∀ k ≤ vs.length, findBack q (us ++ t :: vs) start (us.length + 1 + k) = .ok (some us.length) := by
    intro k hk
    induction k with
    | zero =>
      rw [findBack, if_pos (by omega), read_append, ok_bind, if_pos ht]
      rfl
    | succ k ih =>
      have hget : (us ++ t :: vs)[us.length + 1 + k]? = some vs[k] := by
        rw [List.getElem?_append_right (by omega), show us.length + 1 + k - us.length = k + 1 by omega,
          List.getElem?_cons_succ, List.getElem?_eq_getElem]
      rw [Nat.add_succ, findBack, if_pos (by omega), read_eq_ok hget, ok_bind, hvs _ (List.getElem_mem hk)]
      exact ih (by omega)
  have h := hstep vs.length (Nat.le_refl _)
  rwa [Nat.add_assoc, Nat.add_comm 1, ← List.length_cons, ← List.length_append] at h

@[simp] theorem classify_eq (tokens : List Token) : classify tokens = .ok (Window.classify tokens) := by
  cases tokens with
  | nil => rfl
  | cons first rest =>
    have hnext : (first :: rest)[1]?.any (·.kind = .assignSign) =
        decide (rest.head?.map (·.kind) = some .assignSign) := by
      cases rest <;> simp
    have hlen : decide ((first :: rest).length = 1) = rest.isEmpty := by
      cases rest <;> simp
    simp only [classify, Window.classify, read_cons_zero, ok_bind, holdsAt_eq, hnext, hlen,
      if_neg (List.cons_ne_nil first rest)]
    split_ifs <;> rfl

@[simp] theorem stripDelimiter_eq (tokens : List Token) : stripDelimiter tokens = .ok (dropDelimiter tokens) := by
  have hlast : tokens[tokens.length - 1]?.any (·.isDelimiter) = (delimiter? tokens).isSome := by
    rw [delimiter?, ← List.getLast?_eq_getElem?, Option.isSome_filter]
  rw [stripDelimiter, dropDelimiter, holdsAt_eq, ok_bind, hlast]
  split_ifs <;> rfl

theorem dropDelimiter_append (tokens : List Token) :
    dropDelimiter tokens ++ (delimiter? tokens).toList = tokens := by
  unfold dropDelimiter
  split_ifs with h
  · obtain ⟨d, hd⟩ := Option.isSome_iff_exists.mp h
    obtain ⟨init, rfl⟩ := List.getLast?_eq_some_iff.mp (Option.filter_eq_some_iff.mp hd).1
    rw [hd, List.dropLast_concat, Option.toList_some]
  · rw [Option.not_isSome_iff_eq_none.mp h]
    simp

/-- What stands behind the tokens without the delimiter is the delimiter. -/
theorem getElem?_length_dropDelimiter (tokens : List Token) :
    tokens[(dropDelimiter tokens).length]? = delimiter? tokens := by
  have h : (dropDelimiter tokens ++ (delimiter? tokens).toList)[(dropDelimiter tokens).length]? =
      tokens[(dropDelimiter tokens).length]? := by rw [dropDelimiter_append]
  rw [← h]
  cases delimiter? tokens <;> simp

/-- Behind a delimiter ends what `endBy` takes. -/
theorem stopBehind_eq (h : i ≤ tokens.length) :
    stopBehind tokens (((tokens.drop i).findIdx? q).map (i + ·)) = i + endBy q (tokens.drop i) := by
  cases hf : (tokens.drop i).findIdx? q with
  | none =>
    rw [endBy, List.findIdx_eq_length.mpr (List.findIdx?_eq_none_iff.mp hf)]
    simp [stopBehind]
    omega
  | some j =>
    obtain ⟨hj, rfl⟩ := List.findIdx?_eq_some_iff_findIdx_eq.mp hf
    rw [endBy, Nat.min_eq_left hj]
    rfl

@[simp] theorem blockStop_eq (anchor : String) (tokens : List Token) :
    blockStop anchor tokens = .ok (blockEnd anchor tokens) := by
  unfold blockStop blockEnd
  cases lastPosition? anchor tokens with
  | some p => rfl
  | none =>
    have h := stopBehind_eq (q := (·.isDelimiter)) (Nat.zero_le tokens.length)
    rw [List.drop_zero, Nat.zero_add] at h
    rw [find_eq, ok_bind, List.drop_zero, h]
    rfl

theorem matchingClose_of_some {s : BracketSplit} (h : closingSplit? tokens = some s) :
    matchingClose tokens = .ok s.before.length := by
  rw [matchingClose, h]
  rfl

theorem matchingClose_of_none {first : Token} {rest : List Token} (h : closingSplit? (first :: rest) = none) :
    matchingClose (first :: rest) = .error (.fault ⟨.unclosed, some first⟩) := by
  rw [matchingClose, h]
  rfl

end Indexed

end RomanLang
