import RomanLang.Proofs.Blocks
import RomanLang.Proofs.Yield

/-! The form of values. A value is well formed when its tokens have the kinds of their places. Its
nesting counts the levels below it, and its room the productions that are open at its deepest part. The
tokens of a well formed value are classified by its outermost operation or bracket, and its brackets
close within it, so that a search for a closing bracket passes over it. -/

namespace RomanLang

open Window

namespace Value

def WellFormed : Value → Prop
  | atom token => token.kind.isOperand = true
  | operation left sign right =>
    left.kind.isOperand = true ∧ sign.kind = .operatorSign ∧ right.WellFormed
  | group opening inner closing =>
    opening.kind = .openParen ∧ inner.WellFormed ∧ closing.kind = .closeParen
  | groupOperation opening inner closing sign right =>
    opening.kind = .openParen ∧ inner.WellFormed ∧ closing.kind = .closeParen ∧
      sign.kind = .operatorSign ∧ right.WellFormed

/-- How far the deepest value inside stands below the value. A bracketed value on the left of an
operation takes two levels. -/
def nesting : Value → Nat
  | atom _ => 0
  | operation _ _ right => right.nesting + 1
  | group _ inner _ => inner.nesting + 1
  | groupOperation _ inner _ _ right => max (inner.nesting + 2) (right.nesting + 1)

/-- How many more productions are open at the deepest value inside than at the value. -/
def room : Value → Nat
  | atom _ => 0
  | operation _ _ right => right.room + 2
  | group _ inner _ => inner.room + 3
  | groupOperation _ inner _ _ right => max (inner.room + 4) (right.room + 3)

/-- Every level of nesting opens at most three productions. -/
theorem room_le (v : Value) : v.room ≤ 3 * v.nesting := by
  induction v <;> simp only [room, nesting] <;> omega

def isAtom : Value → Bool
  | atom _ => true
  | _ => false

theorem length_tokens_ne_one_iff (v : Value) : v.tokens.length ≠ 1 ↔ v.isAtom = false := by
  cases v with
  | atom token => simp [tokens, isAtom]
  | operation left sign right => simp [tokens, isAtom]
  | group opening inner closing => simp [tokens, isAtom]
  | groupOperation opening inner closing sign right => simp [tokens, isAtom]

/-- What the tokens of a value are taken for. -/
def statementClass : Value → StatementClass
  | atom _ => .atom
  | operation _ _ _ => .operator
  | group _ _ _ => .parenthesis
  | groupOperation _ _ _ _ _ => .parenthesis

end Value

/-! ### Tokens -/

/-- Kinds that occur in values. -/
def Kind.inValue (k : Kind) : Bool :=
  k.isOperand || k = .operatorSign || k = .openParen || k = .closeParen

theorem Kind.isOperand_iff {k : Kind} : k.isOperand = true ↔ k = .identifier ∨ k = .constant := by
  simp [isOperand]

theorem Token.isDelimiter_eq_false_of_inValue {t : Token} (h : t.kind.inValue = true) :
    t.isDelimiter = false := by
  rw [Token.isDelimiter, decide_eq_false_iff_not]
  intro hk
  simp [hk, Kind.inValue, Kind.isOperand] at h

theorem Value.WellFormed.inValue {v : Value} (h : v.WellFormed) :
    ∀ t ∈ v.tokens, t.kind.inValue = true := by
  induction v with
  | atom token =>
    intro t ht
    rw [List.mem_singleton.mp ht, Kind.inValue, show token.kind.isOperand = true from h]
    rfl
  | operation left sign right ih =>
    obtain ⟨hl, hs, hr⟩ := h
    intro t ht
    simp only [tokens, List.mem_cons] at ht
    rcases ht with rfl | rfl | ht
    · simp [Kind.inValue, hl]
    · simp [Kind.inValue, hs]
    · exact ih hr t ht
  | group opening inner closing ih =>
    obtain ⟨ho, hi, hc⟩ := h
    intro t ht
    simp only [tokens, List.mem_cons, List.mem_append, List.not_mem_nil, or_false] at ht
    rcases ht with rfl | ht | rfl
    · simp [Kind.inValue, ho]
    · exact ih hi t ht
    · simp [Kind.inValue, hc]
  | groupOperation opening inner closing sign right ihi ihr =>
    obtain ⟨ho, hi, hc, hs, hr⟩ := h
    intro t ht
    simp only [tokens, List.mem_cons, List.mem_append] at ht
    rcases ht with rfl | ht | rfl | rfl | ht
    · simp [Kind.inValue, ho]
    · exact ihi hi t ht
    · simp [Kind.inValue, hc]
    · simp [Kind.inValue, hs]
    · exact ihr hr t ht

theorem Value.WellFormed.undelimited {v : Value} (h : v.WellFormed) : Undelimited v.tokens :=
  fun t ht => Token.isDelimiter_eq_false_of_inValue (h.inValue t ht)

namespace Token.WellSpelled

variable {t : Token}

/-- Operands and operators are no brackets. -/
theorem ne_bracket (h : t.WellSpelled) (ho : t.kind ≠ .openParen) (hc : t.kind ≠ .closeParen) :
    t.text ≠ "(" ∧ t.text ≠ ")" :=
  ⟨fun ht => ho (h.kind_eq_openParen_iff.mpr ht), fun ht => hc (h.kind_eq_closeParen_iff.mpr ht)⟩

theorem operand_ne_bracket (h : t.WellSpelled) (hk : t.kind.isOperand = true) :
    t.text ≠ "(" ∧ t.text ≠ ")" := by
  rcases Kind.isOperand_iff.mp hk with hk | hk <;> exact h.ne_bracket (by simp [hk]) (by simp [hk])

theorem operand_not_mem_operatorTexts (h : t.WellSpelled) (hk : t.kind.isOperand = true) :
    t.text ∉ operatorTexts := by
  intro ht
  simp [h.kind_eq_operatorSign_iff.mpr ht, Kind.isOperand] at hk

end Token.WellSpelled

/-! ### Classes -/

theorem classify_eq_atom {first : Token} {rest : List Token} (h : classify (first :: rest) = .atom) :
    rest = [] ∧ first.kind.isOperand = true := by
  simp only [classify] at h
  split_ifs at h with _ _ _ _ ha
  simpa using ha

theorem Value.WellFormed.classify_tokens {v : Value} (h : v.WellFormed)
    (hs : ∀ t ∈ v.tokens, t.WellSpelled) : classify v.tokens = v.statementClass := by
  cases v with
  | atom token =>
    have ht := hs token (by simp [tokens])
    have hk : token.kind.isOperand = true := h
    have hc : token.kind ≠ .conditional := by
      rcases Kind.isOperand_iff.mp hk with hk | hk <;> simp [hk]
    simp [tokens, classify, statementClass, (ht.operand_ne_bracket hk).1, hc, hk,
      ht.operand_not_mem_operatorTexts hk]
  | operation left sign right =>
    obtain ⟨hl, hsign, -⟩ := h
    have ht := hs left (by simp [tokens])
    have hc : left.kind ≠ .conditional := by
      rcases Kind.isOperand_iff.mp hl with hl | hl <;> simp [hl]
    have ho := (hs sign (by simp [tokens])).kind_eq_operatorSign_iff.mp hsign
    simp [tokens, classify, statementClass, (ht.operand_ne_bracket hl).1, hc, hsign, ho]
  | group opening inner closing =>
    have ht := (hs opening (by simp [tokens])).kind_eq_openParen_iff.mp h.1
    simp [tokens, classify, statementClass, ht]
  | groupOperation opening inner closing sign right =>
    have ht := (hs opening (by simp [tokens])).kind_eq_openParen_iff.mp h.1
    simp [tokens, classify, statementClass, ht]

/-! ### Brackets -/

namespace Window

variable {depth : Int} {t : Token} {rest : List Token}

def BracketSplit.prepend (tokens : List Token) (s : BracketSplit) : BracketSplit :=
  { s with before := tokens ++ s.before }

theorem BracketSplit.prepend_prepend (us vs : List Token) (s : BracketSplit) :
    (s.prepend vs).prepend us = s.prepend (us ++ vs) := by
  simp [prepend]

/-- The search for the closing bracket of an open one passes over the tokens. -/
def Balanced (tokens : List Token) : Prop :=
  ∀ depth rest, 0 < depth →
    splitClose? depth (tokens ++ rest) = (splitClose? depth rest).map (.prepend tokens)

theorem Balanced.append {us vs : List Token} (hu : Balanced us) (hv : Balanced vs) : Balanced (us ++ vs) := by
  intro depth rest hdepth
  rw [List.append_assoc, hu depth _ hdepth, hv depth rest hdepth, Option.map_map]
  congr 1
  funext s
  exact BracketSplit.prepend_prepend us vs s

theorem balanced_singleton (hd : t.isDelimiter = false) (ht : t.text ≠ "(" ∧ t.text ≠ ")") :
    Balanced [t] := by
  intro depth rest _
  rw [List.singleton_append, splitClose?, if_neg (by simp [hd]), if_neg ht.1, if_neg ht.2]
  rfl

theorem splitClose?_open (hd : t.isDelimiter = false) (ht : t.text = "(") :
    splitClose? depth (t :: rest) = (splitClose? (depth + 1) rest).map (.prepend [t]) := by
  rw [splitClose?, if_neg (by simp [hd]), if_pos ht]
  rfl

theorem splitClose?_close (hd : t.isDelimiter = false) (ht : t.text = ")") (hdepth : 0 < depth) :
    splitClose? (depth + 1) (t :: rest) = (splitClose? depth rest).map (.prepend [t]) := by
  rw [splitClose?, if_neg (by simp [hd]), if_neg (by simp [ht]), if_pos ht, Int.add_sub_cancel,
    if_neg (by omega)]
  rfl

/-- A bracket around tokens that are passed over is passed over as a whole. -/
theorem Balanced.bracket {opening closing : Token} {inner : List Token} (h : Balanced inner)
    (hod : opening.isDelimiter = false) (ho : opening.text = "(") (hcd : closing.isDelimiter = false)
    (hc : closing.text = ")") : Balanced (opening :: (inner ++ [closing])) := by
  intro depth rest hdepth
  rw [List.cons_append, List.append_assoc, List.singleton_append, splitClose?_open hod ho,
    h (depth + 1) _ (by omega), splitClose?_close hcd hc hdepth, Option.map_map, Option.map_map]
  congr 1
  funext s
  simp [BracketSplit.prepend]

/-- The tokens up to a closing bracket, and those behind it. -/
theorem block_append_after {tokens : List Token} {s : BracketSplit} (h : closingSplit? tokens = some s) :
    s.block ++ s.after = tokens := by
  rw [BracketSplit.block, List.append_assoc]
  exact closingSplit?_append h

/-- The search stops at a closing bracket, and passes no delimiter. -/
theorem splitClose?_eq_some {tokens : List Token} {s : BracketSplit} (h : splitClose? depth tokens = some s) :
    s.closing.text = ")" ∧ Undelimited s.block := by
  induction tokens generalizing depth s with
  | nil => simp [splitClose?] at h
  | cons t tokens ih =>
    have hstep {u : BracketSplit} (hd : t.isDelimiter = false) (hu : u.closing.text = ")" ∧ Undelimited u.block) :
        (BracketSplit.cons t u).closing.text = ")" ∧ Undelimited (BracketSplit.cons t u).block := by
      refine ⟨hu.1, fun x hx => ?_⟩
      rcases List.mem_cons.mp hx with rfl | hx
      · exact hd
      · exact hu.2 x hx
    simp only [splitClose?] at h
    split_ifs at h with hd ho hc hz
    · obtain ⟨u, hu, rfl⟩ := Option.map_eq_some_iff.mp h
      exact hstep (by simpa using hd) (ih hu)
    · cases h
      exact ⟨hc, fun x hx => by rw [List.mem_singleton.mp hx]; simpa using hd⟩
    · obtain ⟨u, hu, rfl⟩ := Option.map_eq_some_iff.mp h
      exact hstep (by simpa using hd) (ih hu)
    · obtain ⟨u, hu, rfl⟩ := Option.map_eq_some_iff.mp h
      exact hstep (by simpa using hd) (ih hu)

end Window

/-- Inside a bracket the search for its end passes over a whole value. -/
theorem Value.WellFormed.balanced {v : Value} (h : v.WellFormed) (hs : ∀ t ∈ v.tokens, t.WellSpelled) :
    Balanced v.tokens := by
  have hd := h.undelimited
  induction v with
  | atom token =>
    have ht := hs token (by simp [tokens])
    exact balanced_singleton (hd token (by simp [tokens])) (ht.operand_ne_bracket h)
  | operation left sign right ih =>
    obtain ⟨hl, hsign, hr⟩ := h
    simp only [tokens, Undelimited, List.forall_mem_cons] at hs hd
    have hleft := balanced_singleton hd.1 (hs.1.operand_ne_bracket hl)
    have hop := balanced_singleton hd.2.1 (hs.2.1.ne_bracket (by simp [hsign]) (by simp [hsign]))
    exact hleft.append (hop.append (ih hr hs.2.2 hd.2.2))
  | group opening inner closing ih =>
    obtain ⟨ho, hi, hc⟩ := h
    simp only [tokens, Undelimited, List.forall_mem_cons, List.forall_mem_append] at hs hd
    exact (ih hi hs.2.1 hd.2.1).bracket hd.1 (hs.1.kind_eq_openParen_iff.mp ho) hd.2.2.1
      (hs.2.2.1.kind_eq_closeParen_iff.mp hc)
  | groupOperation opening inner closing sign right ihi ihr =>
    obtain ⟨ho, hi, hc, hsign, hr⟩ := h
    simp only [tokens, Undelimited, List.forall_mem_cons, List.forall_mem_append] at hs hd
    have hgroup := (ihi hi hs.2.1 hd.2.1).bracket hd.1 (hs.1.kind_eq_openParen_iff.mp ho) hd.2.2.1
      (hs.2.2.1.kind_eq_closeParen_iff.mp hc)
    have hop := balanced_singleton hd.2.2.2.1 (hs.2.2.2.1.ne_bracket (by simp [hsign]) (by simp [hsign]))
    have hall := hgroup.append (hop.append (ihr hr hs.2.2.2.2 hd.2.2.2.2))
    simpa [tokens] using hall

/-- The bracket that opens a bracketed value is closed by the bracket behind the value. -/
theorem Value.WellFormed.closingSplit?_eq {v : Value} (h : v.WellFormed)
    (hs : ∀ t ∈ v.tokens, t.WellSpelled) {opening closing : Token} (ho : opening.kind = .openParen)
    (hos : opening.WellSpelled) (hc : closing.kind = .closeParen) (hcs : closing.WellSpelled)
    (after : List Token) :
    closingSplit? (opening :: (v.tokens ++ closing :: after)) =
      some ⟨opening :: v.tokens, closing, after⟩ := by
  have hod : opening.isDelimiter = false := by simp [Token.isDelimiter, ho]
  have hcd : closing.isDelimiter = false := by simp [Token.isDelimiter, hc]
  have hct := hcs.kind_eq_closeParen_iff.mp hc
  rw [closingSplit?, splitClose?_open hod (hos.kind_eq_openParen_iff.mp ho), h.balanced hs _ _ (by decide)]
  simp [splitClose?, hcd, hct, BracketSplit.prepend]

end RomanLang
