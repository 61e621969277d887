import Mathlib
import RomanLang.Proofs.Productions.Agreement

/-! Layout and names do not matter. Two lists of well spelled tokens, each in the order of its positions, may
differ in where their tokens stand and in the spelling of identifiers and numerals. They are analyzed alike:
either both are programs, whose trees correspond token by token, or both are refused at the same index for
the same cause. -/

namespace RomanLang

open List (Forall₂)
open Parse

/-- Tokens that stand at the same index of two lists. -/
def SameIndex (xs ys : List Token) (a b : Token) : Prop :=
  ∃ i : Nat, xs[i]? = some a ∧ ys[i]? = some b

variable {xs ys : List Token} {R : Token → Token → Prop}

theorem forall₂_sameIndex (h : xs.length = ys.length) : Forall₂ (SameIndex xs ys) xs ys :=
  List.forall₂_iff_get.mpr ⟨h, fun i hi hj => ⟨i, List.getElem?_eq_getElem hi, List.getElem?_eq_getElem hj⟩⟩

/-- The index of a token pairs it with a token that is alike. -/
theorem pairing_sameIndex (h : Forall₂ Token.Alike xs ys) (hx : ∀ t ∈ xs, t.WellSpelled)
    (hy : ∀ t ∈ ys, t.WellSpelled) : Pairing (SameIndex xs ys) where
  left := fun ⟨_, ha, _⟩ => hx _ (List.mem_of_getElem? ha)
  right := fun ⟨_, _, hb⟩ => hy _ (List.mem_of_getElem? hb)
  alike := by
    rintro a b ⟨i, ha, hb⟩
    obtain ⟨hi, rfl⟩ := List.getElem?_eq_some_iff.mp ha
    obtain ⟨hj, rfl⟩ := List.getElem?_eq_some_iff.mp hb
    exact (List.forall₂_iff_get.mp h).2 i hi hj

/-- The token at fault, and with it the description, is found at the same index. -/
theorem SameIndex.description_eq {a b : Token} (h : SameIndex xs ys a b)
    (ht : xs.map (·.text) = ys.map (·.text)) (cause : SyntaxCause) :
    (SyntaxFault.mk cause (some a)).description = (SyntaxFault.mk cause (some b)).description := by
  obtain ⟨i, ha, hb⟩ := h
  have htext : a.text = b.text := by
    have := congrArg (·[i]?) ht
    simpa [ha, hb] using this
  simp [SyntaxFault.description, htext]

/-- Tokens that fill the room are refused at their first one, in both runs. -/
theorem Limit.retell_agree (limit : Limit) {a b : Token} (hab : R a b) {x y : Except SyntaxFault Program}
    (h : Agree R (Program.Matches R) x y) :
    Agree R (Program.Matches R) (x.mapError (limit.retell a)) (y.mapError (limit.retell b)) := by
  cases h with
  | ok h => exact .ok h
  | error cause h =>
    simp only [Except.mapError, retell]
    split_ifs
    · exact .error _ hab
    · exact .error _ h

theorem parseTokens_agree (hR : Pairing R) (limit : Limit) (hne : xs ≠ []) (h : Parallel R xs ys) :
    Agree R (Program.Matches R) (parseTokens limit xs) (parseTokens limit ys) := by
  rcases Window.forall₂_cases h.related with ⟨rfl, -⟩ | ⟨a, as, b, bs, rfl, rfl, hab, -⟩
  · exact absurd rfl hne
  · exact limit.retell_agree hab
      (sequence_agree (statementsAgreeBelow hR limit _) .top (Nat.lt_succ_self _) hne h)

/-- Both programs, or both refused: where tokens stand and how operands are spelled does not matter. -/
theorem analyze_alike (limit : Limit) (xs ys : List Token) (h : Forall₂ Token.Alike xs ys)
    (hx : ∀ t ∈ xs, t.WellSpelled) (hy : ∀ t ∈ ys, t.WellSpelled) (hxo : xs.Pairwise Token.Before)
    (hyo : ys.Pairwise Token.Before) :
    (∃ p q, analyze limit (xs.map .token) = .ok p ∧ analyze limit (ys.map .token) = .ok q ∧
        p.toTree.Corresponds (SameIndex xs ys) q.toTree) ∨
      ∃ f g, analyze limit (xs.map .token) = .error (.structural f) ∧
        analyze limit (ys.map .token) = .error (.structural g) ∧ f.cause = g.cause ∧
        Option.Rel (SameIndex xs ys) f.token g.token ∧ (xs ≠ [] → f.token.isSome = true) ∧
        (xs.map (·.text) = ys.map (·.text) → f.description = g.description) := by
  rw [analyze_map_token, analyze_map_token]
  by_cases hne : xs = []
  · subst hne
    obtain rfl := List.forall₂_nil_left_iff.mp h
    exact .inr ⟨_, _, rfl, rfl, rfl, .none, fun hne => absurd rfl hne, fun _ => rfl⟩
  · have hagree := parseTokens_agree (pairing_sameIndex h hx hy) limit hne
      ⟨forall₂_sameIndex h.length_eq, hxo, hyo⟩
    generalize parseTokens limit xs = x at hagree ⊢
    generalize parseTokens limit ys = y at hagree ⊢
    cases hagree with
    | ok hpq => exact .inl ⟨_, _, rfl, rfl, .branch hpq⟩
    | error cause hab =>
      exact .inr ⟨_, _, rfl, rfl, rfl, .some hab, fun _ => rfl, fun ht => hab.description_eq ht cause⟩

/-! ### Two layouts of one program -/

namespace Respelling

def tokens (source : String) : List Token :=
  (tokenize source).filterMap Lexeme.token?

def compact : String := "a:=(b)+II;if a<V then c;else d;"

def spread : String := "first := ( second ) # sum\n  + VII ;\nif first < I then\n  third ; else fourth ;"

/-- The tree of both, with the operands as they are spelled. -/
def display (x y n m z w : String) : String :=
  "SyntaxNode([SyntaxNode([SyntaxNode([leaf('" ++ x ++ "')]), leaf(':='), SyntaxNode([SyntaxNode([leaf('('), " ++
    "SyntaxNode([leaf('" ++ y ++ "')]), leaf(')')]), leaf('+'), SyntaxNode([leaf('" ++ n ++ "')])])]), " ++
    "SyntaxNode([leaf('if'), SyntaxNode([SyntaxNode([leaf('" ++ x ++ "')]), leaf('<'), SyntaxNode([leaf('" ++ m ++
    "')])]), leaf('then'), SyntaxNode([leaf('" ++ z ++ "')]), leaf('else'), SyntaxNode([leaf('" ++ w ++ "')])])])"

/-- A comment in place of the value. -/
def compactFault : String := "a:=b;b:=;"

def spreadFault : String := "first := second ; second :=\n  # nothing\n ;"

end Respelling

open Respelling in
theorem analyze_alike_spread :
    (∃ p q, analyze .default ((tokens compact).map .token) = .ok p ∧
        analyze .default ((tokens spread).map .token) = .ok q ∧
        p.toTree.display = display "a" "b" "II" "V" "c" "d" ∧
        q.toTree.display = display "first" "second" "VII" "I" "third" "fourth" ∧
        p.toTree.Corresponds (SameIndex (tokens compact) (tokens spread)) q.toTree) ∧
      ∃ f g, analyze .default ((tokens compactFault).map .token) = .error (.structural f) ∧
        analyze .default ((tokens spreadFault).map .token) = .error (.structural g) ∧
        f.cause = .assignMissing ∧ g.cause = .assignMissing ∧
        Option.Rel (SameIndex (tokens compactFault) (tokens spreadFault)) f.token g.token := by
  have hcompact : (analyze .default ((tokens compact).map .token)).toOption.map (·.toTree.display) =
      some (display "a" "b" "II" "V" "c" "d") := by decide +kernel
  have hspread : (analyze .default ((tokens spread).map .token)).toOption.map (·.toTree.display) =
      some (display "first" "second" "VII" "I" "third" "fourth") := by decide +kernel
  have hrefuse : parseTokens .default (tokens compactFault) =
      .error ⟨.assignMissing, some ⟨.delimiter, ";", some 8, 1, 9⟩⟩ := by cbv
  constructor
  · rcases analyze_alike .default (tokens compact) (tokens spread) (by decide +kernel) (by decide +kernel)
        (by decide +kernel) (by decide +kernel) (by decide +kernel) with ⟨p, q, hp, hq, h⟩ | ⟨f, -, h, -⟩
    · rw [hp] at hcompact
      rw [hq] at hspread
      exact ⟨p, q, hp, hq, Option.some.inj hcompact, Option.some.inj hspread, h⟩
    · rw [h] at hcompact
      cases hcompact
  · rcases analyze_alike .default (tokens compactFault) (tokens spreadFault) (by decide +kernel) (by decide +kernel)
        (by decide +kernel) (by decide +kernel) (by decide +kernel) with ⟨p, -, h, -⟩ | ⟨f, g, hf, hg, hc, ht, -⟩
    · rw [analyze_map_token, hrefuse] at h
      cases h
    · have hfault := hf
      rw [analyze_map_token, hrefuse] at hfault
      cases hfault
      exact ⟨_, g, hf, hg, rfl, hc.symm, ht⟩

end RomanLang
