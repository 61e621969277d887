import Mathlib.Data.List.Forall2
import RomanLang.Proofs.Productions.Statement

/-! Tokens that the parser cannot tell apart. Two tokens are alike when their kinds agree, and their texts
too unless they are operands. Windows of tokens that are alike place by place are taken for the same
class, end at the same places and split at the same brackets and keywords; the ends of blocks agree when
both windows stand in the order of their positions. -/

namespace RomanLang

/-- Tokens that may differ in where they stand, and in the spelling of an identifier or a numeral. -/
structure Token.Alike (a b : Token) : Prop where
  kind_eq : a.kind = b.kind
  text_eq : a.kind.isOperand = false → a.text = b.text

instance (a b : Token) : Decidable (a.Alike b) :=
  decidable_of_iff (a.kind = b.kind ∧ (a.kind.isOperand = false → a.text = b.text))
    ⟨fun h => ⟨h.1, h.2⟩, fun h => ⟨h.kind_eq, h.text_eq⟩⟩

/-- A relation that holds of well spelled tokens only, and only of tokens that are alike. -/
structure Pairing (R : Token → Token → Prop) : Prop where
  left : ∀ {a b}, R a b → a.WellSpelled
  right : ∀ {a b}, R a b → b.WellSpelled
  alike : ∀ {a b}, R a b → a.Alike b

namespace Pairing

variable {R : Token → Token → Prop} (hR : Pairing R) {a b : Token} {us vs : List Token}
include hR

/-- Texts that no operand has are found at the same places. -/
theorem text_eq_iff (h : R a b) {text : String} {k : Kind} (hk : lexicalKind? text.toList = some k)
    (ho : k.isOperand = false) : a.text = text ↔ b.text = text := by
  have hab := hR.alike h
  constructor
  · intro ht
    have hkind : a.kind = k := (hR.left h).kind_eq ht hk
    rw [← hab.text_eq (hkind ▸ ho), ht]
  · intro ht
    have hkind : b.kind = k := (hR.right h).kind_eq ht hk
    rw [hab.text_eq (hab.kind_eq ▸ hkind ▸ ho), ht]

theorem openText_iff (h : R a b) : a.text = "(" ↔ b.text = "(" :=
  hR.text_eq_iff h (k := .openParen) (by decide) rfl

theorem closeText_iff (h : R a b) : a.text = ")" ↔ b.text = ")" :=
  hR.text_eq_iff h (k := .closeParen) (by decide) rfl

theorem keyword_iff (h : R a b) (text : String) (hk : lexicalKind? text.toList = some .conditional) :
    a.text = text ↔ b.text = text :=
  hR.text_eq_iff h hk rfl

theorem operator_iff (h : R a b) : a.text ∈ Window.operatorTexts ↔ b.text ∈ Window.operatorTexts := by
  rw [← (hR.left h).kind_eq_operatorSign_iff, ← (hR.right h).kind_eq_operatorSign_iff, (hR.alike h).kind_eq]

theorem isDelimiter_eq (h : R a b) : a.isDelimiter = b.isDelimiter := by
  rw [Token.isDelimiter, Token.isDelimiter, (hR.alike h).kind_eq]

end Pairing

/-! ### Options -/

section Options
variable {α β γ δ : Type} {A : α → β → Prop} {x : Option α} {y : Option β}

theorem optionRel_cases (h : Option.Rel A x y) :
    x = none ∧ y = none ∨ ∃ a b, x = some a ∧ y = some b ∧ A a b := by
  cases h with
  | none => exact .inl ⟨rfl, rfl⟩
  | some hab => exact .inr ⟨_, _, rfl, rfl, hab⟩

theorem isSome_eq_of_rel (h : Option.Rel A x y) : x.isSome = y.isSome := by
  cases h <;> rfl

theorem optionRel_map {B : γ → δ → Prop} {f : α → γ} {g : β → δ} (h : Option.Rel A x y)
    (hfg : ∀ a b, A a b → B (f a) (g b)) : Option.Rel B (x.map f) (y.map g) := by
  cases h with
  | none => exact .none
  | some hab => exact .some (hfg _ _ hab)

end Options

/-! ### Lists place by place -/

namespace Window

open List (Forall₂)

variable {R : Token → Token → Prop} {p q : Token → Bool} {us vs pre after ws : List Token}

theorem forall₂_cases (h : Forall₂ R us vs) :
    us = [] ∧ vs = [] ∨ ∃ a as b bs, us = a :: as ∧ vs = b :: bs ∧ R a b ∧ Forall₂ R as bs := by
  cases h with
  | nil => exact .inl ⟨rfl, rfl⟩
  | cons hab hrest => exact .inr ⟨_, _, _, _, rfl, rfl, hab, hrest⟩

theorem isEmpty_eq_of_forall₂ (h : Forall₂ R us vs) : us.isEmpty = vs.isEmpty := by
  cases h <;> rfl

theorem exists_append_of_forall₂ (h : Forall₂ R (pre ++ after) ws) :
    ∃ pre' after', ws = pre' ++ after' ∧ Forall₂ R pre pre' ∧ Forall₂ R after after' := by
  induction pre generalizing ws with
  | nil => exact ⟨[], ws, rfl, .nil, h⟩
  | cons t pre ih =>
    obtain ⟨u, ws', hu, hws, rfl⟩ := List.forall₂_cons_left_iff.mp h
    obtain ⟨pre', after', rfl, hpre, hafter⟩ := ih hws
    exact ⟨u :: pre', after', rfl, .cons hu hpre, hafter⟩

theorem forall₂_append {α : Type} {A : α → α → Prop} {pre pre' after after' : List α} (hpre : Forall₂ A pre pre')
    (hafter : Forall₂ A after after') : Forall₂ A (pre ++ after) (pre' ++ after') :=
  List.rel_append hpre hafter

theorem any_eq_of_forall₂ (h : Forall₂ R us vs) (hp : ∀ a b, R a b → p a = q b) : us.any p = vs.any q := by
  induction h with
  | nil => rfl
  | cons hab _ ih => rw [List.any_cons, List.any_cons, hp _ _ hab, ih]

theorem endBy_eq_of_forall₂ (h : Forall₂ R us vs) (hp : ∀ a b, R a b → p a = q b) : endBy p us = endBy q vs := by
  induction h with
  | nil => rfl
  | cons hab _ ih => rw [endBy_cons, endBy_cons, hp _ _ hab, ih]

theorem takeWhile_of_forall₂ (h : Forall₂ R us vs) (hp : ∀ a b, R a b → p a = q b) :
    Forall₂ R (us.takeWhile p) (vs.takeWhile q) := by
  induction h with
  | nil => exact .nil
  | cons hab _ ih =>
    rw [List.takeWhile_cons, List.takeWhile_cons, hp _ _ hab]
    split
    · exact .cons hab ih
    · exact .nil

theorem dropWhile_of_forall₂ (h : Forall₂ R us vs) (hp : ∀ a b, R a b → p a = q b) :
    Forall₂ R (us.dropWhile p) (vs.dropWhile q) := by
  induction h with
  | nil => exact .nil
  | cons hab hrest ih =>
    rw [List.dropWhile_cons, List.dropWhile_cons, hp _ _ hab]
    split
    · exact ih
    · exact .cons hab hrest

/-! ### Windows -/

variable (hR : Pairing R)
include hR

theorem classify_eq_of_forall₂ (h : Forall₂ R us vs) : classify us = classify vs := by
  cases h with
  | nil => rfl
  | @cons a b us vs hab hrest =>
    have hkind := (hR.alike hab).kind_eq
    have hnext : us.head?.map (·.kind) = vs.head?.map (·.kind) := by
      cases hrest with
      | nil => rfl
      | cons h _ => exact congrArg some (hR.alike h).kind_eq
    have hany : (a :: us).any (·.text ∈ operatorTexts) = (b :: vs).any (·.text ∈ operatorTexts) :=
      any_eq_of_forall₂ (.cons hab hrest) fun c d hcd => decide_eq_decide.mpr (hR.operator_iff hcd)
    simp only [classify, hR.openText_iff hab, hkind, hnext, isEmpty_eq_of_forall₂ hrest, hany]

theorem statementEnd_eq_of_forall₂ (h : Forall₂ R us vs) : statementEnd us = statementEnd vs :=
  endBy_eq_of_forall₂ h fun _ _ => hR.isDelimiter_eq

theorem delimiter?_of_forall₂ (h : Forall₂ R us vs) : Option.Rel R (delimiter? us) (delimiter? vs) := by
  rcases List.eq_nil_or_concat us with rfl | ⟨pre, d, rfl⟩
  · cases h
    exact .none
  · rw [List.concat_eq_append] at h
    obtain ⟨pre', after', rfl, -, hd⟩ := exists_append_of_forall₂ h
    obtain ⟨e, rest, hde, hrest, rfl⟩ := List.forall₂_cons_left_iff.mp hd
    cases hrest
    have hdel := hR.isDelimiter_eq hde
    simp only [delimiter?, List.concat_eq_append, List.getLast?_concat, Option.filter_some, hdel]
    split
    · exact .some hde
    · exact .none

theorem dropDelimiter_of_forall₂ (h : Forall₂ R us vs) : Forall₂ R (dropDelimiter us) (dropDelimiter vs) := by
  rw [dropDelimiter, dropDelimiter, isSome_eq_of_rel (delimiter?_of_forall₂ hR h)]
  split
  · rw [List.dropLast_eq_take, List.dropLast_eq_take, h.length_eq]
    exact List.forall₂_take _ h
  · exact h

/-! ### Blocks -/

omit hR in
theorem forall_ne_of_forall₂ {anchor : String} (h : Forall₂ R us vs)
    (ha : ∀ a b, R a b → (a.text = anchor ↔ b.text = anchor)) (hne : ∀ t ∈ us, t.text ≠ anchor) :
    ∀ t ∈ vs, t.text ≠ anchor := by
  induction h with
  | nil => simp
  | cons hab _ ih =>
    simp only [List.forall_mem_cons] at hne ⊢
    exact ⟨fun hb => hne.1 ((ha _ _ hab).mpr hb), ih hne.2⟩

/-- Blocks of windows that both stand in order end at the same place. -/
theorem blockEnd_eq_of_forall₂ {anchor : String} {k : Kind} (hk : lexicalKind? anchor.toList = some k)
    (hop : k.isOperand = false) (hdel : k ≠ .delimiter) (h : Forall₂ R us vs) (hus : us.Pairwise Token.Before)
    (hvs : vs.Pairwise Token.Before) : blockEnd anchor us = blockEnd anchor vs := by
  have hanchor : ∀ a b, R a b → (a.text = anchor ↔ b.text = anchor) := fun a b hab => hR.text_eq_iff hab hk hop
  rcases forall_ne_or_last anchor us with hne | ⟨pre, e, after, he, hafter, rfl⟩
  · rw [blockEnd_of_forall_ne hne, blockEnd_of_forall_ne (forall_ne_of_forall₂ h hanchor hne)]
    exact statementEnd_eq_of_forall₂ hR h
  · obtain ⟨pre', rest, rfl, hpre, hrest⟩ := exists_append_of_forall₂ h
    obtain ⟨e', after', hee, hbehind, rfl⟩ := List.forall₂_cons_left_iff.mp hrest
    have hed : e.isDelimiter = false := by
      rw [Token.isDelimiter, (hR.left hee).kind_eq he hk, decide_eq_false hdel]
    rw [(aligned_of_pairwise_before anchor hus).blockEnd_append he hed hafter,
      (aligned_of_pairwise_before anchor hvs).blockEnd_append ((hanchor e e' hee).mp he)
        (hR.isDelimiter_eq hee ▸ hed) (forall_ne_of_forall₂ hbehind hanchor hafter),
      hpre.length_eq, statementEnd_eq_of_forall₂ hR hbehind]

/-! ### Brackets and keywords -/

omit hR in
/-- Splits at brackets that correspond. -/
structure BracketSplit.Matches (R : Token → Token → Prop) (s t : BracketSplit) : Prop where
  before : Forall₂ R s.before t.before
  closing : R s.closing t.closing
  after : Forall₂ R s.after t.after

omit hR in
theorem BracketSplit.Matches.block {s t : BracketSplit} (h : s.Matches R t) : Forall₂ R s.block t.block :=
  forall₂_append h.before (.cons h.closing .nil)

theorem splitClose?_of_forall₂ (h : Forall₂ R us vs) (depth : Int) :
    Option.Rel (BracketSplit.Matches R) (splitClose? depth us) (splitClose? depth vs) := by
  induction h generalizing depth with
  | nil => exact .none
  | @cons a b us vs hab hrest ih =>
    have hcons : ∀ e, Option.Rel (BracketSplit.Matches R) ((splitClose? e us).map (.cons a))
        ((splitClose? e vs).map (.cons b)) := fun e =>
      optionRel_map (ih e) fun _ _ hs => ⟨.cons hab hs.before, hs.closing, hs.after⟩
    simp only [splitClose?, hR.isDelimiter_eq hab, hR.openText_iff hab, hR.closeText_iff hab]
    split_ifs
    · exact .none
    · exact hcons _
    · exact .some ⟨.nil, hab, hrest⟩
    · exact hcons _
    · exact hcons _

theorem closingSplit?_of_forall₂ (h : Forall₂ R us vs) :
    Option.Rel (BracketSplit.Matches R) (closingSplit? us) (closingSplit? vs) :=
  splitClose?_of_forall₂ hR h 0

end Window

namespace Parse

open List (Forall₂)
open Window

variable {R : Token → Token → Prop} {us vs : List Token}

/-- The branch behind an `else`, with its keyword. -/
def ElsePartMatches (R : Token → Token → Prop) (a b : Token × List Token) : Prop :=
  R a.1 b.1 ∧ Forall₂ R a.2 b.2

structure ConditionalParts.Matches (R : Token → Token → Prop) (p q : ConditionalParts) : Prop where
  predicate : Forall₂ R p.predicate q.predicate
  thenToken : R p.thenToken q.thenToken
  thenBranch : Forall₂ R p.thenBranch q.thenBranch
  elsePart : Option.Rel (ElsePartMatches R) p.elsePart q.elsePart

variable (hR : Pairing R)
include hR

theorem splitElse_of_forall₂ (h : Forall₂ R us vs) :
    Forall₂ R (splitElse us).1 (splitElse vs).1 ∧
      Option.Rel (ElsePartMatches R) (splitElse us).2 (splitElse vs).2 := by
  induction h with
  | nil => exact ⟨.nil, .none⟩
  | @cons a b us vs hab hrest ih =>
    obtain ⟨hbefore, hpart⟩ := ih
    have helse := hR.keyword_iff hab "else" (by decide)
    rcases hu : splitElse us with ⟨us₁, _ | p⟩ <;> rcases hv : splitElse vs with ⟨vs₁, _ | q⟩ <;>
      simp only [hu, hv] at hbefore hpart <;> simp only [splitElse, hu, hv, helse]
    · split_ifs
      · exact ⟨.nil, .some ⟨hab, hrest⟩⟩
      · exact ⟨.cons hab hbefore, .none⟩
    · cases hpart
    · cases hpart
    · exact ⟨.cons hab hbefore, hpart⟩

theorem conditionalParts?_of_forall₂ (h : Forall₂ R us vs) :
    Option.Rel (ConditionalParts.Matches R) (conditionalParts? us) (conditionalParts? vs) := by
  have hthen : ∀ a b, R a b → decide (a.text ≠ "then") = decide (b.text ≠ "then") := fun a b hab =>
    decide_eq_decide.mpr (not_congr (hR.keyword_iff hab "then" (by decide)))
  have hdrop := dropWhile_of_forall₂ h hthen
  unfold conditionalParts?
  cases hu : us.dropWhile (fun t => decide (t.text ≠ "then")) with
  | nil =>
    rw [hu, List.forall₂_nil_left_iff] at hdrop
    rw [hdrop]
    exact .none
  | cons t rest =>
    rw [hu] at hdrop
    obtain ⟨t', rest', ht, hrest, hv⟩ := List.forall₂_cons_left_iff.mp hdrop
    obtain ⟨hbefore, hpart⟩ := splitElse_of_forall₂ hR hrest
    rw [hv]
    exact .some ⟨takeWhile_of_forall₂ h hthen, ht, hbefore, hpart⟩

end Parse

end RomanLang
