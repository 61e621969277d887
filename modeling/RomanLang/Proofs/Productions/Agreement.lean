import RomanLang.Proofs.Alike
import RomanLang.Proofs.ValueForm
import RomanLang.Proofs.Productions.Equations

/-! Productions on windows that are alike. Of two windows of tokens that are alike place by place, each in
the order of its positions, every production makes the same: either both runs give parts of a program whose
trees correspond node by node, or both fail for the same cause at related tokens. A production looks at its
window only through what tokens that are alike have in common. -/

namespace RomanLang

open List (Forall₂)
open Window

/-- Trees of the same shape whose labels are related. -/
inductive Tree.Corresponds (R : Token → Token → Prop) : Tree → Tree → Prop where
  | node {l m : Option Token} {ts us : List Tree} (label : Option.Rel R l m)
    (children : Forall₂ (Corresponds R) ts us) : Corresponds R (.node l ts) (.node m us)

/-- Two runs that end alike: with related values, or with the same cause at related tokens. -/
inductive Agree {α β : Type} (R : Token → Token → Prop) (A : α → β → Prop) :
    Except SyntaxFault α → Except SyntaxFault β → Prop where
  | ok {v : α} {w : β} (h : A v w) : Agree R A (.ok v) (.ok w)
  | error {a b : Token} (cause : SyntaxCause) (h : R a b) :
    Agree R A (.error ⟨cause, some a⟩) (.error ⟨cause, some b⟩)

variable {R : Token → Token → Prop}

theorem Agree.bind {α β γ δ : Type} {A : α → β → Prop} {B : γ → δ → Prop} {x : Except SyntaxFault α}
    {y : Except SyntaxFault β} {f : α → Except SyntaxFault γ} {g : β → Except SyntaxFault δ} (h : Agree R A x y)
    (hfg : ∀ a b, A a b → Agree R B (f a) (g b)) : Agree R B (x >>= f) (y >>= g) := by
  cases h with
  | ok h => exact hfg _ _ h
  | error cause h => exact .error cause h

theorem Limit.admit?_agree (limit : Limit) (level : Level) {a b : Token} (h : R a b) :
    Agree R (fun _ _ => True) (limit.admit? level (some a)) (limit.admit? level (some b)) := by
  unfold admit?
  split_ifs
  · exact .error _ h
  · exact .error _ h
  · exact .ok trivial

/-! ### Trees -/

namespace Tree.Corresponds

variable {a b : Token}

theorem leaf (h : R a b) : Corresponds R (.leaf a) (.leaf b) :=
  .node (.some h) .nil

theorem branch {ts us : List Tree} (h : Forall₂ (Corresponds R) ts us) :
    Corresponds R (.branch ts) (.branch us) :=
  .node .none h

theorem slot (h : R a b) : Corresponds R (.slot a) (.slot b) :=
  .branch (.cons (.leaf h) .nil)

end Tree.Corresponds

def Value.Matches (R : Token → Token → Prop) (v w : Value) : Prop :=
  v.toTree.Corresponds R w.toTree

def Comparison.Matches (R : Token → Token → Prop) (c d : Comparison) : Prop :=
  c.toTree.Corresponds R d.toTree

def Statement.Matches (R : Token → Token → Prop) (s t : Statement) : Prop :=
  s.toTree.Corresponds R t.toTree

def Program.Matches (R : Token → Token → Prop) (p q : Program) : Prop :=
  Forall₂ (Tree.Corresponds R) (Statement.toTrees p) (Statement.toTrees q)

namespace Parse

variable {limit : Limit} {level : Level} {cause : SyntaxCause} {first first' : Token}
  {rest rest' us vs : List Token}

/-! ### Values -/

/-- An opening bracket, a value and the closing bracket, place by place. -/
structure GroupMatches (R : Token → Token → Prop) (g h : Token × Value × Token) : Prop where
  opening : R g.1 h.1
  inner : g.2.1.Matches R h.2.1
  closing : R g.2.2 h.2.2

theorem GroupMatches.toTree {g h : Token × Value × Token} (hg : GroupMatches R g h) :
    (Value.group g.1 g.2.1 g.2.2).Matches R (.group h.1 h.2.1 h.2.2) :=
  .branch (.cons (.leaf hg.opening) (.cons hg.inner (.cons (.leaf hg.closing) .nil)))

def OperandMatches (R : Token → Token → Prop) (o p : Token × Value) : Prop :=
  R o.1 p.1 ∧ o.2.Matches R p.2

/-- A bracketed value of the same number of tokens. -/
def BracketedMatches (R : Token → Token → Prop) (v w : Value × Nat) : Prop :=
  v.1.Matches R w.1 ∧ v.2 = w.2

/-- Values of fewer than `n` tokens are read alike. -/
def ValuesAgreeBelow (R : Token → Token → Prop) (limit : Limit) (n : Nat) : Prop :=
  ∀ level cause first rest first' rest', (first :: rest).length < n →
    Forall₂ R (first :: rest) (first' :: rest') →
    Agree R (Value.Matches R) (value limit level cause first rest) (value limit level cause first' rest')

section Values
variable {n : Nat} (hR : Pairing R) (ih : ValuesAgreeBelow R limit n)
include hR ih

theorem signedOperand_agree (level : Level) {closing closing' : Option Token} {last last' : Token} (hn : us.length ≤ n)
    (hc : Option.Rel R closing closing') (hl : R last last') (h : Forall₂ R us vs) :
    Agree R (OperandMatches R) (signedOperand limit level closing last us)
      (signedOperand limit level closing' last' vs) := by
  rw [signedOperand.eq_def, signedOperand.eq_def]
  cases h with
  | nil => exact .error _ hl
  | @cons sign sign' right right' hs hright =>
    simp only [← (hR.alike hs).kind_eq]
    split_ifs with hk
    · exact .error _ hs
    · cases hright with
      | nil =>
        -- the cause quotes the sign, which has the same text in both runs
        have htext : sign.text = sign'.text :=
          (hR.alike hs).text_eq (by rw [not_not.mp hk]; rfl)
        rw [htext]
        rcases optionRel_cases hc with ⟨rfl, rfl⟩ | ⟨a, b, rfl, rfl, hab⟩
        · exact .error _ hs
        · exact .error _ hab
      | cons hf hrest =>
        have hv := ih level.deeper .notOperand _ _ _ _ (by simp at hn ⊢; omega) (.cons hf hrest)
        exact hv.bind fun v w hvw => .ok ⟨hs, hvw⟩

theorem group_agree (level : Level) (hn : us.length ≤ n) (hne : us ≠ []) (hu : Undelimited us) (h : Forall₂ R us vs) :
    Agree R (GroupMatches R) (group limit level us) (group limit level vs) := by
  have hdrop := dropDelimiter_of_forall₂ hR h
  rw [group_eq, group_eq]
  rw [hu.dropDelimiter_eq] at hdrop ⊢
  rcases forall₂_cases hdrop with ⟨rfl, -⟩ | ⟨opening, rest, opening', rest', rfl, hb, ho, -⟩
  · exact absurd rfl hne
  rw [hb] at hdrop
  simp only [hb, ne_eq, hR.openText_iff ho]
  split_ifs
  · rcases optionRel_cases (closingSplit?_of_forall₂ hR hdrop) with ⟨hs, ht⟩ | ⟨s, t, hs, ht, hst⟩ <;>
      simp only [hs, ht]
    · exact .error _ ho
    have hlen := length_closingSplit? hs
    have htail : Forall₂ R s.before.tail t.before.tail := by
      rw [← List.drop_one, ← List.drop_one]
      exact List.forall₂_drop 1 hst.before
    rcases forall₂_cases hst.after with ⟨ha, ha'⟩ | ⟨extra, _, extra', _, ha, ha', he, -⟩ <;> simp only [ha, ha']
    · rcases forall₂_cases htail with ⟨hi, hi'⟩ | ⟨f, more, f', more', hi, hi', hf, hm⟩ <;> simp only [hi, hi']
      · exact .error _ hst.closing
      · have hbefore := congrArg List.length hi
        have hv := ih level.deeper .notGroupable f more f' more'
          (by simp at hlen hbefore hn ⊢; omega) (.cons hf hm)
        exact hv.bind fun v w hvw => .ok ⟨ho, hvw, hst.closing⟩
    · exact .error _ he
  · exact .error _ ho

theorem operation_agree (level : Level) (hn : us.length ≤ n) (hne : us ≠ []) (h : Forall₂ R us vs) :
    Agree R (Value.Matches R) (operation limit level us) (operation limit level vs) := by
  have hdrop := dropDelimiter_of_forall₂ hR h
  have hlen := length_dropDelimiter_le us
  have hd := delimiter?_of_forall₂ hR h
  rw [operation_eq, operation_eq]
  rcases forall₂_cases hdrop with ⟨hb, hb'⟩ | ⟨f, more, f', more', hb, hb', hf, hm⟩
  · rcases forall₂_cases h with ⟨rfl, -⟩ | ⟨a, _, b, _, rfl, rfl, hab, -⟩
    · exact absurd rfl hne
    · simp only [hb, hb']
      exact .error _ hab
  rw [hb, hb'] at hdrop
  rw [hb] at hlen
  simp only [hb, hb', ← (hR.alike hf).kind_eq]
  split_ifs
  · rcases optionRel_cases (closingSplit?_of_forall₂ hR hdrop) with ⟨hs, ht⟩ | ⟨s, t, hs, ht, hst⟩ <;>
      simp only [hs, ht]
    · exact .error _ hf
    have hsplit := length_closingSplit? hs
    have hg := group_agree hR ih level.deeper
      (by rw [s.length_block]; omega) (by simp [BracketSplit.block]) (splitClose?_eq_some hs).2 hst.block
    have hr := signedOperand_agree hR ih level (by omega) hd hst.closing hst.after
    exact hg.bind fun g g' hgg => hr.bind fun o o' hoo =>
      .ok (.branch (.cons hgg.toTree (.cons (.leaf hoo.1) (.cons hoo.2 .nil))))
  · have hr := signedOperand_agree hR ih level (by simp at hlen; omega) hd hf hm
    exact hr.bind fun o o' hoo => .ok (.branch (.cons (.slot hf) (.cons (.leaf hoo.1) (.cons hoo.2 .nil))))
  · exact .error _ hf

theorem bracketed_agree (level : Level) (hn : (first :: rest).length ≤ n)
    (h : Forall₂ R (first :: rest) (first' :: rest')) :
    Agree R (BracketedMatches R) (bracketed limit level first rest) (bracketed limit level first' rest') := by
  obtain ⟨hf, -⟩ := List.forall₂_cons.mp h
  rw [bracketed_eq, bracketed_eq]
  rcases optionRel_cases (closingSplit?_of_forall₂ hR h) with ⟨hs, ht⟩ | ⟨s, t, hs, ht, hst⟩ <;>
    simp only [hs, ht]
  · exact .error _ hf
  have hsplit := length_closingSplit? hs
  have hblock := s.length_block
  have hblocks := hst.block
  have hg := group_agree hR ih level.inner (by omega)
    (by simp [BracketSplit.block]) (splitClose?_eq_some hs).2 hblocks
  have hall := hst.after
  rcases forall₂_cases hall with ⟨ha, ha'⟩ | ⟨next, more, next', more', ha, ha', hx, -⟩
  · simp only [ha, ha']
    exact hg.bind fun g g' hgg => .ok ⟨hgg.toTree, hblocks.length_eq⟩
  rw [ha, ha'] at hall
  rw [ha] at hsplit
  simp only [ha, ha', ← (hR.alike hx).kind_eq, ← hR.isDelimiter_eq hx, ← statementEnd_eq_of_forall₂ hR hall,
    ← hblocks.length_eq]
  split_ifs
  · have hwindow := forall₂_append hblocks (List.forall₂_take (statementEnd (next :: more)) hall)
    have hv := operation_agree hR ih level.inner
      (by rw [List.length_append, List.length_take]; omega) (by simp [BracketSplit.block]) hwindow
    exact hv.bind fun v w hvw => .ok ⟨hvw, rfl⟩
  · exact hg.bind fun g g' hgg => .ok ⟨hgg.toTree, rfl⟩
  · exact hg.bind fun _ _ _ => .error _ hx

end Values

theorem valuesAgreeBelow (hR : Pairing R) (limit : Limit) (n : Nat) : ValuesAgreeBelow R limit n := by
  induction n with
  | zero => exact fun _ _ _ _ _ _ h => absurd h (Nat.not_lt_zero _)
  | succ n ih =>
    intro level cause first rest first' rest' hn h
    obtain ⟨hf, -⟩ := List.forall₂_cons.mp h
    rw [value, value, classify_eq_of_forall₂ hR h]
    refine (limit.admit?_agree level hf).bind fun _ _ _ => ?_
    cases classify (first' :: rest') with
    | atom => exact .ok (.slot hf)
    | operator => exact operation_agree hR ih level.inner (by omega) (List.cons_ne_nil _ _) h
    | parenthesis => exact (bracketed_agree hR ih level.inner (by omega) h).bind fun v w hvw => .ok hvw.1
    | assign => exact .error _ hf
    | conditional => exact .error _ hf
    | unclassifiable => exact .error _ hf

theorem value_agree (hR : Pairing R) (h : Forall₂ R (first :: rest) (first' :: rest')) :
    Agree R (Value.Matches R) (value limit level cause first rest) (value limit level cause first' rest') :=
  valuesAgreeBelow hR limit _ level cause _ _ _ _ (Nat.lt_succ_self _) h

/-! ### Statements -/

section Statements
variable (hR : Pairing R)
include hR

theorem assign_agree (hne : us ≠ []) (h : Forall₂ R us vs) :
    Agree R (Statement.Matches R) (assign limit level us) (assign limit level vs) := by
  have hd := delimiter?_of_forall₂ hR h
  unfold assign
  rcases forall₂_cases (dropDelimiter_of_forall₂ hR h) with
    ⟨hb, hb'⟩ | ⟨target, more, target', more', hb, hb', ht, hmore⟩
  · rcases forall₂_cases h with ⟨rfl, -⟩ | ⟨a, _, b, _, rfl, rfl, hab, -⟩
    · exact absurd rfl hne
    · simp only [hb, hb']
      exact .error _ hab
  simp only [hb, hb', ← (hR.alike ht).kind_eq]
  split_ifs
  · exact .error _ ht
  · cases hmore with
    | nil => exact .error _ ht
    | @cons sign sign' right right' hs hright =>
      simp only [← (hR.alike hs).kind_eq]
      split_ifs
      · exact .error _ hs
      · cases hright with
        | nil =>
          rcases optionRel_cases hd with ⟨hx, hy⟩ | ⟨x, y, hx, hy, hxy⟩ <;> simp only [hx, hy]
          · exact .error _ hs
          · exact .error _ hxy
        | cons hf hrest =>
          exact (value_agree hR (.cons hf hrest)).bind fun v w hvw =>
            .ok (.branch (.cons (.slot ht) (.cons (.leaf hs) (.cons hvw .nil))))

theorem statementClass_agree (h : Forall₂ R (first :: rest) (first' :: rest')) :
    Agree R Eq (statementClass first rest) (statementClass first' rest') := by
  obtain ⟨hf, hrest⟩ := List.forall₂_cons.mp h
  have hbody : Forall₂ R (rest.takeWhile (!·.isDelimiter)) (rest'.takeWhile (!·.isDelimiter)) :=
    takeWhile_of_forall₂ hrest fun a b hab => by rw [hR.isDelimiter_eq hab]
  have hany : rest.any (·.isDelimiter) = rest'.any (·.isDelimiter) :=
    any_eq_of_forall₂ hrest fun _ _ => hR.isDelimiter_eq
  simp only [statementClass, hR.isDelimiter_eq hf, classify_eq_of_forall₂ hR (.cons hf hbody), hany]
  split_ifs
  · exact .error _ hf
  · exact .ok rfl
  · exact .error _ hf

theorem comparison_agree {anchor anchor' : Token} (ha : R anchor anchor') (h : Forall₂ R us vs) :
    Agree R (Comparison.Matches R) (comparison (some anchor) us) (comparison (some anchor') vs) := by
  rcases h with _ | ⟨hl, _ | ⟨hs, _ | ⟨hr, _ | _⟩⟩⟩
  case cons.cons.cons.nil =>
    simp only [comparison, (hR.alike hl).kind_eq, (hR.alike hs).kind_eq, (hR.alike hr).kind_eq]
    split_ifs
    · exact .error _ hl
    · exact .error _ hr
    · exact .error _ hs
    · exact .ok (.branch (.cons (.slot hl) (.cons (.leaf hs) (.cons (.slot hr) .nil))))
  case nil => exact .error _ ha
  all_goals exact .error _ hl

end Statements

/-! ### Sequences -/

/-- Windows that are related place by place, each in the order of its positions. -/
structure Parallel (R : Token → Token → Prop) (us vs : List Token) : Prop where
  related : Forall₂ R us vs
  left : us.Pairwise Token.Before
  right : vs.Pairwise Token.Before

theorem Parallel.take (h : Parallel R us vs) (n : Nat) : Parallel R (us.take n) (vs.take n) :=
  ⟨List.forall₂_take n h.related, h.left.sublist (List.take_sublist _ _), h.right.sublist (List.take_sublist _ _)⟩

theorem Parallel.drop (h : Parallel R us vs) (n : Nat) : Parallel R (us.drop n) (vs.drop n) :=
  ⟨List.forall₂_drop n h.related, h.left.sublist (List.drop_sublist _ _), h.right.sublist (List.drop_sublist _ _)⟩

theorem Parallel.sublist {us' vs' : List Token} (h : Parallel R us vs) (hrel : Forall₂ R us' vs')
    (hu : us'.Sublist us) (hv : vs'.Sublist vs) : Parallel R us' vs' :=
  ⟨hrel, h.left.sublist hu, h.right.sublist hv⟩

theorem sublist_of_conditionalParts? {tokens : List Token} {p : ConditionalParts}
    (h : conditionalParts? tokens = some p) :
    p.thenBranch.Sublist tokens ∧ (elseTokens p.elsePart).Sublist tokens := by
  rw [← conditionalParts?_append h]
  constructor
  · exact ((List.sublist_append_left _ _).cons _).trans (List.sublist_append_right _ _)
  · exact ((List.sublist_append_right _ _).cons _).trans (List.sublist_append_right _ _)

/-- Statements of fewer than `n` tokens are read alike. -/
def StatementsAgreeBelow (R : Token → Token → Prop) (limit : Limit) (n : Nat) : Prop :=
  ∀ level us vs, us.length < n → Parallel R us vs →
    Agree R (Program.Matches R) (statements limit level us) (statements limit level vs)

/-- A statement of the same number of tokens. -/
def CountedMatches (R : Token → Token → Prop) (s t : Statement × Nat) : Prop :=
  s.1.Matches R t.1 ∧ s.2 = t.2

section Sequences
variable {n : Nat} (hR : Pairing R) (ih : StatementsAgreeBelow R limit n)
include hR ih

omit hR in
theorem sequence_agree (level : Level) (hn : us.length < n) (hne : us ≠ []) (h : Parallel R us vs) :
    Agree R (Program.Matches R) (sequence limit level us) (sequence limit level vs) := by
  rcases forall₂_cases h.related with ⟨rfl, -⟩ | ⟨a, as, b, bs, rfl, rfl, hab, -⟩
  · exact absurd rfl hne
  rw [sequence, sequence]
  exact (limit.admit?_agree level hab).bind fun _ _ _ => ih level _ _ hn h

theorem conditional_agree (level : Level) (hn : (first :: rest).length ≤ n)
    (h : Parallel R (first :: rest) (first' :: rest')) :
    Agree R (Statement.Matches R) (conditional limit level (first :: rest))
      (conditional limit level (first' :: rest')) := by
  obtain ⟨hf, hrest⟩ := List.forall₂_cons.mp h.related
  rw [conditional_cons_eq, conditional_cons_eq]
  simp only [ne_eq, hR.keyword_iff hf "if" (by decide)]
  split_ifs
  · rcases optionRel_cases (conditionalParts?_of_forall₂ hR hrest) with ⟨hp, hq⟩ | ⟨p, q, hp, hq, hpq⟩ <;>
      simp only [hp, hq]
    · exact .error _ hf
    have hlen := length_conditionalParts? hp
    obtain ⟨hpt, hpe⟩ := sublist_of_conditionalParts? hp
    obtain ⟨hqt, hqe⟩ := sublist_of_conditionalParts? hq
    refine (comparison_agree hR hpq.thenToken hpq.predicate).bind fun c d hcd => ?_
    have hempty := isEmpty_eq_of_forall₂ hpq.thenBranch
    rw [hempty]
    split_ifs with hthen
    · exact .error _ hpq.thenToken
    have hb := sequence_agree ih level.deeper (by simp at hn; omega) (by simpa [← hempty] using hthen)
      (h.sublist hpq.thenBranch (hpt.cons _) (hqt.cons _))
    refine hb.bind fun thenBranch thenBranch' hthens => ?_
    rcases optionRel_cases hpq.elsePart with ⟨he, he'⟩ | ⟨⟨e, as⟩, ⟨e', bs⟩, he, he', hee, has⟩ <;>
      simp only [he, he']
    · exact .ok (.branch (.cons (.leaf hf) (.cons hcd (.cons (.leaf hpq.thenToken) hthens))))
    rw [he] at hpe hlen
    rw [he'] at hqe
    have hempty := isEmpty_eq_of_forall₂ has
    rw [hempty]
    split_ifs with helse
    · exact .error _ hee
    have hlt : as.length < n := by
      simp [elseTokens] at hn hlen
      omega
    have hv := sequence_agree ih level.deeper hlt (by simpa [← hempty] using helse)
      (h.sublist has ((List.sublist_of_cons_sublist hpe).cons _) ((List.sublist_of_cons_sublist hqe).cons _))
    refine hv.bind fun elseBranch elseBranch' helses => .ok (.branch ?_)
    have hhead : Forall₂ (Tree.Corresponds R) [.leaf first, c.toTree, .leaf p.thenToken]
        [.leaf first', d.toTree, .leaf q.thenToken] :=
      .cons (.leaf hf) (.cons hcd (.cons (.leaf hpq.thenToken) .nil))
    exact forall₂_append (forall₂_append (forall₂_append hhead hthens) (.cons (.leaf hee) .nil)) helses
  · exact .error _ hf

theorem statement_agree (level : Level) (hn : (first :: rest).length ≤ n)
    (h : Parallel R (first :: rest) (first' :: rest')) :
    Agree R (CountedMatches R) (statement limit level first rest) (statement limit level first' rest') := by
  have hrel := h.related
  obtain ⟨hf, hrest⟩ := List.forall₂_cons.mp hrel
  have hend := statementEnd_eq_of_forall₂ hR hrel
  have hce : conditionalEnd (first :: rest) = conditionalEnd (first' :: rest') :=
    blockEnd_eq_of_forall₂ hR (k := .conditional) (by decide) rfl (by decide) hrel h.left h.right
  have hpe : parenthesisEnd (first :: rest) = parenthesisEnd (first' :: rest') :=
    blockEnd_eq_of_forall₂ hR (k := .closeParen) (by decide) rfl (by decide) hrel h.left h.right
  have hne : (first :: rest).take (statementEnd (first :: rest)) ≠ [] := by
    obtain ⟨m, hm⟩ := Nat.exists_eq_succ_of_ne_zero (endBy_pos (·.isDelimiter) first rest).ne'
    rw [statementEnd, hm]
    simp
  rw [statement, statement, ← hend, ← hce, ← hpe]
  refine (statementClass_agree hR hrel).bind fun c _ hc => ?_
  subst hc
  cases c with
  | assign =>
    exact (assign_agree hR hne (List.forall₂_take _ hrel)).bind fun s t hst => .ok ⟨hst, rfl⟩
  | operator =>
    have hv := operation_agree hR (valuesAgreeBelow hR limit _) level.inner (Nat.le_refl _) hne
      (List.forall₂_take (statementEnd (first :: rest)) hrel)
    exact hv.bind fun v w hvw => .ok ⟨hvw, rfl⟩
  | atom => exact .ok ⟨.slot hf, rfl⟩
  | conditional =>
    obtain ⟨m, hm⟩ := Nat.exists_eq_succ_of_ne_zero (blockEnd_pos "else" first rest).ne'
    have hwindow := h.take (conditionalEnd (first :: rest))
    rw [conditionalEnd, hm] at hwindow ⊢
    have hs := conditional_agree hR ih level.inner
      (Nat.le_trans (List.length_take_le' (m + 1) (first :: rest)) hn) hwindow
    exact hs.bind fun s t hst => .ok ⟨hst, rfl⟩
  | parenthesis =>
    have hv := bracketed_agree hR (valuesAgreeBelow hR limit _) level.inner (Nat.le_refl _)
      (.cons hf (List.forall₂_take (parenthesisEnd (first :: rest) - 1) hrest))
    exact hv.bind fun v w hvw => .ok hvw
  | unclassifiable => exact .error _ hf

end Sequences

theorem statementsAgreeBelow (hR : Pairing R) (limit : Limit) (n : Nat) : StatementsAgreeBelow R limit n := by
  induction n with
  | zero => exact fun _ _ _ h => absurd h (Nat.not_lt_zero _)
  | succ n ih =>
    intro level us vs hn h
    rcases forall₂_cases h.related with ⟨rfl, rfl⟩ | ⟨first, rest, first', rest', rfl, rfl, hf, hrest⟩
    · rw [statements_nil]
      exact .ok .nil
    rw [statements, statements]
    refine (statement_agree hR ih level.inner (by omega) h).bind ?_
    rintro ⟨s, m⟩ ⟨t, _⟩ ⟨hst, hm⟩
    simp only at hm ⊢
    subst hm
    split_ifs
    · exact .error _ hf
    · have hss := ih level _ _ (by simp at hn ⊢; omega) ((h.drop 1).drop (m - 1))
      exact hss.bind fun ss ts hst' => .ok (.cons hst hst')

end Parse

end RomanLang
