import RomanLang.Proofs.Productions.Agreement
import RomanLang.Proofs.Separation
import RomanLang.Proofs.TreeForm
import RomanLang.Tree.Outline

/-! Reading outlines back. No text of a node starts with a space or holds a line feed, so the depth of every
node and its text are found again in the outline. A branch prints like a variable `E`, but a deeper line follows
it; so the depths give the shape of the tree. A token is told by its text, which ends before the first space.
Two programs with one outline have trees that differ at most in where their tokens stand. -/

namespace RomanLang

open List (Forall₂)

/-! ### Lines -/

/-- A number is written with digits and a minus sign. -/
theorem isDigit_or_minus_of_mem_repr {n : Int} {c : Char} (h : c ∈ n.repr.toList) : c.isDigit = true ∨ c = '-' := by
  have hnat : ∀ m : Nat, c ∈ (Nat.repr m).toList → c.isDigit = true := by
    intro m hm
    rw [Nat.toList_repr] at hm
    exact Nat.isDigit_of_mem_toDigits (by decide) (by decide) hm
  cases n with
  | ofNat m => exact .inl (hnat m h)
  | negSucc m =>
    rw [Int.repr, String.toList_append, List.mem_append] at h
    rcases h with h | h
    · exact .inr (by simpa using h)
    · exact .inl (hnat _ h)

theorem newline_not_mem_repr (n : Int) : '\n' ∉ n.repr.toList := by
  intro h
  have hc := isDigit_or_minus_of_mem_repr h
  exact absurd hc (by decide)

/-- Parts are found again at the character between them. -/
theorem splitOn_parts (c : Char) {parts : List String} (hne : parts ≠ []) (h : ∀ part ∈ parts, c ∉ part.toList) :
    (String.intercalate (String.singleton c) parts).toList.splitOn c = parts.map String.toList := by
  rw [String.toList_intercalate, String.toList_singleton]
  refine List.splitOn_intercalate c ?_ (by simpa using hne)
  simpa using h

/-- Lines are found again at the line feeds between them. -/
theorem splitOn_lines {lines : List String} (hne : lines ≠ []) (h : ∀ line ∈ lines, '\n' ∉ line.toList) :
    (String.intercalate "\n" lines).toList.splitOn '\n' = lines.map String.toList :=
  splitOn_parts '\n' hne h

/-! ### Texts of tokens -/

/-- Tokens that differ at most in where they stand. -/
def Token.SameSpelling (a b : Token) : Prop :=
  a.kind = b.kind ∧ a.text = b.text

theorem Token.WellSpelled.solid {t : Token} (h : t.WellSpelled) : ∀ c ∈ t.text.toList, Text.isBlank c = false := by
  rw [Token.WellSpelled] at h
  generalize t.text.toList = cs at h
  cases cs with
  | nil => cases h
  | cons c cs =>
    rw [lexicalKind?] at h
    split_ifs at h with hc hcs
    · refine List.forall_mem_cons.mpr ⟨(Scan.not_blank_of_isWordStart hc).1, fun d hd => ?_⟩
      by_contra hb
      have hpart := List.all_eq_true.mp hcs d hd
      rw [Scan.isWordPart_eq_false_of_isBlank (Bool.of_not_eq_false hb)] at hpart
      cases hpart
    · exact fun d hd => (Scan.sign_character (mem_signs_of_signKind? h) hd).2.1

namespace Tree

variable {a b t : Token}

/-- Behind the text of a numeral stands a space and its value. -/
theorem exists_tokenText_eq (t : Token) :
    ∃ note, (tokenText t).toList = t.text.toList ++ note ∧ (∀ c, note.head? = some c → c = ' ') ∧ '\n' ∉ note := by
  have hplain : ∃ note, t.text.toList = t.text.toList ++ note ∧ (∀ c, note.head? = some c → c = ' ') ∧ '\n' ∉ note :=
    ⟨[], by simp⟩
  rw [tokenText]
  split
  · split
    · rename_i n _
      refine ⟨" (".toList ++ (toString n.value).toList ++ ")".toList, by simp, by simp, ?_⟩
      simpa using newline_not_mem_repr n.value
    · exact hplain
  · exact hplain

theorem tokenText_inj (ha : a.WellSpelled) (hb : b.WellSpelled) (h : tokenText a = tokenText b) :
    a.SameSpelling b := by
  obtain ⟨note, hnote, hspace, -⟩ := exists_tokenText_eq a
  obtain ⟨note', hnote', hspace', -⟩ := exists_tokenText_eq b
  have htake : ∀ {t : Token} {note : List Char}, t.WellSpelled → (∀ c, note.head? = some c → c = ' ') →
      (t.text.toList ++ note).takeWhile (!Text.isBlank ·) = t.text.toList := fun ht hspace =>
    (Scan.span_append (fun c hc => by simp [ht.solid c hc]) fun c hc => by rw [hspace c hc]; rfl).1
  have htext : a.text = b.text := by
    rw [← String.toList_inj, ← htake ha hspace, ← htake hb hspace', ← hnote, ← hnote', h]
  exact ⟨hb.kind_eq htext.symm ha ▸ rfl, htext⟩

theorem tokenText_eq (h : a.SameSpelling b) : tokenText a = tokenText b := by
  rw [tokenText, tokenText, h.1, h.2]

/-! ### Rows -/

/-- What the line of a node shows: its depth and a text. -/
abbrev Row := Nat × String

def rows (depth : Nat) (t : Tree) : List Row :=
  (t.walk depth).map fun x => (x.1, nodeText x.2)

def rowsAll (depth : Nat) (ts : List Tree) : List Row :=
  (walkAll depth ts).map fun x => (x.1, nodeText x.2)

theorem rows_leaf (d : Nat) (t : Token) : rows d (leaf t) = [(d, tokenText t)] := rfl

theorem rows_branch (d : Nat) (ts : List Tree) : rows d (branch ts) = (d, "E") :: rowsAll (d + 1) ts := by
  rw [rows, branch, walk]
  rfl

theorem rowsAll_cons (d : Nat) (t : Tree) (ts : List Tree) : rowsAll d (t :: ts) = rows d t ++ rowsAll d ts := by
  rw [rowsAll, walkAll, List.map_append]
  rfl

theorem exists_rows_eq_cons (d : Nat) (t : Tree) : ∃ text rest, rows d t = (d, text) :: rest := by
  cases t
  exact ⟨_, _, by rw [rows, walk, List.map_cons]⟩

/-! ### Trees that are read back -/

/-- Leaves with well spelled tokens, and branches with children. -/
inductive Readable : Tree → Prop
  | leaf {t : Token} (h : t.WellSpelled) : Readable (leaf t)
  | branch {ts : List Tree} (hne : ts ≠ []) (h : ∀ t ∈ ts, Readable t) : Readable (branch ts)

/-- A text that shows where it starts, and that is one line. -/
structure Printed (text : String) : Prop where
  start : ∃ c cs, text.toList = c :: cs ∧ c ≠ ' '
  single : '\n' ∉ text.toList

theorem printed_tokenText (h : t.WellSpelled) : Printed (tokenText t) := by
  obtain ⟨note, hnote, -, hline⟩ := exists_tokenText_eq t
  have hsolid := h.solid
  have hne : t.text.toList ≠ [] := fun hnil => by
    rw [Token.WellSpelled, hnil] at h
    cases h
  obtain ⟨c, cs, hcs⟩ := List.exists_cons_of_ne_nil hne
  constructor
  · refine ⟨c, cs ++ note, by rw [hnote, hcs, List.cons_append], ?_⟩
    rintro rfl
    exact absurd (hsolid ' ' (by simp [hcs])) (by decide)
  · rw [hnote, List.mem_append, not_or]
    exact ⟨fun hmem => absurd (hsolid _ hmem) (by decide), hline⟩

theorem printed_branchText : Printed "E" :=
  ⟨⟨'E', [], by decide, by decide⟩, by decide⟩

theorem Readable.printed {u : Tree} (h : u.Readable) (d : Nat) : ∀ r ∈ rows d u, Printed r.2 := by
  induction h generalizing d with
  | leaf ht =>
    rw [rows_leaf, List.forall_mem_singleton]
    exact printed_tokenText ht
  | @branch ts _ _ ih =>
    rw [rows_branch, List.forall_mem_cons]
    refine ⟨printed_branchText, ?_⟩
    clear * - ih
    induction ts with
    | nil => exact fun r hr => absurd hr List.not_mem_nil
    | cons t ts ihts =>
      rw [rowsAll_cons, List.forall_mem_append]
      exact ⟨ih t List.mem_cons_self (d + 1), ihts fun u hu => ih u (List.mem_cons_of_mem t hu)⟩

/-- Rows that stand at a depth or less deep. -/
def Outdented (d : Nat) (rs : List Row) : Prop :=
  ∀ r, rs.head? = some r → r.1 ≤ d

/-- Whatever rows follow, those of the tree are read back first. -/
def ReadsBack (t : Tree) : Prop :=
  ∀ {u : Tree} {d : Nat} {rs ss : List Row}, u.Readable → Outdented d rs → Outdented d ss →
    rows d t ++ rs = rows d u ++ ss → t.Corresponds Token.SameSpelling u ∧ rs = ss

section Forests
variable {ts us : List Tree} {d : Nat} {rs ss : List Row}

theorem outdented_rowsAll (hrs : Outdented d rs) : Outdented (d + 1) (rowsAll (d + 1) ts ++ rs) := by
  cases ts with
  | nil => exact fun r hr => Nat.le_succ_of_le (hrs r hr)
  | cons t ts =>
    obtain ⟨text, rest, hrows⟩ := exists_rows_eq_cons (d + 1) t
    intro r hr
    rw [rowsAll_cons, hrows] at hr
    cases hr
    exact Nat.le_refl _

/-- Rows that are less deep do not start a tree. -/
theorem rowsAll_cons_append_ne (u : Tree) (hrs : Outdented d rs) : rs ≠ rowsAll (d + 1) (u :: us) ++ ss := by
  obtain ⟨text, rest, hrows⟩ := exists_rows_eq_cons (d + 1) u
  rintro rfl
  have hle := hrs (d + 1, text) (by rw [rowsAll_cons, hrows]; rfl)
  exact absurd hle (Nat.not_succ_le_self d)

/-- A list of trees ends where the rows are less deep. -/
theorem forall₂_of_rowsAll_eq (hts : ∀ t ∈ ts, ReadsBack t) (hus : ∀ u ∈ us, Readable u) (hrs : Outdented d rs)
    (hss : Outdented d ss) (h : rowsAll (d + 1) ts ++ rs = rowsAll (d + 1) us ++ ss) :
    Forall₂ (Corresponds Token.SameSpelling) ts us ∧ rs = ss := by
  induction ts generalizing us with
  | nil =>
    cases us with
    | nil => exact ⟨.nil, h⟩
    | cons u us => exact absurd h (rowsAll_cons_append_ne u hrs)
  | cons t ts ih =>
    cases us with
    | nil => exact absurd h.symm (rowsAll_cons_append_ne t hss)
    | cons u us =>
      rw [List.forall_mem_cons] at hts hus
      rw [rowsAll_cons, rowsAll_cons, List.append_assoc, List.append_assoc] at h
      obtain ⟨hhead, htail⟩ := hts.1 hus.1 (outdented_rowsAll hrs) (outdented_rowsAll hss) h
      obtain ⟨hrest, hend⟩ := ih hts.2 hus.2 htail
      exact ⟨.cons hhead hrest, hend⟩

end Forests

theorem Readable.readsBack {t : Tree} (h : t.Readable) : ReadsBack t := by
  induction h with
  | leaf ht =>
    rintro u d rs ss (hu | ⟨hne, -⟩) hrs - heq
    · simp only [rows_leaf, List.singleton_append, List.cons.injEq, Prod.mk.injEq, true_and] at heq
      exact ⟨.leaf (tokenText_inj ht hu heq.1), heq.2⟩
    · obtain ⟨u, us, rfl⟩ := List.exists_cons_of_ne_nil hne
      rw [rows_leaf, rows_branch] at heq
      exact absurd (List.cons.inj heq).2 (rowsAll_cons_append_ne u hrs)
  | branch hne _ ih =>
    rintro u d rs ss (hu | ⟨-, hus⟩) hrs hss heq
    · obtain ⟨t, ts, rfl⟩ := List.exists_cons_of_ne_nil hne
      rw [rows_leaf, rows_branch] at heq
      exact absurd (List.cons.inj heq).2.symm (rowsAll_cons_append_ne t hss)
    · rw [rows_branch, rows_branch] at heq
      obtain ⟨hchildren, hend⟩ := forall₂_of_rowsAll_eq ih hus hrs hss (List.cons.inj heq).2
      exact ⟨.branch hchildren, hend⟩

/-! ### Outlines -/

def lineOf (r : Row) : String :=
  String.join (List.replicate r.1 "  ") ++ r.2

/-- The row that a line shows. -/
def rowOf (line : List Char) : Row :=
  ((line.takeWhile (· = ' ')).length / 2, String.ofList (line.dropWhile (· = ' ')))

theorem toList_lineOf (r : Row) : (lineOf r).toList = List.replicate (r.1 * 2) ' ' ++ r.2.toList := by
  have hindent : (List.replicate r.1 "  ").flatMap String.toList = List.replicate (r.1 * 2) ' ' := by
    rw [List.flatMap_replicate, show "  ".toList = List.replicate 2 ' ' by decide, List.flatten_replicate_replicate]
  rw [lineOf, String.toList_append, String.toList_join, hindent]

theorem rowOf_lineOf {r : Row} (h : Printed r.2) : rowOf (lineOf r).toList = r := by
  have hin : ∀ d ∈ List.replicate (r.1 * 2) ' ', decide (d = ' ') = true := fun d hd => by
    simpa using List.eq_of_mem_replicate hd
  have hout : ∀ d, r.2.toList.head? = some d → decide (d = ' ') = false := fun d hd => by
    obtain ⟨c, cs, htext, hc⟩ := h.start
    rw [htext] at hd
    exact decide_eq_false (Option.some.inj hd ▸ hc)
  obtain ⟨htake, hdrop⟩ := Scan.span_append (p := fun d => decide (d = ' ')) hin hout
  rw [rowOf, toList_lineOf, htake, hdrop, List.length_replicate, Nat.mul_div_cancel _ Nat.zero_lt_two,
    String.ofList_toList]

theorem newline_not_mem_lineOf {r : Row} (h : Printed r.2) : '\n' ∉ (lineOf r).toList := by
  rw [toList_lineOf, List.mem_append, not_or]
  exact ⟨fun hmem => absurd (List.eq_of_mem_replicate hmem) (by decide), h.single⟩

theorem outline_eq_lines (t : Tree) : t.outline = String.intercalate "\n" ((rows 0 t).map lineOf) := by
  rw [rows, List.map_map]
  rfl

theorem Readable.map_rowOf_outline {t : Tree} (h : t.Readable) : (t.outline.toList.splitOn '\n').map rowOf = rows 0 t := by
  obtain ⟨text, rest, hrows⟩ := exists_rows_eq_cons 0 t
  have hprinted := h.printed 0
  rw [outline_eq_lines, splitOn_lines (by simp [hrows])
    (List.forall_mem_map.mpr fun r hr => newline_not_mem_lineOf (hprinted r hr)), List.map_map, List.map_map]
  exact (List.map_congr_left fun r hr => rowOf_lineOf (hprinted r hr)).trans (List.map_id _)

/-- Trees that correspond have the same rows, if their tokens are spelled the same. -/
theorem Readable.rows_eq_of_corresponds {R : Token → Token → Prop} (hR : ∀ a b, R a b → a.SameSpelling b)
    {t u : Tree} (h : t.Readable) (hc : t.Corresponds R u) (d : Nat) : rows d t = rows d u := by
  induction h generalizing u d with
  | leaf _ =>
    obtain ⟨⟨htoken⟩, ⟨⟩⟩ := hc
    exact congrArg (fun text => [(d, text)]) (tokenText_eq (hR _ _ htoken))
  | branch _ _ ih =>
    obtain ⟨⟨⟩, hchildren⟩ := hc
    rw [rows_branch]
    refine (congrArg _ ?_).trans (rows_branch d _).symm
    clear * - ih hchildren
    induction hchildren with
    | nil => rfl
    | cons hhead _ ihts =>
      rw [rowsAll_cons, rowsAll_cons, ih _ List.mem_cons_self hhead (d + 1),
        ihts fun u hu => ih u (List.mem_cons_of_mem _ hu)]

theorem Readable.outline_eq_of_corresponds {R : Token → Token → Prop} (hR : ∀ a b, R a b → a.SameSpelling b)
    {t u : Tree} (h : t.Readable) (hc : t.Corresponds R u) : t.outline = u.outline := by
  rw [outline_eq_lines, outline_eq_lines, h.rows_eq_of_corresponds hR hc]

/-- Outlines agree exactly when the trees do, up to where their tokens stand. -/
theorem Readable.outline_eq_iff {t u : Tree} (ht : t.Readable) (hu : u.Readable) :
    t.outline = u.outline ↔ t.Corresponds Token.SameSpelling u := by
  constructor
  · intro h
    have hrows : rows 0 t = rows 0 u := by rw [← ht.map_rowOf_outline, ← hu.map_rowOf_outline, h]
    have hnone : Outdented 0 [] := fun r hr => nomatch hr
    exact (ht.readsBack hu hnone hnone (congrArg (· ++ []) hrows)).1
  · exact ht.outline_eq_of_corresponds fun _ _ hab => hab

end Tree

/-! ### Accepted texts -/

open RomanLang.Tree

theorem readable_slot {t : Token} (h : t.WellSpelled) : (slot t).Readable :=
  .branch (List.cons_ne_nil _ _) (List.forall_mem_singleton.mpr (.leaf h))

theorem readable_triple {x y z : Tree} (hx : x.Readable) (hy : y.Readable) (hz : z.Readable) :
    (branch [x, y, z]).Readable := by
  refine .branch (List.cons_ne_nil _ _) ?_
  simp only [List.forall_mem_cons]
  exact ⟨hx, hy, hz, by simp⟩

theorem Value.readable {v : Value} (hs : ∀ t ∈ v.tokens, t.WellSpelled) : v.toTree.Readable := by
  induction v with
  | atom token => exact readable_slot (hs token List.mem_cons_self)
  | operation left sign right ih =>
    simp only [tokens, List.forall_mem_cons] at hs
    exact readable_triple (readable_slot hs.1) (.leaf hs.2.1) (ih hs.2.2)
  | group opening inner closing ih =>
    simp only [tokens, List.forall_mem_cons, List.forall_mem_append] at hs
    exact readable_triple (.leaf hs.1) (ih hs.2.1) (.leaf hs.2.2.1)
  | groupOperation opening inner closing sign right ihi ihr =>
    simp only [tokens, List.forall_mem_cons, List.forall_mem_append] at hs
    obtain ⟨hopening, hinner, hclosing, hsign, hright⟩ := hs
    exact readable_triple (readable_triple (.leaf hopening) (ihi hinner) (.leaf hclosing)) (.leaf hsign) (ihr hright)

theorem Comparison.readable {c : Comparison} (hs : ∀ t ∈ c.tokens, t.WellSpelled) : c.toTree.Readable := by
  simp only [tokens, List.forall_mem_cons] at hs
  exact readable_triple (readable_slot hs.1) (.leaf hs.2.1) (readable_slot hs.2.2.1)

namespace Statement

theorem readable_toTrees {ss : List Statement} (ih : ∀ s ∈ ss, (∀ t ∈ s.tokens, t.WellSpelled) → s.toTree.Readable)
    (hs : ∀ t ∈ allTokens ss, t.WellSpelled) : ∀ t ∈ toTrees ss, t.Readable := by
  induction ss with
  | nil => exact fun t ht => absurd ht List.not_mem_nil
  | cons s ss ihss =>
    rw [allTokens, List.forall_mem_append] at hs
    rw [toTrees, List.forall_mem_cons]
    exact ⟨ih s List.mem_cons_self hs.1, ihss (fun u hu => ih u (List.mem_cons_of_mem s hu)) hs.2⟩

theorem readable (s : Statement) (hs : ∀ t ∈ s.tokens, t.WellSpelled) : s.toTree.Readable := by
  induction s using Statement.induction with
  | assign target sign value =>
    simp only [tokens, List.forall_mem_cons] at hs
    exact readable_triple (readable_slot hs.1) (.leaf hs.2.1) (Value.readable hs.2.2)
  | bare value => exact Value.readable hs
  | ifThen ifToken condition thenToken thenBranch ih =>
    simp only [tokens, List.forall_mem_cons, List.forall_mem_append] at hs
    rw [toTree_ifThen]
    refine .branch (List.cons_ne_nil _ _) ?_
    simp only [List.forall_mem_append, List.forall_mem_cons]
    exact ⟨⟨.leaf hs.1, Comparison.readable hs.2.1, .leaf hs.2.2.1, by simp⟩, readable_toTrees ih hs.2.2.2⟩
  | ifThenElse ifToken condition thenToken thenBranch elseToken elseBranch iht ihe =>
    simp only [tokens, List.forall_mem_cons, List.forall_mem_append] at hs
    obtain ⟨hif, hcond, hthen, hbranch, helse, hbranch'⟩ := hs
    rw [toTree_ifThenElse]
    refine .branch (List.cons_ne_nil _ _) ?_
    simp only [List.forall_mem_append, List.forall_mem_cons]
    exact ⟨⟨⟨⟨.leaf hif, Comparison.readable hcond, .leaf hthen, by simp⟩, readable_toTrees iht hbranch⟩,
      .leaf helse, by simp⟩, readable_toTrees ihe hbranch'⟩

end Statement

theorem readable_of_parse {limit : Limit} {source : String} {p : Program} (h : parse limit source = .ok p) :
    p.toTree.Readable := by
  refine .branch ?_ (Statement.readable_toTrees (fun s _ => s.readable) (readsAll_of_parse h).2)
  rw [Statement.toTrees_eq_map]
  exact fun hnil => ne_nil_of_parse h (List.map_eq_nil_iff.mp hnil)

/-- Accepted texts with the same outline have the same tree, up to where the tokens stand. -/
theorem outline_faithful (limit limit' : Limit) (source source' : String) (p q : Program)
    (hp : parse limit source = .ok p) (hq : parse limit' source' = .ok q) :
    p.toTree.outline = q.toTree.outline ↔ p.toTree.Corresponds Token.SameSpelling q.toTree :=
  (readable_of_parse hp).outline_eq_iff (readable_of_parse hq)

namespace OutlineReading

/-- A variable that is called like a branch prints, and a numeral. -/
def plain : String := "E := (E) + XIV; if E < V then E;"

def spaced : String := "# two statements\nE\n:= (E)\n  + XIV ;\n\n if E<V then E;"

/-- The line of a variable `E` is like that of a branch; a branch has lines below it. -/
def plainOutline : String :=
  "E\n  E\n    E\n      E\n    :=\n    E\n      E\n        (\n        E\n          E\n        )\n      +\n" ++
    "      E\n        XIV (14)\n  E\n    if\n    E\n      E\n        E\n      <\n      E\n        V (5)\n" ++
    "    then\n    E\n      E"

end OutlineReading

open OutlineReading in
theorem outline_faithful_spaced :
    ∃ p q, parse .default plain = .ok p ∧ parse .default spaced = .ok q ∧
      p.toTree.outline = plainOutline ∧ q.toTree.outline = plainOutline ∧
      p.toTree.Corresponds Token.SameSpelling q.toTree := by
  have hplain : (parse .default plain).toOption.map (·.toTree.outline) = some plainOutline := by decide +kernel
  have hspaced : (parse .default spaced).toOption.map (·.toTree.outline) = some plainOutline := by decide +kernel
  cases hp : parse .default plain with
  | error f =>
    rw [hp] at hplain
    cases hplain
  | ok p =>
    cases hq : parse .default spaced with
    | error f =>
      rw [hq] at hspaced
      cases hspaced
    | ok q =>
      rw [hp] at hplain
      rw [hq] at hspaced
      have hpo : p.toTree.outline = plainOutline := Option.some.inj hplain
      have hqo : q.toTree.outline = plainOutline := Option.some.inj hspaced
      exact ⟨p, q, rfl, rfl, hpo, hqo, (outline_faithful .default .default _ _ p q hp hq).mp (hpo.trans hqo.symm)⟩

end RomanLang
