import Mathlib
import RomanLang.Proofs.NumeralValue
import RomanLang.Proofs.OutlineReading

/-! Annotated constants. The words that are scanned as constants are the non-empty texts of Roman letters, and these
are the texts that have a value. So every constant of an accepted program stands in the outline with its value, which
is positive and at most a thousand for each letter; the plain text of a constant that is no numeral is never shown. -/

namespace RomanLang

/-- A well spelled constant is a text of Roman letters. -/
theorem Token.WellSpelled.roman {t : Token} (h : t.WellSpelled) (hk : t.kind = .constant) :
    t.text ≠ "" ∧ ∀ c ∈ t.text.toList, c ∈ "IVXLCDM".toList := by
  rw [Token.WellSpelled, hk] at h
  constructor
  · intro hempty
    rw [hempty] at h
    cases h
  · by_cases hword : Kind.constant = wordKind t.text.toList
    · unfold wordKind at hword
      split_ifs at hword with _ hall
      exact fun c hc => isRomanLetter_iff.mp (List.all_eq_true.mp hall c hc)
    · have hsign := mem_signs_of_lexicalKind? h hword
      simp [signs] at hsign

/-! ### Lines of an outline -/

namespace Tree

variable {u : Tree} {t : Token} {n : Numeral} {indent : String} {d i : Nat}

/-- One line for each node. -/
def outlineLines (indent : String) (u : Tree) : List String :=
  (u.walk 0).map fun x => outlineLine indent x.1 x.2

theorem outlineWith_eq (indent : String) (u : Tree) :
    u.outlineWith indent = String.intercalate "\n" (u.outlineLines indent) := rfl

theorem mem_leaves_of_walk (h : (d, leaf t) ∈ u.walk 0) : t ∈ u.leaves :=
  List.mem_filterMap.mpr ⟨(d, leaf t), h, rfl⟩

/-- With an indentation of one line, every line of the outline is found again. -/
theorem Readable.splitOn_outlineWith (h : u.Readable) (hi : '\n' ∉ indent.toList) :
    (u.outlineWith indent).toList.splitOn '\n' = (u.outlineLines indent).map String.toList := by
  rw [outlineWith_eq]
  apply splitOn_lines
  · cases u
    simp [outlineLines, walk]
  · refine List.forall_mem_map.mpr fun x hx => ?_
    have hprinted := h.printed 0 (x.1, nodeText x.2) (List.mem_map_of_mem hx)
    rw [outlineLine, String.toList_append, String.toList_join, List.mem_append, not_or]
    refine ⟨fun hmem => ?_, hprinted.single⟩
    obtain ⟨part, hpart, hc⟩ := List.mem_flatMap.mp hmem
    rw [List.eq_of_mem_replicate hpart] at hc
    exact hi hc

theorem outlineLine_of_numeral (hk : t.kind = .constant) (h : Numeral.ofString? t.text = some n) :
    outlineLine indent d (leaf t) =
      String.join (List.replicate d indent) ++ (t.text ++ " (" ++ toString n.value ++ ")") := by
  have htext : nodeText (leaf t) = t.text ++ " (" ++ toString n.value ++ ")" := by
    rw [nodeText, leaf, label]
    simp only [tokenText, if_pos hk, h]
  rw [outlineLine, htext]

end Tree

/-! ### Accepted texts -/

open RomanLang.Tree

theorem wellSpelled_of_mem_leaves {limit : Limit} {source : String} {p : Program} (h : parse limit source = .ok p) :
    ∀ t ∈ p.toTree.leaves, t.WellSpelled := by
  rw [p.leaves_toTree]
  exact (readsAll_of_parse h).2

/-- Every text of Roman letters has a value, which is positive and bounded by its length, and every constant of an
accepted text is annotated with such a value. -/
theorem constants_annotated :
    (∀ text : String, text ≠ "" → (∀ c ∈ text.toList, c ∈ "IVXLCDM".toList) → ∃ n, Numeral.ReadsBounded text n) ∧
      ∀ (limit : Limit) (source : String) (p : Program), parse limit source = .ok p → ∀ indent : String,
        ∃ lines : List String, p.toTree.outlineWith indent = String.intercalate "\n" lines ∧
          lines.length = (p.toTree.walk 0).length ∧
          ('\n' ∉ indent.toList → (p.toTree.outlineWith indent).toList.splitOn '\n' = lines.map String.toList) ∧
          ∀ (i d : Nat) (t : Token), (p.toTree.walk 0)[i]? = some (d, leaf t) → t.kind = .constant →
            ∃ n, Numeral.ReadsBounded t.text n ∧ lines[i]? =
              some (String.join (List.replicate d indent) ++ (t.text ++ " (" ++ toString n.value ++ ")")) := by
  refine ⟨fun text => Numeral.exists_readsBounded, fun limit source p h indent => ?_⟩
  refine ⟨p.toTree.outlineLines indent, outlineWith_eq indent _, List.length_map _,
    (readable_of_parse h).splitOn_outlineWith, fun i d t hleaf hk => ?_⟩
  have hspelled := wellSpelled_of_mem_leaves h t (mem_leaves_of_walk (List.mem_of_getElem? hleaf))
  obtain ⟨hne, hletters⟩ := hspelled.roman hk
  obtain ⟨n, hn⟩ := Numeral.exists_readsBounded hne hletters
  refine ⟨n, hn, ?_⟩
  rw [outlineLines, List.getElem?_map, hleaf, Option.map_some, outlineLine_of_numeral hk hn.read]

namespace Annotation

/-- `IVXLCDM`, in which all digits but the last are subtracted. -/
def increasing : Token := ⟨.constant, "IVXLCDM", some 9, 1, 10⟩

/-- `a := b + IVXLCDM;` -/
def program : Program :=
  [.assign ⟨.identifier, "a", some 0, 1, 1⟩ ⟨.assignSign, ":=", some 2, 1, 3⟩
    (.operation ⟨.identifier, "b", some 5, 1, 6⟩ ⟨.operatorSign, "+", some 7, 1, 8⟩ (.atom increasing))]

end Annotation

open Annotation in
theorem constants_annotated_increasing :
    (∃ n, Numeral.ReadsBounded "IVXLCDM" n) ∧ parse .default "a := b + IVXLCDM;" = .ok program ∧
      ∃ lines : List String, program.toTree.outline = String.intercalate "\n" lines ∧ lines.length = 11 ∧
        program.toTree.outline.toList.splitOn '\n' = lines.map String.toList ∧
        lines[10]? = some "        IVXLCDM (334)" := by
  obtain ⟨htexts, hprograms⟩ := constants_annotated
  have hparse : parse .default "a := b + IVXLCDM;" = .ok program := by cbv
  obtain ⟨lines, hlines, hlength, hsplit, hleaves⟩ := hprograms .default _ program hparse "  "
  obtain ⟨n, hn, hline⟩ := hleaves 10 4 increasing rfl rfl
  refine ⟨htexts _ (by decide) (fun _ hc => hc), hparse, lines, hlines, hlength, hsplit (by decide), ?_⟩
  have hread : n = [.one, .five, .ten, .fifty, .hundred, .fiveHundred, .thousand] :=
    Option.some.inj (hn.read.symm.trans (by decide))
  rw [hline, hread]
  decide

end RomanLang
