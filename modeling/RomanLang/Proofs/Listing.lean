import Mathlib
import RomanLang.Proofs.Locations
import RomanLang.Proofs.OutlineReading

/-! Reading the listing back. A line of the listing has three fields with a tab before the second and the third.
No field holds a tab or a line feed: the text of a token holds no blank, and what a message quotes is printable. So
the listing has a line for each lexeme, and the lines tell everything about the lexemes but their offsets. -/

namespace RomanLang

open List (Forall₂)
open Text

/-! ### Quoted texts -/

namespace Text

theorem isPrintable_append {s t : String} (hs : ∀ c ∈ s.toList, isPrintable c = true)
    (ht : ∀ c ∈ t.toList, isPrintable c = true) : ∀ c ∈ (s ++ t).toList, isPrintable c = true := by
  rw [String.toList_append]
  exact List.forall_mem_append.mpr ⟨hs, ht⟩

theorem isPrintable_hex {width n : Nat} : ∀ c ∈ hex width n, isPrintable c = true := by
  have hdigit : ∀ d < 16, isPrintable (Nat.digitChar d) = true := by decide
  induction width generalizing n with
  | zero => exact fun c hc => absurd hc List.not_mem_nil
  | succ width ih =>
    rw [hex, List.forall_mem_append, List.forall_mem_singleton]
    exact ⟨ih, hdigit _ (Nat.mod_lt n (by decide))⟩

theorem isPrintable_backslash {c : Char} (hc : isPrintable c = true) : ∀ d ∈ ['\\', c], isPrintable d = true :=
  List.forall_mem_cons.mpr ⟨by decide, List.forall_mem_singleton.mpr hc⟩

theorem isPrintable_escape {mark c : Char} (hm : isPrintable mark = true) :
    ∀ d ∈ escape mark c, isPrintable d = true := by
  have hnumber : ∀ letter width, isPrintable letter = true →
      ∀ d ∈ ['\\', letter] ++ hex width c.toNat, isPrintable d = true := fun letter width hl =>
    List.forall_mem_append.mpr ⟨isPrintable_backslash hl, isPrintable_hex⟩
  unfold escape
  split_ifs with hmark hn hr ht hp
  · rcases hmark with rfl | rfl
    · exact isPrintable_backslash hm
    · exact isPrintable_backslash (by decide)
  · exact isPrintable_backslash (by decide)
  · exact isPrintable_backslash (by decide)
  · exact isPrintable_backslash (by decide)
  · exact List.forall_mem_singleton.mpr hp
  · exact hnumber 'x' 2 (by decide)
  · exact hnumber 'u' 4 (by decide)
  · exact hnumber 'U' 8 (by decide)

/-- A quoted text holds printable characters only, whatever it quotes. -/
theorem isPrintable_quote (text : String) : ∀ c ∈ (quote text).toList, isPrintable c = true := by
  have hmark : isPrintable (quoteMark text.toList) = true := by
    rw [quoteMark]
    split_ifs <;> decide
  rw [quote, String.toList_ofList, quoteChars]
  refine List.forall_mem_append.mpr ⟨List.forall_mem_cons.mpr ⟨hmark, fun c hc => ?_⟩,
    List.forall_mem_singleton.mpr hmark⟩
  obtain ⟨d, -, hd⟩ := List.mem_flatMap.mp hc
  exact isPrintable_escape hmark c hd

end Text

/-! ### Fields -/

/-- A text that fits into a field of a line. -/
def Field (text : String) : Prop :=
  '\n' ∉ text.toList ∧ '\t' ∉ text.toList

theorem field_of_forall {text : String} {p : Char → Bool} (hn : p '\n' = false) (ht : p '\t' = false)
    (h : ∀ c ∈ text.toList, p c = true) : Field text := by
  refine ⟨fun hmem => ?_, fun hmem => ?_⟩
  · rw [h _ hmem] at hn
    cases hn
  · rw [h _ hmem] at ht
    cases ht

theorem Token.WellSpelled.field {t : Token} (h : t.WellSpelled) : Field t.text :=
  field_of_forall (p := (!isBlank ·)) (by decide) (by decide) fun c hc => by rw [h.solid c hc]; rfl

theorem Kind.field_name (k : Kind) : Field k.name := by
  cases k <;> exact ⟨by decide, by decide⟩

/-- The line and the column as the listing has them. -/
def placeField (line column : Int) : String :=
  String.intercalate ":" [toString line, toString column]

theorem numeral_field (n : Int) : Field (toString n) ∧ ':' ∉ (toString n).toList := by
  have hchars : ∀ c ∈ (toString n).toList, (c.isDigit || c = '-') = true := fun c hc => by
    simpa using isDigit_or_minus_of_mem_repr hc
  exact ⟨field_of_forall (p := fun c => c.isDigit || c = '-') (by decide) (by decide) hchars,
    fun hmem => absurd (hchars _ hmem) (by decide)⟩

theorem field_placeField (line column : Int) : Field (placeField line column) := by
  obtain ⟨⟨hn, ht⟩, -⟩ := numeral_field line
  obtain ⟨⟨hn', ht'⟩, -⟩ := numeral_field column
  constructor <;> simp_all [placeField]

theorem placeField_inj {line column line' column' : Int}
    (h : placeField line column = placeField line' column') : line = line' ∧ column = column' := by
  have hparts : ∀ l c : Int, (placeField l c).toList.splitOn ':' = [toString l, toString c].map String.toList :=
    fun l c => splitOn_parts ':' (List.cons_ne_nil _ _) (by simpa using ⟨(numeral_field l).2, (numeral_field c).2⟩)
  have heq := congrArg (fun text => text.toList.splitOn ':') h
  simp only [hparts, List.map_cons, List.cons.injEq, String.toList_inj] at heq
  exact ⟨Int.repr_injective heq.1, Int.repr_injective heq.2.1⟩

namespace Lexeme

/-- A field for the place, one for the kind or the word for a fault, and one for the text or the message. -/
def fields : Lexeme → List String
  | token t => [placeField t.line t.column, t.kind.name, t.text]
  | fault f => [placeField f.line f.column, "ERROR", f.message]

theorem listingLine_eq (x : Lexeme) : x.listingLine = String.intercalate "\t" x.fields := by
  cases x <;> simp [listingLine, fields, placeField, ← String.toList_inj]

/-- Two tokens of one kind and text, or two faults with one message, at the same line and column. -/
def SameEntry : Lexeme → Lexeme → Prop
  | token s, token t => s.line = t.line ∧ s.column = t.column ∧ s.kind = t.kind ∧ s.text = t.text
  | fault f, fault g => f.line = g.line ∧ f.column = g.column ∧ f.message = g.message
  | _, _ => False

variable {x y : Lexeme}

/-- What the listing shows of a lexeme fits into the fields. -/
def Listable (x : Lexeme) : Prop :=
  ∀ field ∈ x.fields, Field field

theorem Listable.splitOn_listingLine (h : x.Listable) :
    x.listingLine.toList.splitOn '\t' = x.fields.map String.toList := by
  have hne : x.fields ≠ [] := by cases x <;> exact List.cons_ne_nil _ _
  rw [listingLine_eq]
  exact splitOn_parts '\t' hne fun field hfield => (h field hfield).2

theorem Listable.newline_not_mem (h : x.Listable) : '\n' ∉ x.listingLine.toList := by
  have hfields : ∀ field ∈ x.fields, '\n' ∉ field.toList := fun field hfield => (h field hfield).1
  rw [listingLine_eq]
  cases x <;> simpa [fields] using hfields

/-- The fields tell what the listing shows. -/
theorem fields_eq_iff : x.fields = y.fields ↔ x.SameEntry y := by
  have hname : ∀ k : Kind, k.name ≠ "ERROR" := by intro k; cases k <;> decide
  have hkind : ∀ k l : Kind, k.name = l.name ↔ k = l := fun k l =>
    ⟨fun h => Option.some.inj (by rw [← Kind.ofName?_name, h, Kind.ofName?_name]), fun h => h ▸ rfl⟩
  have hplace : ∀ l c l' c' : Int, placeField l c = placeField l' c' ↔ l = l' ∧ c = c' := fun l c l' c' =>
    ⟨placeField_inj, fun ⟨hl, hc⟩ => by rw [hl, hc]⟩
  cases x <;> cases y <;> simp [fields, SameEntry, hkind, hplace, hname, (hname _).symm, and_assoc]

/-- Lines with the same fields, and no others, are the same. -/
theorem Listable.listingLine_eq_iff (hx : x.Listable) (hy : y.Listable) :
    x.listingLine = y.listingLine ↔ x.SameEntry y := by
  rw [← fields_eq_iff]
  constructor
  · intro h
    have hparts := congrArg (fun line => line.toList.splitOn '\t') h
    simp only [hx.splitOn_listingLine, hy.splitOn_listingLine] at hparts
    exact (List.map_injective_iff.mpr fun s t => String.toList_inj.mp) hparts
  · intro h
    rw [listingLine_eq, listingLine_eq, h]

variable {xs ys : List Lexeme}

theorem splitOn_listing (hne : xs ≠ []) (h : ∀ x ∈ xs, x.Listable) :
    (listing xs).toList.splitOn '\n' = (xs.map listingLine).map String.toList :=
  splitOn_lines (by simpa using hne) (List.forall_mem_map.mpr fun x hx => (h x hx).newline_not_mem)

/-- A line holds tabs, so a listing with lines is not empty. -/
theorem listing_ne_empty (hne : xs ≠ []) (h : ∀ x ∈ xs, x.Listable) : listing xs ≠ "" := by
  intro hempty
  have hlines := splitOn_listing hne h
  obtain ⟨x, xs, rfl⟩ := List.exists_cons_of_ne_nil hne
  rw [hempty, List.map_cons, List.map_cons] at hlines
  have hline : x.listingLine.toList = [] := (List.cons.inj hlines).1.symm
  have hfields := congrArg List.length (h x List.mem_cons_self).splitOn_listingLine
  rw [hline] at hfields
  cases x <;> simp [fields] at hfields

theorem map_listingLine_eq_iff (hx : ∀ x ∈ xs, x.Listable) (hy : ∀ y ∈ ys, y.Listable) :
    xs.map listingLine = ys.map listingLine ↔ Forall₂ SameEntry xs ys := by
  induction xs generalizing ys with
  | nil => simp [eq_comm]
  | cons x xs ih =>
    cases ys with
    | nil => simp
    | cons y ys =>
      rw [List.forall_mem_cons] at hx hy
      rw [List.map_cons, List.map_cons, List.cons.injEq, List.forall₂_cons, hx.1.listingLine_eq_iff hy.1,
        ih hx.2 hy.2]

theorem listing_eq_iff (hx : ∀ x ∈ xs, x.Listable) (hy : ∀ y ∈ ys, y.Listable) :
    listing xs = listing ys ↔ Forall₂ SameEntry xs ys := by
  rw [← map_listingLine_eq_iff hx hy]
  constructor
  · intro h
    by_cases hxs : xs = []
    · subst hxs
      by_cases hys : ys = []
      · rw [hys]
      · exact absurd h.symm (listing_ne_empty hys hy)
    · have hys : ys ≠ [] := fun hys => listing_ne_empty hxs hx (by rw [h, hys]; rfl)
      have hlines := congrArg (fun text => text.toList.splitOn '\n') h
      simp only [splitOn_listing hxs hx, splitOn_listing hys hy] at hlines
      exact (List.map_injective_iff.mpr fun s t => String.toList_inj.mp) hlines
  · intro h
    rw [listing, listing, h]

end Lexeme

/-! ### Lexemes of a source text -/

/-- The messages of the scanner are printable, whatever they quote. -/
theorem isPrintable_message {f : LexicalFault} (h : ∀ message, f.cause ≠ .reported message) :
    ∀ c ∈ f.message.toList, isPrintable c = true := by
  obtain ⟨cause, position, line, column⟩ := f
  cases cause with
  | decimal run =>
    have hbefore : ∀ c ∈ "decimal constant ".toList, isPrintable c = true := List.all_eq_true.mp (by decide)
    have hbehind : ∀ c ∈ " is not allowed, use Roman numerals".toList, isPrintable c = true :=
      List.all_eq_true.mp (by decide)
    change ∀ c ∈ ("decimal constant " ++ quote run ++ " is not allowed, use Roman numerals").toList,
      isPrintable c = true
    exact isPrintable_append (isPrintable_append hbefore (isPrintable_quote run)) hbehind
  | stray c =>
    have hbefore : ∀ c ∈ "unexpected character ".toList, isPrintable c = true := List.all_eq_true.mp (by decide)
    change ∀ d ∈ ("unexpected character " ++ quote (String.singleton c)).toList, isPrintable d = true
    exact isPrintable_append hbefore (isPrintable_quote _)
  | reported message => exact absurd rfl (h message)

theorem listable_of_mem_tokenize {source : String} {x : Lexeme} (h : x ∈ tokenize source) : x.Listable := by
  have herror : Field "ERROR" := ⟨by decide, by decide⟩
  cases x with
  | token t =>
    have ht := wellSpelled_of_mem_tokenize h
    simp only [Lexeme.Listable, Lexeme.fields, List.forall_mem_cons]
    exact ⟨field_placeField _ _, t.kind.field_name, ht.field, by simp⟩
  | fault f =>
    obtain ⟨us, c, vs, -, hcut⟩ := Scan.exists_cut_of_mem_lexemes h
    have hcause : ∀ message, f.cause ≠ .reported message := by
      rcases Scan.cut_cases (Location.start.advance us) c vs with ⟨kind, hx, -⟩ | ⟨hx, -⟩ | ⟨hx, -⟩ <;>
        rw [hx] at hcut <;> cases hcut <;> exact fun message hm => nomatch hm
    have hmessage : Field f.message :=
      field_of_forall (p := isPrintable) (by decide) (by decide) (isPrintable_message hcause)
    simp only [Lexeme.Listable, Lexeme.fields, List.forall_mem_cons]
    exact ⟨field_placeField _ _, herror, hmessage, by simp⟩

/-- The listing has exactly the lines of the lexemes, and two texts have one listing exactly when they have the same
lexemes at the same lines and columns. -/
theorem listing_unambiguous (source source' : String) :
    (tokenize source ≠ [] →
        (Lexeme.listing (tokenize source)).toList.splitOn '\n' =
          ((tokenize source).map Lexeme.listingLine).map String.toList) ∧
      (Lexeme.listing (tokenize source) = Lexeme.listing (tokenize source') ↔
        Forall₂ Lexeme.SameEntry (tokenize source) (tokenize source')) :=
  ⟨fun hne => Lexeme.splitOn_listing hne fun _ => listable_of_mem_tokenize,
    Lexeme.listing_eq_iff (fun _ => listable_of_mem_tokenize) fun _ => listable_of_mem_tokenize⟩

namespace Listing

/-- Two faults behind a comment: a decimal run and a control character. -/
def commented : String := "# one\nE := 7a;\x07"

/-- The same lexemes on the same lines, with other offsets. -/
def spaced : String := "\nE\t:= 7a;\x07"

def lines : List String :=
  ["2:1\tIDENTIFIER\tE", "2:3\tASSIGN_SIGN\t:=",
    "2:6\tERROR\tdecimal constant '7a' is not allowed, use Roman numerals", "2:8\tDELIMITER\t;",
    "2:9\tERROR\tunexpected character '\\x07'"]

end Listing

open Listing in
theorem listing_unambiguous_commented :
    tokenize commented ≠ [] ∧
      (Lexeme.listing (tokenize commented)).toList.splitOn '\n' = lines.map String.toList ∧
      Forall₂ Lexeme.SameEntry (tokenize commented) (tokenize spaced) := by
  have hlines : (tokenize commented).map Lexeme.listingLine = lines := by decide +kernel
  have hlines' : (tokenize spaced).map Lexeme.listingLine = lines := by decide +kernel
  have hne : tokenize commented ≠ [] := fun hnil => by
    rw [hnil] at hlines
    cases hlines
  obtain ⟨hsplit, hiff⟩ := listing_unambiguous commented spaced
  refine ⟨hne, hlines ▸ hsplit hne, hiff.mp ?_⟩
  rw [Lexeme.listing, Lexeme.listing, hlines, hlines']

end RomanLang
