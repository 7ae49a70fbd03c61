import Propositional.Proofs.Grammar.RoundTrip
import Propositional.Proofs.Table.Rows

/-!
# A printed table can be read back

A table is printed as lines of cells. No written formula has a blank in it, so neither the line feed
nor the separator of the cells, which begins with a space, begins in a cell: the lines are the
header and the rows, and what stands between the separators of a line are its cells. A header is
read as the formula of its column.

* `Text.parts`: the parts of a text around the occurrences of a separator. By `parts_intercalate`
  they are what was joined, if the separator begins in none of it.
* `isSeparator_of_mem_chars`: a written formula has nothing in it that the scan skips.
* `cellsOf_text`: the cells of a printed table are its headers and the letters of its values.
* `columns_of_header`, `matrix_of_cells`: the headers tell the columns, and the letters the values.
* `text_is_lossless`: so a printed table tells the table.
-/

namespace Propositional

/-! ## Splitting a text -/

namespace Text

variable {c : Char} {sep part rest : List Char}

/-- The parts of a text around the occurrences of `sep`, which is not empty. The occurrences are
taken from left to right and do not overlap. -/
def parts (sep : List Char) : List Char → List (List Char)
  | [] => [[]]
  | c :: cs =>
    if sep.isPrefixOf (c :: cs) then [] :: parts sep (cs.drop (sep.length - 1))
    else (parts sep cs).modifyHead (c :: ·)
termination_by cs => cs.length
decreasing_by
  all_goals simp only [List.length_drop, List.length_cons]
  all_goals omega

/-- A character that does not begin the separator belongs to the first part. -/
theorem parts_cons_of_ne {d : Char} (h : d ≠ c) (rest : List Char) :
    parts (c :: sep) (d :: rest) = (parts (c :: sep) rest).modifyHead (d :: ·) := by
  have hprefix : (c :: sep).isPrefixOf (d :: rest) = false := by
    rw [List.isPrefixOf_cons_cons, beq_false_of_ne h.symm, Bool.false_and]
  rw [parts, hprefix, if_neg Bool.false_ne_true]

theorem parts_sep_append (c : Char) (sep rest : List Char) :
    parts (c :: sep) (c :: sep ++ rest) = [] :: parts (c :: sep) rest := by
  have hprefix : (c :: sep).isPrefixOf (c :: (sep ++ rest)) = true :=
    List.isPrefixOf_iff_prefix.mpr (List.prefix_append (c :: sep) rest)
  rw [List.cons_append, parts, hprefix, if_pos rfl, List.length_cons, Nat.add_sub_cancel,
    List.drop_left]

theorem parts_of_notMem (h : c ∉ part) : parts (c :: sep) part = [part] := by
  induction part with
  | nil => rw [parts]
  | cons d part ih =>
    obtain ⟨hd, hpart⟩ := List.ne_and_not_mem_of_not_mem_cons h
    rw [parts_cons_of_ne hd.symm, ih hpart, List.modifyHead_cons]

theorem parts_append_of_notMem (h : c ∉ part) (rest : List Char) :
    parts (c :: sep) (part ++ (c :: sep ++ rest)) = part :: parts (c :: sep) rest := by
  induction part with
  | nil => exact parts_sep_append c sep rest
  | cons d part ih =>
    obtain ⟨hd, hpart⟩ := List.ne_and_not_mem_of_not_mem_cons h
    rw [List.cons_append, parts_cons_of_ne hd.symm, ih hpart, List.modifyHead_cons]

/-- **Splitting undoes joining**, if the separator begins in no part. -/
theorem parts_intercalate {ps : List (List Char)} (hne : ps ≠ []) (h : ∀ part ∈ ps, c ∉ part) :
    parts (c :: sep) ((c :: sep).intercalate ps) = ps := by
  induction ps with
  | nil => exact absurd rfl hne
  | cons part ps ih =>
    obtain ⟨hpart, hps⟩ := List.forall_mem_cons.mp h
    cases ps with
    | nil => rw [List.intercalate_singleton, parts_of_notMem hpart]
    | cons next ps =>
      rw [List.intercalate_cons_cons, List.append_assoc, parts_append_of_notMem hpart,
        ih (List.cons_ne_nil _ _) hps]

/-- A character of joined parts is one of a part or of the separator. -/
theorem mem_of_mem_intercalate {d : Char} {ps : List (List Char)} (h : d ∈ sep.intercalate ps) :
    d ∈ sep ∨ ∃ part ∈ ps, d ∈ part := by
  induction ps with
  | nil => cases h
  | cons part ps ih =>
    cases ps with
    | nil => exact Or.inr ⟨part, List.mem_cons_self, by rwa [List.intercalate_singleton] at h⟩
    | cons next ps =>
      rw [List.intercalate_cons_cons, List.mem_append, List.mem_append] at h
      rcases h with (hpart | hsep) | hrest
      · exact Or.inr ⟨part, List.mem_cons_self, hpart⟩
      · exact Or.inl hsep
      · rcases ih hrest with hsep | ⟨other, hother, hd⟩
        · exact Or.inl hsep
        · exact Or.inr ⟨other, List.mem_cons_of_mem part hother, hd⟩

/-- The parts of a text as texts. -/
def partsOf (sep text : String) : List String := (parts sep.toList text.toList).map String.ofList

theorem partsOf_intercalate {sep : String} {sep' : List Char} (hsep : sep.toList = c :: sep')
    {ps : List String} (hne : ps ≠ []) (h : ∀ part ∈ ps, c ∉ part.toList) :
    partsOf sep (sep.intercalate ps) = ps := by
  have hne' : ps.map String.toList ≠ [] := fun hnil => hne (List.map_eq_nil_iff.mp hnil)
  have hparts : ∀ part ∈ ps.map String.toList, c ∉ part := List.forall_mem_map.mpr h
  rw [partsOf, String.toList_intercalate, hsep, parts_intercalate hne' hparts, List.map_map]
  refine (List.map_congr_left fun part _ => ?_).trans (List.map_id ps)
  exact String.ofList_toList

end Text

/-! ## Written formulas -/

open Text Token

variable {f : Formula} {c : Char} {columns columns' : List Formula}

theorem mem_of_mem_wrap {needed : Bool} {cs : List Char} (h : c ∈ Formula.wrap needed cs) :
    c = '(' ∨ c = ')' ∨ c ∈ cs := by
  cases needed with
  | false => exact Or.inr (Or.inr h)
  | true =>
    rw [Formula.wrap, if_pos rfl, List.cons_append, List.mem_cons, List.mem_append,
      List.mem_singleton] at h
    rcases h with h | h | h
    · exact Or.inl h
    · exact Or.inr (Or.inr h)
    · exact Or.inr (Or.inl h)

/-- **A written formula has nothing in it that the scan skips**: it is made of letters and
symbols. -/
theorem isSeparator_of_mem_chars (hx : ∀ x ∈ Formula.names [f], LegalName x) (h : c ∈ f.chars) :
    isSeparator c = false := by
  have hwrap {needed : Bool} {cs : List Char} (hcs : c ∈ cs → isSeparator c = false)
      (hmem : c ∈ Formula.wrap needed cs) : isSeparator c = false := by
    rcases mem_of_mem_wrap hmem with rfl | rfl | hmem
    · exact isSymbol_openParen.1
    · exact isSymbol_closeParen.1
    · exact hcs hmem
  induction f with
  | var x => exact isSeparator_of_isLetter ((hx x (by simp)).letters c h)
  | const b =>
    have hall : ∀ b, (Formula.constantName b).toList.all (!isSeparator ·) = true := by decide
    simpa using List.all_eq_true.mp (hall b) c h
  | neg a ih =>
    have ha := ih (Formula.forall_mem_names_neg.mp hx)
    rw [Formula.chars, List.mem_cons] at h
    rcases h with rfl | h
    · exact isSymbol_negation.1
    · exact hwrap ha h
  | binary op l r ihl ihr =>
    obtain ⟨hxl, hxr⟩ := Formula.forall_mem_names_binary.mp hx
    rw [Formula.chars, List.mem_append, List.mem_cons] at h
    rcases h with h | rfl | h
    · exact hwrap (ihl hxl) h
    · exact (isSymbol_connective op).1
    · exact hwrap (ihr hxr) h

theorem ofTokens_scan_render (hx : ∀ x ∈ Formula.names [f], LegalName x) :
    Formula.ofTokens (scan f.render.toList) = .ok f := by
  rw [Formula.render, String.toList_ofList]
  exact ofTokens_eq_ok_iff.mpr (derives_scan_chars f hx)

/-- A written formula is parsed as itself, up to the limit on the depth. -/
theorem parse_render (hx : ∀ x ∈ Formula.names [f], LegalName x) (maxDepth : Int) :
    Formula.parse f.render.toList maxDepth =
      if (f.depth : Int) ≤ maxDepth then .ok f else .error (.tooDeep f.depth maxDepth) := by
  rw [Formula.parse, ofTokens_scan_render hx]
  by_cases hdepth : (f.depth : Int) ≤ maxDepth
  · rw [if_pos hdepth]
    exact if_neg (Int.not_lt.mpr hdepth)
  · rw [if_neg hdepth]
    exact if_pos (Int.not_le.mp hdepth)

/-! ## Cells -/

namespace TruthTable

variable {t : TruthTable} {hide : Hiding} {order : RowOrder} {cells : List String}

/-- What can stand between the separators of a table. -/
def IsCell (s : String) : Prop := ∀ c ∈ s.toList, isSeparator c = false

theorem IsCell.notMem {s : String} (h : IsCell s) (hc : isSeparator c = true) : c ∉ s.toList :=
  fun hmem => Bool.false_ne_true ((h c hmem).symm.trans hc)

theorem isCell_render (hx : ∀ x ∈ Formula.names [f], LegalName x) : IsCell f.render := by
  intro c hc
  rw [Formula.render, String.toList_ofList] at hc
  exact isSeparator_of_mem_chars hx hc

/-- How a truth value is printed. -/
def valueCell (b : Bool) : String := (letter b).toString

theorem isCell_valueCell (b : Bool) : IsCell (valueCell b) := by
  have hall : ∀ b, (valueCell b).toList.all (!isSeparator ·) = true := by decide
  exact fun c hc => by simpa using List.all_eq_true.mp (hall b) c hc

theorem valueCell_injective : Function.Injective valueCell := by
  intro b b' h
  cases b <;> cases b' <;> first | rfl | cases h

/-- The cells of a line. -/
theorem partsOf_joinCells (hne : cells ≠ []) (h : ∀ s ∈ cells, IsCell s) :
    partsOf " | " (joinCells cells) = cells :=
  partsOf_intercalate rfl hne fun s hs => (h s hs).notMem rfl

theorem lineFeed_notMem_joinCells (h : ∀ s ∈ cells, IsCell s) : '\n' ∉ (joinCells cells).toList := by
  intro hmem
  rw [joinCells, String.toList_intercalate] at hmem
  rcases mem_of_mem_intercalate hmem with hsep | ⟨_, hpart, hc⟩
  · exact absurd hsep (by decide)
  · obtain ⟨s, hs, rfl⟩ := List.mem_map.mp hpart
    exact (h s hs).notMem rfl hc

/-- The cells of a printed table, line by line. -/
def cellsOf (text : String) : List (List String) := (partsOf "\n" text).map (partsOf " | ")

theorem cellsOf_intercalate {lines : List (List String)} (hne : lines ≠ [])
    (h : ∀ line ∈ lines, line ≠ [] ∧ ∀ s ∈ line, IsCell s) :
    cellsOf (String.intercalate "\n" (lines.map joinCells)) = lines := by
  have hne' : lines.map joinCells ≠ [] := fun hnil => hne (List.map_eq_nil_iff.mp hnil)
  have hlines : ∀ line ∈ lines.map joinCells, '\n' ∉ line.toList :=
    List.forall_mem_map.mpr fun line hline => lineFeed_notMem_joinCells (h line hline).2
  rw [cellsOf, partsOf_intercalate rfl hne' hlines, List.map_map]
  refine (List.map_congr_left fun line hline => ?_).trans (List.map_id lines)
  exact partsOf_joinCells (h line hline).1 (h line hline).2

/-! ## The text of a table -/

/-- A table has a line for its header and one for each row. -/
theorem text_eq_intercalate (t : TruthTable) :
    t.text = String.intercalate "\n"
      ((t.header :: t.matrix.map fun values => values.map valueCell).map joinCells) := by
  rw [text, List.map_cons, List.map_map]
  rfl

theorem mem_of_mem_visible {row : Row} {rows : List Row} (h : row ∈ visible hide rows) :
    row ∈ rows := by
  unfold visible at h
  split at h
  · exact h
  · exact (List.mem_filter.mp h).1

theorem columns_of_build (h : build columns hide order = .ok t) : t.columns = columns := by
  rw [build_eq] at h
  obtain rfl := Except.ok.inj h
  rfl

/-- A row has a value for each column. -/
theorem length_of_mem_matrix (h : build columns hide order = .ok t) {values : List Bool}
    (hvalues : values ∈ t.matrix) : values.length = columns.length := by
  rw [build_eq] at h
  obtain rfl := Except.ok.inj h
  obtain ⟨row, hrow, rfl⟩ := List.mem_map.mp hvalues
  obtain ⟨a, -, rfl⟩ := List.mem_map.mp (mem_of_mem_visible ((ordered_perm order _).mem_iff.mp hrow))
  exact List.length_map _

/-- Columns that can be printed and read: there is one, and all names are legal. -/
structure Legible (columns : List Formula) : Prop where
  ne_nil : columns ≠ []
  legalName : ∀ x ∈ Formula.names columns, LegalName x

theorem Legible.legalName_of_mem (h : Legible columns) (hf : f ∈ columns) :
    ∀ x ∈ Formula.names [f], LegalName x :=
  fun x hx => h.legalName x (Formula.mem_names_iff_exists.mpr ⟨f, hf, hx⟩)

/-- **The cells of a printed table** are its headers and its values. -/
theorem cellsOf_text (hcolumns : Legible columns) (h : build columns hide order = .ok t) :
    cellsOf t.text = t.header :: t.matrix.map fun values => values.map valueCell := by
  have hlines : ∀ line ∈ t.header :: t.matrix.map (fun values => values.map valueCell),
      line ≠ [] ∧ ∀ s ∈ line, IsCell s := by
    refine List.forall_mem_cons.mpr ⟨?_, List.forall_mem_map.mpr fun values hvalues => ?_⟩
    · rw [header, columns_of_build h]
      refine ⟨fun hnil => hcolumns.ne_nil (List.map_eq_nil_iff.mp hnil), ?_⟩
      exact List.forall_mem_map.mpr fun f hf => isCell_render (hcolumns.legalName_of_mem hf)
    · have hlength := length_of_mem_matrix h hvalues
      have hpos := List.length_pos_iff.mpr hcolumns.ne_nil
      refine ⟨fun hnil => ?_, List.forall_mem_map.mpr fun b _ => isCell_valueCell b⟩
      rw [List.map_eq_nil_iff.mp hnil, List.length_nil] at hlength
      omega
  rw [text_eq_intercalate, cellsOf_intercalate (List.cons_ne_nil _ _) hlines]

/-- **The headers tell the columns.** -/
theorem columns_of_header (hcolumns : Legible columns) (hcolumns' : Legible columns')
    (h : columns.map Formula.render = columns'.map Formula.render) : columns = columns' := by
  let read (cell : String) := Formula.ofTokens (scan cell.toList)
  have hread {columns : List Formula} (hcolumns : Legible columns) :
      (columns.map Formula.render).map read = columns.map .ok := by
    rw [List.map_map]
    exact List.map_congr_left fun f hf => ofTokens_scan_render (hcolumns.legalName_of_mem hf)
  have hok : columns.map (.ok : Formula → Except ParseError Formula) = columns'.map .ok := by
    rw [← hread hcolumns, ← hread hcolumns', h]
  exact (List.map_inj_right fun _ _ => Except.ok.inj).mp hok

theorem matrix_of_cells {rows rows' : List (List Bool)}
    (h : rows.map (fun values => values.map valueCell) = rows'.map fun values => values.map valueCell) :
    rows = rows' :=
  (List.map_inj_right fun _ _ => (List.map_inj_right fun _ _ hb => valueCell_injective hb).mp).mp h

/-- **The printed table is lossless.** For every list of columns that is not empty and has legal
names, whatever is hidden and in whatever order, there is a table, and its text cut at the line
feeds and each line at ` | ` gives back the headers as the first line and then line by line the
truth values of the matrix, one for each column. A header is parsed as the formula of its column,
unless that is too deep for the limit. So tables of such columns with the same text have the same
columns and the same values. -/
theorem text_is_lossless (columns : List Formula) (hcolumns : Legible columns) (hide : Hiding)
    (order : RowOrder) :
    ∃ t, build columns hide order = .ok t ∧ t.columns = columns ∧
      cellsOf t.text = t.header :: (t.matrix.map fun values => values.map valueCell) ∧
      (∀ values ∈ t.matrix, values.length = columns.length) ∧
      (∀ maxDepth : Int, t.header.map (fun cell => Formula.parse cell.toList maxDepth) =
        columns.map fun f =>
          if f.depth ≤ maxDepth then .ok f else .error (.tooDeep f.depth maxDepth)) ∧
      ∀ (columns' : List Formula) (hide' : Hiding) (order' : RowOrder) (t' : TruthTable),
        Legible columns' → build columns' hide' order' = .ok t' → t.text = t'.text →
          t.columns = t'.columns ∧ t.matrix = t'.matrix := by
  have hbuild := build_eq columns hide order
  refine ⟨_, hbuild, rfl, cellsOf_text hcolumns hbuild, fun _ => length_of_mem_matrix hbuild,
    fun maxDepth => ?_, fun columns' hide' order' t' hcolumns' hbuild' htext => ?_⟩
  · rw [header, List.map_map]
    exact List.map_congr_left fun f hf => parse_render (hcolumns.legalName_of_mem hf) maxDepth
  · have hcells := cellsOf_text hcolumns hbuild
    rw [htext, cellsOf_text hcolumns' hbuild'] at hcells
    obtain ⟨hheader, hmatrix⟩ := List.cons.inj hcells
    have hcolumns_eq := columns_of_build hbuild'
    rw [header, header, hcolumns_eq] at hheader
    exact ⟨(columns_of_header hcolumns' hcolumns hheader).symm.trans hcolumns_eq.symm,
      (matrix_of_cells hmatrix).symm⟩

/-- The rows where `(A ➔ B) ➔ A` is true, as they are printed. The header is too deep for a limit of
2, and no table of `A ➔ B ➔ A` has this text. -/
theorem text_is_lossless_grouped :
    let f : Formula := .binary .implies (.binary .implies (.var "A") (.var "B")) (.var "A")
    let g : Formula := .binary .implies (.var "A") (.binary .implies (.var "B") (.var "A"))
    Legible [.var "B", f] ∧ Legible [.var "B", g] ∧
      ∃ t, build [.var "B", f] .whereFalse .counting = .ok t ∧
        t.text = "B | (A➔B)➔A\nF | T\nT | T" ∧
        cellsOf t.text = [["B", "(A➔B)➔A"], ["F", "T"], ["T", "T"]] ∧
        t.header.map (fun cell => Formula.parse cell.toList 2) =
          [.ok (.var "B"), .error (.tooDeep 3 2)] ∧
        ∀ hide order t', build [.var "B", g] hide order = .ok t' → t.text ≠ t'.text := by
  intro f g
  have hf : Legible [.var "B", f] := ⟨List.cons_ne_nil _ _, by decide +kernel⟩
  have hg : Legible [.var "B", g] := ⟨List.cons_ne_nil _ _, by decide +kernel⟩
  obtain ⟨t, hbuild, -, hcells, -, hparse, hsame⟩ :=
    text_is_lossless [.var "B", f] hf .whereFalse .counting
  obtain rfl := Except.ok.inj (hbuild.symm.trans (build_eq [.var "B", f] .whereFalse .counting))
  have hdepth : f.depth = 3 := by simp [f]
  refine ⟨hf, hg, _, hbuild, by decide +kernel, hcells.trans (by decide +kernel),
    (hparse 2).trans (by simp [hdepth]), fun hide order t' hbuild' heq => ?_⟩
  have hother := (hsame _ hide order t' hg hbuild' heq).1
  rw [columns_of_build hbuild'] at hother
  exact absurd hother (by decide)

end TruthTable

end Propositional
