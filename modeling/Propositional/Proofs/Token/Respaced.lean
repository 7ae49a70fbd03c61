import Propositional.Proofs.Grammar.Alike
import Propositional.Proofs.Token.Layout

/-!
# Separators only separate

Separators may be put in and taken out anywhere, unless a word would be cut in two or two words
would become one. Neither the tokens of the text nor what is read from them depends on it.

* `Respaced`: a text in which separators have been put in and taken out.
* `content_of_respaced`: its tokens are those of the given text, elsewhere.
* `parse_respaced`: and the same formula is read from them, if one is read.
* `scan_loses_nothing`: what a scan takes from a text, and what it does not depend on.
-/

namespace Propositional

open Text Token

variable {text text' : List Char} {ts us : List Token} {maxDepth : Int} {f : Formula}

/-- The text is the given one, but for separators that have been put in or taken out, never in a
word or so that two words would touch. -/
inductive Respaced (text : List Char) : List Char → Prop
  | unchanged : Respaced text text
  | insert (before gap after : List Char) (h : Respaced text (before ++ after))
      (hgap : ∀ c ∈ gap, isSeparator c = true) (hparted : Parted before after) :
      Respaced text (before ++ gap ++ after)
  | delete (before gap after : List Char) (h : Respaced text (before ++ gap ++ after))
      (hgap : ∀ c ∈ gap, isSeparator c = true) (hparted : Parted before after) :
      Respaced text (before ++ after)

namespace Token

/-! ## The tokens -/

/-- **A gap between two parts of a text makes no difference** to what the tokens are. -/
theorem content_scan_gap {before gap after : List Char} (hgap : ∀ c ∈ gap, isSeparator c = true)
    (hparted : Parted before after) :
    (scan (before ++ gap ++ after)).map content = (scan (before ++ after)).map content := by
  -- a separator is no letter, so the gap is parted from what is on its left and on its right
  have hletter : ∀ c ∈ gap, isLetter c = false :=
    fun c hc => isLetter_of_isBlank (isBlank_of_isSeparator (hgap c hc))
  have hleft : Parted (before ++ gap) after := by
    refine .append (fun _ => hparted) fun hlast => ?_
    cases hg : gap.getLast? with
    | none =>
      rw [hg] at hlast
      cases hlast
    | some c =>
      rw [hg, Option.any_some, hletter c (List.mem_of_getLast? hg)] at hlast
      cases hlast
  have hright : Parted before gap := by
    intro _
    cases gap with
    | nil => rfl
    | cons c gap => exact List.takeWhile_cons_of_neg (by simp [hletter c List.mem_cons_self])
  rw [scan, scan, scanFrom_append hleft, scanFrom_append hright, scanFrom_append hparted,
    scanFrom_separators hgap, List.append_nil, List.map_append, List.map_append]
  exact congrArg _ (content_scanFrom _ _ after)

theorem content_of_respaced (h : Respaced text text') :
    (scan text').map content = (scan text).map content := by
  induction h with
  | unchanged => rfl
  | insert before gap after _ hgap hparted ih => exact (content_scan_gap hgap hparted).trans ih
  | delete before gap after _ hgap hparted ih => exact (content_scan_gap hgap hparted).symm.trans ih

theorem alike_of_content (h : ts.map content = us.map content) : List.Forall₂ Alike ts us := by
  induction ts generalizing us with
  | nil =>
    obtain rfl := List.map_eq_nil_iff.mp h.symm
    exact .nil
  | cons t ts ih =>
    obtain ⟨u, us, rfl, htu, hrest⟩ := List.map_eq_cons_iff.mp h.symm
    obtain ⟨hkind, htext⟩ := Prod.mk.inj htu
    exact .cons ⟨hkind.symm, fun _ => htext.symm⟩ (ih hrest.symm)

end Token

/-! ## The formula -/

theorem Formula.parse_of_content (h : (scan text).map content = (scan text').map content)
    (hf : parse text maxDepth = .ok f) : parse text' maxDepth = .ok f := by
  obtain ⟨hread, hdepth⟩ := parse_eq_ok_iff.mp hf
  exact parse_eq_ok_iff.mpr ⟨ofTokens_of_alike (alike_of_content h) hread, hdepth⟩

/-- **The same formula is read**, or none from either text. -/
theorem Formula.parse_respaced (h : Respaced text text') (maxDepth : Int) :
    (parse text' maxDepth).toOption = (parse text maxDepth).toOption := by
  have hcontent := content_of_respaced h
  cases hf : parse text maxDepth with
  | ok f => rw [parse_of_content hcontent.symm hf]
  | error e =>
    cases hf' : parse text' maxDepth with
    | error e' => rfl
    | ok f =>
      rw [parse_of_content hcontent hf'] at hf
      cases hf

/-! ## The account of a scan -/

/-- **A scan loses nothing of a text but separators, and does not depend on these.** For every text,

* the tokens come one behind the other and do not overlap, each with the characters that stand at
  its index, and every character is in one of them if and only if it is no separator;
* a name or a constant is a run of letters that is as long as it can be;
* an illegal token is a single character that is no separator, letter, symbol of a connective or
  parenthesis, and the tokens behind it are those of the text behind that character;
* a text that differs only by separators that were put in and taken out, any number of times,
  neither in a word nor so that two words would touch, has tokens of the same kinds with the same
  characters, in the same order, and under any limit on the depth the same formula is read from it,
  or none either. -/
theorem Token.scan_loses_nothing (text : List Char) :
    ((scan text).Pairwise fun t u => t.start < u.start ∧ t.start + t.text.length ≤ u.start) ∧
      (∀ t ∈ scan text, text.extract t.start (t.start + t.text.length) = t.text) ∧
      (∀ i c, text[i]? = some c →
        ((∃ t ∈ scan text, t.start ≤ i ∧ i < t.start + t.text.length) ↔ isSeparator c = false)) ∧
      (∀ t ∈ scan text, t.kind = .name ∨ (∃ b, t.kind = .truth b) → IsRun text t.start t.text) ∧
      (∀ ts t us, scan text = ts ++ t :: us → t.kind = .illegal →
        (∃ c, t.text = [c] ∧ isSeparator c = false ∧ isLetter c = false ∧ c ≠ negationSymbol ∧
          (∀ op : Connective, c ≠ op.symbol) ∧ c ≠ '(' ∧ c ≠ ')') ∧
          us = scanFrom (t.start + 1) (text.drop (t.start + 1))) ∧
      ∀ text', Respaced text text' →
        (scan text').map (fun t => (t.kind, t.text)) = (scan text).map (fun t => (t.kind, t.text)) ∧
          ∀ maxDepth : Int,
            (Formula.parse text' maxDepth).toOption = (Formula.parse text maxDepth).toOption := by
  have hscans := scans_scanFrom 0 text
  refine ⟨?_, fun t ht => ?_, fun i c hi => ?_, fun t ht hk => ?_, fun ts t us hsplit hk => ⟨?_, ?_⟩,
    fun text' h => ⟨content_of_respaced h, Formula.parse_respaced h⟩⟩
  · refine hscans.pairwise.imp_of_mem fun {t u} ht _ hle => ⟨?_, hle⟩
    have hpos := List.length_pos_iff.mpr (foundIn_of_mem_scan ht).text_ne_nil
    omega
  · exact extract_of_mem_scan ht
  · have hincludes := hscans.includes_iff i
    rw [Nat.zero_add, hi] at hincludes
    refine hincludes.trans ⟨?_, fun hc => ⟨c, rfl, hc⟩⟩
    rintro ⟨d, hd, hsep⟩
    rwa [Option.some.inj hd]
  · refine isRun_of_mem_scan ht ?_
    rcases hk with hk | ⟨b, hk⟩ <;> rw [hk] <;> rfl
  · have ht : t ∈ scan text := hsplit ▸ List.mem_append_right ts List.mem_cons_self
    obtain ⟨c, htext, hs, hl, hc⟩ := exists_illegal_of_mem_scan ht hk
    exact ⟨c, htext, hs, hl, symbolKind_eq_illegal_iff.mp hc⟩
  · have ht : t ∈ scan text := hsplit ▸ List.mem_append_right ts List.mem_cons_self
    obtain ⟨c, htext, -⟩ := exists_illegal_of_mem_scan ht hk
    obtain ⟨before, after, hcs, hstart, -, hus, -⟩ := exists_split_of_scans hscans hsplit
    rw [htext] at hcs hus
    rw [Nat.zero_add] at hstart
    rw [← scans_iff.mp hus, hcs, hstart, ← List.append_assoc, List.drop_left' (by simp)]
    rfl

/-- In `ab ⋀#(B)` the name is a run of letters, the illegal character is a token of its own, and the
space may also stand on the other side of the connective. In `A⋀B` there may be a space on both
sides of it. -/
theorem Token.scan_loses_nothing_illegal :
    let text := "ab ⋀#(B)".toList
    IsRun text 0 "ab".toList ∧
      scanFrom 5 "(B)".toList = [⟨.openParen, ['('], 5⟩, ⟨.name, ['B'], 6⟩, ⟨.closeParen, [')'], 7⟩] ∧
      (scan "ab⋀ #(B)".toList).map (fun t => (t.kind, t.text)) =
        (scan text).map (fun t => (t.kind, t.text)) ∧
      (Formula.parse "A ⋀ B".toList 2).toOption = some (.binary .and (.var "A") (.var "B")) := by
  intro text
  have hscan : scan text = [⟨.name, "ab".toList, 0⟩, ⟨.binary .and, ['⋀'], 3⟩, ⟨.illegal, ['#'], 4⟩,
      ⟨.openParen, ['('], 5⟩, ⟨.name, ['B'], 6⟩, ⟨.closeParen, [')'], 7⟩] := by decide +kernel
  obtain ⟨-, -, -, hrun, hillegal, hrespaced⟩ := scan_loses_nothing text
  obtain ⟨-, hrest⟩ := hillegal [⟨.name, "ab".toList, 0⟩, ⟨.binary .and, ['⋀'], 3⟩]
    ⟨.illegal, ['#'], 4⟩ [⟨.openParen, ['('], 5⟩, ⟨.name, ['B'], 6⟩, ⟨.closeParen, [')'], 7⟩] hscan rfl
  have hgap : ∀ c ∈ [' '], isSeparator c = true := List.all_eq_true.mp (by decide)
  have hmoved : Respaced text "ab⋀ #(B)".toList :=
    .insert "ab⋀".toList [' '] "#(B)".toList
      (.delete "ab".toList [' '] "⋀#(B)".toList .unchanged hgap (by decide +kernel))
      hgap (by decide +kernel)
  have hspaced : Respaced "A⋀B".toList "A ⋀ B".toList :=
    .insert "A ⋀".toList [' '] "B".toList
      (.insert "A".toList [' '] "⋀B".toList .unchanged hgap (by decide +kernel))
      hgap (by decide +kernel)
  obtain ⟨-, -, -, -, -, hread⟩ := scan_loses_nothing "A⋀B".toList
  refine ⟨hrun ⟨.name, "ab".toList, 0⟩ ?_ (Or.inl rfl), hrest.symm, (hrespaced _ hmoved).1, ?_⟩
  · rw [hscan]
    exact List.mem_cons_self
  · exact ((hread _ hspaced).2 2).trans (by decide +kernel)

end Propositional
