import Mathlib.Control.Monad.Basic
import Propositional.Proofs.Spelling.Cut

/-!
# Canonical spelling is a segmentation

The canonical text and its offsets say how a text was cut: between two neighbouring offsets there is
either the longest spelling that stands there, or a single character at which no spelling stands.
This leaves no choice, so that the text alone determines both.

* `StandsFor`: what the characters between two indices become. By `StandsFor.unique` the first index
  determines the second one and the result.
* `Segments`: a segmentation of what follows an index. `segments_nil_iff` and `segments_cons_iff`
  take it apart from the left, and `Segments.unique` follows by induction.
* `exists_standsFor_of_cut`, `segments_of_cut`: one step of the cutting, and all of it.
* `SpelledOut`: that nothing was taken for a spelling which is none.
* `Segments.exists_piece`, `Segments.extract_of_letters`: what stands at an offset, for a single
  character and for a word.
* `canonical_is_the_segmentation`: the canonical text of a whole text.
-/

namespace Propositional

open Spelling

variable {low text text' : List Char} {offsets offsets' : List Nat} {p q q' : Nat} {c c' : Char}

/-- The characters of `low` between the indices `p` and `q` belong together and become `c`. -/
inductive StandsFor (low : List Char) (p q : Nat) (c : Char) : Prop
  | spelling (s : Spelling) (hs : s.LongestIn low p) (hq : q = p + s.text.length)
      (hc : c = s.symbol)
  | single (hq : q = p + 1) (hc : low[p]? = some c) (hnone : ∀ s ∈ all, ¬s.OccursIn low p)

/-- From the index `p` on, `low` is cut at the offsets, and each piece becomes a character of
`text`. -/
structure Segments (low : List Char) (p : Nat) (text : List Char) (offsets : List Nat) : Prop where
  length_offsets : offsets.length = text.length + 1
  head : offsets.head? = some p
  ascending : offsets.Pairwise (· < ·)
  last : offsets.getLast? = some low.length
  pieces : ∀ (i q r : Nat) (c : Char), offsets[i]? = some q → offsets[i + 1]? = some r →
    text[i]? = some c → StandsFor low q r c

/-- What is read as a spelling at one of the offsets is spelled like it. -/
def SpelledOut (low : List Char) (offsets : List Nat) : Prop :=
  ∀ q ∈ offsets, ∀ s : Spelling, s.LongestIn low q → s.Spells (low.extract q (q + s.text.length))

/-! ## One piece -/

theorem StandsFor.lt (h : StandsFor low p q c) : p < q := by
  cases h with
  | spelling s hs hq =>
    have := List.length_pos_iff.mpr (text_ne_nil hs.mem)
    omega
  | single hq => omega

theorem StandsFor.le_length (h : StandsFor low p q c) : q ≤ low.length := by
  cases h with
  | spelling s hs hq => exact hq ▸ hs.occurs.le_length hs.mem
  | single hq hc => exact hq ▸ (List.getElem?_eq_some_iff.mp hc).1

/-- **Where a piece begins decides where it ends and what becomes of it.** -/
theorem StandsFor.unique (h : StandsFor low p q c) (h' : StandsFor low p q' c') : q = q' ∧ c = c' := by
  cases h with
  | spelling s hs hq hc =>
    cases h' with
    | spelling s' hs' hq' hc' =>
      obtain rfl := hs.unique hs'
      exact ⟨hq.trans hq'.symm, hc.trans hc'.symm⟩
    | single _ _ hnone => exact absurd hs.occurs (hnone s hs.mem)
  | single hq hc hnone =>
    cases h' with
    | spelling s' hs' => exact absurd hs'.occurs (hnone s' hs'.mem)
    | single hq' hc' => exact ⟨hq.trans hq'.symm, Option.some.inj (hc.symm.trans hc')⟩

/-! ## A segmentation from the left -/

theorem segments_nil_iff : Segments low p [] offsets ↔ offsets = [p] ∧ p = low.length := by
  constructor
  · intro h
    obtain ⟨q, rfl⟩ := List.length_eq_one_iff.mp h.length_offsets
    obtain rfl : q = p := by simpa using h.head
    exact ⟨rfl, by simpa using h.last⟩
  · rintro ⟨rfl, rfl⟩
    exact ⟨rfl, rfl, List.pairwise_singleton _ _, rfl, fun i q r c _ _ hc => by simp at hc⟩

theorem segments_cons_iff :
    Segments low p (c :: text) offsets ↔
      ∃ q rest, offsets = p :: rest ∧ StandsFor low p q c ∧ Segments low q text rest := by
  constructor
  · intro h
    -- the text is not at its end, so there is a second offset
    obtain ⟨p', q, rest, rfl⟩ : ∃ p' q rest, offsets = p' :: q :: rest := by
      match offsets, h.length_offsets with
      | p' :: q :: rest, _ => exact ⟨p', q, rest, rfl⟩
    obtain rfl : p' = p := by simpa using h.head
    have hlength : (q :: rest).length = text.length + 1 := by
      simpa using h.length_offsets
    refine ⟨q, q :: rest, rfl, h.pieces 0 p' q c rfl rfl rfl, hlength, rfl,
      (List.pairwise_cons.mp h.ascending).2, ?_, fun i => h.pieces (i + 1)⟩
    rw [← h.last, List.getLast?_cons_cons]
  · rintro ⟨q, rest, rfl, hpiece, h⟩
    obtain ⟨rest, rfl⟩ := List.head?_eq_some_iff.mp h.head
    refine ⟨by rw [List.length_cons, h.length_offsets, List.length_cons], rfl, ?_, ?_, ?_⟩
    · refine List.pairwise_cons.mpr ⟨fun r hr => ?_, h.ascending⟩
      have hpq := hpiece.lt
      rcases List.mem_cons.mp hr with rfl | hr
      · exact hpq
      · exact Nat.lt_trans hpq ((List.pairwise_cons.mp h.ascending).1 r hr)
    · rw [List.getLast?_cons_cons, h.last]
    · intro i r r' d hr hr' hd
      cases i with
      | zero =>
        obtain rfl : p = r := by simpa using hr
        obtain rfl : q = r' := by simpa using hr'
        obtain rfl : c = d := by simpa using hd
        exact hpiece
      | succ i => exact h.pieces i r r' d hr hr' hd

/-- **A text has one segmentation.** -/
theorem Segments.unique (h : Segments low p text offsets) (h' : Segments low p text' offsets') :
    text' = text ∧ offsets' = offsets := by
  induction text generalizing p text' offsets offsets' with
  | nil =>
    obtain ⟨rfl, rfl⟩ := segments_nil_iff.mp h
    cases text' with
    | nil => exact ⟨rfl, (segments_nil_iff.mp h').1⟩
    | cons c text' =>
      obtain ⟨q, rest, -, hpiece, -⟩ := segments_cons_iff.mp h'
      exact absurd hpiece.lt (Nat.not_lt.mpr hpiece.le_length)
  | cons c text ih =>
    obtain ⟨q, rest, rfl, hpiece, hrest⟩ := segments_cons_iff.mp h
    cases text' with
    | nil =>
      obtain ⟨-, rfl⟩ := segments_nil_iff.mp h'
      exact absurd hpiece.lt (Nat.not_lt.mpr hpiece.le_length)
    | cons c' text' =>
      obtain ⟨q', rest', rfl, hpiece', hrest'⟩ := segments_cons_iff.mp h'
      obtain ⟨rfl, rfl⟩ := hpiece.unique hpiece'
      obtain ⟨rfl, rfl⟩ := ih hrest hrest'
      exact ⟨rfl, rfl⟩

/-! ## Offsets -/

theorem Segments.offset_end (h : Segments low p text offsets) :
    offsets[text.length]? = some low.length := by
  rw [← h.last, List.getLast?_eq_getElem?, h.length_offsets, Nat.add_sub_cancel]

/-- Every character stands for a piece that begins at its offset. -/
theorem Segments.exists_piece {i : Nat} (h : Segments low p text offsets) (hc : text[i]? = some c)
    (hq : offsets[i]? = some q) : ∃ r, offsets[i + 1]? = some r ∧ StandsFor low q r c := by
  have hi := (List.getElem?_eq_some_iff.mp hc).1
  have hr := List.getElem?_eq_getElem (l := offsets) (i := i + 1) (by rw [h.length_offsets]; omega)
  exact ⟨_, hr, h.pieces i q _ c hq hr hc⟩

theorem Segments.offset_le {i : Nat} (h : Segments low p text offsets) (hq : offsets[i]? = some q) :
    q ≤ low.length := by
  have hi := (List.getElem?_eq_some_iff.mp hq).1
  rw [h.length_offsets] at hi
  rcases Nat.lt_or_eq_of_le (Nat.le_of_lt_succ hi) with hlt | rfl
  · obtain ⟨r, -, hpiece⟩ := h.exists_piece (List.getElem?_eq_getElem hlt) hq
    exact Nat.le_trans (Nat.le_of_lt hpiece.lt) hpiece.le_length
  · obtain rfl := Option.some.inj (h.offset_end.symm.trans hq)
    exact Nat.le_refl _

theorem extract_eq_cons_iff {n k : Nat} {cs ds : List Char} :
    cs.extract n (n + (k + 1)) = c :: ds ↔ cs[n]? = some c ∧ cs.extract (n + 1) (n + 1 + k) = ds := by
  rw [List.extract_eq_take_drop, List.extract_eq_take_drop, Nat.add_sub_cancel_left,
    Nat.add_sub_cancel_left, ← List.drop_drop, ← List.head?_drop]
  cases cs.drop n <;> simp

/-- Only a single letter stands for a letter. -/
theorem StandsFor.of_isLetter (h : StandsFor low p q c) (hc : Text.isLetter c = true) :
    q = p + 1 ∧ low[p]? = some c := by
  cases h with
  | spelling s hs _ hsymbol =>
    rw [hsymbol, all_symbols s hs.mem] at hc
    cases hc
  | single hq hlow => exact ⟨hq, hlow⟩

/-- **A run of letters stands where its first letter does.** -/
theorem Segments.extract_of_letters {word : List Char} {n : Nat} (h : Segments low p text offsets)
    (hl : ∀ c ∈ word, Text.isLetter c = true) (hword : text.extract n (n + word.length) = word)
    (hq : offsets[n]? = some q) : low.extract q (q + word.length) = word := by
  induction word generalizing n q with
  | nil => simp [List.extract_eq_take_drop]
  | cons c word ih =>
    rw [List.length_cons, extract_eq_cons_iff] at hword
    obtain ⟨r, hr, hpiece⟩ := h.exists_piece hword.1 hq
    obtain ⟨rfl, hc⟩ := hpiece.of_isLetter (hl c List.mem_cons_self)
    rw [List.length_cons, extract_eq_cons_iff]
    exact ⟨hc, ih (fun a ha => hl a (List.mem_cons_of_mem c ha)) hword.2 hr⟩

/-! ## What a text is cut into -/

/-- The last character before an index that is moved on over some characters. -/
theorem getLast?_take_add {n : Nat} (hn : (low.drop p).take n ≠ []) :
    (low.take (p + n)).getLast? = ((low.drop p).take n).getLast? := by
  rw [List.take_add, List.getLast?_append, List.getLast?_eq_some_getLast hn, Option.some_or]

/-- **One step cuts one piece off**, and goes on behind it. -/
theorem exists_standsFor_of_cut {pieces : List Piece} (hp : p < low.length)
    (h : Piece.cut p (low.take p).getLast? (low.drop p) = .ok pieces) :
    ∃ q c tail, pieces = ⟨c, p⟩ :: tail ∧ StandsFor low p q c ∧
      (∀ s : Spelling, s.LongestIn low p → s.Spells (low.extract p (p + s.text.length))) ∧
        Piece.cut q (low.take q).getLast? (low.drop q) = .ok tail := by
  have hdrop : low.drop p = low[p] :: low.drop (p + 1) := List.drop_eq_getElem_cons hp
  cases hat : at? (low.take p).getLast? (low.drop p) with
  | none =>
    have hnone := at?_eq_none_iff.mp hat
    have hlast : (low.take (p + 1)).getLast? = some low[p] := by
      rw [getLast?_take_add (by rw [hdrop]; exact List.cons_ne_nil _ _), hdrop]
      rfl
    rw [hdrop] at hat h
    rw [Piece.cut_cons_of_none hat, ← hlast] at h
    obtain ⟨tail, htail, rfl⟩ := Outcome.map_eq_ok.mp h
    exact ⟨p + 1, low[p], tail, rfl, .single rfl (List.getElem?_eq_getElem hp) hnone,
      fun s hs => absurd hs.occurs (hnone s hs.mem), htail⟩
  | some s =>
    have hlongest := longestIn_of_at? hat
    have hle := hlongest.occurs.le_length hlongest.mem
    have hpos := List.length_pos_iff.mpr (text_ne_nil hlongest.mem)
    have hfound : (low.drop p).take s.text.length ≠ [] := by
      rw [← List.length_pos_iff, List.length_take, List.length_drop]
      omega
    have hextract : (low.drop p).take s.text.length = low.extract p (p + s.text.length) := by
      rw [List.extract_eq_take_drop, Nat.add_sub_cancel_left]
    have hstep := getLast?_take_add hfound
    rw [hdrop] at hat h
    obtain ⟨hspells, tail, rfl, htail⟩ := Piece.cut_cons_eq_ok hat h
    rw [← hdrop] at hspells htail
    rw [hextract] at hspells
    rw [← hstep, List.drop_drop] at htail
    exact ⟨p + s.text.length, s.symbol, tail, rfl, .spelling s hlongest rfl rfl,
      fun s' hs' => hs'.unique hlongest ▸ hspells, htail⟩

/-- **What a text is cut into is a segmentation.** -/
theorem segments_of_cut {pieces : List Piece} (hp : p ≤ low.length)
    (h : Piece.cut p (low.take p).getLast? (low.drop p) = .ok pieces) :
    Segments low p (pieces.map (·.char)) (pieces.map (·.start) ++ [low.length]) ∧
      SpelledOut low (pieces.map (·.start) ++ [low.length]) := by
  -- each piece takes at least one character, so the induction is on how many are left
  induction hm : low.length - p using Nat.strongRecOn generalizing p pieces with
  | ind m ih =>
    subst hm
    rcases Nat.eq_or_lt_of_le hp with rfl | hlt
    · rw [List.drop_length, Piece.cut] at h
      obtain rfl := Except.ok.inj h
      refine ⟨segments_nil_iff.mpr ⟨rfl, rfl⟩, fun q hq s hs => ?_⟩
      obtain rfl := List.mem_singleton.mp hq
      have hle := hs.occurs.le_length hs.mem
      have hpos := List.length_pos_iff.mpr (text_ne_nil hs.mem)
      omega
    · obtain ⟨q, c, tail, rfl, hpiece, hspells, htail⟩ := exists_standsFor_of_cut hlt h
      have hpq := hpiece.lt
      obtain ⟨hsegments, hspelled⟩ := ih (low.length - q) (by omega) hpiece.le_length htail rfl
      exact ⟨segments_cons_iff.mpr ⟨q, _, rfl, hpiece, hsegments⟩,
        List.forall_mem_cons.mpr ⟨hspells, hspelled⟩⟩

namespace Canonical

variable {caseSensitive : Bool} {canonical : Canonical}

theorem segments_of_ofText (h : ofText caseSensitive text = .ok canonical) :
    Segments (folded caseSensitive text) 0 canonical.text canonical.offsets ∧
      SpelledOut (folded caseSensitive text) canonical.offsets := by
  unfold ofText at h
  split at h
  · rename_i pieces hcut
    obtain rfl := Except.ok.inj h
    simp only
    rw [← length_folded caseSensitive text]
    exact segments_of_cut (Nat.zero_le _) hcut
  · cases h

/-- **The canonical text is the segmentation of the given text**, in lower case if case does not
matter, into the longest spellings from left to right and single characters. There is no other one,
and each spelling in it is the sign, or the word in any case of its ASCII letters. -/
theorem canonical_is_the_segmentation (h : ofText caseSensitive text = .ok canonical) :
    (folded caseSensitive text).length = text.length ∧
      Segments (folded caseSensitive text) 0 canonical.text canonical.offsets ∧
        SpelledOut (folded caseSensitive text) canonical.offsets ∧
          ∀ (text' : List Char) (offsets' : List Nat),
            Segments (folded caseSensitive text) 0 text' offsets' →
              text' = canonical.text ∧ offsets' = canonical.offsets := by
  obtain ⟨hsegments, hspelled⟩ := segments_of_ofText h
  exact ⟨length_folded caseSensitive text, hsegments, hspelled, fun _ _ h' => hsegments.unique h'⟩

/-- In `a&&! Or->b` the sign `&&` is not cut in two, `Or` is a word in upper case, and no blank is
needed. -/
theorem canonical_is_the_segmentation_signs :
    ofText false "a&&! Or->b".toList = .ok ⟨"a⋀¬ ⋁➔b".toList, [0, 1, 3, 4, 5, 7, 9, 10]⟩ ∧
      Segments "a&&! or->b".toList 0 "a⋀¬ ⋁➔b".toList [0, 1, 3, 4, 5, 7, 9, 10] := by
  have h : ofText false "a&&! Or->b".toList = .ok ⟨"a⋀¬ ⋁➔b".toList, [0, 1, 3, 4, 5, 7, 9, 10]⟩ := by
    decide +kernel
  have hfolded : folded false "a&&! Or->b".toList = "a&&! or->b".toList := by decide +kernel
  have hsegments := (canonical_is_the_segmentation h).2.1
  rw [hfolded] at hsegments
  exact ⟨h, hsegments⟩

end Canonical

end Propositional
