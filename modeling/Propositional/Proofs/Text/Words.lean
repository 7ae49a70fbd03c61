import Propositional.Proofs.Token.Scan

/-!
# The words of a text

The words of a text are its runs of letters, each as long as it can be. They are what names and
constants are made of, and the only places where a connective can be spelled by a word.

* `words_append`: a word at the front of a text, in front of anything but a letter.
* `words_induction`: what is built up from the end, by words and by other characters, is any text.
* `text_mem_words`: every name or constant that a scan finds is a word of the text.
-/

namespace Propositional

namespace Text

variable {c : Char} {cs ds word rest : List Char}

/-- The runs of letters in a text, in order. -/
def words (cs : List Char) : List (List Char) :=
  match cs with
  | [] => []
  | c :: rest =>
    if isLetter c then (c :: rest.takeWhile isLetter) :: words (rest.dropWhile isLetter)
    else words rest
termination_by cs.length
decreasing_by
  · exact Nat.lt_succ_of_le (rest.dropWhile_sublist isLetter).length_le
  · exact Nat.lt_succ_self _

theorem words_cons_of_not_letter (hc : isLetter c = false) : words (c :: cs) = words cs := by
  rw [words, hc]
  rfl

/-- Between words nothing counts. -/
theorem words_append_of_no_letter (h : ∀ c ∈ ds, isLetter c = false) :
    words (ds ++ cs) = words cs := by
  induction ds with
  | nil => rfl
  | cons d ds ih =>
    rw [List.cons_append, words_cons_of_not_letter (h d List.mem_cons_self),
      ih fun c hc => h c (List.mem_cons_of_mem d hc)]

/-- A run of letters is one word if no letter follows it. -/
theorem words_append (hne : word ≠ []) (hl : ∀ c ∈ word, isLetter c = true)
    (hrest : rest.takeWhile isLetter = []) : words (word ++ rest) = word :: words rest := by
  cases word with
  | nil => exact absurd rfl hne
  | cons c cs =>
    have hc : isLetter c = true := hl c List.mem_cons_self
    have hcs : ∀ a ∈ cs, isLetter a = true := fun a ha => hl a (List.mem_cons_of_mem c ha)
    rw [List.cons_append, words, if_pos hc, takeWhile_append hcs hrest, dropWhile_append hcs hrest]

theorem mem_of_mem_words (h : word ∈ words cs) : ∀ c ∈ word, c ∈ cs ∧ isLetter c = true := by
  fun_induction words cs with
  | case1 => cases h
  | case2 c rest hc ih =>
    rcases List.mem_cons.mp h with rfl | h
    · intro a ha
      rcases List.mem_cons.mp ha with rfl | ha
      · exact ⟨List.mem_cons_self, hc⟩
      · exact ⟨List.mem_cons_of_mem c ((rest.takeWhile_sublist isLetter).subset ha),
          List.all_eq_true.mp List.all_takeWhile a ha⟩
    · intro a ha
      have hrest := (rest.dropWhile_sublist isLetter).subset (ih h a ha).1
      exact ⟨List.mem_cons_of_mem c hrest, (ih h a ha).2⟩
  | case3 c rest hc ih =>
    intro a ha
    exact ⟨List.mem_cons_of_mem c (ih h a ha).1, (ih h a ha).2⟩

/-- **Every text is a word or another character in front of a text.** What may be assumed of the
texts behind another character is more than of those behind a word, which is taken whole. -/
theorem words_induction {P : List Char → Prop} (nil : P [])
    (word : ∀ word rest : List Char, word ≠ [] → (∀ c ∈ word, isLetter c = true) →
      rest.takeWhile isLetter = [] → P rest → P (word ++ rest))
    (other : ∀ (c : Char) (rest : List Char), isLetter c = false →
      (∀ post : List Char, post.length < (c :: rest).length → P post) → P (c :: rest))
    (cs : List Char) : P cs := by
  induction hm : cs.length using Nat.strongRecOn generalizing cs with
  | ind m ih =>
    subst hm
    cases cs with
    | nil => exact nil
    | cons c rest =>
      cases hc : isLetter c with
      | false => exact other c rest hc fun post hless => ih _ hless post rfl
      | true =>
        have hsplit := List.takeWhile_append_dropWhile (p := isLetter) (l := c :: rest)
        have hne : (c :: rest).takeWhile isLetter ≠ [] := by simp [List.takeWhile_cons_of_pos hc]
        have hless : ((c :: rest).dropWhile isLetter).length < (c :: rest).length := by
          have := List.length_pos_iff.mpr hne
          have := congrArg List.length hsplit
          rw [List.length_append] at this
          omega
        rw [← hsplit]
        exact word _ _ hne (List.all_eq_true.mp List.all_takeWhile) (takeWhile_dropWhile _ _)
          (ih _ hless _ rfl)

end Text

namespace Token

open Text

/-- **A name that is found is a word of the text.** -/
theorem text_mem_words {n : Nat} {cs : List Char} {t : Token} (ht : t ∈ scanFrom n cs)
    (hk : t.kind = .name) : t.text ∈ words cs := by
  have hscans := scans_scanFrom n cs
  generalize scanFrom n cs = ts at hscans ht
  induction hscans with
  | nil n => cases ht
  | separator hs _ ih =>
    rw [words_cons_of_not_letter (isLetter_of_isBlank (isBlank_of_isSeparator hs))]
    exact ih ht
  | word hne hl hrest _ ih =>
    rw [words_append hne hl hrest]
    rcases List.mem_cons.mp ht with rfl | ht
    · exact List.mem_cons_self
    · exact List.mem_cons_of_mem _ (ih ht)
  | symbol hs hl _ ih =>
    rw [words_cons_of_not_letter hl]
    rcases List.mem_cons.mp ht with rfl | ht
    · exact absurd hk (symbolKind_ne_name _)
    · exact ih ht

end Token

end Propositional
