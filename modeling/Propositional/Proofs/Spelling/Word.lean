import Propositional.Proofs.Token.Scan
import Propositional.Spelling.Canonical

/-!
# Words that spell a connective

A word of the table counts only where no letter stands beside it, and it consists of letters. So it
is found exactly where a run of letters begins that the word spells as a whole, and the other
spellings are found only where no letter stands.

* `occursAt_word_iff`: a word occurs exactly if it spells the whole run of letters that begins.
* `Reserved`: a run of letters that is read as a connective, and so can be no name.
* `reserved_of_at?`, `not_reserved_of_at?`: at the start of a run of letters something is found
  exactly if the run is reserved, and then it is the whole run; inside a run nothing is found.
* `prefix_of_at?`: where no letter stands only a sign is found.
-/

namespace Propositional.Spelling

open Text

variable {s : Spelling} {before : Option Char} {c letter : Char} {cs rest word letters : List Char}

/-! ## The table -/

theorem all_words (s : Spelling) (hs : s ∈ all) (hw : s.isWord = true) :
    s.text ≠ [] ∧ ∀ c ∈ s.text, c.toNat < 128 ∧ c.isAlpha = true := by
  have hcheck : ∀ s ∈ all, s.isWord = true →
      s.text ≠ [] ∧ (s.text.all fun c => c.toNat < 128 && c.isAlpha) = true := by decide
  obtain ⟨hne, htext⟩ := hcheck s hs hw
  exact ⟨hne, fun c hc => by simpa using List.all_eq_true.mp htext c hc⟩

theorem all_signs (s : Spelling) (hs : s ∈ all) (hw : s.isWord = false) :
    s.text ≠ [] ∧ ∀ c ∈ s.text, isLetter c = false := by
  have hcheck : ∀ s ∈ all, s.isWord = false →
      s.text ≠ [] ∧ (s.text.all fun c => !isLetter c) = true := by decide +kernel
  obtain ⟨hne, htext⟩ := hcheck s hs hw
  exact ⟨hne, fun c hc => by simpa using List.all_eq_true.mp htext c hc⟩

/-- Every spelling stands for one of four symbols. -/
theorem symbol_eq (s : Spelling) (hs : s ∈ all) :
    s.symbol = negationSymbol ∨ ∃ op : Connective, s.symbol = op.symbol := by
  have hcheck : ∀ s ∈ all, s.symbol = negationSymbol ∨ s.symbol = Connective.and.symbol ∨
      s.symbol = Connective.or.symbol ∨ s.symbol = Connective.implies.symbol := by decide
  rcases hcheck s hs with h | h | h | h
  · exact Or.inl h
  · exact Or.inr ⟨_, h⟩
  · exact Or.inr ⟨_, h⟩
  · exact Or.inr ⟨_, h⟩

theorem all_symbols (s : Spelling) (hs : s ∈ all) : isLetter s.symbol = false := by
  have hneg : isLetter negationSymbol = false := by decide
  have hop (op : Connective) : isLetter op.symbol = false := by cases op <;> decide +kernel
  rcases symbol_eq s hs with h | ⟨op, h⟩
  · rw [h]
    exact hneg
  · rw [h]
    exact hop op

/-- The symbols have no case. -/
theorem lower_negationSymbol : lower negationSymbol = negationSymbol := by decide

theorem lower_connectiveSymbol (op : Connective) : lower op.symbol = op.symbol := by
  cases op <;> decide

theorem text_ne_nil (hs : s ∈ all) : s.text ≠ [] := by
  cases hw : s.isWord with
  | true => exact (all_words s hs hw).1
  | false => exact (all_signs s hs hw).1

/-! ## Runs of letters -/

/-- A character that stands for a letter is a letter. -/
theorem isLetter_of_readsAs (hascii : letter.toNat < 128) (halpha : letter.isAlpha = true)
    (h : readsAs letter c = true) : isLetter c = true := by
  simp only [readsAs, Bool.or_eq_true, Bool.and_eq_true, beq_iff_eq] at h
  rcases h with (h | ⟨-, rfl | rfl⟩) | ⟨-, rfl⟩
  · by_cases hc : c.toNat < 128
    · have hall : ∀ n < 128, (Char.ofNat n).toLower.isAlpha = true →
          isLetter (Char.ofNat n) = true := by decide
      have hletter : c.toLower.isAlpha = true → isLetter c = true := of_code c hc hall
      exact hletter (h ▸ halpha)
    · rw [toLower_of_not_ascii (Nat.le_of_not_lt hc)] at h
      exact absurd (h ▸ hascii) hc
  · decide
  · decide
  · decide

/-- What has ASCII letters as its lower case consists of ASCII letters. -/
theorem letters_of_map_toLower (hletters : ∀ c ∈ letters, c.toNat < 128 ∧ c.isAlpha = true)
    (h : cs.map Char.toLower = letters) : ∀ c ∈ cs, c.toNat < 128 ∧ isLetter c = true := by
  intro c hc
  obtain ⟨hascii, halpha⟩ := hletters c.toLower (h ▸ List.mem_map_of_mem hc)
  refine ⟨?_, isLetter_of_readsAs hascii halpha (by simp [readsAs])⟩
  by_cases hlow : c.toNat < 128
  · exact hlow
  · rwa [toLower_of_not_ascii (Nat.le_of_not_lt hlow)] at hascii

/-- Only the letters at the start of a text matter for a word. -/
theorem beginsWithWord_takeWhile (hletters : ∀ c ∈ letters, c.toNat < 128 ∧ c.isAlpha = true)
    (cs : List Char) :
    beginsWithWord letters (cs.takeWhile isLetter) = beginsWithWord letters cs := by
  induction letters generalizing cs with
  | nil => rfl
  | cons letter letters ih =>
    cases cs with
    | nil => rfl
    | cons c cs =>
      obtain ⟨hascii, halpha⟩ := hletters letter List.mem_cons_self
      cases hc : isLetter c with
      | true =>
        rw [List.takeWhile_cons_of_pos hc, beginsWithWord, beginsWithWord,
          ih (fun c hc => hletters c (List.mem_cons_of_mem letter hc))]
      | false =>
        have hreads : readsAs letter c = false := by
          rw [← Bool.not_eq_true]
          exact fun h => by simp [isLetter_of_readsAs hascii halpha h] at hc
        have hlong : beginsWithWord (letter :: letters) (c :: cs) = false := by
          rw [beginsWithWord, hreads, Bool.false_and]
        rw [hlong, List.takeWhile_cons_of_neg (by simp [hc])]
        rfl

/-- A word that is not cut short by a letter is a whole run of letters. -/
theorem length_takeWhile_of_beginsWithWord
    (hletters : ∀ c ∈ letters, c.toNat < 128 ∧ c.isAlpha = true)
    (h : beginsWithWord letters cs = true)
    (hend : (cs.drop letters.length).head?.any isLetter = false) :
    (cs.takeWhile isLetter).length = letters.length := by
  induction letters generalizing cs with
  | nil =>
    cases cs with
    | nil => rfl
    | cons c cs =>
      have hc : isLetter c = false := hend
      rw [List.takeWhile_cons_of_neg (by simp [hc]), List.length_nil]
  | cons letter letters ih =>
    cases cs with
    | nil => cases h
    | cons c cs =>
      simp only [beginsWithWord, Bool.and_eq_true] at h
      obtain ⟨hascii, halpha⟩ := hletters letter List.mem_cons_self
      rw [List.takeWhile_cons_of_pos (isLetter_of_readsAs hascii halpha h.1), List.length_cons,
        ih (fun c hc => hletters c (List.mem_cons_of_mem letter hc)) h.2 hend, List.length_cons]

theorem drop_length_takeWhile (p : Char → Bool) (cs : List Char) :
    cs.drop (cs.takeWhile p).length = cs.dropWhile p := by
  conv => lhs; arg 2; rw [← List.takeWhile_append_dropWhile (p := p) (l := cs)]
  rw [List.drop_left]

theorem head?_dropWhile_isLetter (cs : List Char) :
    (cs.dropWhile isLetter).head?.any isLetter = false := by
  have h := List.head?_dropWhile_not isLetter cs
  cases hcs : (cs.dropWhile isLetter).head? with
  | none => rfl
  | some c => simpa [hcs] using h

/-- **A word is found exactly if it spells the whole run of letters that begins.** -/
theorem occursAt_word_iff (hs : s ∈ all) (hw : s.isWord = true) :
    s.occursAt before cs = true ↔
      before.any isLetter = false ∧ s.text.length = (cs.takeWhile isLetter).length ∧
        beginsWithWord s.text (cs.takeWhile isLetter) = true := by
  have hletters := (all_words s hs hw).2
  rw [beginsWithWord_takeWhile hletters]
  simp only [occursAt, hw, if_true, Bool.and_eq_true, Bool.not_eq_true']
  constructor
  · rintro ⟨⟨hbefore, hbegins⟩, hend⟩
    exact ⟨hbefore, (length_takeWhile_of_beginsWithWord hletters hbegins hend).symm, hbegins⟩
  · rintro ⟨hbefore, hlength, hbegins⟩
    refine ⟨⟨hbefore, hbegins⟩, ?_⟩
    rw [hlength, drop_length_takeWhile]
    exact head?_dropWhile_isLetter cs

/-! ## What is found at a letter -/

/-- A run of letters that is read as a connective. -/
def Reserved (word : List Char) : Prop :=
  ∃ s ∈ all, s.isWord = true ∧ s.text.length = word.length ∧ beginsWithWord s.text word = true

instance : DecidablePred Reserved := fun word =>
  inferInstanceAs (Decidable (∃ s ∈ all, s.isWord = true ∧ s.text.length = word.length ∧
    beginsWithWord s.text word = true))

theorem mem_all_of_at? (h : at? before cs = some s) : s ∈ all := List.mem_of_find?_eq_some h

theorem occursAt_of_at? (h : at? before cs = some s) : s.occursAt before cs = true := by
  have := List.find?_some h
  exact this

/-- A sign begins with no letter. -/
theorem occursAt_sign_of_letter (hs : s ∈ all) (hw : s.isWord = false) (hc : isLetter c = true) :
    s.occursAt before (c :: rest) = false := by
  obtain ⟨hne, htext⟩ := all_signs s hs hw
  simp only [occursAt, hw, Bool.false_eq_true, if_false]
  cases ht : s.text with
  | nil => exact absurd ht hne
  | cons d ds =>
    have hd : isLetter d = false := htext d (by simp [ht])
    have hdc : d ≠ c := by
      rintro rfl
      rw [hc] at hd
      cases hd
    rw [List.isPrefixOf_cons_cons, beq_eq_false_iff_ne.mpr hdc, Bool.false_and]

theorem isWord_of_at?_letter (hc : isLetter c = true) (h : at? before (c :: rest) = some s) :
    s.isWord = true := by
  rw [← Bool.not_eq_false]
  intro hw
  have hno := @occursAt_sign_of_letter s before c rest (mem_all_of_at? h) hw hc
  rw [occursAt_of_at? h] at hno
  cases hno

/-- **What is found at a letter is the whole run of letters**, and no letter stands before it. -/
theorem reserved_of_at? (hc : isLetter c = true) (h : at? before (c :: rest) = some s) :
    before.any isLetter = false ∧ s.text.length = ((c :: rest).takeWhile isLetter).length ∧
      Reserved ((c :: rest).takeWhile isLetter) := by
  have hw := isWord_of_at?_letter hc h
  have hs := mem_all_of_at? h
  obtain ⟨hbefore, hlength, hbegins⟩ := (occursAt_word_iff hs hw).mp (occursAt_of_at? h)
  exact ⟨hbefore, hlength, s, hs, hw, hlength, hbegins⟩

/-- Inside a run of letters nothing is found. -/
theorem at?_of_letter_before (hbefore : before.any isLetter = true) (hc : isLetter c = true) :
    at? before (c :: rest) = none := by
  cases h : at? before (c :: rest) with
  | none => rfl
  | some s =>
    rw [(reserved_of_at? hc h).1] at hbefore
    cases hbefore

theorem not_reserved_of_at? (hbefore : before.any isLetter = false)
    (h : at? before (c :: rest) = none) : ¬Reserved ((c :: rest).takeWhile isLetter) := by
  rintro ⟨s, hs, hw, hlength, hbegins⟩
  have hno := List.find?_eq_none.mp h s hs
  exact hno ((occursAt_word_iff hs hw).mpr ⟨hbefore, hlength, hbegins⟩)

/-! ## What is found elsewhere -/

/-- **Where no letter stands only a sign is found.** -/
theorem prefix_of_at? (hc : isLetter c = false) (h : at? before (c :: rest) = some s) :
    s.isWord = false ∧ s.text <+: c :: rest := by
  have hs := mem_all_of_at? h
  have hoccurs := occursAt_of_at? h
  have hw : s.isWord = false := by
    rw [← Bool.not_eq_true]
    intro hw
    obtain ⟨-, hlength, -⟩ := (occursAt_word_iff hs hw).mp hoccurs
    rw [List.takeWhile_cons_of_neg (by simp [hc])] at hlength
    exact text_ne_nil hs (List.length_eq_zero_iff.mp hlength)
  simp only [occursAt, hw, Bool.false_eq_true, if_false] at hoccurs
  exact ⟨hw, List.isPrefixOf_iff_prefix.mp hoccurs⟩

end Propositional.Spelling
