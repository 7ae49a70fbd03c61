import Propositional.Proofs.Spelling.Word

/-!
# Where a spelling stands in a text

A sign stands where its characters stand. A word stands where its letters do, in any case, if no
letter touches it. Where one spelling stands there may be a longer one too; the first that is found
is the longest, because the table begins with the longer ones.

* `Spells`, `Reads`: the characters that are a spelling, up to the case of ASCII letters, and those
  that are read as one. `reserved_iff` says that words are reserved for being read.
* `OccursIn`, `LongestIn`: the spelling, or the longest one, that stands in a text at an index. By
  `LongestIn.unique` the latter is one spelling.
* `at?_eq_none_iff`, `longestIn_of_at?`: what is found at an index.
* `symbolOf?_of_spells`, `symbolOf?_of_not_spells`: what was found is looked up in the table. It is
  there unless a letter beyond ASCII was taken for an ASCII one.
* `exists_at?_of_reserved`, `at?_of_word`, `at?_of_sign`: a spelling that was put into a text is
  found in it, if no letter touches the word, or the sign is not doubled by what follows it.
-/

namespace Propositional.Spelling

open Text

variable {s s' : Spelling} {before : Option Char} {low cs rest word letters : List Char} {p : Nat}
  {c letter : Char}

/-- The lower-case letter for which `c` can stand in a word. -/
def caseless (c : Char) : Char :=
  if c = 'İ' ∨ c = 'ı' then 'i' else if c = 'ſ' then 's' else c.toLower

/-- `cs` is read as the spelling: it is the sign, or the word if case is ignored. -/
def Reads (s : Spelling) (cs : List Char) : Prop :=
  if s.isWord then cs.map caseless = s.text else cs = s.text

/-- `cs` is the spelling: the sign, or the word in any case of its ASCII letters. -/
def Spells (s : Spelling) (cs : List Char) : Prop :=
  if s.isWord then cs.map Char.toLower = s.text else cs = s.text

instance (s : Spelling) : DecidablePred s.Spells := fun cs =>
  inferInstanceAs (Decidable (if s.isWord then cs.map Char.toLower = s.text else cs = s.text))

theorem reads_word (hw : s.isWord = true) : s.Reads cs ↔ cs.map caseless = s.text := by
  rw [Reads, if_pos hw]

theorem reads_sign (hw : s.isWord = false) : s.Reads cs ↔ cs = s.text := by
  rw [Reads, if_neg (Bool.not_eq_true _ ▸ hw)]

theorem spells_word (hw : s.isWord = true) : s.Spells cs ↔ cs.map Char.toLower = s.text := by
  rw [Spells, if_pos hw]

theorem spells_sign (hw : s.isWord = false) : s.Spells cs ↔ cs = s.text := by
  rw [Spells, if_neg (Bool.not_eq_true _ ▸ hw)]

/-- The spelling stands in `low` from the index `p` on, and if it is a word no letter touches it. -/
structure OccursIn (s : Spelling) (low : List Char) (p : Nat) : Prop where
  reads : s.Reads (low.extract p (p + s.text.length))
  untouched : s.isWord = true →
    (low.take p).getLast?.any isLetter = false ∧ low[p + s.text.length]?.any isLetter = false

/-- The longest spelling that stands in `low` from the index `p` on. -/
structure LongestIn (s : Spelling) (low : List Char) (p : Nat) : Prop where
  mem : s ∈ all
  occurs : s.OccursIn low p
  longest : ∀ s' ∈ all, s'.OccursIn low p → s'.text.length ≤ s.text.length

/-! ## Case -/

theorem readsAs_iff (hascii : letter.toNat < 128) : readsAs letter c = true ↔ caseless c = letter := by
  have hspecial : 'İ'.toLower = 'İ' ∧ 'ı'.toLower = 'ı' ∧ 'ſ'.toLower = 'ſ' := by decide
  have hne : 'İ' ≠ letter ∧ 'ı' ≠ letter ∧ 'ſ' ≠ letter := by
    refine ⟨?_, ?_, ?_⟩ <;> rintro rfl <;> exact absurd hascii (by decide)
  simp only [readsAs, caseless, Bool.or_eq_true, Bool.and_eq_true, beq_iff_eq]
  by_cases hi : c = 'İ' ∨ c = 'ı'
  · rw [if_pos hi]
    have hs : c ≠ 'ſ' := by rcases hi with rfl | rfl <;> decide
    have hlower : c.toLower ≠ letter := by
      rcases hi with rfl | rfl
      · rw [hspecial.1]; exact hne.1
      · rw [hspecial.2.1]; exact hne.2.1
    simp [hi, hs, hlower, eq_comm]
  · rw [if_neg hi]
    by_cases hs : c = 'ſ'
    · subst hs
      simp [hspecial.2.2, hne.2.2, eq_comm]
    · simp [hi, hs]

theorem beginsWithWord_iff (hascii : ∀ c ∈ letters, c.toNat < 128) :
    beginsWithWord letters cs = true ↔ (cs.take letters.length).map caseless = letters := by
  induction letters generalizing cs with
  | nil => simp [beginsWithWord]
  | cons letter letters ih =>
    cases cs with
    | nil => simp [beginsWithWord]
    | cons c cs =>
      rw [beginsWithWord, Bool.and_eq_true, readsAs_iff (hascii letter List.mem_cons_self),
        ih fun c hc => hascii c (List.mem_cons_of_mem letter hc), List.length_cons,
        List.take_succ_cons, List.map_cons, List.cons.injEq]

/-- What is read as a spelling is the spelling if case is ignored. -/
theorem Reads.map_caseless (hs : s ∈ all) (h : s.Reads cs) : cs.map caseless = s.text := by
  have hsigns : ∀ s ∈ all, s.isWord = false → s.text.map caseless = s.text := by decide
  unfold Reads at h
  split at h
  · exact h
  · rename_i hw
    rw [h]
    exact hsigns s hs (by simpa using hw)

theorem Reads.length_eq (hs : s ∈ all) (h : s.Reads cs) : cs.length = s.text.length := by
  rw [← h.map_caseless hs, List.length_map]

/-- **The same characters are read as one spelling only.** -/
theorem Reads.unique (hs : s ∈ all) (hs' : s' ∈ all) (h : s.Reads cs) (h' : s'.Reads cs) : s = s' := by
  have hdistinct : ∀ s ∈ all, ∀ s' ∈ all, s.text = s'.text → s = s' := by decide
  exact hdistinct s hs s' hs' ((h.map_caseless hs).symm.trans (h'.map_caseless hs'))

/-! ## What is found at an index -/

theorem occursAt_iff_reads (hs : s ∈ all) :
    s.occursAt before cs = true ↔
      s.Reads (cs.take s.text.length) ∧
        (s.isWord = true →
          before.any isLetter = false ∧ cs[s.text.length]?.any isLetter = false) := by
  cases hw : s.isWord with
  | true =>
    have hascii : ∀ c ∈ s.text, c.toNat < 128 := fun c hc => ((all_words s hs hw).2 c hc).1
    simp only [occursAt, Reads, hw, if_true, Bool.and_eq_true, Bool.not_eq_true',
      beginsWithWord_iff hascii, List.head?_drop, true_imp_iff]
    constructor
    · rintro ⟨⟨hbefore, hreads⟩, hafter⟩
      exact ⟨hreads, hbefore, hafter⟩
    · rintro ⟨hreads, hbefore, hafter⟩
      exact ⟨⟨hbefore, hreads⟩, hafter⟩
  | false =>
    simp only [occursAt, Reads, hw, Bool.false_eq_true, if_false, List.isPrefixOf_iff_prefix,
      List.prefix_iff_eq_take, false_imp_iff, and_true]
    exact eq_comm

theorem occursAt_iff (hs : s ∈ all) :
    s.occursAt (low.take p).getLast? (low.drop p) = true ↔ s.OccursIn low p := by
  have hextract : low.extract p (p + s.text.length) = (low.drop p).take s.text.length := by
    rw [List.extract_eq_take_drop, Nat.add_sub_cancel_left]
  rw [occursAt_iff_reads hs, ← hextract, List.getElem?_drop]
  exact ⟨fun ⟨hreads, hfree⟩ => ⟨hreads, hfree⟩, fun ⟨hreads, hfree⟩ => ⟨hreads, hfree⟩⟩

theorem reads_of_at? (h : at? before cs = some s) : s.Reads (cs.take s.text.length) :=
  ((occursAt_iff_reads (mem_all_of_at? h)).mp (occursAt_of_at? h)).1

/-- Nothing is found exactly where no spelling stands. -/
theorem at?_eq_none_iff :
    at? (low.take p).getLast? (low.drop p) = none ↔ ∀ s ∈ all, ¬s.OccursIn low p := by
  rw [at?, List.find?_eq_none]
  exact forall₂_congr fun s hs => not_congr (occursAt_iff hs)

/-- No spelling that stands where one is found is longer than that. -/
theorem length_le_of_at? (h : at? before cs = some s) (hs' : s' ∈ all)
    (hoccurs : s'.occursAt before cs = true) : s'.text.length ≤ s.text.length := by
  have hsorted : all.Pairwise fun s s' => s'.text.length ≤ s.text.length := by decide
  obtain ⟨-, earlier, later, hall, hfirst⟩ := List.find?_eq_some_iff_append.mp h
  rw [hall] at hs' hsorted
  rcases List.mem_append.mp hs' with hmem | hmem
  · -- what stands before it in the table does not occur
    have hno := hfirst s' hmem
    rw [hoccurs] at hno
    cases hno
  · rcases List.mem_cons.mp hmem with rfl | hmem
    · exact Nat.le_refl _
    · exact (List.pairwise_cons.mp (List.pairwise_append.mp hsorted).2.1).1 s' hmem

/-- **What is found is the longest spelling.** -/
theorem longestIn_of_at? (h : at? (low.take p).getLast? (low.drop p) = some s) :
    s.LongestIn low p :=
  ⟨mem_all_of_at? h, (occursAt_iff (mem_all_of_at? h)).mp (occursAt_of_at? h),
    fun _ hs' hoccurs => length_le_of_at? h hs' ((occursAt_iff hs').mpr hoccurs)⟩

/-- At an index there is one longest spelling at most. -/
theorem LongestIn.unique (h : s.LongestIn low p) (h' : s'.LongestIn low p) : s = s' := by
  have hlength : s.text.length = s'.text.length :=
    Nat.le_antisymm (h'.longest s h.mem h.occurs) (h.longest s' h'.mem h'.occurs)
  have hreads := h'.occurs.reads
  rw [← hlength] at hreads
  exact h.occurs.reads.unique h.mem h'.mem hreads

/-- A spelling does not reach beyond the text. -/
theorem OccursIn.le_length (hs : s ∈ all) (h : s.OccursIn low p) :
    p + s.text.length ≤ low.length := by
  have hlength := h.reads.length_eq hs
  have hpos := List.length_pos_iff.mpr (text_ne_nil hs)
  rw [List.extract_eq_take_drop, List.length_take, List.length_drop] at hlength
  omega

/-! ## The symbol of what was found -/

theorem symbolOf?_text : ∀ s ∈ all, symbolOf? s.text = some s.symbol := by decide

theorem caseless_of_ascii (hc : c.toNat < 128) : caseless c = c.toLower := by
  have hne : ¬(c = 'İ' ∨ c = 'ı') ∧ c ≠ 'ſ' := by
    refine ⟨?_, ?_⟩
    · rintro (rfl | rfl) <;> exact absurd hc (by decide)
    · rintro rfl
      exact absurd hc (by decide)
  rw [caseless, if_neg hne.1, if_neg hne.2]

theorem map_caseless_of_ascii (hcs : ∀ c ∈ cs, c.toNat < 128) :
    cs.map caseless = cs.map Char.toLower :=
  List.map_congr_left fun c hc => caseless_of_ascii (hcs c hc)

theorem flatMap_lowerFull_of_ascii (hcs : ∀ c ∈ cs, c.toNat < 128) :
    cs.flatMap lowerFull = cs.map Char.toLower := by
  induction cs with
  | nil => rfl
  | cons c cs ih =>
    rw [List.flatMap_cons, lowerFull_of_ascii (hcs c List.mem_cons_self),
      ih fun a ha => hcs a (List.mem_cons_of_mem c ha), List.map_cons, List.singleton_append]

/-- A word is spelled in ASCII letters. -/
theorem Spells.letters_of_mem (hs : s ∈ all) (hw : s.isWord = true) (h : s.Spells cs) :
    ∀ c ∈ cs, c.toNat < 128 ∧ isLetter c = true := by
  rw [spells_word hw] at h
  exact letters_of_map_toLower (all_words s hs hw).2 h

theorem Spells.ascii (hs : s ∈ all) (hw : s.isWord = true) (h : s.Spells cs) :
    ∀ c ∈ cs, c.toNat < 128 :=
  fun c hc => (h.letters_of_mem hs hw c hc).1

theorem Spells.reads (hs : s ∈ all) (h : s.Spells cs) : s.Reads cs := by
  cases hw : s.isWord with
  | true =>
    have hascii := h.ascii hs hw
    rw [reads_word hw, map_caseless_of_ascii hascii]
    exact (spells_word hw).mp h
  | false => exact (reads_sign hw).mpr ((spells_sign hw).mp h)

/-- **A spelling is looked up as itself.** -/
theorem symbolOf?_of_spells (hs : s ∈ all) (h : s.Spells cs) :
    symbolOf? (cs.flatMap lowerFull) = some s.symbol := by
  cases hw : s.isWord with
  | true =>
    rw [flatMap_lowerFull_of_ascii (h.ascii hs hw), (spells_word hw).mp h, symbolOf?_text s hs]
  | false =>
    have hlower : ∀ s ∈ all, s.isWord = false → s.text.flatMap lowerFull = s.text := by
      decide
    rw [(spells_sign hw).mp h, hlower s hs hw, symbolOf?_text s hs]

/-- Beyond ASCII three characters stand for a letter of a word. -/
theorem eq_special_of_caseless (hc : 128 ≤ c.toNat) (h : (caseless c).toNat < 128) :
    c = 'İ' ∨ c = 'ı' ∨ c = 'ſ' := by
  unfold caseless at h
  split at h
  · rename_i hi
    rcases hi with rfl | rfl <;> simp
  · split at h
    · rename_i hs
      simp [hs]
    · rw [toLower_of_not_ascii hc] at h
      omega

/-- What is read as a spelling and is none has a letter that stands for an ASCII one. -/
theorem Reads.exists_special (hs : s ∈ all) (h : s.Reads cs) (hno : ¬s.Spells cs) :
    ∃ c ∈ cs, c = 'İ' ∨ c = 'ı' ∨ c = 'ſ' := by
  have hw : s.isWord = true := by
    rw [← Bool.not_eq_false]
    exact fun hw => hno ((spells_sign hw).mpr ((reads_sign hw).mp h))
  have hbeyond : ∃ c ∈ cs, 128 ≤ c.toNat := by
    refine Decidable.byContradiction fun hnone => hno ?_
    have hascii (c : Char) (hc : c ∈ cs) : c.toNat < 128 :=
      Nat.lt_of_not_le fun hbeyond => hnone ⟨c, hc, hbeyond⟩
    rw [reads_word hw, map_caseless_of_ascii hascii] at h
    exact (spells_word hw).mpr h
  obtain ⟨c, hc, hbeyond⟩ := hbeyond
  have hletter : (caseless c).toNat < 128 :=
    ((all_words s hs hw).2 _ (h.map_caseless hs ▸ List.mem_map_of_mem hc)).1
  exact ⟨c, hc, eq_special_of_caseless hbeyond hletter⟩

/-- What is left in lower case of a letter that was taken for an ASCII one. -/
def isTrace (c : Char) : Bool := c == '\u0307' || c == 'ı' || c == 'ſ'

theorem any_isTrace_lowerFull (h : c = 'İ' ∨ c = 'ı' ∨ c = 'ſ') :
    (lowerFull c).any isTrace = true := by
  rcases h with rfl | rfl | rfl <;> decide

theorem any_isTrace_text : ∀ s ∈ all, s.text.any isTrace = false := by decide

/-- **What is read as a spelling and is none is not in the table.** -/
theorem symbolOf?_of_not_spells (hs : s ∈ all) (h : s.Reads cs) (hno : ¬s.Spells cs) :
    symbolOf? (cs.flatMap lowerFull) = none := by
  obtain ⟨c, hc, hspecial⟩ := h.exists_special hs hno
  have htrace : (cs.flatMap lowerFull).any isTrace = true := by
    rw [List.any_flatMap]
    exact List.any_eq_true.mpr ⟨c, hc, any_isTrace_lowerFull hspecial⟩
  rw [symbolOf?, Option.map_eq_none_iff, List.find?_eq_none]
  intro s' hs' heq
  have htext : s'.text = cs.flatMap lowerFull := by simpa using heq
  rw [← htext, any_isTrace_text s' hs'] at htrace
  cases htrace

/-! ## Words that are reserved -/

theorem reserved_iff : Reserved cs ↔ ∃ s ∈ all, s.isWord = true ∧ s.Reads cs := by
  constructor
  · rintro ⟨s, hs, hw, hlength, hbegins⟩
    refine ⟨s, hs, hw, ?_⟩
    rw [beginsWithWord_iff fun c hc => ((all_words s hs hw).2 c hc).1, hlength,
      List.take_length] at hbegins
    rwa [reads_word hw]
  · rintro ⟨s, hs, hw, hreads⟩
    have hlength := hreads.length_eq hs
    refine ⟨s, hs, hw, hlength.symm, ?_⟩
    rw [beginsWithWord_iff fun c hc => ((all_words s hs hw).2 c hc).1, ← hlength, List.take_length]
    rwa [reads_word hw] at hreads

/-! ## Spellings that are found -/

theorem Spells.ne_nil (hs : s ∈ all) (h : s.Spells cs) : cs ≠ [] := by
  have hlength := (h.reads hs).length_eq hs
  rintro rfl
  exact text_ne_nil hs (List.length_eq_zero_iff.mp hlength.symm)

theorem Spells.isLetter_of_mem (hs : s ∈ all) (hw : s.isWord = true) (h : s.Spells cs) :
    ∀ c ∈ cs, isLetter c = true :=
  fun c hc => (h.letters_of_mem hs hw c hc).2

/-- **A reserved word that no letter touches is found**, as a whole. -/
theorem exists_at?_of_reserved (hne : word ≠ []) (hl : ∀ c ∈ word, isLetter c = true)
    (hend : rest.takeWhile isLetter = [])
    (hbefore : before.any isLetter = true → (word ++ rest).takeWhile isLetter = [])
    (hword : Reserved word) :
    ∃ s, at? before (word ++ rest) = some s ∧ s.isWord = true ∧ s.Reads word := by
  have hrun : (word ++ rest).takeWhile isLetter = word := takeWhile_append hl hend
  obtain ⟨c, cs, rfl⟩ := List.exists_cons_of_ne_nil hne
  have hc := hl c List.mem_cons_self
  rw [List.cons_append] at hrun hbefore ⊢
  cases hat : at? before (c :: (cs ++ rest)) with
  | none =>
    have hfree : before.any isLetter = false := by
      rw [← Bool.not_eq_true]
      exact fun hb => hne (hrun.symm.trans (hbefore hb))
    exact absurd (hrun ▸ hword) (not_reserved_of_at? hfree hat)
  | some s =>
    have hlength := (reserved_of_at? hc hat).2.1
    have hreads := reads_of_at? hat
    rw [hrun] at hlength
    rw [hlength, ← List.cons_append, List.take_left] at hreads
    exact ⟨s, rfl, isWord_of_at?_letter hc hat, hreads⟩

/-- **A word that no letter touches is found.** -/
theorem at?_of_word (hs : s ∈ all) (hw : s.isWord = true) (h : s.Spells word)
    (hend : rest.takeWhile isLetter = [])
    (hbefore : before.any isLetter = true → (word ++ rest).takeWhile isLetter = []) :
    at? before (word ++ rest) = some s := by
  have hreads := h.reads hs
  obtain ⟨s', hat, -, hreads'⟩ := exists_at?_of_reserved (h.ne_nil hs) (h.isLetter_of_mem hs hw) hend
    hbefore (reserved_iff.mpr ⟨s, hs, hw, hreads⟩)
  rw [hat, hreads'.unique (mem_all_of_at? hat) hs hreads]

/-- A sign that goes on as another one is the half of that one. -/
theorem eq_or_half_of_prefix : ∀ s ∈ all, ∀ s' ∈ all, s.isWord = false → s.text <+: s'.text →
    s' = s ∨ (s.text = ['&'] ∨ s.text = ['|']) ∧ s'.text = s.text ++ s.text := by
  decide

/-- **A sign is found where it stands**, if it is not the first half of another one. -/
theorem at?_of_sign (hs : s ∈ all) (hw : s.isWord = false)
    (hhalf : s.text = ['&'] ∨ s.text = ['|'] → ¬s.text <+: rest) :
    at? before (s.text ++ rest) = some s := by
  have hprefix : s.text <+: s.text ++ rest := List.prefix_append s.text rest
  have hoccurs : s.occursAt before (s.text ++ rest) = true := by
    rw [occursAt, hw]
    exact List.isPrefixOf_iff_prefix.mpr hprefix
  have hfound : (at? before (s.text ++ rest)).isSome := List.find?_isSome.mpr ⟨s, hs, hoccurs⟩
  obtain ⟨s', hat⟩ := Option.isSome_iff_exists.mp hfound
  have hprefix' : s'.text <+: s.text ++ rest := by
    obtain ⟨hne, htext⟩ := all_signs s hs hw
    obtain ⟨c, cs, hcs⟩ := List.exists_cons_of_ne_nil hne
    rw [hcs, List.cons_append] at hat ⊢
    exact (prefix_of_at? (htext c (by simp [hcs])) hat).2
  have hlonger := List.prefix_of_prefix_length_le hprefix hprefix' (length_le_of_at? hat hs hoccurs)
  rcases eq_or_half_of_prefix s hs s' (mem_all_of_at? hat) hw hlonger with rfl | ⟨hsign, hdouble⟩
  · exact hat
  · rw [hdouble] at hprefix'
    exact absurd ((List.prefix_append_right_inj s.text).mp hprefix') (hhalf hsign)

end Propositional.Spelling
