import Propositional.Text.Classes
import Propositional.Text.LowerCase
import Propositional.Token.Scan

/-!
# Words, and the characters around them

A run of letters is a name unless it is a constant in lower case. The scanner folds the case of
`A` to `Z` only. That is enough, because no other character has a letter of the two constants as its
lower case: the only one that becomes an ASCII letter is the Kelvin sign, and that letter is `k`.

* `wordKind_eq_name_iff`: a run of letters is read as a name exactly if its full lower case is
  neither constant.
* `LegalName`: the names that can be written.
* `isLetter_of_isBlank`, `symbolKind_of_isBlank`: a blank is neither a letter nor a symbol, so it
  starts no token of an expression.
-/

namespace Propositional

namespace Text

variable {c d : Char} {cs ds : List Char}

/-- What is checked code point by code point holds of the characters. -/
@[elab_as_elim]
theorem of_code {P : Char → Prop} {Q : Nat → Prop} (c : Char) (hc : Q c.toNat)
    (h : ∀ n, Q n → P (Char.ofNat n)) : P c := by
  have := h c.toNat hc
  rwa [Char.ofNat_toNat] at this

/-! ## Lower case -/

/-- Beyond ASCII no run of upper-case letters ends in ASCII, the Kelvin sign excepted. -/
theorem caseRuns_leave_ascii :
    ∀ r ∈ caseRuns, 128 ≤ r.first + r.shift ∨ r.first = 0x212A ∧ r.last = 0x212A ∧ r.shift = -8383 := by
  decide +kernel

theorem toNat_ofNat_eq_or_zero (n : Nat) : (Char.ofNat n).toNat = n ∨ (Char.ofNat n).toNat = 0 := by
  by_cases h : n.isValidChar
  · rw [Char.ofNat, dif_pos h]
    exact Or.inl rfl
  · rw [Char.ofNat, dif_neg h]
    exact Or.inr rfl

/-- What a character beyond ASCII has as its lower case, if that is ASCII. -/
theorem toNat_lower_of_not_ascii (hc : 128 ≤ c.toNat) :
    128 ≤ (lower c).toNat ∨ lower c = 'k' ∨ (lower c).toNat = 0 := by
  unfold lower
  rw [if_neg (Nat.not_lt.mpr hc)]
  split
  · rename_i r hfind
    have hcov := List.find?_some hfind
    simp only [CaseRun.covers, Bool.and_eq_true, decide_eq_true_eq] at hcov
    obtain ⟨⟨hfirst, hlast⟩, -⟩ := hcov
    rcases caseRuns_leave_ascii r (List.mem_of_find?_eq_some hfind) with hge | ⟨h1, h2, h3⟩
    · rcases toNat_ofNat_eq_or_zero (c.toNat + r.shift).toNat with h | h
      · exact Or.inl (by rw [h]; omega)
      · exact Or.inr (Or.inr h)
    · have hk : (c.toNat + r.shift).toNat = 107 := by omega
      rw [hk]
      exact Or.inr (Or.inl rfl)
  · exact Or.inl hc

theorem toLower_of_not_ascii (hc : 128 ≤ c.toNat) : c.toLower = c := by
  unfold Char.toLower
  rw [dif_neg]
  rintro ⟨-, hz⟩
  have : c.toNat ≤ 90 := hz
  omega

/-- An ASCII character that is the lower case of no character beyond ASCII. -/
def isOnlyAscii (d : Char) : Bool := 0 < d.toNat && d.toNat < 128 && d != 'i' && d != 'k'

theorem isOnlyAscii_iff :
    isOnlyAscii d = true ↔ 0 < d.toNat ∧ d.toNat < 128 ∧ d ≠ 'i' ∧ d ≠ 'k' := by
  simp only [isOnlyAscii, Bool.and_eq_true, decide_eq_true_eq, bne_iff_ne, and_assoc]

theorem lowerFull_ne_nil (c : Char) : lowerFull c ≠ [] := by
  unfold lowerFull
  split <;> exact List.cons_ne_nil _ _

theorem lowerFull_of_not_ascii (hd : isOnlyAscii d = true) (hc : 128 ≤ c.toNat) :
    ∃ c' cs, lowerFull c = c' :: cs ∧ c' ≠ d := by
  obtain ⟨hpos, hascii, hi, hk⟩ := isOnlyAscii_iff.mp hd
  unfold lowerFull
  split
  · exact ⟨'i', _, rfl, Ne.symm hi⟩
  · refine ⟨lower c, [], rfl, ?_⟩
    rintro rfl
    rcases toNat_lower_of_not_ascii hc with h | h | h
    · omega
    · exact hk h
    · omega

theorem lowerFull_of_ascii (hc : c.toNat < 128) : lowerFull c = [c.toLower] := by
  unfold lowerFull
  rw [if_neg, lower_of_ascii hc]
  rintro rfl
  exact absurd hc (by decide)

/-- **Folding ASCII is enough** to recognise a text of ASCII letters other than `i` and `k`. -/
theorem flatMap_lowerFull_eq_iff (hds : ds.all isOnlyAscii = true) :
    cs.flatMap lowerFull = ds ↔ cs.map Char.toLower = ds := by
  induction cs generalizing ds with
  | nil => exact Iff.rfl
  | cons c cs ih =>
    rw [List.flatMap_cons, List.map_cons]
    by_cases hc : c.toNat < 128
    · rw [lowerFull_of_ascii hc, List.singleton_append]
      cases ds with
      | nil => simp
      | cons d ds =>
        rw [List.all_cons, Bool.and_eq_true] at hds
        rw [List.cons.injEq, List.cons.injEq, ih hds.2]
    · have hc := Nat.le_of_not_lt hc
      rw [toLower_of_not_ascii hc]
      cases ds with
      | nil => simp [lowerFull_ne_nil]
      | cons d ds =>
        rw [List.all_cons, Bool.and_eq_true] at hds
        obtain ⟨c', cs', h, hne⟩ := lowerFull_of_not_ascii hds.1 hc
        have hcd : c ≠ d := by
          rintro rfl
          exact absurd (isOnlyAscii_iff.mp hds.1).2.1 (Nat.not_lt.mpr hc)
        rw [h]
        simp [hne, hcd]

/-! ## Runs of letters -/

section Runs

variable {p : Char → Bool} {word rest : List Char}

theorem dropWhile_of_takeWhile (h : rest.takeWhile p = []) : rest.dropWhile p = rest := by
  have := List.takeWhile_append_dropWhile (p := p) (l := rest)
  rwa [h, List.nil_append] at this

theorem takeWhile_dropWhile (p : Char → Bool) (cs : List Char) :
    (cs.dropWhile p).takeWhile p = [] := by
  induction cs with
  | nil => rfl
  | cons c cs ih =>
    rw [List.dropWhile_cons]
    split
    · exact ih
    · rename_i hc
      exact List.takeWhile_cons_of_neg hc

/-- A run ends where the rest does not go on with it. -/
theorem takeWhile_append (hword : ∀ c ∈ word, p c = true) (hrest : rest.takeWhile p = []) :
    (word ++ rest).takeWhile p = word := by
  rw [List.takeWhile_append_of_pos hword, hrest, List.append_nil]

theorem dropWhile_append (hword : ∀ c ∈ word, p c = true) (hrest : rest.takeWhile p = []) :
    (word ++ rest).dropWhile p = rest := by
  rw [List.dropWhile_append_of_pos hword, dropWhile_of_takeWhile hrest]

theorem any_getLast?_of_all (hne : word ≠ []) (hword : ∀ c ∈ word, p c = true) :
    word.getLast?.any p = true := by
  rw [List.getLast?_eq_some_getLast hne]
  exact hword _ (List.getLast_mem hne)

end Runs

/-! ## Letters, blanks and symbols -/

/-- The code points of the blank characters, one by one. -/
def blankCodes : List Nat :=
  blankRanges.flatMap fun r => (List.range (r.2 + 1 - r.1)).map (r.1 + ·)

theorem mem_blankCodes (h : isBlank c = true) : c.toNat ∈ blankCodes := by
  obtain ⟨r, hr, hfirst, hlast⟩ := (inRanges_iff ascending_blankRanges c.toNat).mp h
  refine List.mem_flatMap.mpr ⟨r, hr, List.mem_map.mpr ⟨c.toNat - r.1, ?_, by omega⟩⟩
  exact List.mem_range.mpr (by omega)

theorem isLetter_of_isBlank (h : isBlank c = true) : isLetter c = false := by
  have hall : ∀ n ∈ blankCodes, isLetter (Char.ofNat n) = false := by decide +kernel
  exact of_code c (mem_blankCodes h) hall

end Text

namespace Token

theorem symbolKind_of_isBlank {c : Char} (h : Text.isBlank c = true) : symbolKind c = .illegal := by
  have hall : ∀ n ∈ Text.blankCodes, symbolKind (Char.ofNat n) = .illegal := by decide
  exact Text.of_code c (Text.mem_blankCodes h) hall

/-- **A run of letters is a name exactly if its lower case is neither constant.** -/
theorem wordKind_eq_name_iff {word : List Char} :
    wordKind word = .name ↔
      word.flatMap Text.lowerFull ≠ "true".toList ∧ word.flatMap Text.lowerFull ≠ "false".toList := by
  have htrue : "true".toList.all Text.isOnlyAscii = true := by decide
  have hfalse : "false".toList.all Text.isOnlyAscii = true := by decide
  rw [Ne, Ne, Text.flatMap_lowerFull_eq_iff htrue, Text.flatMap_lowerFull_eq_iff hfalse]
  simp only [wordKind]
  split
  · rename_i h
    simp [h]
  · rename_i hnot_true
    split
    · rename_i h
      simp [h]
    · rename_i hnot_false
      exact ⟨fun _ => ⟨hnot_true, hnot_false⟩, fun _ => rfl⟩

end Token

/-- A name that can be written: one or more letters that are no constant in lower case. -/
structure LegalName (x : String) : Prop where
  nonempty : x.toList ≠ []
  letters : ∀ c ∈ x.toList, Text.isLetter c = true
  not_true : x.toList.flatMap Text.lowerFull ≠ "true".toList
  not_false : x.toList.flatMap Text.lowerFull ≠ "false".toList

theorem legalName_iff {x : String} :
    LegalName x ↔ x.toList ≠ [] ∧ x.toList.all Text.isLetter = true ∧
      x.toList.flatMap Text.lowerFull ≠ "true".toList ∧
        x.toList.flatMap Text.lowerFull ≠ "false".toList := by
  constructor
  · exact fun h => ⟨h.nonempty, List.all_eq_true.mpr h.letters, h.not_true, h.not_false⟩
  · exact fun ⟨hne, hall, htrue, hfalse⟩ => ⟨hne, List.all_eq_true.mp hall, htrue, hfalse⟩

instance (x : String) : Decidable (LegalName x) := decidable_of_iff _ legalName_iff.symm

theorem LegalName.wordKind {x : String} (h : LegalName x) : Token.wordKind x.toList = .name :=
  Token.wordKind_eq_name_iff.mpr ⟨h.not_true, h.not_false⟩

end Propositional
