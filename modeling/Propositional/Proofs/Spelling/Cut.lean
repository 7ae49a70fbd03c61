import Propositional.Proofs.Outcome
import Propositional.Proofs.Spelling.Occurrence
import Propositional.Proofs.Text.LowerCase
import Propositional.Proofs.Text.Words

/-!
# What a text is cut into

Cutting replaces the spellings of connectives and nothing else. So the words of the canonical text
are those of the given text that spell no connective, and a text in which no spelling but a
canonical symbol is left is cut into its own characters.

* `cut_cons_of_none`, `cut_append_of_some`: one step, where nothing is found and where a spelling
  is.
* `Becomes`: what cutting makes of a text, as a relation with one rule for each kind of piece, which
  `becomes_of_cut` reads off the cutting. `Canonical.words_of_ofText` says what that does to the
  words.
* `Stays`: a text that is cut into its own characters, in front of any rest. There is a rule for a
  run of letters (`Stays.letters`) and one for a kept character, in front (`Stays.cons`) or in
  between (`Stays.append_cons`).
* `ofText_of_stays`: such a text is canonical already.
-/

namespace Propositional

open Text Spelling Outcome

variable {n : Nat} {before : Option Char} {c : Char} {cs rest word : List Char} {pieces : List Piece}

namespace Piece

/-! ## One step -/

theorem cut_cons_of_none (h : at? before (c :: rest) = none) :
    cut n before (c :: rest) = (cut (n + 1) (some c) rest).map (⟨c, n⟩ :: ·) := by
  rw [cut, h]
  simp only
  cases cut (n + 1) (some c) rest <;> rfl

/-- What is found must be a spelling, and becomes its symbol. -/
theorem cut_cons_of_some {s : Spelling} (h : at? before (c :: rest) = some s) :
    cut n before (c :: rest) =
      if s.Spells ((c :: rest).take s.text.length) then
        (cut (n + s.text.length) ((c :: rest).take s.text.length).getLast?
          ((c :: rest).drop s.text.length)).map (⟨s.symbol, n⟩ :: ·)
      else .error ⟨String.ofList (((c :: rest).take s.text.length).flatMap lowerFull)⟩ := by
  have hs := mem_all_of_at? h
  have hreads := reads_of_at? h
  have hlength : 0 < s.text.length := List.length_pos_iff.mpr (text_ne_nil hs)
  have hdrop : rest.drop (s.text.length - 1) = (c :: rest).drop s.text.length := by
    conv => rhs; rw [← Nat.sub_add_cancel hlength]
    rfl
  rw [cut, h]
  simp only [hdrop]
  split
  · rename_i hnone
    rw [if_neg]
    intro hspells
    rw [symbolOf?_of_spells hs hspells] at hnone
    cases hnone
  · rename_i symbol hsymbol
    by_cases hspells : s.Spells ((c :: rest).take s.text.length)
    · rw [symbolOf?_of_spells hs hspells] at hsymbol
      obtain rfl := Option.some.inj hsymbol
      rw [if_pos hspells]
      split <;> rename_i hcut <;> rw [hcut] <;> rfl
    · rw [symbolOf?_of_not_spells hs hreads hspells] at hsymbol
      cases hsymbol

theorem cut_append_of_some {s : Spelling} (hlength : word.length = s.text.length)
    (h : at? before (word ++ rest) = some s) :
    cut n before (word ++ rest) =
      if s.Spells word then (cut (n + word.length) word.getLast? rest).map (⟨s.symbol, n⟩ :: ·)
      else .error ⟨String.ofList (word.flatMap lowerFull)⟩ := by
  have hne : word ≠ [] := by
    rintro rfl
    exact text_ne_nil (mem_all_of_at? h) (List.length_eq_zero_iff.mp hlength.symm)
  obtain ⟨c, cs, rfl⟩ := List.exists_cons_of_ne_nil hne
  rw [List.cons_append] at h ⊢
  rw [cut_cons_of_some h, ← hlength, ← List.cons_append, List.take_left, List.drop_left]

theorem cut_append_eq_ok {s : Spelling} (hlength : word.length = s.text.length)
    (h : at? before (word ++ rest) = some s) (hcut : cut n before (word ++ rest) = .ok pieces) :
    s.Spells word ∧ ∃ tail, pieces = ⟨s.symbol, n⟩ :: tail ∧
      cut (n + word.length) word.getLast? rest = .ok tail := by
  rw [cut_append_of_some hlength h] at hcut
  split at hcut
  · rename_i hspells
    obtain ⟨tail, htail, rfl⟩ := map_eq_ok.mp hcut
    exact ⟨hspells, tail, rfl, htail⟩
  · cases hcut

theorem cut_cons_eq_ok {s : Spelling} (h : at? before (c :: rest) = some s)
    (hcut : cut n before (c :: rest) = .ok pieces) :
    s.Spells ((c :: rest).take s.text.length) ∧ ∃ tail, pieces = ⟨s.symbol, n⟩ :: tail ∧
      cut (n + s.text.length) ((c :: rest).take s.text.length).getLast?
        ((c :: rest).drop s.text.length) = .ok tail := by
  have hlength := (reads_of_at? h).length_eq (mem_all_of_at? h)
  rw [← List.take_append_drop s.text.length (c :: rest)] at h hcut
  obtain ⟨hspells, tail, hpieces, htail⟩ := cut_append_eq_ok hlength h hcut
  rw [hlength] at htail
  exact ⟨hspells, tail, hpieces, htail⟩

/-! ## Characters that stay -/

/-- The characters of a text as pieces, the first at the index `n`. -/
def inPlace (n : Nat) : List Char → List Piece
  | [] => []
  | c :: cs => ⟨c, n⟩ :: inPlace (n + 1) cs

theorem map_char_inPlace (n : Nat) (cs : List Char) : (inPlace n cs).map (·.char) = cs := by
  induction cs generalizing n with
  | nil => rfl
  | cons c cs ih => rw [inPlace, List.map_cons, ih]

theorem map_start_inPlace (n : Nat) (cs : List Char) :
    (inPlace n cs).map (·.start) = List.range' n cs.length := by
  induction cs generalizing n with
  | nil => rfl
  | cons c cs ih => rw [inPlace, List.map_cons, ih, List.length_cons, List.range'_succ]

theorem inPlace_append (n : Nat) (cs ds : List Char) :
    inPlace n (cs ++ ds) = inPlace n cs ++ inPlace (n + cs.length) ds := by
  induction cs generalizing n with
  | nil => rfl
  | cons c cs ih =>
    rw [List.cons_append, inPlace, ih, inPlace, List.cons_append, List.length_cons,
      Nat.add_right_comm, Nat.add_assoc]

/-- In front of `rest` the text `cs` is cut into its own characters. -/
def Keeps (n : Nat) (before : Option Char) (cs rest : List Char) : Prop :=
  ∃ last, cut n before (cs ++ rest) =
    (cut (n + cs.length) last rest).map (inPlace n cs ++ ·)

theorem Keeps.nil : Keeps n before [] rest := by
  refine ⟨before, ?_⟩
  rw [List.nil_append, List.length_nil, Nat.add_zero]
  cases cut n before rest <;> rfl

theorem Keeps.cons (h : Keeps (n + 1) (some c) cs rest)
    (hc : cut n before (c :: (cs ++ rest)) =
      (cut (n + 1) (some c) (cs ++ rest)).map (⟨c, n⟩ :: ·)) :
    Keeps n before (c :: cs) rest := by
  obtain ⟨last, hlast⟩ := h
  refine ⟨last, ?_⟩
  rw [List.cons_append, hc, hlast, List.length_cons, Nat.add_right_comm n 1, Nat.add_assoc]
  cases cut (n + (cs.length + 1)) last rest <;> rfl

theorem Keeps.append {ds : List Char} (h : Keeps n before cs (ds ++ rest))
    (hd : ∀ last, Keeps (n + cs.length) last ds rest) : Keeps n before (cs ++ ds) rest := by
  obtain ⟨middle, hmiddle⟩ := h
  obtain ⟨last, hlast⟩ := hd middle
  refine ⟨last, ?_⟩
  rw [List.append_assoc, hmiddle, hlast, List.length_append, Nat.add_assoc, inPlace_append]
  cases cut (n + (cs.length + ds.length)) last rest with
  | error e => rfl
  | ok pieces => exact congrArg Except.ok (List.append_assoc _ _ _).symm

/-- Behind a letter every run of letters is kept. -/
theorem keeps_letters (hbefore : before.any isLetter = true)
    (hl : ∀ c ∈ word, isLetter c = true) : Keeps n before word rest := by
  induction word generalizing n before with
  | nil => exact .nil
  | cons c word ih =>
    have hc := hl c List.mem_cons_self
    have hbehind : (some c).any isLetter = true := hc
    exact (ih hbehind fun a ha => hl a (List.mem_cons_of_mem c ha)).cons
      (cut_cons_of_none (at?_of_letter_before hbefore hc))

/-- **A word that spells no connective is kept.** -/
theorem keeps_word (hne : word ≠ []) (hl : ∀ c ∈ word, isLetter c = true)
    (hrest : rest.takeWhile isLetter = []) (hword : ¬Reserved word) :
    Keeps n before word rest := by
  cases word with
  | nil => exact absurd rfl hne
  | cons c word =>
    have hc := hl c List.mem_cons_self
    have hrun : (c :: (word ++ rest)).takeWhile isLetter = c :: word := takeWhile_append hl hrest
    have hnone : at? before (c :: (word ++ rest)) = none := by
      cases h : at? before (c :: (word ++ rest)) with
      | none => rfl
      | some s => exact absurd (hrun ▸ (reserved_of_at? hc h).2.2) hword
    have hbehind : (some c).any isLetter = true := hc
    exact (keeps_letters hbehind fun a ha => hl a (List.mem_cons_of_mem c ha)).cons
      (cut_cons_of_none hnone)

/-! ## What a text becomes -/

/-- What begins with no letter is cut into pieces that begin with none. -/
theorem takeWhile_of_cut (hcs : cs.takeWhile isLetter = []) (h : cut n before cs = .ok pieces) :
    (pieces.map (·.char)).takeWhile isLetter = [] := by
  cases cs with
  | nil =>
    rw [cut] at h
    obtain rfl := Except.ok.inj h
    rfl
  | cons c rest =>
    have hc : isLetter c = false := by simpa [List.takeWhile_cons] using hcs
    cases hat : at? before (c :: rest) with
    | none =>
      rw [cut_cons_of_none hat] at h
      obtain ⟨tail, -, rfl⟩ := map_eq_ok.mp h
      exact List.takeWhile_cons_of_neg (by simp [hc])
    | some s =>
      obtain ⟨-, tail, rfl, -⟩ := cut_cons_eq_ok hat h
      exact List.takeWhile_cons_of_neg (by simp [all_symbols s (mem_all_of_at? hat)])

/-- A sign that is found stands in front of a shorter text, and there is no letter in it. -/
theorem exists_post_of_at? {s : Spelling} (hc : isLetter c = false)
    (h : at? before (c :: rest) = some s) :
    ∃ post, c :: rest = s.text ++ post ∧ post.length < (c :: rest).length ∧
      s.text.getLast?.any isLetter = false ∧ s.Spells s.text ∧ words (c :: rest) = words post := by
  obtain ⟨hsign, post, hpost⟩ := prefix_of_at? hc h
  obtain ⟨hne, htext⟩ := all_signs s (mem_all_of_at? h) hsign
  have hless : post.length < (c :: rest).length := by
    have := List.length_pos_iff.mpr hne
    rw [← hpost, List.length_append]
    omega
  have hbehind : s.text.getLast?.any isLetter = false := by
    cases ha : s.text.getLast? with
    | none => rfl
    | some a => exact htext a (List.mem_of_getLast? ha)
  have hwords : words (s.text ++ post) = words post := words_append_of_no_letter htext
  rw [hpost] at hwords
  exact ⟨post, hpost.symm, hless, hbehind, (spells_sign hsign).mpr rfl, hwords⟩

/-- **What cutting makes of a text**: a word or a sign that spells a connective becomes its symbol,
and what spells none stays, be it a word or another character. -/
inductive Becomes : List Char → List Char → Prop
  | nil : Becomes [] []
  | symbol {s : Spelling} {word rest out : List Char} :
      s ∈ all → s.Spells word → (s.isWord = true → rest.takeWhile isLetter = []) →
        Becomes rest out → Becomes (word ++ rest) (s.symbol :: out)
  | word {word rest out : List Char} :
      word ≠ [] → (∀ c ∈ word, isLetter c = true) → ¬Reserved word →
        rest.takeWhile isLetter = [] → out.takeWhile isLetter = [] →
        Becomes rest out → Becomes (word ++ rest) (word ++ out)
  | char {c : Char} {rest out : List Char} :
      isLetter c = false → (∀ s ∈ all, s.isWord = false → ¬s.text <+: c :: rest) →
        Becomes rest out → Becomes (c :: rest) (c :: out)

/-- Where nothing is found no sign stands. -/
theorem not_prefix_of_at? {s : Spelling} (h : at? before cs = none) (hs : s ∈ all)
    (hsign : s.isWord = false) : ¬s.text <+: cs := by
  have hno := List.find?_eq_none.mp h s hs
  rwa [occursAt, hsign, if_neg Bool.false_ne_true, List.isPrefixOf_iff_prefix] at hno

/-- What is cut, is cut by one of these rules after the other. If a letter stands before the text,
the letters at its start are only the rest of a word. -/
theorem becomes_of_cut (hbefore : before.any isLetter = true → cs.takeWhile isLetter = [])
    (h : cut n before cs = .ok pieces) : Becomes cs (pieces.map (·.char)) := by
  induction cs using words_induction generalizing n before pieces with
  | nil =>
    rw [cut] at h
    obtain rfl := Except.ok.inj h
    exact .nil
  | word word rest hne hl hend ih =>
    by_cases hword : Reserved word
    · obtain ⟨s, hat, -, hreads⟩ := exists_at?_of_reserved hne hl hend hbefore hword
      have hs := mem_all_of_at? hat
      obtain ⟨hspells, tail, rfl, htail⟩ := cut_append_eq_ok (hreads.length_eq hs) hat h
      exact .symbol hs hspells (fun _ => hend) (ih (fun _ => hend) htail)
    · obtain ⟨last, hlast⟩ := @keeps_word n before rest word hne hl hend hword
      rw [hlast] at h
      obtain ⟨tail, htail, rfl⟩ := map_eq_ok.mp h
      rw [List.map_append, map_char_inPlace]
      exact .word hne hl hword hend (takeWhile_of_cut hend htail) (ih (fun _ => hend) htail)
  | other c rest hc ih =>
    cases hat : at? before (c :: rest) with
    | none =>
      rw [cut_cons_of_none hat] at h
      obtain ⟨tail, htail, rfl⟩ := map_eq_ok.mp h
      refine .char hc (fun s hs hsign => not_prefix_of_at? hat hs hsign) ?_
      exact ih rest (Nat.lt_succ_self _) (by simp [hc]) htail
    | some s =>
      obtain ⟨post, hpost, hless, hbehind, hspells, -⟩ := exists_post_of_at? hc hat
      have hsign : s.isWord = false := (prefix_of_at? hc hat).1
      rw [hpost] at hat h ⊢
      obtain ⟨-, tail, rfl, htail⟩ := cut_append_eq_ok rfl hat h
      exact .symbol (mem_all_of_at? hat) hspells (by simp [hsign])
        (ih post hless (by simp [hbehind]) htail)

/-- **Cutting takes the words that spell a connective, and leaves the others.** -/
theorem Becomes.words_eq {out : List Char} (h : Becomes cs out) :
    words out = (words cs).filter fun word => ¬Reserved word := by
  induction h with
  | nil => simp [words]
  | @symbol s word rest out hs hspells hend _ ih =>
    rw [words_cons_of_not_letter (all_symbols s hs), ih]
    cases hw : s.isWord with
    | true =>
      have hword : Reserved word := reserved_iff.mpr ⟨s, hs, hw, hspells.reads hs⟩
      rw [words_append (hspells.ne_nil hs) (hspells.isLetter_of_mem hs hw) (hend hw),
        List.filter_cons_of_neg (by simpa using hword)]
    | false =>
      rw [(spells_sign hw).mp hspells, words_append_of_no_letter (all_signs s hs hw).2]
  | word hne hl hword hend hout _ ih =>
    rw [words_append hne hl hend, words_append hne hl hout, ih,
      List.filter_cons_of_pos (by simpa using hword)]
  | char hc _ _ ih => rw [words_cons_of_not_letter hc, words_cons_of_not_letter hc, ih]

/-! ## Texts that stay -/

/-- A character that is cut out as it is, whatever stands beside it: no spelling begins with it, or
it is the symbol of a connective. -/
def IsKept (c : Char) : Prop :=
  isLetter c = false ∧
    ∀ s ∈ all, s.text.head? = some c → s.text = [c] ∧ symbolOf? (lowerFull c) = some c

instance : DecidablePred IsKept := fun c =>
  inferInstanceAs (Decidable (isLetter c = false ∧
    ∀ s ∈ all, s.text.head? = some c → s.text = [c] ∧ symbolOf? (lowerFull c) = some c))

theorem isKept_openParen : IsKept '(' := by decide

theorem isKept_closeParen : IsKept ')' := by decide

theorem isKept_negation : IsKept negationSymbol := by decide

theorem isKept_connective (op : Connective) : IsKept op.symbol := by
  cases op <;> decide +kernel

theorem cut_cons_of_isKept (h : IsKept c) :
    cut n before (c :: rest) = (cut (n + 1) (some c) rest).map (⟨c, n⟩ :: ·) := by
  cases hat : at? before (c :: rest) with
  | none => exact cut_cons_of_none hat
  | some s =>
    obtain ⟨-, hprefix⟩ := prefix_of_at? h.1 hat
    have hs := mem_all_of_at? hat
    have hhead : s.text.head? = some c := by
      obtain ⟨post, hpost⟩ := hprefix
      cases ht : s.text with
      | nil => exact absurd ht (text_ne_nil hs)
      | cons d ds =>
        rw [ht, List.cons_append] at hpost
        rw [(List.cons.inj hpost).1]
        rfl
    obtain ⟨htext, hsymbol⟩ := h.2 s hs hhead
    rw [cut, hat]
    simp only [htext, List.length_singleton, List.take_succ_cons, List.take_zero,
      List.flatMap_singleton, hsymbol, List.getLast?_singleton, Nat.sub_self, List.drop_zero]
    cases cut (n + 1) (some c) rest <;> rfl

/-- In front of any rest that begins with no letter, the text is cut into its own characters. -/
def Stays (cs : List Char) : Prop :=
  ∀ (n : Nat) (before : Option Char) (rest : List Char), rest.takeWhile isLetter = [] →
    Keeps n before cs rest

namespace Stays

variable {ds : List Char}

theorem nil : Stays [] := fun _ _ _ _ => .nil

theorem letters (hne : word ≠ []) (hl : ∀ c ∈ word, isLetter c = true) (hword : ¬Reserved word) :
    Stays word :=
  fun _ _ _ hrest => keeps_word hne hl hrest hword

theorem cons (hc : IsKept c) (h : Stays cs) : Stays (c :: cs) :=
  fun _ _ rest hrest => (h _ _ rest hrest).cons (cut_cons_of_isKept hc)

/-- A kept character between two texts that stay. -/
theorem append_cons (h : Stays cs) (hc : IsKept c) (hd : Stays ds) : Stays (cs ++ c :: ds) :=
  fun n before rest hrest =>
    (h n before _ (List.takeWhile_cons_of_neg (by simp [hc.1]))).append
      fun last => hd.cons hc _ last rest hrest

end Stays

end Piece

namespace Canonical

variable {caseSensitive : Bool} {text : List Char} {canonical : Canonical}

theorem becomes_of_ofText (h : ofText caseSensitive text = .ok canonical) :
    Piece.Becomes (folded caseSensitive text) canonical.text := by
  unfold ofText at h
  split at h
  · rename_i pieces hcut
    obtain rfl := Except.ok.inj h
    exact Piece.becomes_of_cut (by simp) hcut
  · cases h

/-- The words of a canonical text. -/
theorem words_of_ofText (h : ofText caseSensitive text = .ok canonical) :
    words canonical.text = (words (folded caseSensitive text)).filter fun word => ¬Reserved word :=
  (becomes_of_ofText h).words_eq

theorem length_folded (caseSensitive : Bool) (text : List Char) :
    (folded caseSensitive text).length = text.length := by
  unfold folded
  split
  · rfl
  · exact List.length_map _

/-- What comes from a text whose case is settled, and what has no case, is settled itself. -/
theorem folded_eq_self (h : ∀ c ∈ cs, c ∈ folded caseSensitive text ∨ lower c = c) :
    folded caseSensitive cs = cs := by
  cases caseSensitive with
  | true => rfl
  | false =>
    have hlower : ∀ c ∈ cs, lower c = c := by
      intro c hc
      rcases h c hc with hmem | hstays
      · obtain ⟨d, -, rfl⟩ := List.mem_map.mp hmem
        exact lower_lower d
      · exact hstays
    exact (List.map_congr_left hlower).trans (List.map_id cs)

/-- A text that is cut into its own characters is its own canonical text, apart from its case. -/
theorem ofText_of_cut_inPlace (h : Piece.cut 0 none (folded caseSensitive text) =
    .ok (Piece.inPlace 0 (folded caseSensitive text))) :
    ofText caseSensitive text =
      .ok ⟨folded caseSensitive text, List.range (text.length + 1)⟩ := by
  rw [ofText, h]
  simp only [Piece.map_char_inPlace, Piece.map_start_inPlace, length_folded, List.range_succ,
    List.range_eq_range']

theorem ofText_of_stays (h : Piece.Stays (folded caseSensitive text)) :
    ofText caseSensitive text =
      .ok ⟨folded caseSensitive text, List.range (text.length + 1)⟩ := by
  obtain ⟨last, hlast⟩ := h 0 none [] rfl
  rw [List.append_nil, Piece.cut] at hlast
  refine ofText_of_cut_inPlace (hlast.trans ?_)
  simp only [Except.map, List.append_nil]

end Canonical

end Propositional
