import Propositional.Proofs.Token.Slice

/-!
# How the tokens lie in a text

A scan goes through a text once. The tokens stand in it side by side, in order; between them there
are only separators, and no word is cut in two. So a text can be cut wherever no word goes on, and
its parts can be scanned on their own.

* `Text.Parted`: two texts of which no word goes on from the one into the other.
* `scanFrom_append`: the parts of a text are scanned one after the other.
* `content_scanFrom`: where a text begins makes no difference to what its tokens are.
* `exists_split_of_scans`: the converse of the first. A text is parted before and behind each of its
  tokens, and the tokens before it and behind it are those of the two parts.
* `Scans.pairwise`, `Scans.includes_iff`: the tokens are disjoint, and together they take every
  character but the separators.
* `IsRun`: a run of letters that is as long as it can be. Names and constants are such runs
  (`isRun_of_mem_scan`), and an illegal token is one character (`exists_illegal_of_mem_scan`).
-/

namespace Propositional

variable {n p i : Nat} {c : Char} {as bs cs text rest before after : List Char}

namespace Text

/-- No word goes on from the text before into the text behind it. -/
def Parted (before after : List Char) : Prop :=
  before.getLast?.any isLetter = true → after.takeWhile isLetter = []

instance (before after : List Char) : Decidable (Parted before after) :=
  inferInstanceAs (Decidable (_ → _))

theorem Parted.nil_left (after : List Char) : Parted [] after := fun h => by cases h

/-- A character that is no letter ends every word. -/
theorem Parted.of_not_letter (hc : isLetter c = false) : Parted [c] after := by
  intro h
  rw [List.getLast?_singleton, Option.any_some, hc] at h
  cases h

theorem Parted.append (has : bs = [] → Parted as cs) (hbs : Parted bs cs) :
    Parted (as ++ bs) cs := by
  intro h
  rw [List.getLast?_append] at h
  cases hlast : bs.getLast? with
  | none =>
    rw [hlast, Option.none_or] at h
    exact has (List.getLast?_eq_none_iff.mp hlast) h
  | some b =>
    rw [hlast, Option.some_or] at h
    exact hbs (hlast ▸ h)

theorem Parted.of_append (h : Parted (as ++ bs) cs) : Parted bs cs := by
  intro hlast
  cases hb : bs.getLast? with
  | none =>
    rw [hb] at hlast
    cases hlast
  | some b =>
    refine h ?_
    rwa [List.getLast?_append, hb, Option.some_or, ← hb]

theorem Parted.cons (hc : isLetter c = false) (h : Parted before after) :
    Parted (c :: before) after :=
  append (fun _ => of_not_letter hc) h

theorem Parted.of_cons (h : Parted (c :: before) after) : Parted before after := by
  rw [← List.singleton_append] at h
  exact h.of_append

theorem takeWhile_of_append {q : Char → Bool} (h : (as ++ bs).takeWhile q = []) :
    as.takeWhile q = [] := by
  cases as with
  | nil => rfl
  | cons a as =>
    rw [List.cons_append, List.takeWhile_cons] at h
    rw [List.takeWhile_cons]
    split at h
    · cases h
    · rename_i ha
      rw [if_neg ha]

end Text

namespace Token

open Text

variable {t u : Token} {ts us : List Token}

/-! ## Scanning in parts -/

/-- What a token is, wherever it stands. -/
def content (t : Token) : Kind × List Char := (t.kind, t.text)

/-- **Where a text begins makes no difference to what its tokens are.** -/
theorem content_scanFrom (n m : Nat) (cs : List Char) :
    (scanFrom n cs).map content = (scanFrom m cs).map content := by
  have hscans := scans_scanFrom n cs
  generalize scanFrom n cs = ts at hscans
  induction hscans generalizing m with
  | nil n => rw [scanFrom]
  | separator hs _ ih => rw [scanFrom_separator hs, ih]
  | @word n word rest ts hne hl hrest _ ih =>
    rw [scanFrom_word hne hl hrest, List.map_cons, List.map_cons, ih (m + word.length)]
    rfl
  | symbol hs hl _ ih =>
    rw [scanFrom_symbol hs hl, List.map_cons, List.map_cons, ih (m + 1)]
    rfl

theorem scanFrom_separators (h : ∀ c ∈ cs, isSeparator c = true) : scanFrom n cs = [] := by
  induction cs generalizing n with
  | nil => rw [scanFrom]
  | cons c cs ih =>
    rw [scanFrom_separator (h c List.mem_cons_self)]
    exact ih fun d hd => h d (List.mem_cons_of_mem c hd)

/-- **The parts of a text are scanned one after the other**, unless a word goes on. -/
theorem scanFrom_append (h : Parted as bs) :
    scanFrom n (as ++ bs) = scanFrom n as ++ scanFrom (n + as.length) bs := by
  have hscans := scans_scanFrom n as
  generalize scanFrom n as = ts at hscans
  induction hscans with
  | nil n => rfl
  | @separator n c cs ts hs _ ih =>
    rw [List.cons_append, scanFrom_separator hs, ih h.of_cons, List.length_cons,
      Nat.add_assoc, Nat.add_comm 1]
  | @word n word rest ts hne hl hrest _ ih =>
    -- the word ends where it did: at a character of the first part, or where the parts meet
    have hends : (rest ++ bs).takeWhile isLetter = [] := by
      cases rest with
      | nil =>
        rw [List.append_nil] at h
        exact h (any_getLast?_of_all hne hl)
      | cons d ds =>
        rw [List.takeWhile_cons] at hrest
        rw [List.cons_append, List.takeWhile_cons]
        split at hrest
        · cases hrest
        · rename_i hd
          rw [if_neg hd]
    rw [List.append_assoc, scanFrom_word hne hl hends, ih h.of_append, List.length_append,
      List.cons_append, Nat.add_assoc]
  | @symbol n c cs ts hs hl _ ih =>
    rw [List.cons_append, scanFrom_symbol hs hl, ih h.of_cons, List.length_cons,
      List.cons_append, Nat.add_assoc, Nat.add_comm 1]

/-- **A text is parted before and behind each of its tokens**, and the tokens before it and behind
it are those of the two parts. -/
theorem exists_split_of_scans {all : List Token} (h : Scans n cs all) (hall : all = ts ++ t :: us) :
    ∃ before after, cs = before ++ (t.text ++ after) ∧ t.start = n + before.length ∧
      Scans n before ts ∧ Scans (t.start + t.text.length) after us ∧
        Parted before (t.text ++ after) ∧ Parted t.text after := by
  induction h generalizing ts with
  | nil n => simp at hall
  | @separator n c cs all hs _ ih =>
    obtain ⟨before, after, rfl, hstart, hts, hus, hbefore, hafter⟩ := ih hall
    have hc : isLetter c = false := isLetter_of_isBlank (isBlank_of_isSeparator hs)
    refine ⟨c :: before, after, rfl, ?_, .separator hs hts, hus, ?_, hafter⟩
    · rw [hstart, List.length_cons, Nat.add_assoc, Nat.add_comm 1]
    · exact .cons hc hbefore
  | @word n word rest all hne hl hrest hscans ih =>
    cases ts with
    | nil =>
      cases hall
      exact ⟨[], rest, rfl, rfl, .nil n, hscans, .nil_left _, fun _ => hrest⟩
    | cons first ts =>
      obtain ⟨rfl, rfl⟩ := List.cons.inj hall
      obtain ⟨before, after, rfl, hstart, hts, hus, hbefore, hafter⟩ := ih rfl
      refine ⟨word ++ before, after, (List.append_assoc ..).symm, ?_,
        .word hne hl (takeWhile_of_append hrest) hts, hus, ?_, hafter⟩
      · rw [hstart, List.length_append, Nat.add_assoc]
      · refine .append (fun hnil _ => ?_) hbefore
        rwa [hnil, List.nil_append] at hrest
  | @symbol n c cs all hs hl hscans ih =>
    cases ts with
    | nil =>
      cases hall
      exact ⟨[], cs, rfl, rfl, .nil n, hscans, .nil_left _, .of_not_letter hl⟩
    | cons first ts =>
      obtain ⟨rfl, rfl⟩ := List.cons.inj hall
      obtain ⟨before, after, rfl, hstart, hts, hus, hbefore, hafter⟩ := ih rfl
      refine ⟨c :: before, after, rfl, ?_, .symbol hs hl hts, hus, ?_, hafter⟩
      · rw [hstart, List.length_cons, Nat.add_assoc, Nat.add_comm 1]
      · exact .cons hl hbefore

/-! ## What the tokens cover -/

/-- The index is one of those at which the token stands. -/
def Includes (t : Token) (i : Nat) : Prop := t.start ≤ i ∧ i < t.start + t.text.length

theorem Scans.le_start (h : Scans n cs ts) (ht : t ∈ ts) : n ≤ t.start := by
  obtain ⟨us, vs, rfl⟩ := List.append_of_mem ht
  obtain ⟨before, after, -, hstart, -⟩ := exists_split_of_scans h rfl
  rw [hstart]
  exact Nat.le_add_right n before.length

/-- **The tokens do not overlap**, and come in the order in which they stand. -/
theorem Scans.pairwise (h : Scans n cs ts) :
    ts.Pairwise fun t u => t.start + t.text.length ≤ u.start := by
  induction h with
  | nil n => exact .nil
  | separator hs _ ih => exact ih
  | word hne hl hrest h ih => exact .cons (fun u hu => h.le_start hu) ih
  | symbol hs hl h ih => exact .cons (fun u hu => h.le_start hu) ih

/-- **Only separators are skipped**, and no separator is taken. -/
theorem Scans.includes_iff (h : Scans n cs ts) (i : Nat) :
    (∃ t ∈ ts, t.Includes (n + i)) ↔ ∃ c, cs[i]? = some c ∧ isSeparator c = false := by
  induction h generalizing i with
  | nil n => simp
  | @separator n c cs ts hs h ih =>
    cases i with
    | zero =>
      have hno : ¬∃ t ∈ ts, t.Includes n := by
        rintro ⟨t, ht, hstart, -⟩
        have := h.le_start ht
        omega
      simp [hno, hs]
    | succ i => rw [List.getElem?_cons_succ, ← ih i, Nat.add_assoc, Nat.add_comm 1]
  | @word n word rest ts hne hl hrest h ih =>
    by_cases hi : i < word.length
    · have hword : isSeparator word[i] = false :=
        isSeparator_of_isLetter (hl _ (List.getElem_mem hi))
      rw [List.getElem?_append_left hi, List.getElem?_eq_getElem hi]
      exact iff_of_true ⟨_, List.mem_cons_self, Nat.le_add_right n i, by simpa using hi⟩
        ⟨_, rfl, hword⟩
    · obtain ⟨j, rfl⟩ := Nat.exists_eq_add_of_le (Nat.le_of_not_lt hi)
      rw [List.getElem?_append_right (Nat.le_add_right _ _), Nat.add_sub_cancel_left, ← ih j,
        ← Nat.add_assoc]
      simp only [List.mem_cons, exists_eq_or_imp]
      exact or_iff_right fun ⟨_, hlt⟩ => by
        simp only at hlt
        omega
  | @symbol n c cs ts hs hl h ih =>
    cases i with
    | zero =>
      exact iff_of_true ⟨_, List.mem_cons_self, Nat.le_refl n, Nat.lt_succ_self n⟩ ⟨c, rfl, hs⟩
    | succ i =>
      rw [List.getElem?_cons_succ, ← ih i, Nat.add_assoc, Nat.add_comm 1, ← Nat.add_assoc]
      simp only [List.mem_cons, exists_eq_or_imp]
      exact or_iff_right fun ⟨_, hlt⟩ => by
        simp only [List.length_singleton] at hlt
        omega

/-! ## What the tokens are -/

/-- A run of letters that is as long as it can be: no letter touches it. -/
structure IsRun (text : List Char) (p : Nat) (word : List Char) : Prop where
  nonempty : word ≠ []
  letters : ∀ c ∈ word, isLetter c = true
  slice : text.extract p (p + word.length) = word
  before : (text.take p).getLast?.any isLetter = false
  behind : text[p + word.length]?.any isLetter = false

theorem any_head?_of_takeWhile {q : Char → Bool} (h : cs.takeWhile q = []) :
    cs.head?.any q = false := by
  cases cs with
  | nil => rfl
  | cons c cs =>
    rw [List.takeWhile_cons] at h
    split at h
    · cases h
    · simpa using ‹¬q c = true›

/-- A token has the characters that stand at its index. -/
theorem extract_of_mem_scan (ht : t ∈ scan text) :
    text.extract t.start (t.start + t.text.length) = t.text := by
  obtain ⟨ts, us, hsplit⟩ := List.append_of_mem ht
  obtain ⟨before, after, rfl, hstart, -⟩ := exists_split_of_scans (scans_scanFrom 0 text) hsplit
  rw [hstart, Nat.zero_add, List.extract_eq_take_drop, Nat.add_sub_cancel_left, List.drop_left,
    List.take_left]

/-- **A name or a constant is a run of letters, as long as it can be.** -/
theorem isRun_of_mem_scan (ht : t ∈ scan text) (hk : t.kind.isOperand = true) :
    IsRun text t.start t.text := by
  obtain ⟨ts, us, hsplit⟩ := List.append_of_mem ht
  obtain ⟨before, after, rfl, hstart, -, -, hbefore, hafter⟩ :=
    exists_split_of_scans (scans_scanFrom 0 text) hsplit
  rw [Nat.zero_add] at hstart
  cases foundIn_of_mem_scan ht with
  | symbol c n hs hl hc =>
    have hk : (symbolKind c).isOperand = true := hk
    rw [isOperand_symbolKind] at hk
    cases hk
  | word word n hne hl hword =>
    obtain rfl : n = before.length := hstart
    refine ⟨hne, hl, hword, ?_, ?_⟩
    · rw [List.take_left]
      refine Bool.eq_false_iff.mpr fun hlast => ?_
      obtain ⟨c, cs, rfl⟩ := List.exists_cons_of_ne_nil hne
      have hno := hbefore hlast
      rw [List.cons_append, List.takeWhile_cons_of_pos (hl c List.mem_cons_self)] at hno
      cases hno
    · have hends := any_head?_of_takeWhile (hafter (any_getLast?_of_all hne hl))
      rwa [List.getElem?_append_right (Nat.le_add_right _ _), Nat.add_sub_cancel_left,
        List.getElem?_append_right (Nat.le_refl _), Nat.sub_self, ← List.head?_eq_getElem?]

theorem symbolKind_eq_illegal_iff :
    symbolKind c = .illegal ↔
      c ≠ negationSymbol ∧ (∀ op : Connective, c ≠ op.symbol) ∧ c ≠ '(' ∧ c ≠ ')' := by
  constructor
  · intro hk
    refine ⟨?_, fun op => ?_, ?_, ?_⟩
    · rintro rfl
      exact absurd hk (by decide)
    · rintro rfl
      exact absurd hk (by cases op <;> decide)
    · rintro rfl
      exact absurd hk (by decide)
    · rintro rfl
      exact absurd hk (by decide)
  · rintro ⟨hneg, hop, hopen, hclose⟩
    rcases symbolKind_cases c with (h | ⟨op, h⟩) | (h | h) | h
    · exact absurd h hneg
    · exact absurd h (hop op)
    · exact absurd h hopen
    · exact absurd h hclose
    · exact h

/-- An illegal token is one character that can stand in no other token. -/
theorem exists_illegal_of_mem_scan (ht : t ∈ scan text) (hk : t.kind = .illegal) :
    ∃ c, t.text = [c] ∧ isSeparator c = false ∧ isLetter c = false ∧ symbolKind c = .illegal := by
  cases foundIn_of_mem_scan ht with
  | word word n hne hl hword =>
    have hk : wordKind word = .illegal := hk
    exact absurd (isOperand_wordKind word) (by rw [hk]; decide)
  | symbol c n hs hl hc => exact ⟨c, rfl, hs, hl, hk⟩

end Token

end Propositional
