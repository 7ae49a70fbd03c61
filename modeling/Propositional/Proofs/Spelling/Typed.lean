import Propositional.Proofs.Grammar.Alike
import Propositional.Proofs.Spelling.Written

/-!
# Typed tokens are found

There are many ways of typing the same tokens: a connective has several spellings, case does not
matter in a word, and separators may stand anywhere. Cutting undoes the choice of the spelling,
scanning that of the separators, and reading that of the case of a constant.

* `Token.TypedAs`, `Token.WrittenAs`: how a token is typed, and how it stands in a canonical text.
* `Typed`: a text that consists of such tokens and of separators.
* `Typed.folded`: a typed text is one in lower case too.
* `Token.TypedAs.cuts` for one token, `Typed.cut` for a text: a typed text is cut into a canonical
  one. Spellings may touch; what keeps `&` and `&&` apart is that no connective follows another one.
* `Typed.scan`: a canonical text is scanned as tokens that the reader takes for the given ones.
-/

namespace Propositional

open Text Token Spelling

variable {caseSensitive : Bool} {n : Nat} {before : Option Char} {c : Char} {t : Token}
  {ts : List Token} {cs rest word : List Char} {s : Spelling}

namespace Token

/-- The ways of typing a token. -/
inductive TypedAs (t : Token) : List Char → Prop
  | name (hk : t.kind = .name) : TypedAs t t.text
  | truth {b : Bool} {cs : List Char} (hk : t.kind = .truth b)
      (hcs : cs.map Char.toLower = (Canonical.constantName false b).toList) : TypedAs t cs
  | connective {s : Spelling} {cs : List Char} (hs : s ∈ all) (hk : t.kind = symbolKind s.symbol)
      (hcs : s.Spells cs) : TypedAs t cs
  | openParen (hk : t.kind = .openParen) : TypedAs t ['(']
  | closeParen (hk : t.kind = .closeParen) : TypedAs t [')']

/-- If the token is a name, that name is stable. -/
def Stable (caseSensitive : Bool) (t : Token) : Prop :=
  t.kind = .name → StableName caseSensitive (String.ofList t.text)

theorem Stable.operand (h : t.Stable caseSensitive) (hk : t.kind = .name) :
    Operand t.kind t.text := by
  have hoperand := (h hk).operand
  rwa [String.toList_ofList, ← hk] at hoperand

theorem Stable.map_lower (h : t.Stable false) (hk : t.kind = .name) : t.text.map lower = t.text := by
  have hfolded := (h hk).folded
  rwa [String.toList_ofList] at hfolded

/-- What stands for a token in a canonical text. Only a constant leaves a choice, that of its
case. -/
inductive WrittenAs (t : Token) : List Char → Prop
  | word {cs : List Char} (h : Operand t.kind cs) (htext : t.kind = .name → t.text = cs) :
      WrittenAs t cs
  | symbol {c : Char} (hc : IsSymbol c) (hk : t.kind = symbolKind c) : WrittenAs t [c]

end Token

/-- The text consists of the tokens, each in one of its ways, and of separators before, between and
behind them. Where two tokens would touch with a letter on both sides there is a separator. -/
inductive Typed (way : Token → List Char → Prop) : List Token → List Char → Prop
  | nil : Typed way [] []
  | separator {c : Char} {ts : List Token} {cs : List Char} (hc : isSeparator c = true)
      (h : Typed way ts cs) : Typed way ts (c :: cs)
  | token {t : Token} {ts : List Token} {word rest : List Char} (ht : way t word)
      (h : Typed way ts rest)
      (hapart : word.getLast?.any isLetter = true → rest.takeWhile isLetter = []) :
      Typed way (t :: ts) (word ++ rest)

/-! ## Scanning -/

/-- **A canonical text is scanned as the tokens for which it was written.** -/
theorem Typed.scan (h : Typed WrittenAs ts cs) (n : Nat) :
    List.Forall₂ Token.Alike ts (scanFrom n cs) := by
  induction h generalizing n with
  | nil =>
    rw [scanFrom]
    exact .nil
  | separator hc _ ih =>
    rw [scanFrom, if_pos hc]
    exact ih (n + 1)
  | @token t ts word rest ht _ hapart ih =>
    cases ht with
    | word h htext =>
      rw [scanFrom_word h.nonempty h.letters (hapart (any_getLast?_of_all h.nonempty h.letters))]
      exact .cons ⟨h.wordKind.symm, htext⟩ (ih _)
    | symbol hc hk =>
      rw [List.singleton_append, scanFrom_symbol hc.1 hc.2]
      refine .cons ⟨hk, fun hname => ?_⟩ (ih _)
      exact absurd (hk.symm.trans hname) (symbolKind_ne_name _)

/-! ## One token -/

namespace Piece

/-- In front of `rest` the typed `word` is cut into the characters `written`. If `rest` begins with
a letter, none stands before it, and none will. -/
def Cuts (n : Nat) (before : Option Char) (word rest written : List Char) : Prop :=
  ∃ (last : Option Char) (done : List Piece),
    cut n before (word ++ rest) = (cut (n + word.length) last rest).map (done ++ ·) ∧
      done.map (·.char) = written ∧
      (last.any isLetter = true ∨ written.getLast?.any isLetter = true →
        rest.takeWhile isLetter = [])

theorem Keeps.cuts (h : Keeps n before word rest) (hrest : rest.takeWhile isLetter = []) :
    Cuts n before word rest word := by
  obtain ⟨last, hlast⟩ := h
  exact ⟨last, inPlace n word, hlast, map_char_inPlace n word, fun _ => hrest⟩

theorem cuts_of_operand {k : Kind} (h : Operand k word)
    (hrest : word.getLast?.any isLetter = true → rest.takeWhile isLetter = []) :
    Cuts n before word rest word := by
  have hend := hrest (any_getLast?_of_all h.nonempty h.letters)
  exact (keeps_word h.nonempty h.letters hend h.not_reserved).cuts hend

/-- A spelling that is found is cut into its symbol. -/
theorem cuts_of_at? (hat : at? before (word ++ rest) = some s) (hspells : s.Spells word)
    (hrest : word.getLast?.any isLetter = true → rest.takeWhile isLetter = []) :
    Cuts n before word rest [s.symbol] := by
  have hs := mem_all_of_at? hat
  have hlength := (hspells.reads hs).length_eq hs
  have hsymbol := all_symbols s hs
  refine ⟨word.getLast?, [⟨s.symbol, n⟩], ?_, rfl, ?_⟩
  · rw [cut_append_of_some hlength hat, if_pos hspells]
    rfl
  · rintro (hlast | hlast)
    · exact hrest hlast
    · rw [List.getLast?_singleton, Option.any_some, hsymbol] at hlast
      cases hlast

theorem cuts_of_isKept (h : IsKept c) : Cuts n before [c] rest [c] := by
  refine ⟨some c, [⟨c, n⟩], cut_cons_of_isKept h, rfl, ?_⟩
  rw [List.getLast?_singleton, Option.any_some, h.1]
  rintro (hlast | hlast) <;> cases hlast

end Piece

/-- What begins with half a sign stands for a connective with two operands. -/
theorem symbolKind_of_half : ∀ s ∈ all, s.text.head? = some '&' ∨ s.text.head? = some '|' →
    symbolKind s.symbol = .binary .and ∨ symbolKind s.symbol = .binary .or := by
  decide

theorem isSymbol_of_mem_all : ∀ s ∈ all, IsSymbol s.symbol := by decide +kernel

/-- **A spelling is found where it was typed.** -/
theorem at?_of_spells (hs : s ∈ all) (h : s.Spells word)
    (hbefore : before.any isLetter = true → (word ++ rest).takeWhile isLetter = [])
    (hrest : word.getLast?.any isLetter = true → rest.takeWhile isLetter = [])
    (hnext : ∀ op, symbolKind s.symbol = .binary op →
      rest.head? ≠ some '&' ∧ rest.head? ≠ some '|') :
    at? before (word ++ rest) = some s := by
  cases hw : s.isWord with
  | true =>
    have hend := hrest (any_getLast?_of_all (h.ne_nil hs) (h.isLetter_of_mem hs hw))
    exact at?_of_word hs hw h hend hbefore
  | false =>
    obtain rfl := (spells_sign hw).mp h
    refine at?_of_sign hs hw ?_
    -- if the rest went on with the other half, the connective would have two operands
    rintro hhalf ⟨post, hpost⟩
    have hhead : s.text.head? = some '&' ∨ s.text.head? = some '|' := by
      rcases hhalf with h | h <;> simp [h]
    have hnext : rest.head? ≠ some '&' ∧ rest.head? ≠ some '|' := by
      rcases symbolKind_of_half s hs hhead with hkind | hkind
      · exact hnext _ hkind
      · exact hnext _ hkind
    rcases hhalf with h | h <;> simp [← hpost, h] at hnext

/-- **A typed token is cut into what stands for it in a canonical text.** -/
theorem Token.TypedAs.cuts (h : t.TypedAs word)
    (hname : t.Stable caseSensitive)
    (hbefore : before.any isLetter = true → (word ++ rest).takeWhile isLetter = [])
    (hrest : word.getLast?.any isLetter = true → rest.takeWhile isLetter = [])
    (hnext : ∀ op, t.kind = .binary op → rest.head? ≠ some '&' ∧ rest.head? ≠ some '|') :
    ∃ written, t.WrittenAs written ∧ Piece.Cuts n before word rest written := by
  cases h with
  | name hk =>
    have hoperand := hname.operand hk
    exact ⟨_, .word hoperand fun _ => rfl, Piece.cuts_of_operand hoperand hrest⟩
  | truth hk hcs =>
    have hoperand := (operand_of_constant hcs).2
    refine ⟨_, .word (hk ▸ hoperand) fun hk' => ?_, Piece.cuts_of_operand hoperand hrest⟩
    rw [hk] at hk'
    cases hk'
  | connective hs hk hcs =>
    have hat := at?_of_spells hs hcs hbefore hrest fun op hop => hnext op (hk.trans hop)
    exact ⟨_, .symbol (isSymbol_of_mem_all _ hs) hk, Piece.cuts_of_at? hat hcs hrest⟩
  | openParen hk =>
    exact ⟨_, .symbol isSymbol_openParen (hk.trans (by decide)),
      Piece.cuts_of_isKept Piece.isKept_openParen⟩
  | closeParen hk =>
    exact ⟨_, .symbol isSymbol_closeParen (hk.trans (by decide)),
      Piece.cuts_of_isKept Piece.isKept_closeParen⟩

/-! ## Cutting -/

theorem Token.TypedAs.ne_nil (h : t.TypedAs word)
    (hname : t.Stable caseSensitive) : word ≠ [] := by
  cases h with
  | name hk => exact (hname.operand hk).nonempty
  | truth hk hcs => exact (operand_of_constant hcs).2.nonempty
  | connective hs hk hcs => exact hcs.ne_nil hs
  | openParen hk => exact List.cons_ne_nil _ _
  | closeParen hk => exact List.cons_ne_nil _ _

/-- Only a connective with two operands is typed with half a sign in front. -/
theorem Token.TypedAs.exists_binary (h : t.TypedAs word)
    (hname : t.Stable caseSensitive)
    (hhead : word.head? = some '&' ∨ word.head? = some '|') : ∃ op, t.kind = .binary op := by
  have hletters (hl : ∀ c ∈ word, isLetter c = true) : False := by
    have hhalf : isLetter '&' = false ∧ isLetter '|' = false := by decide
    rcases hhead with h | h <;> simp [hl _ (List.mem_of_head? h)] at hhalf
  cases h with
  | name hk => exact (hletters (hname.operand hk).letters).elim
  | truth hk hcs => exact (hletters (operand_of_constant hcs).2.letters).elim
  | @connective s _ hs hk hcs =>
    cases hw : s.isWord with
    | true => exact (hletters (hcs.isLetter_of_mem hs hw)).elim
    | false =>
      rw [(spells_sign hw).mp hcs] at hhead
      rcases symbolKind_of_half s hs hhead with hkind | hkind
      · exact ⟨.and, hk.trans hkind⟩
      · exact ⟨.or, hk.trans hkind⟩
  | openParen hk => rcases hhead with h | h <;> cases h
  | closeParen hk => rcases hhead with h | h <;> cases h

/-- **A typed text that begins with half a sign begins with a connective that has two operands.** -/
theorem Typed.exists_binary (h : Typed TypedAs ts cs)
    (hname : ∀ t ∈ ts, t.Stable caseSensitive)
    (hhead : cs.head? = some '&' ∨ cs.head? = some '|') :
    ∃ t us op, ts = t :: us ∧ t.kind = .binary op := by
  cases h with
  | nil => rcases hhead with h | h <;> cases h
  | separator hc _ =>
    rw [List.head?_cons, Option.some.injEq, Option.some.injEq] at hhead
    rcases hhead with rfl | rfl <;> cases hc
  | @token t us word rest ht _ _ =>
    have hstable := hname t List.mem_cons_self
    rw [List.head?_append_of_ne_nil _ (ht.ne_nil hstable)] at hhead
    obtain ⟨op, hop⟩ := ht.exists_binary hstable hhead
    exact ⟨t, us, op, rfl, hop⟩

/-- **Every typed text is cut into a canonical one**, whatever stands before it. -/
theorem Typed.cut (h : Typed TypedAs ts cs)
    (hname : ∀ t ∈ ts, t.Stable caseSensitive)
    (hchain : ts.IsChain Token.Apart) (n : Nat) (before : Option Char)
    (hbefore : before.any isLetter = true → cs.takeWhile isLetter = []) :
    ∃ pieces, Piece.cut n before cs = .ok pieces ∧ Typed WrittenAs ts (pieces.map (·.char)) := by
  induction h generalizing n before with
  | nil =>
    refine ⟨[], ?_, .nil⟩
    rw [Piece.cut]
  | @separator c ts cs hc _ ih =>
    have hkept : Piece.IsKept c := by
      rcases isSeparator_iff.mp hc with rfl | rfl | rfl | rfl <;> decide
    obtain ⟨tail, htail, htyped⟩ := ih hname hchain (n + 1) (some c) (by simp [hkept.1])
    exact ⟨⟨c, n⟩ :: tail, by rw [Piece.cut_cons_of_isKept hkept, htail]; rfl, htyped.separator hc⟩
  | @token t ts word rest ht htyped hapart ih =>
    have hnext (op : Connective) (hop : t.kind = .binary op) :
        rest.head? ≠ some '&' ∧ rest.head? ≠ some '|' := by
      rw [← not_or]
      intro hhead
      obtain ⟨u, us, op', rfl, hop'⟩ :=
        htyped.exists_binary (fun u hu => hname u (List.mem_cons_of_mem t hu)) hhead
      exact (List.isChain_cons_cons.mp hchain).1 op op' hop hop'
    obtain ⟨written, hwritten, last, done, hcut, hdone, hlast⟩ :=
      ht.cuts (n := n) (hname t List.mem_cons_self) hbefore hapart hnext
    obtain ⟨tail, htail, hrest⟩ := ih (fun u hu => hname u (List.mem_cons_of_mem t hu))
      hchain.tail (n + word.length) last fun hb => hlast (Or.inl hb)
    refine ⟨done ++ tail, by rw [hcut, htail]; rfl, ?_⟩
    rw [List.map_append, hdone]
    exact .token hwritten hrest fun hw => Piece.takeWhile_of_cut (hlast (Or.inr hw)) htail

/-! ## Lower case -/

theorem isLetter_lower (h : c.toNat < 128 ∨ lower c = c) : isLetter (lower c) = isLetter c := by
  rcases h with hascii | hstays
  · have hall : ∀ n < 128, isLetter (lower (Char.ofNat n)) = isLetter (Char.ofNat n) := by
      decide
    exact of_code c hascii hall
  · rw [hstays]

theorem map_toLower_map_lower (h : ∀ c ∈ cs, c.toNat < 128) :
    (cs.map lower).map Char.toLower = cs.map Char.toLower := by
  have hall : ∀ n < 128, (lower (Char.ofNat n)).toLower = (Char.ofNat n).toLower := by decide
  rw [List.map_map]
  exact List.map_congr_left fun c hc => of_code c (h c hc) hall

theorem takeWhile_map_lower (h : ∀ c ∈ cs, isLetter (lower c) = isLetter c) :
    (cs.map lower).takeWhile isLetter = (cs.takeWhile isLetter).map lower := by
  induction cs with
  | nil => rfl
  | cons c cs ih =>
    rw [List.map_cons, List.takeWhile_cons, List.takeWhile_cons, h c List.mem_cons_self,
      ih fun a ha => h a (List.mem_cons_of_mem c ha)]
    split <;> rfl

theorem any_isLetter_map_lower {o : Option Char} (h : ∀ c ∈ o, isLetter (lower c) = isLetter c) :
    (o.map lower).any isLetter = o.any isLetter := by
  cases o with
  | none => rfl
  | some c => exact h c rfl

/-- In lower case a token is typed in one of its ways too, and its letters are still letters. -/
theorem Token.TypedAs.map_lower (h : t.TypedAs word)
    (hname : t.Stable false) :
    t.TypedAs (word.map lower) ∧ ∀ c ∈ word, c.toNat < 128 ∨ lower c = c := by
  have hstays (heq : word.map lower = word) :
      t.TypedAs (word.map lower) ∧ ∀ c ∈ word, c.toNat < 128 ∨ lower c = c :=
    ⟨heq.symm ▸ h, fun c hc =>
      Or.inr (List.map_inj_left.mp (heq.trans (List.map_id word).symm) c hc)⟩
  cases h with
  | name hk => exact hstays (hname.map_lower hk)
  | truth hk hcs =>
    have hascii : ∀ c ∈ word, c.toNat < 128 := (operand_of_constant hcs).1
    exact ⟨.truth hk ((map_toLower_map_lower hascii).trans hcs), fun c hc => Or.inl (hascii c hc)⟩
  | @connective s _ hs hk hcs =>
    cases hw : s.isWord with
    | true =>
      have hascii := hcs.ascii hs hw
      refine ⟨.connective hs hk ?_, fun c hc => Or.inl (hascii c hc)⟩
      rw [spells_word hw, map_toLower_map_lower hascii]
      exact (spells_word hw).mp hcs
    | false =>
      have hsigns : ∀ s ∈ all, s.isWord = false → s.text.map lower = s.text := by decide
      exact hstays ((spells_sign hw).mp hcs ▸ hsigns s hs hw)
  | openParen hk => exact hstays (by decide)
  | closeParen hk => exact hstays (by decide)

/-- **A typed text is a typed text in lower case too.** -/
theorem Typed.folded (h : Typed TypedAs ts cs)
    (hname : ∀ t ∈ ts, t.Stable caseSensitive) :
    Typed TypedAs ts (Canonical.folded caseSensitive cs) := by
  cases caseSensitive with
  | true => exact h
  | false =>
    suffices hlower : Typed TypedAs ts (cs.map lower) ∧
        ∀ c ∈ cs, c.toNat < 128 ∨ lower c = c from hlower.1
    induction h with
    | nil => exact ⟨.nil, fun c hc => absurd hc List.not_mem_nil⟩
    | @separator c ts cs hc _ ih =>
      obtain ⟨htyped, hcs⟩ := ih hname
      have hsep : lower c = c := by
        rcases isSeparator_iff.mp hc with rfl | rfl | rfl | rfl <;> decide
      refine ⟨?_, List.forall_mem_cons.mpr ⟨Or.inr hsep, hcs⟩⟩
      rw [List.map_cons, hsep]
      exact htyped.separator hc
    | @token t ts word rest ht _ hapart ih =>
      obtain ⟨htyped, hrest⟩ := ih fun u hu => hname u (List.mem_cons_of_mem t hu)
      obtain ⟨hword, hchars⟩ := ht.map_lower (hname t List.mem_cons_self)
      refine ⟨?_, List.forall_mem_append.mpr ⟨hchars, hrest⟩⟩
      rw [List.map_append]
      refine .token hword htyped fun hlast => ?_
      rw [List.getLast?_map, any_isLetter_map_lower fun c hc =>
        isLetter_lower (hchars c (List.mem_of_getLast? hc))] at hlast
      rw [takeWhile_map_lower fun c hc => isLetter_lower (hrest c hc), hapart hlast, List.map_nil]

end Propositional
