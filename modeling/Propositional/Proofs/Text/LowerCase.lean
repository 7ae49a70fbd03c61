import Propositional.Proofs.Token.Word

/-!
# Lower case is final

No character that is the lower case of another one is moved itself. Below code point 128 that is the
ASCII mapping. Beyond, it is checked run by run: no run moves a character to where a run begins to
move it on.

* `caseRuns_miss`: the check of the table.
* `lower_lower`: a text in lower case stays what it is.
-/

namespace Propositional.Text

variable {c : Char} {n : Nat} {r r' : CaseRun}

/-- Where a run moves a code point. -/
def CaseRun.image (r : CaseRun) (n : Nat) : Nat := (n + r.shift).toNat

/-- Whether `r'` moves nothing of what `r` has moved: it lies beside the image of `r`, or it moves
the code points in between. -/
def CaseRun.misses (r r' : CaseRun) : Bool :=
  r'.last.blt (r.image r.first) || (r.image r.last).blt r'.first ||
    (r'.stride == 2 && (r.stride == 2 || r.first == r.last) &&
      (r.image r.first + r'.first) % 2 == 1)

theorem caseRuns_miss : (caseRuns.all fun r => caseRuns.all r.misses) = true := by decide +kernel

theorem CaseRun.covers_iff :
    r.covers n = true ↔ r.first ≤ n ∧ n ≤ r.last ∧ (n - r.first) % r.stride = 0 := by
  simp only [covers, Bool.and_eq_true, decide_eq_true_eq, beq_iff_eq, and_assoc]

theorem CaseRun.not_covers_image (hr : 0 ≤ r.first + r.shift) (h : r.misses r' = true)
    (hn : r.covers n = true) : r'.covers (r.image n) = false := by
  obtain ⟨hfirst, hlast, hstride⟩ := covers_iff.mp hn
  rw [← Bool.not_eq_true, covers_iff]
  rintro ⟨hfirst', hlast', hstride'⟩
  simp only [misses, image, Bool.or_eq_true, Bool.and_eq_true, Nat.blt_eq, beq_iff_eq] at *
  rcases h with (h | h) | ⟨⟨h2, h⟩, hodd⟩
  · omega
  · omega
  · rw [h2] at hstride'
    rcases h with h | h
    · rw [h] at hstride
      omega
    · omega

/-- Beyond ASCII a character that no run covers stays. -/
theorem lower_of_not_covers (hc : 128 ≤ c.toNat)
    (h : ∀ r ∈ caseRuns, r.covers c.toNat = false) : lower c = c := by
  have hnone : caseRuns.find? (·.covers c.toNat) = none :=
    List.find?_eq_none.mpr fun r hr => by simp [h r hr]
  rw [lower, if_neg (Nat.not_lt.mpr hc), hnone]

theorem lower_lower_of_ascii (hc : c.toNat < 128) : lower (lower c) = lower c := by
  have hall : ∀ n < 128, lower (lower (Char.ofNat n)) = lower (Char.ofNat n) := by decide
  exact of_code c hc hall

/-- **Lower case is final.** -/
theorem lower_lower (c : Char) : lower (lower c) = lower c := by
  by_cases hc : c.toNat < 128
  · exact lower_lower_of_ascii hc
  have hc := Nat.le_of_not_lt hc
  cases hfind : caseRuns.find? (·.covers c.toNat) with
  | none =>
    have hkeep : lower c = c := lower_of_not_covers hc fun r hr => by
      simpa using List.find?_eq_none.mp hfind r hr
    rw [hkeep, hkeep]
  | some r =>
    have hr := List.mem_of_find?_eq_some hfind
    have hcov := List.find?_some hfind
    have hlower : lower c = Char.ofNat (r.image c.toNat) := by
      rw [lower, if_neg (Nat.not_lt.mpr hc), hfind]
      rfl
    by_cases hascii : (lower c).toNat < 128
    · -- an image in ASCII is `k` or no character at all, and both stay
      rcases toNat_lower_of_not_ascii hc with h | h | h
      · omega
      · rw [h]
        decide
      · have hzero : lower c = Char.ofNat 0 := by rw [← h, Char.ofNat_toNat]
        rw [hzero]
        decide
    · have hcode : (lower c).toNat = r.image c.toNat := by
        rw [hlower] at hascii ⊢
        rcases toNat_ofNat_eq_or_zero (r.image c.toNat) with h | h
        · exact h
        · omega
      have hstart : 0 ≤ r.first + r.shift := by
        rcases caseRuns_leave_ascii r hr with h | ⟨h1, -, h3⟩ <;> omega
      refine lower_of_not_covers (Nat.le_of_not_lt hascii) fun r' hr' => ?_
      have hmiss : r.misses r' = true :=
        List.all_eq_true.mp (List.all_eq_true.mp caseRuns_miss r hr) r' hr'
      rw [hcode]
      exact CaseRun.not_covers_image hstart hmiss hcov

end Propositional.Text
