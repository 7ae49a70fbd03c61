import Propositional.Proofs.Formula.Truth

/-!
# Evaluation while variables receive values

An assignment may leave variables open, and evaluation reports the first open variable that it
meets. More values never change a truth value that was there, and a variable that has been given a
value is not reported again. So it takes no more rounds than there are open variables until a
formula has a truth value, if in each round the variable that is reported is given one.

* `Assignment.Extends`: one assignment has the values of another one, and perhaps more.
* `evaluate_of_extends`, `evaluate_congr`: truth values stay, and only the variables of the formula
  matter.
* `mem_openNames_of_error`: the variable that is reported occurs in the formula and is open.
* `exists_evaluateAsking`: the rounds come to an end.
* `evaluate_under_partial_assignment`: the account of partial assignments.
-/

namespace Propositional

namespace Assignment

/-- The values of `s` are also values of `s'`. -/
def Extends (s' s : Assignment) : Prop := ∀ x b, s x = some b → s' x = some b

/-- The assignment with one variable given a value. -/
def assign (s : Assignment) (x : String) (b : Bool) : Assignment :=
  fun y => if y = x then some b else s y

variable {s s' s'' : Assignment} {x : String} {b : Bool}

theorem Extends.refl (s : Assignment) : s.Extends s := fun _ _ h => h

theorem Extends.trans (h' : s''.Extends s') (h : s'.Extends s) : s''.Extends s :=
  fun x b hb => h' x b (h x b hb)

theorem assign_self : s.assign x b x = some b := if_pos rfl

theorem extends_assign (hx : s x = none) : (s.assign x b).Extends s := by
  intro y c hc
  have hne : y ≠ x := by
    rintro rfl
    rw [hx] at hc
    cases hc
  rwa [assign, if_neg hne]

end Assignment

namespace Formula

variable {s s' : Assignment} {f : Formula} {b : Bool} {e : Unassigned}

/-- The variables of the formula that are open. -/
def openNames (s : Assignment) (f : Formula) : List String :=
  (names [f]).filter fun x => (s x).isNone

/-- Evaluates the formula, where up to `n` times the variable that is reported is given a value. The
value that `answer` has for it may depend on those that are there. -/
def evaluateAsking (answer : Assignment → String → Bool) (f : Formula) :
    Nat → Assignment → Except Unassigned Bool
  | 0, s => f.evaluate s
  | n + 1, s =>
    match f.evaluate s with
    | .ok b => .ok b
    | .error e => f.evaluateAsking answer n (s.assign e.name (answer s e.name))

/-! ## More values -/

/-- **A truth value stays** when variables receive values. -/
theorem evaluate_of_extends (hs : s'.Extends s) (h : f.evaluate s = .ok b) :
    f.evaluate s' = .ok b := by
  induction f generalizing b with
  | var x =>
    rw [evaluate] at h ⊢
    cases hx : s x with
    | none => simp [hx] at h
    | some c => simpa [hs x c hx, hx] using h
  | const c => exact h
  | neg a ih => exact evaluate_neg_iff.mpr (ih (evaluate_neg_iff.mp h))
  | binary op l r ihl ihr =>
    obtain ⟨c, hl, hsettled | ⟨hopen, hr⟩⟩ := evaluate_binary_iff.mp h
    · exact evaluate_binary_iff.mpr ⟨c, ihl hl, Or.inl hsettled⟩
    · exact evaluate_binary_iff.mpr ⟨c, ihl hl, Or.inr ⟨hopen, ihr hr⟩⟩

/-- **Only the variables of the formula matter**, also for what is reported. -/
theorem evaluate_congr (h : ∀ x ∈ names [f], s' x = s x) : f.evaluate s' = f.evaluate s := by
  induction f with
  | var x => rw [evaluate, evaluate, h x (mem_names_var.mpr rfl)]
  | const c => rfl
  | neg a ih => rw [evaluate, evaluate, ih (forall_mem_names_neg.mp h)]
  | binary op l r ihl ihr =>
    obtain ⟨hl, hr⟩ := forall_mem_names_binary.mp h
    rw [evaluate, evaluate, ihl hl, ihr hr]

/-! ## What is reported -/

/-- **The variable that is reported occurs in the formula and is open.** -/
theorem mem_openNames_of_error (h : f.evaluate s = .error e) : e.name ∈ openNames s f := by
  rw [openNames, List.mem_filter]
  induction f with
  | var x =>
    rw [evaluate] at h
    cases hx : s x with
    | none =>
      rw [hx] at h
      obtain rfl := Except.error.inj h
      exact ⟨mem_names_var.mpr rfl, by rw [hx]; rfl⟩
    | some c => simp [hx] at h
  | const c => cases h
  | neg a ih =>
    rw [evaluate] at h
    split at h
    · cases h
    · rename_i e' ha
      obtain rfl := Except.error.inj h
      exact (ih ha).imp_left mem_names_neg.mpr
  | binary op l r ihl ihr =>
    rw [evaluate] at h
    split at h
    · split at h
      · cases h
      · exact (ihr h).imp_left fun hx => mem_names_binary.mpr (Or.inr hx)
    · rename_i e' hl
      obtain rfl := Except.error.inj h
      exact (ihl hl).imp_left fun hx => mem_names_binary.mpr (Or.inl hx)

theorem openNames_of_extends (hs : s'.Extends s) :
    openNames s' f = (openNames s f).filter fun x => (s' x).isNone := by
  rw [openNames, openNames, List.filter_filter]
  refine List.filter_congr fun x _ => ?_
  cases hx : s x with
  | none => simp
  | some b => simp [hs x b hx]

/-- With the variable that is reported given a value, fewer are open. -/
theorem length_openNames_lt (hs : s'.Extends s) (he : f.evaluate s = .error e)
    (hx : (s' e.name).isSome) : (openNames s' f).length < (openNames s f).length := by
  rw [openNames_of_extends hs, List.length_filter_lt_length_iff_exists]
  exact ⟨e.name, mem_openNames_of_error he, by simpa using Option.isSome_iff_ne_none.mp hx⟩

/-! ## Rounds of questions -/

/-- **There are no more rounds than open variables.** -/
theorem exists_evaluateAsking (answer : Assignment → String → Bool) {n : Nat}
    (hn : (openNames s f).length ≤ n) :
    ∃ s' b, s'.Extends s ∧ f.evaluate s' = .ok b ∧ f.evaluateAsking answer n s = .ok b := by
  induction n generalizing s with
  | zero =>
    cases he : f.evaluate s with
    | ok b => exact ⟨s, b, .refl s, he, he⟩
    | error e =>
      have hpos := List.length_pos_of_mem (mem_openNames_of_error he)
      omega
  | succ n ih =>
    rw [evaluateAsking]
    cases he : f.evaluate s with
    | ok b => exact ⟨s, b, .refl s, he, rfl⟩
    | error e =>
      obtain ⟨-, hnone⟩ := List.mem_filter.mp (mem_openNames_of_error he)
      have hext : (s.assign e.name (answer s e.name)).Extends s :=
        Assignment.extends_assign (by simpa using hnone)
      have hless := length_openNames_lt hext he (by rw [Assignment.assign_self]; rfl)
      obtain ⟨s', b, hs', hb, hasked⟩ := ih (Nat.le_of_lt_succ (Nat.lt_of_lt_of_le hless hn))
      exact ⟨s', b, hs'.trans hext, hb, hasked⟩

/-! ## The account of partial assignments -/

/-- **Evaluation under a partial assignment is sound and makes progress.** For every formula and
assignment,

* a truth value is the one under every assignment that has more values, and evaluation comes to the
  same under every assignment that agrees on the variables of the formula;
* if all these have values, there is a truth value;
* a variable that is reported occurs in the formula and is open, and under an assignment that has
  more values, one for this variable among them, another one is reported, if any;
* if the variable that is reported is given a value again and again, whichever it is, then after at
  most as many rounds as variables of the formula are open there is a truth value, one under an
  assignment with more values. -/
theorem evaluate_under_partial_assignment (f : Formula) (s : Assignment) :
    (∀ b, f.evaluate s = .ok b → ∀ s' : Assignment, s'.Extends s → f.evaluate s' = .ok b) ∧
      (∀ s' : Assignment, (∀ x ∈ names [f], s' x = s x) → f.evaluate s' = f.evaluate s) ∧
      ((∀ x ∈ names [f], (s x).isSome) → ∃ b, f.evaluate s = .ok b) ∧
      (∀ e, f.evaluate s = .error e → e.name ∈ names [f] ∧ s e.name = none ∧
        ∀ s' : Assignment, s'.Extends s → (s' e.name).isSome →
          ∀ e', f.evaluate s' = .error e' → e'.name ≠ e.name) ∧
      ∀ answer : Assignment → String → Bool, ∃ s' b, s'.Extends s ∧ f.evaluate s' = .ok b ∧
        f.evaluateAsking answer ((names [f]).filter fun x => (s x).isNone).length s = .ok b := by
  refine ⟨fun b hb s' hs => evaluate_of_extends hs hb, fun s' hs => evaluate_congr hs,
    exists_evaluate f, fun e he => ?_, fun answer => exists_evaluateAsking answer (Nat.le_refl _)⟩
  obtain ⟨hmem, hnone⟩ := List.mem_filter.mp (mem_openNames_of_error he)
  refine ⟨hmem, by simpa using hnone, fun s' _ hsome e' he' heq => ?_⟩
  obtain ⟨-, hnone'⟩ := List.mem_filter.mp (mem_openNames_of_error he')
  rw [heq] at hnone'
  simp [Option.isNone_iff_eq_none.mp hnone'] at hsome

/-- In `A ⋀ (B ⋁ C)` with a value for `A` only, `B` is reported; once `B` has a value it is `C`, and
after two rounds there is a truth value. If `A` is false the formula is false, whatever else is
known. -/
theorem evaluate_under_partial_assignment_two_open :
    let f : Formula := binary .and (var "A") (binary .or (var "B") (var "C"))
    let s := Assignment.ofList [("A", true)]
    let s' := s.assign "B" false
    let t := Assignment.ofList [("A", false)]
    f.evaluate s = .error ⟨"B"⟩ ∧ s "B" = none ∧ f.evaluate s' = .error ⟨"C"⟩ ∧ "C" ≠ "B" ∧
      (∃ b, f.evaluateAsking (fun _ _ => false) 2 s = .ok b) ∧
      (∃ b, f.evaluate (s'.assign "C" true) = .ok b) ∧
      f.evaluate (t.assign "B" true) = .ok false ∧ f.evaluate (t.assign "D" true) = .ok false := by
  intro f s s' t
  have hnames : names [f] = ["A", "B", "C"] := by decide +kernel
  obtain ⟨-, -, -, hreported, hasked⟩ := evaluate_under_partial_assignment f s
  obtain ⟨-, -, hcovered, -, -⟩ := evaluate_under_partial_assignment f (s'.assign "C" true)
  obtain ⟨hstays, hagrees, -, -, -⟩ := evaluate_under_partial_assignment f t
  obtain ⟨-, hopen, hother⟩ := hreported ⟨"B"⟩ rfl
  obtain ⟨-, b, -, -, hb⟩ := hasked fun _ _ => false
  rw [hnames] at hagrees hcovered hb
  refine ⟨rfl, hopen, rfl, hother s' (Assignment.extends_assign rfl) rfl ⟨"C"⟩ rfl, ⟨b, hb⟩,
    hcovered fun x hx => ?_, hstays false rfl _ (Assignment.extends_assign rfl),
    hagrees _ fun x hx => ?_⟩
  · simp only [List.mem_cons, List.not_mem_nil, or_false] at hx
    rcases hx with rfl | rfl | rfl <;> rfl
  · exact if_neg (by rintro rfl; exact absurd hx (by decide))

end Formula

end Propositional
