-- Runs of a system that takes one event at a time and may refuse it. Each
-- system below is a function `step : σ → ε → Except ρ σ`; the rules for what a
-- step gives, and the laws of runs, invariants, refusals and maximal runs, are
-- stated once here.
import Mathlib.Data.List.Induction
import Mathlib.Data.List.Flatten

namespace event_runs

variable {σ ε ρ τ δ : Type}

/-! ## Results of a step -/

theorem bind_ok_iff {α β : Type} {x : Except ρ α} {f : α → Except ρ β} {b : β} :
    (x >>= f) = .ok b ↔ ∃ a, x = .ok a ∧ f a = .ok b := by
  cases x with
  | error r => simp [bind, Except.bind]
  | ok a => simp [bind, Except.bind]

/-- The result is an answer with `Q`, or a refusal for a reason with `R`. -/
def Gives {α : Type} (R : ρ → Prop) (x : Except ρ α) (Q : α → Prop) : Prop :=
  match x with
  | .ok a => Q a
  | .error r => R r

section rules

variable {α β : Type} {R R' : ρ → Prop} {x : Except ρ α} {f : α → Except ρ β} {P P' : α → Prop}
  {Q : β → Prop} {a : α} {r : ρ}

theorem gives_pure (h : P a) : Gives R (pure a) P := h

theorem gives_ok (h : P a) : Gives R (.ok a) P := h

theorem gives_error (h : R r) : Gives R (.error r : Except ρ α) P := h

theorem gives_of_ok (hx : x = .ok a) (h : P a) : Gives R x P := by
  subst hx
  exact h

theorem gives_bind (hx : Gives R x P) (hf : ∀ a, P a → Gives R (f a) Q) :
    Gives R (x >>= f) Q := by
  cases x with
  | error r => exact hx
  | ok a => exact hf a hx

theorem gives_bind_ok (hx : x = .ok a) (hf : Gives R (f a) Q) : Gives R (x >>= f) Q := by
  subst hx
  exact hf

theorem gives_mono (h : Gives R x P) (hR : ∀ r, R r → R' r) (hP : ∀ a, P a → P' a) :
    Gives R' x P' := by
  cases x with
  | error r => exact hR r h
  | ok a => exact hP a h

theorem of_gives (h : Gives R x P) (hx : x = .ok a) : P a := by
  subst hx
  exact h

theorem reason_of_gives (h : Gives R x P) (hx : x = .error r) : R r := by
  subst hx
  exact h

end rules

/-! ## Runs -/

/-- The state after the events of a list, or the reason that the first refused event got. -/
def run (step : σ → ε → Except ρ σ) (s : σ) (es : List ε) : Except ρ σ := es.foldlM step s

variable {step : σ → ε → Except ρ σ} {s₀ s s' : σ} {e : ε} {es fs : List ε}

@[simp] theorem run_nil : run step s [] = .ok s := rfl

@[simp] theorem run_cons : run step s (e :: es) = step s e >>= fun m => run step m es := rfl

theorem run_singleton : run step s [e] = step s e := by
  rw [run_cons]
  cases step s e <;> rfl

theorem run_append_ok :
    run step s (es ++ fs) = .ok s' ↔ ∃ m, run step s es = .ok m ∧ run step m fs = .ok s' := by
  unfold run
  rw [List.foldlM_append, bind_ok_iff]

theorem run_of_append (h : run step s es = .ok s') : run step s (es ++ fs) = run step s' fs := by
  unfold run at h ⊢
  rw [List.foldlM_append, h]
  rfl

theorem run_snoc_ok :
    run step s (es ++ [e]) = .ok s' ↔ ∃ m, run step s es = .ok m ∧ step m e = .ok s' := by
  rw [run_append_ok]
  simp only [run_cons, run_nil, bind_ok_iff, Except.ok.injEq]
  constructor
  · rintro ⟨m, hm, m', hstep, rfl⟩
    exact ⟨m, hm, hstep⟩
  · rintro ⟨m, hm, hstep⟩
    exact ⟨m, hm, s', hstep, rfl⟩

/-- A property of the events so far and the state reached that the start has and each step
keeps holds at the end of every run. -/
theorem run_invariant {P : List ε → σ → Prop} (h0 : P [] s₀)
    (hstep : ∀ es s e s', P es s → step s e = .ok s' → P (es ++ [e]) s')
    (h : run step s₀ es = .ok s) : P es s := by
  induction es using List.reverseRecOn generalizing s with
  | nil =>
    simp only [run_nil, Except.ok.injEq] at h
    exact h ▸ h0
  | append_singleton es e ih =>
    obtain ⟨m, hm, he⟩ := run_snoc_ok.mp h
    exact hstep es m e s (ih hm) he

/-- The same for a property of the state alone. -/
theorem run_keeps {P : σ → Prop} (h0 : P s₀)
    (hstep : ∀ s e s', P s → step s e = .ok s' → P s') (h : run step s₀ es = .ok s) : P s :=
  run_invariant (P := fun _ s => P s) h0 (fun _ s e s' => hstep s e s') h

/-- When every step from the invariant gives the invariant back or a reason in `R`, so does
every run. `R` may depend on the events, as long as more events do not take a reason away. -/
theorem run_gives {P : List ε → σ → Prop} {R : List ε → ρ → Prop} (h0 : P [] s₀)
    (hR : ∀ es e r, R es r → R (es ++ [e]) r)
    (hstep : ∀ es s e, P es s → Gives (R (es ++ [e])) (step s e) (P (es ++ [e]))) (es : List ε) :
    Gives (R es) (run step s₀ es) (P es) := by
  induction es using List.reverseRecOn with
  | nil => exact h0
  | append_singleton es e ih =>
    unfold run at ih ⊢
    rw [List.foldlM_append]
    refine gives_bind (gives_mono ih (hR es e) fun _ hm => hm) fun m hm => ?_
    simpa using hstep es m e hm

/-- A run that is seen to end, seen through `view`, has a state that it ends in. -/
theorem ran {view : σ → τ} {b : τ} (h : (run step s₀ es).toOption.map view = some b) :
    ∃ s, run step s₀ es = .ok s ∧ view s = b := by
  cases hrun : run step s₀ es with
  | error r => simp [hrun, Except.toOption] at h
  | ok s =>
    rw [hrun] at h
    exact ⟨s, rfl, Option.some.inj h⟩

/-! ## Logs -/

/-- What the entries of a log count together. -/
def tally (f : ε → Nat) : List ε → Nat
  | [] => 0
  | a :: as => f a + tally f as

section tally

variable {f : ε → Nat} {a : ε} {as bs : List ε}

@[simp] theorem tally_nil : tally f [] = 0 := rfl

@[simp] theorem tally_cons : tally f (a :: as) = f a + tally f as := rfl

@[simp] theorem tally_append : tally f (as ++ bs) = tally f as + tally f bs := by
  induction as with
  | nil => simp
  | cons a as ih => simp [ih, Nat.add_assoc]

theorem tally_eq_zero (h : ∀ a ∈ as, f a = 0) : tally f as = 0 := by
  induction as with
  | nil => rfl
  | cons a as ih =>
    rw [tally_cons, h a List.mem_cons_self, ih fun a ha => h a (List.mem_cons_of_mem _ ha)]

end tally

/-- Each entry of a log has `P` of the entries before it. -/
def Each (P : List ε → ε → Prop) (log : List ε) : Prop :=
  ∀ before a after, log = before ++ a :: after → P before a

section each

variable {P : List ε → ε → Prop} {a : ε} {as : List ε}

theorem each_nil : Each P [] := by
  intro before a after h
  simp at h

theorem each_concat (h : Each P as) (ha : P as a) : Each P (as ++ [a]) := by
  intro before b after hsplit
  rcases List.eq_nil_or_concat after with rfl | ⟨after, c, rfl⟩
  · obtain ⟨rfl, hb⟩ := List.append_inj' hsplit rfl
    cases hb
    exact ha
  · have hsplit' : as ++ [a] = (before ++ b :: after) ++ [c] := by simpa using hsplit
    exact h before b after (List.append_inj' hsplit' rfl).1

end each

/-! ## Maximal runs -/

/-- No event is accepted. -/
def Stuck (step : σ → ε → Except ρ σ) (s : σ) : Prop := ∀ e s', step s e ≠ .ok s'

/-- When each step uses up one unit of `left`, a run has as many steps as it used units. -/
theorem run_length {left : σ → Nat} (hleft : ∀ s e s', step s e = .ok s' → left s' + 1 = left s)
    (h : run step s₀ es = .ok s) : es.length + left s = left s₀ := by
  refine run_invariant (P := fun es s => es.length + left s = left s₀) (by simp) ?_ h
  intro es s e s' ih hs
  have := hleft s e s' hs
  simp only [List.length_append, List.length_singleton]
  omega

/-- Nothing happens by itself: no event of the kind `internal` is accepted. -/
def Rests (step : σ → ε → Except ρ σ) (internal : ε → Bool) (s : σ) : Prop :=
  ∀ e s', internal e = true → step s e ≠ .ok s'

/-- When each event of a kind uses up some of `left`, a run of such events is no longer than what is
there at its start. -/
theorem run_bounded {P : σ → Prop} {left : σ → Nat} {internal : ε → Bool}
    (hstep : ∀ s e s', P s → internal e = true → step s e = .ok s' → P s' ∧ left s' < left s) (hs : P s)
    (hes : ∀ e ∈ es, internal e = true) (h : run step s es = .ok s') : es.length + left s' ≤ left s := by
  induction es generalizing s with
  | nil =>
    simp only [run_nil, Except.ok.injEq] at h
    simp [h]
  | cons e es ih =>
    obtain ⟨m, hm, hrest⟩ := bind_ok_iff.mp h
    obtain ⟨hm', hless⟩ := hstep s e m hs (hes e List.mem_cons_self) hm
    have hle := ih hm' (fun e he => hes e (List.mem_cons_of_mem _ he)) hrest
    rw [List.length_cons]
    omega

/-! ## Views of a system -/

/-- When each step of a system is, seen through `view`, a run of another system, so is each
run. `seen` gives the events of the other system that one event stands for. -/
theorem run_view {stepV : τ → δ → Except ρ τ} (view : σ → τ) {seen : ε → List δ}
    (hstep : ∀ s e s', step s e = .ok s' → run stepV (view s) (seen e) = .ok (view s'))
    (h : run step s₀ es = .ok s) : run stepV (view s₀) (es.flatMap seen) = .ok (view s) := by
  refine run_invariant (P := fun es s => run stepV (view s₀) (es.flatMap seen) = .ok (view s))
    (by simp) ?_ h
  intro es s e s' ih hs
  rw [List.flatMap_append, run_append_ok]
  exact ⟨view s, ih, by simpa using hstep s e s' hs⟩

end event_runs
