import Mathlib.Data.List.Forall2

/-!
# Computations that can fail

A computation with several steps succeeds if each of its steps does, one after the other.
-/

namespace WitnessedLog

variable {ε α β σ : Type}

theorem bind_eq_ok_iff
    {first : Except ε α} {next : α → Except ε β} {b : β} :
    first >>= next = .ok b ↔ ∃ a, first = .ok a ∧ next a = .ok b := by
  cases first with
  | error e => simp [bind, Except.bind]
  | ok a => simp [bind, Except.bind]

theorem toOption_eq_some_iff
    {result : Except ε α} {a : α} :
    result.toOption = some a ↔ result = .ok a := by
  cases result with
  | error e => simp [Except.toOption]
  | ok b => simp [Except.toOption]

theorem mapM_eq_ok_iff
    {f : α → Except ε β} {list : List α} {values : List β} :
    list.mapM f = .ok values ↔ List.Forall₂ (fun a b => f a = .ok b) list values := by
  induction list generalizing values with
  | nil =>
      rw [List.mapM_nil, List.forall₂_nil_left_iff]
      exact ⟨fun h => (Except.ok.inj h).symm, fun h => congrArg Except.ok h.symm⟩
  | cons a list ih =>
      simp only [List.mapM_cons, bind_eq_ok_iff, List.forall₂_cons_left_iff, ih]
      constructor
      · rintro ⟨b, hb, bs, hbs, hvalues⟩
        exact ⟨b, bs, hb, hbs, (Except.ok.inj hvalues).symm⟩
      · rintro ⟨b, bs, hb, hbs, rfl⟩
        exact ⟨b, hb, bs, hbs, rfl⟩

theorem exists_ok_of_mapM_eq_ok
    {f : α → Except ε β} {list : List α} {values : List β}
    (h : list.mapM f = .ok values) :
    ∀ a ∈ list, ∃ b, f a = .ok b :=
  ((List.forall₂_and_left list values).mp ((mapM_eq_ok_iff.mp h).imp fun _ b hb => ⟨⟨b, hb⟩, hb⟩)).1

theorem mapM_eq_ok_map
    {list : List α} {f : α → Except ε β} {g : α → β}
    (h : ∀ a ∈ list, f a = .ok (g a)) :
    list.mapM f = .ok (list.map g) := by
  rw [mapM_eq_ok_iff, List.forall₂_map_right_iff, List.forall₂_same]
  exact h

/-- A list with failing elements fails like each of them if they all fail alike. -/
theorem mapM_eq_error
    {list : List α} {f : α → Except ε β} {e : ε}
    (h : ∀ a ∈ list, (∃ b, f a = .ok b) ∨ f a = .error e) (hfails : ∃ a ∈ list, f a = .error e) :
    list.mapM f = .error e := by
  induction list with
  | nil => simp at hfails
  | cons a list ih =>
      obtain ⟨ha, hlist⟩ := List.forall_mem_cons.mp h
      rw [List.mapM_cons]
      rcases ha with ⟨b, hb⟩ | herror
      · have hrest : ∃ a ∈ list, f a = .error e := by
          obtain ⟨failing, hmem, herror⟩ := hfails
          rcases List.mem_cons.mp hmem with rfl | hmem
          · rw [hb] at herror
            cases herror
          · exact ⟨failing, hmem, herror⟩
        rw [hb, ih hlist hrest]
        rfl
      · rw [herror]
        rfl

/-- What every successful step keeps is kept by a successful run. -/
theorem foldlM_keeps
    {step : σ → α → Except ε σ} {motive : σ → Prop} {list : List α}
    (hstep : ∀ a ∈ list, ∀ s t, step s a = .ok t → motive s → motive t)
    {start finish : σ} (h : list.foldlM step start = .ok finish) (hstart : motive start) :
    motive finish := by
  induction list generalizing start with
  | nil =>
      cases h
      exact hstart
  | cons a list ih =>
      obtain ⟨ha, hlist⟩ := List.forall_mem_cons.mp hstep
      rw [List.foldlM_cons, bind_eq_ok_iff] at h
      obtain ⟨next, hnext, h⟩ := h
      exact ih hlist h (ha start next hnext hstart)

/-- A run whose steps all succeed is the same with other steps that succeed alike. -/
theorem foldlM_eq_ok_of_imp
    {step step' : σ → α → Except ε σ} {list : List α}
    (hstep : ∀ s a t, step s a = .ok t → step' s a = .ok t)
    {start finish : σ} (h : list.foldlM step start = .ok finish) :
    list.foldlM step' start = .ok finish := by
  induction list generalizing start with
  | nil => exact h
  | cons a list ih =>
      rw [List.foldlM_cons, bind_eq_ok_iff] at h ⊢
      obtain ⟨next, hnext, h⟩ := h
      exact ⟨next, hstep start a next hnext, ih h⟩

/-! ## How a computation fails -/

/-- A computation fails only in allowed ways. -/
def FailsOnly (allowed : ε → Prop) (result : Except ε α) : Prop :=
  ∀ e, result = .error e → allowed e

section

variable {allowed : ε → Prop}

theorem failsOnly_ok (a : α) : FailsOnly allowed (.ok a) := by
  intro e h
  cases h

theorem failsOnly_error {e : ε} (h : allowed e) : FailsOnly allowed (.error e : Except ε α) := by
  rintro _ ⟨⟩
  exact h

theorem FailsOnly.bind
    {first : Except ε α} {next : α → Except ε β}
    (h : FailsOnly allowed first) (hnext : ∀ a, FailsOnly allowed (next a)) :
    FailsOnly allowed (first >>= next) := by
  cases first with
  | error e => exact failsOnly_error (h e rfl)
  | ok a => exact hnext a

theorem failsOnly_mapM
    {f : α → Except ε β}
    (h : ∀ a, FailsOnly allowed (f a)) (list : List α) : FailsOnly allowed (list.mapM f) := by
  induction list with
  | nil => exact failsOnly_ok []
  | cons a list ih =>
      rw [List.mapM_cons]
      exact (h a).bind fun b => ih.bind fun bs => failsOnly_ok (b :: bs)

theorem failsOnly_foldlM
    {step : σ → α → Except ε σ}
    (h : ∀ s a, FailsOnly allowed (step s a)) (list : List α) (start : σ) :
    FailsOnly allowed (list.foldlM step start) := by
  induction list generalizing start with
  | nil => exact failsOnly_ok start
  | cons a list ih =>
      rw [List.foldlM_cons]
      exact (h start a).bind ih

end

end WitnessedLog
