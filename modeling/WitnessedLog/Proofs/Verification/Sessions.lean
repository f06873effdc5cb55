import WitnessedLog.Verification

/-!
# Running sessions

A session is run from the calls that were made before it.  Two sessions that agree on what a
common first part can answer are equal, and a session whose answers do not depend on earlier
calls yields one result.
-/

namespace WitnessedLog

namespace Session

variable {α β : Type}

/-- The result of a session that follows earlier calls, and all calls made after it. -/
def runAfter (session : Session α) (calls : List Call) : Except VerifyError α × List Call :=
  session.run.run calls

@[simp] theorem runAfter_pure
    (a : α) (calls : List Call) :
    (pure a : Session α).runAfter calls = (.ok a, calls) := rfl

@[simp] theorem runAfter_throw
    (e : VerifyError) (calls : List Call) :
    (throw e : Session α).runAfter calls = (.error e, calls) := rfl

@[simp] theorem runAfter_call
    (request : Call) (answer : List Call → Except CryptoError α) (calls : List Call) :
    (call request answer).runAfter calls =
      ((answer calls).mapError VerifyError.crypto, calls ++ [request]) := rfl

/-- A call that is answered is kept. -/
theorem runAfter_call_eq_ok_iff
    {request : Call} {answer : List Call → Except CryptoError α} {calls later : List Call}
    {a : α} :
    (call request answer).runAfter calls = (.ok a, later) ↔
      answer calls = .ok a ∧ later = calls ++ [request] := by
  rw [runAfter_call]
  cases answer calls with
  | error e =>
      constructor
      · intro h
        cases h
      · rintro ⟨h, -⟩
        cases h
  | ok b =>
      constructor
      · intro h
        cases h
        exact ⟨rfl, rfl⟩
      · rintro ⟨h, rfl⟩
        cases h
        rfl

theorem runAfter_bind
    (session : Session α) (next : α → Session β) (calls : List Call) :
    (session >>= next).runAfter calls =
      match session.runAfter calls with
        | (.ok a, later) => (next a).runAfter later
        | (.error e, later) => (.error e, later) := by
  have hbind : (session >>= next).runAfter calls =
      ExceptT.bindCont next (session.runAfter calls).1 (session.runAfter calls).2 := rfl
  rw [hbind]
  rcases session.runAfter calls with ⟨_ | _, later⟩
  · rfl
  · rfl

theorem ext_runAfter
    {first second : Session α}
    (h : ∀ calls, first.runAfter calls = second.runAfter calls) : first = second :=
  funext h

/-- Sessions with a common first part are equal if they go on alike from each of its
answers. -/
theorem bind_congr_answers
    {session : Session α} {first second : α → Session β}
    (h : ∀ calls a later, session.runAfter calls = (.ok a, later) → first a = second a) :
    session >>= first = session >>= second := by
  apply ext_runAfter
  intro calls
  rw [runAfter_bind, runAfter_bind]
  cases hrun : session.runAfter calls with
  | mk result later =>
      cases result with
      | ok a => simp only [h calls a later hrun]
      | error e => rfl

/-- What a bound session answers is what its second part answers after its first. -/
theorem exists_of_runAfter_bind_ok
    {session : Session α} {next : α → Session β} {calls later : List Call} {b : β}
    (h : (session >>= next).runAfter calls = (.ok b, later)) :
    ∃ a between, session.runAfter calls = (.ok a, between) ∧
      (next a).runAfter between = (.ok b, later) := by
  rw [runAfter_bind] at h
  cases hrun : session.runAfter calls with
  | mk result between =>
      rw [hrun] at h
      cases result with
      | ok a => exact ⟨a, between, rfl, h⟩
      | error e => simp at h

/-- What passes a gate goes on behind it. -/
theorem of_runAfter_gate_ok
    {refused : Prop} [Decidable refused] {e : VerifyError} {next : Unit → Session β}
    {calls later : List Call} {b : β}
    (h : (if refused then throw e >>= next else next ()).runAfter calls = (.ok b, later)) :
    ¬refused ∧ (next ()).runAfter calls = (.ok b, later) := by
  by_cases hrefused : refused
  · rw [if_pos hrefused, runAfter_bind, runAfter_throw] at h
    cases h
  · rw [if_neg hrefused] at h
    exact ⟨hrefused, h⟩

/-! ## Which calls are made -/

/-- All calls that a session makes are allowed. -/
def CallsOnly (allowed : Call → Prop) (session : Session α) : Prop :=
  ∀ calls, ∀ call ∈ (session.runAfter calls).2, call ∈ calls ∨ allowed call

section

variable {allowed : Call → Prop}

theorem callsOnly_pure (a : α) : (pure a : Session α).CallsOnly allowed :=
  fun _ _ => Or.inl

theorem callsOnly_throw (e : VerifyError) : (throw e : Session α).CallsOnly allowed :=
  fun _ _ => Or.inl

theorem callsOnly_call
    {request : Call}
    (h : allowed request) (answer : List Call → Except CryptoError α) :
    (call request answer).CallsOnly allowed := by
  intro calls made hmade
  rcases List.mem_append.mp hmade with hearlier | hrequest
  · exact Or.inl hearlier
  · rw [List.mem_singleton.mp hrequest]
    exact Or.inr h

/-- What a session does next matters only for the answers that its first part can give. -/
theorem CallsOnly.bind
    {session : Session α} {next : α → Session β}
    (h : session.CallsOnly allowed)
    (hnext : ∀ calls a later, session.runAfter calls = (.ok a, later) →
      (next a).CallsOnly allowed) :
    (session >>= next).CallsOnly allowed := by
  intro calls made hmade
  have hfirst := h calls made
  rw [runAfter_bind] at hmade
  rcases hrun : session.runAfter calls with ⟨result, later⟩
  rw [hrun] at hmade hfirst
  cases result with
  | error e => exact hfirst hmade
  | ok a => exact (hnext calls a later hrun later made hmade).elim hfirst Or.inr

theorem CallsOnly.gate
    {refused : Prop} [Decidable refused] {next : Unit → Session β}
    (h : (next ()).CallsOnly allowed) (e : VerifyError) :
    (if refused then throw e >>= next else next ()).CallsOnly allowed := by
  by_cases hrefused : refused
  · rw [if_pos hrefused]
    exact (callsOnly_throw e).bind fun _ _ _ hrun => by cases hrun
  · rwa [if_neg hrefused]

end

/-! ## Results that do not depend on earlier calls -/

/-- A session comes to one result, whatever calls were made before it. -/
def Yields (session : Session α) (result : Except VerifyError α) : Prop :=
  ∀ calls, (session.runAfter calls).1 = result

theorem yields_pure (a : α) : (pure a : Session α).Yields (.ok a) :=
  fun _ => rfl

theorem yields_throw (e : VerifyError) : (throw e : Session α).Yields (.error e) :=
  fun _ => rfl

theorem yields_throw_bind
    (e : VerifyError) (next : α → Session β) :
    (throw e >>= next : Session β).Yields (.error e) :=
  fun _ => rfl

theorem yields_call
    (request : Call) (answer : Except CryptoError α) :
    (call request fun _ => answer).Yields (answer.mapError VerifyError.crypto) :=
  fun _ => rfl

theorem Yields.bind
    {session : Session α} {next : α → Session β} {a : α} {result : Except VerifyError β}
    (h : session.Yields (.ok a)) (hnext : (next a).Yields result) :
    (session >>= next).Yields result := by
  intro calls
  rw [runAfter_bind]
  rcases hrun : session.runAfter calls with ⟨answer, later⟩
  have hanswer : answer = .ok a := by
    have := h calls
    rwa [hrun] at this
  subst hanswer
  exact hnext later

end Session

end WitnessedLog
