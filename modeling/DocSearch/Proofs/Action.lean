import DocSearch.Action

/-!
# Performing actions

What an action does is told by `Action.perform`: its outcome and the program behind it. The lemmas
here take an action apart along its steps, so that no proof about a longer action has to open the
monad again.
-/

namespace DocSearch.Action

variable {σ α β ε : Type}

/-! ## Single steps -/

@[simp] theorem perform_pure (v : α) (p : Program σ) :
    (pure v : Action σ α).perform p = (.ok v, p) := rfl

@[simp] theorem perform_throw (e : RunError) (p : Program σ) :
    (throw e : Action σ α).perform p = (.error e, p) := rfl

@[simp] theorem perform_get (p : Program σ) :
    (get : Action σ (Program σ)).perform p = (.ok p, p) := rfl

@[simp] theorem perform_leave (d : Deed) (p : Program σ) :
    (leave d : Action σ Unit).perform p = (.ok (), { p with trace := p.trace ++ [d] }) := rfl

@[simp] theorem perform_log (level : LogLevel) (logger message : String) (p : Program σ) :
    (log level logger message : Action σ Unit).perform p =
      (.ok (), { p with trace := p.trace ++ [.logged ⟨level, logger, message⟩] }) := rfl

@[simp] theorem perform_outside (f : σ → α × σ) (p : Program σ) :
    (outside f : Action σ α).perform p =
      (.ok (f p.outside).1, { p with outside := (f p.outside).2 }) := rfl

@[simp] theorem perform_ofExcept_ok (wrap : ε → RunError) (v : α) (p : Program σ) :
    (ofExcept wrap (.ok v) : Action σ α).perform p = (.ok v, p) := rfl

@[simp] theorem perform_ofExcept_error (wrap : ε → RunError) (e : ε) (p : Program σ) :
    (ofExcept wrap (.error e) : Action σ α).perform p = (.error (wrap e), p) := rfl

/-! ## One step after the other -/

theorem perform_bind (a : Action σ α) (f : α → Action σ β) (p : Program σ) :
    (a >>= f).perform p =
      match a.perform p with
      | (.ok v, q) => (f v).perform q
      | (.error e, q) => (.error e, q) := by
  show (ExceptT.bind a f).run.run p = _
  rcases h : a.perform p with ⟨r, q⟩
  have h' : StateT.run a p = (r, q) := h
  simp only [ExceptT.bind, ExceptT.mk, ExceptT.run]
  cases r with
  | ok v => simp only [StateT.run_bind, h', ExceptT.bindCont]; rfl
  | error e => simp only [StateT.run_bind, h', ExceptT.bindCont]; rfl

theorem perform_bind_ok {a : Action σ α} {f : α → Action σ β} {p q : Program σ} {v : α}
    (h : a.perform p = (.ok v, q)) : (a >>= f).perform p = (f v).perform q := by
  rw [perform_bind, h]

theorem perform_bind_error {a : Action σ α} {f : α → Action σ β} {p q : Program σ} {e : RunError}
    (h : a.perform p = (.error e, q)) : (a >>= f).perform p = (.error e, q) := by
  rw [perform_bind, h]

/-- Where two actions succeed one after the other, the first one has succeeded. -/
theorem perform_bind_eq_ok {a : Action σ α} {f : α → Action σ β} {p q : Program σ} {v : β}
    (h : (a >>= f).perform p = (.ok v, q)) :
    ∃ u p', a.perform p = (.ok u, p') ∧ (f u).perform p' = (.ok v, q) := by
  rw [perform_bind] at h
  cases ha : a.perform p with
  | mk r p' =>
    rw [ha] at h
    cases r with
    | ok u => exact ⟨u, p', rfl, h⟩
    | error e => cases (Prod.mk.inj h).1

/-- Deeds left one by one stand in the trace in their order. -/
theorem perform_leaves (f : α → Deed) (xs : List α) (p : Program σ) :
    (forIn xs PUnit.unit fun x _ => do
        leave (f x)
        pure (ForInStep.yield PUnit.unit) : Action σ PUnit).perform p =
      (.ok ⟨⟩, { p with trace := p.trace ++ xs.map f }) := by
  induction xs generalizing p with
  | nil => simp
  | cons x xs ih =>
    have hx : (do leave (f x); pure (ForInStep.yield PUnit.unit) : Action σ _).perform p =
        (.ok (.yield ⟨⟩), { p with trace := p.trace ++ [f x] }) := rfl
    rw [List.forIn_cons, perform_bind_ok hx, ih]
    simp

/-- What follows an action in any case does not change how the action ended, unless it fails. -/
theorem perform_always {a : Action σ α} {behind : Action σ Unit} {p q q' : Program σ}
    {r : Except RunError α} (ha : a.perform p = (r, q)) (hb : behind.perform q = (.ok (), q')) :
    (always a behind).perform p = (r, q') := by
  have htry : (tryCatch (Except.ok <$> a) fun e => pure (Except.error e) :
      Action σ (Except RunError α)).perform p = (.ok r, q) := by
    have ha' : StateT.run a p = (r, q) := ha
    show StateT.run (ExceptT.tryCatch (ExceptT.map Except.ok a) _) p = _
    simp only [ExceptT.tryCatch, ExceptT.map, ExceptT.mk, StateT.run_bind, ha']
    cases r <;> rfl
  rw [always, perform_bind_ok htry, perform_bind_ok hb]
  cases r <;> rfl

end DocSearch.Action
