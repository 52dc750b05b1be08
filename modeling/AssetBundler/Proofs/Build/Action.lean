/-
  AssetBundler.Proofs.Build.Action
  ────────────────────────────────
  **WHAT AN ACTION OF A BUILD ENSURES.**

  An action of a build either succeeds with a value or fails with an error,
  and leaves a session behind both times.  `Ensures` states a condition for
  each of the two ends at once, so that one specification of a traversal says
  what its result is and why it may fail.  The rules take an action apart
  along its `do` block:

    • `BuildM.ensures_bind` — one action after the other,
    • `BuildM.Ensures.mono` — the conditions may be weakened,
    • `GraphM.ensures_*` — the same for actions that find modules.
-/
import AssetBundler.Build.Graph

namespace AssetBundler

variable {α β : Type} {signal : CancelSignal}

/-- What goes on from a result succeeds only if the result is a value. -/
theorem exists_of_bind_eq_ok {ε : Type} {result : Except ε α} {next : α → Except ε β} {b : β}
    (h : (result >>= next) = .ok b) : ∃ a, result = .ok a ∧ next a = .ok b := by
  cases result with
  | error e => cases h
  | ok a => exact ⟨a, rfl, h⟩

/-- What goes on from a result fails when the result is an error, or behind its value. -/
theorem error_or_of_bind_eq_error {ε : Type} {result : Except ε α} {next : α → Except ε β}
    {e : ε} (h : (result >>= next) = .error e) :
    result = .error e ∨ ∃ a, result = .ok a ∧ next a = .error e := by
  cases result with
  | error e' =>
      cases h
      exact Or.inl rfl
  | ok a => exact Or.inr ⟨a, rfl, h⟩

theorem exists_of_mapM_error {ε : Type} {f : α → Except ε β} {e : ε} :
    ∀ {as : List α}, as.mapM f = .error e → ∃ a ∈ as, f a = .error e
  | [], h => by cases h
  | a :: as, h => by
      rw [List.mapM_cons] at h
      rcases error_or_of_bind_eq_error h with ha | ⟨b, _, h⟩
      · exact ⟨a, List.mem_cons_self, ha⟩
      · rcases error_or_of_bind_eq_error h with has | ⟨bs, _, h⟩
        · obtain ⟨a', ha', hf⟩ := exists_of_mapM_error has
          exact ⟨a', List.mem_cons_of_mem a ha', hf⟩
        · cases h

theorem toOption_eq_some {ε : Type} {result : Except ε α} {a : α} :
    result.toOption = some a ↔ result = .ok a := by
  cases result <;> simp [Except.toOption]

/-- What a value is like that can be computed is seen by computing it. -/
theorem exists_of_any_toOption {ε : Type} {result : Except ε α} {p : α → Prop} [DecidablePred p]
    (h : result.toOption.any (fun a => decide (p a)) = true) : ∃ a, result = .ok a ∧ p a := by
  cases result with
  | error e => cases h
  | ok a => exact ⟨a, rfl, of_decide_eq_true h⟩

/-- The same for a check of the value. -/
theorem exists_of_any {ε : Type} {result : Except ε α} {check : α → Bool}
    (h : result.toOption.any check = true) : ∃ a, result = .ok a ∧ check a = true := by
  cases result with
  | error e => cases h
  | ok a => exact ⟨a, rfl, h⟩

/-! ## §1. Actions of a build. -/

namespace BuildM

/-- From a session on, the action ends with a value that meets `post`, or with an error that meets
`fault`. -/
def Ensures (signal : CancelSignal) (s : Session) (action : BuildM α)
    (post : α → Session → Prop) (fault : BuildError → Session → Prop) : Prop :=
  match action.exec signal s with
  | (.ok a, s') => post a s'
  | (.error e, s') => fault e s'

variable {s : Session} {post : α → Session → Prop} {fault : BuildError → Session → Prop}

theorem exec_bind (action : BuildM α) (next : α → BuildM β) :
    (action >>= next).exec signal s
      = match action.exec signal s with
        | (.ok a, s') => (next a).exec signal s'
        | (.error e, s') => (.error e, s') := by
  -- the signal is read first, so the action is a state action that may fail
  show (ExceptT.bindCont (fun a => next a signal) (action signal s).1).run (action signal s).2 = _
  unfold exec
  rcases action signal s with ⟨_ | _, _⟩ <;> rfl

@[simp] theorem ensures_pure (a : α) :
    Ensures signal s (pure a : BuildM α) post fault ↔ post a s :=
  Iff.rfl

@[simp] theorem ensures_fail (e : BuildError) :
    Ensures signal s (fail e : BuildM α) post fault ↔ fault e s :=
  Iff.rfl

@[simp] theorem ensures_bind (action : BuildM α) (next : α → BuildM β)
    {post : β → Session → Prop} :
    Ensures signal s (action >>= next) post fault
      ↔ Ensures signal s action (fun a s' => Ensures signal s' (next a) post fault) fault := by
  unfold Ensures
  rw [exec_bind]
  rcases action.exec signal s with ⟨_ | _, _⟩ <;> rfl

@[simp] theorem ensures_ofExcept (result : Except BuildError α) :
    Ensures signal s (ofExcept result) post fault
      ↔ (∀ a, result = .ok a → post a s) ∧ (∀ e, result = .error e → fault e s) := by
  cases result <;> simp [ofExcept]

@[simp] theorem ensures_check {post : Unit → Session → Prop} :
    Ensures signal s check post fault
      ↔ (signal s = false → post () { s with checks := s.checks + 1 })
        ∧ (signal s = true → fault .cancelled { s with checks := s.checks + 1 }) := by
  unfold Ensures exec check
  cases h : signal s <;> simp

@[simp] theorem ensures_record (events : List BuildEvent) {post : Unit → Session → Prop} :
    Ensures signal s (record events) post fault
      ↔ post () { s with events := s.events ++ events } :=
  Iff.rfl

@[simp] theorem ensures_mode {post : Mode → Session → Prop} :
    Ensures signal s mode post fault ↔ post s.mode s :=
  Iff.rfl

theorem Ensures.mono {action : BuildM α} {post' : α → Session → Prop}
    {fault' : BuildError → Session → Prop} (h : Ensures signal s action post fault)
    (hpost : ∀ a s', post a s' → post' a s') (hfault : ∀ e s', fault e s' → fault' e s') :
    Ensures signal s action post' fault' := by
  unfold Ensures at *
  split at h
  next a s' _ => exact hpost a s' h
  next e s' _ => exact hfault e s' h

/-- What is ensured holds of the value when the action succeeds. -/
theorem Ensures.of_ok {action : BuildM α} (h : Ensures signal s action post fault) {a : α}
    (ha : (action.exec signal s).1 = .ok a) : post a (action.exec signal s).2 := by
  unfold Ensures at h
  split at h
  next b s' heq =>
    rw [heq] at ha ⊢
    injection ha with hba
    exact hba ▸ h
  next e s' heq =>
    rw [heq] at ha
    injection ha

/-- What is ensured holds of the error when the action fails. -/
theorem Ensures.of_error {action : BuildM α} (h : Ensures signal s action post fault)
    {e : BuildError} (he : (action.exec signal s).1 = .error e) :
    fault e (action.exec signal s).2 := by
  unfold Ensures at h
  split at h
  next b s' heq =>
    rw [heq] at he
    injection he
  next e' s' heq =>
    rw [heq] at he ⊢
    injection he with hee
    exact hee ▸ h

end BuildM

/-! ## §2. Actions that find modules. -/

namespace GraphM

/-- From a session and the modules found so far on, the action ends with a value that meets `post`, or
with an error that meets `fault`. -/
def Ensures (signal : CancelSignal) (s : Session) (st : GraphState) (action : GraphM α)
    (post : α → GraphState → Session → Prop) (fault : BuildError → Session → Prop) : Prop :=
  BuildM.Ensures signal s (action.run st) (fun end_ s' => post end_.1 end_.2 s') fault

variable {s : Session} {st : GraphState} {post : α → GraphState → Session → Prop}
  {fault : BuildError → Session → Prop}

@[simp] theorem ensures_pure (a : α) :
    Ensures signal s st (pure a : GraphM α) post fault ↔ post a st s :=
  Iff.rfl

@[simp] theorem ensures_bind (action : GraphM α) (next : α → GraphM β)
    {post : β → GraphState → Session → Prop} :
    Ensures signal s st (action >>= next) post fault
      ↔ Ensures signal s st action (fun a st' s' => Ensures signal s' st' (next a) post fault)
          fault := by
  unfold Ensures
  rw [StateT.run_bind, BuildM.ensures_bind]

@[simp] theorem ensures_get {post : GraphState → GraphState → Session → Prop} :
    Ensures signal s st get post fault ↔ post st st s :=
  Iff.rfl

@[simp] theorem ensures_modify (f : GraphState → GraphState)
    {post : PUnit → GraphState → Session → Prop} :
    Ensures signal s st (modify f) post fault ↔ post ⟨⟩ (f st) s :=
  Iff.rfl

@[simp] theorem ensures_lift (action : BuildM α) :
    Ensures signal s st (liftM action) post fault
      ↔ BuildM.Ensures signal s action (fun a s' => post a st s') fault := by
  -- lifted, the action returns the modules found as they were
  show BuildM.Ensures signal s (action >>= fun a => pure (a, st)) _ _ ↔ _
  rw [BuildM.ensures_bind]
  rfl

theorem Ensures.mono {action : GraphM α} {post' : α → GraphState → Session → Prop}
    (h : Ensures signal s st action post fault)
    (hpost : ∀ a st' s', post a st' s' → post' a st' s') :
    Ensures signal s st action post' fault :=
  BuildM.Ensures.mono h (fun end_ s' => hpost end_.1 end_.2 s') (fun _ _ he => he)

end GraphM

end AssetBundler
