import Scriptlet.Evaluator

/-!
# How evaluations end

An evaluation that asks for files ends along the answers that it gets: `Exits` relates it to these
answers, to its value or error and to the machine where it ends. An evaluation that is cut off does
not end. What a statement does, however many steps it takes, is `Executes`.
-/

namespace Scriptlet

instance decidableEqExcept {ε α : Type} [DecidableEq ε] [DecidableEq α] :
    DecidableEq (Except ε α)
  | .ok a, .ok b => decidable_of_iff (a = b) (by simp)
  | .error e, .error f => decidable_of_iff (e = f) (by simp)
  | .ok _, .error _ | .error _, .ok _ => isFalse (by simp)

/-- Requests for files and what they were answered, in order. -/
abbrev FileLog := List (FileRequest × FileAnswer)

variable {α β : Type}

/-- The end of an outcome for some answers to what it asks. -/
inductive Outcome.Exits :
    Outcome α → FileLog → Except RuntimeError α → Machine → Prop where
  | value {a : α} {m : Machine} : Exits (.value a m) [] (.ok a) m
  | error {e : RuntimeError} {m : Machine} : Exits (.error e m) [] (.error e) m
  | ask {request : FileRequest} {resume : FileAnswer → Outcome α} {answer : FileAnswer}
      {log : FileLog} {r : Except RuntimeError α} {n : Machine} :
      Exits (resume answer) log r n →
        Exits (.ask request resume) ((request, answer) :: log) r n

namespace Outcome

variable {o : Outcome α} {log : FileLog} {m n : Machine} {e : RuntimeError}

theorem exits_value_iff {a : α} {r : Except RuntimeError α} :
    (value a m).Exits log r n ↔ log = [] ∧ r = .ok a ∧ n = m := by
  constructor
  · intro h
    cases h
    exact ⟨rfl, rfl, rfl⟩
  · rintro ⟨rfl, rfl, rfl⟩
    exact .value

theorem exits_error_iff {r : Except RuntimeError α} :
    (error e m : Outcome α).Exits log r n ↔ log = [] ∧ r = .error e ∧ n = m := by
  constructor
  · intro h
    cases h
    exact ⟨rfl, rfl, rfl⟩
  · rintro ⟨rfl, rfl, rfl⟩
    exact .error

/-- The value of an outcome that is one, and the machine where it was found. -/
def value? : Outcome α → Option (α × Machine)
  | value a m => some (a, m)
  | error .. | ask .. | cutOff .. => none

/-- The error of an outcome that is one, and the machine where it was raised. -/
def error? : Outcome α → Option (RuntimeError × Machine)
  | error e m => some (e, m)
  | value .. | ask .. | cutOff .. => none

theorem eq_value_of_value? {p : α × Machine} (h : o.value? = some p) : o = value p.1 p.2 := by
  cases o with
  | value a m =>
    obtain rfl := Option.some.inj h
    rfl
  | error | ask | cutOff => cases h

theorem eq_error_of_error? {p : RuntimeError × Machine} (h : o.error? = some p) :
    o = error p.1 p.2 := by
  cases o with
  | error e m =>
    obtain rfl := Option.some.inj h
    rfl
  | value | ask | cutOff => cases h

theorem exits_of_value? {p : α × Machine} (h : o.value? = some p) : o.Exits [] (.ok p.1) p.2 := by
  rw [eq_value_of_value? h]
  exact .value

theorem exits_of_error? {p : RuntimeError × Machine} (h : o.error? = some p) :
    o.Exits [] (.error p.1) p.2 := by
  rw [eq_error_of_error? h]
  exact .error

theorem not_exits_cutOff {r : Except RuntimeError α} :
    ¬ (cutOff m : Outcome α).Exits log r n := by
  intro h
  cases h

/-- An outcome that ends without asking for anything is its value. -/
theorem Exits.eq_value {a : α} (h : o.Exits [] (.ok a) n) : o = .value a n := by
  cases o with
  | value b m =>
    cases h
    rfl
  | error | ask | cutOff => cases h

theorem Exits.eq_error (h : o.Exits [] (.error e) n) : o = .error e n := by
  cases o with
  | error f m =>
    cases h
    rfl
  | value | ask | cutOff => cases h

theorem Exits.andThen {l₁ l₂ : FileLog} {a : α} {next : α → Machine → Outcome β}
    {r : Except RuntimeError β} (first : o.Exits l₁ (.ok a) m)
    (second : (next a m).Exits l₂ r n) : (o.andThen next).Exits (l₁ ++ l₂) r n := by
  generalize ends : (Except.ok a : Except RuntimeError α) = r₁ at first
  induction first with
  | value =>
    cases ends
    exact second
  | error => cases ends
  | ask _ ih => exact .ask (ih second ends)

theorem Exits.andThen_error {next : α → Machine → Outcome β} (first : o.Exits log (.error e) n) :
    (o.andThen next).Exits log (.error e) n := by
  generalize ends : (Except.error e : Except RuntimeError α) = r at first
  induction first with
  | value => cases ends
  | error =>
    cases ends
    exact .error
  | ask _ ih => exact .ask (ih ends)

theorem exists_of_exits_andThen {next : α → Machine → Outcome β} {r : Except RuntimeError β}
    (h : (o.andThen next).Exits log r n) :
    (∃ e, r = .error e ∧ o.Exits log (.error e) n) ∨ ∃ l₁ l₂ a m,
      log = l₁ ++ l₂ ∧ o.Exits l₁ (.ok a) m ∧ (next a m).Exits l₂ r n := by
  induction o generalizing log with
  | value a m => exact .inr ⟨[], log, a, m, rfl, .value, h⟩
  | error e m =>
    cases h
    exact .inl ⟨e, rfl, .error⟩
  | cutOff m => cases h
  | ask request resume ih =>
    cases h with
    | ask h =>
      rcases ih _ h with ⟨e, rfl, first⟩ | ⟨l₁, l₂, a, m, rfl, first, second⟩
      · exact .inl ⟨e, rfl, .ask first⟩
      · exact .inr ⟨_ :: l₁, l₂, a, m, rfl, .ask first, second⟩

/-- The value in a result, if there is one. -/
def result? : Except RuntimeError α → Option α
  | .ok a => some a
  | .error _ => none

theorem exits_finish_iff {last : Option α → Machine → Machine} {r : Except RuntimeError α} :
    (o.finish last).Exits log r n ↔ ∃ m, o.Exits log r m ∧ n = last (result? r) m := by
  constructor
  · intro h
    induction o generalizing log with
    | value a m =>
      cases h
      exact ⟨m, .value, rfl⟩
    | error e m =>
      cases h
      exact ⟨m, .error, rfl⟩
    | cutOff m => cases h
    | ask request resume ih =>
      cases h with
      | ask h =>
        obtain ⟨m, first, same⟩ := ih _ h
        exact ⟨m, .ask first, same⟩
  · rintro ⟨m, first, rfl⟩
    induction first with
    | value => exact .value
    | error => exact .error
    | ask _ ih => exact .ask ih

theorem exits_caught_iff {r : Except RuntimeError (Except RuntimeError α)} :
    o.caught.Exits log r n ↔ ∃ inner, r = .ok inner ∧ o.Exits log inner n := by
  constructor
  · intro h
    induction o generalizing log with
    | value a m =>
      cases h
      exact ⟨.ok a, rfl, .value⟩
    | error e m =>
      cases h
      exact ⟨.error e, rfl, .error⟩
    | cutOff m => cases h
    | ask request resume ih =>
      cases h with
      | ask h =>
        obtain ⟨inner, same, first⟩ := ih _ h
        exact ⟨inner, same, .ask first⟩
  · rintro ⟨inner, rfl, first⟩
    induction first with
    | value => exact .value
    | error => exact .value
    | ask _ ih => exact .ask ih

/-- The answers decide how an outcome ends, and how many of them it takes. -/
theorem Exits.determined {l₁ l₂ x y : FileLog} {r r' : Except RuntimeError α} {m' : Machine}
    (first : o.Exits l₁ r m) (second : o.Exits l₂ r' m') (same : l₁ ++ x = l₂ ++ y) :
    l₁ = l₂ ∧ r = r' ∧ m = m' := by
  induction first generalizing l₂ with
  | value =>
    cases second
    exact ⟨rfl, rfl, rfl⟩
  | error =>
    cases second
    exact ⟨rfl, rfl, rfl⟩
  | ask _ ih =>
    cases second with
    | ask second =>
      obtain ⟨head, tail⟩ := List.cons.inj same
      obtain rfl := congrArg Prod.snd head
      obtain ⟨rfl, rfl, rfl⟩ := ih second tail
      exact ⟨rfl, rfl, rfl⟩

end Outcome

/-- The end of an evaluation of a machine in a setting. -/
abbrev Eval.Exits (x : Eval α) (setting : Setting) (m : Machine) (log : FileLog)
    (r : Except RuntimeError α) (n : Machine) : Prop :=
  (x setting m).Exits log r n

namespace Eval

variable {x : Eval α} {next : α → Eval β} {setting : Setting} {m n : Machine} {log : FileLog}
  {e : RuntimeError}

theorem Exits.bind {l₁ l₂ : FileLog} {a : α} {k : Machine} {r : Except RuntimeError β}
    (first : x.Exits setting m l₁ (.ok a) k) (second : (next a).Exits setting k l₂ r n) :
    (x >>= next).Exits setting m (l₁ ++ l₂) r n :=
  Outcome.Exits.andThen first second

/-- An evaluation that asks for nothing, and then another one. -/
theorem Exits.bind_nil {a : α} {k : Machine} {r : Except RuntimeError β}
    (first : x.Exits setting m [] (.ok a) k) (second : (next a).Exits setting k log r n) :
    (x >>= next).Exits setting m log r n :=
  first.bind second

theorem Exits.bind_error (first : x.Exits setting m log (.error e) n) :
    (x >>= next).Exits setting m log (.error e) n :=
  Outcome.Exits.andThen_error first

theorem exists_of_exits_bind {r : Except RuntimeError β}
    (h : (x >>= next).Exits setting m log r n) :
    (∃ e, r = .error e ∧ x.Exits setting m log (.error e) n) ∨ ∃ l₁ l₂ a k,
      log = l₁ ++ l₂ ∧ x.Exits setting m l₁ (.ok a) k ∧ (next a).Exits setting k l₂ r n :=
  Outcome.exists_of_exits_andThen h

/-- Where two evaluations have a value together, the first one has one. -/
theorem exists_of_exits_bind_ok {b : β} (h : (x >>= next).Exits setting m log (.ok b) n) :
    ∃ l₁ l₂ a k, log = l₁ ++ l₂ ∧ x.Exits setting m l₁ (.ok a) k ∧
      (next a).Exits setting k l₂ (.ok b) n := by
  rcases exists_of_exits_bind h with ⟨e, never, -⟩ | ended
  · cases never
  · exact ended

/-- When the first of two evaluations has ended, the second one decides. -/
theorem exits_bind_iff {l₁ l₂ : FileLog} {a : α} {k : Machine} {r : Except RuntimeError β}
    (first : x.Exits setting m l₁ (.ok a) k) :
    (x >>= next).Exits setting m (l₁ ++ l₂) r n ↔ (next a).Exits setting k l₂ r n := by
  constructor
  · intro h
    rcases exists_of_exits_bind h with ⟨e, -, fails⟩ | ⟨l₃, l₄, b, j, same, before, after⟩
    · have whole : l₁ ++ l₂ = (l₁ ++ l₂) ++ [] := (List.append_nil _).symm
      obtain ⟨-, ended, -⟩ := first.determined fails whole
      cases ended
    · obtain ⟨rfl, ended, rfl⟩ := first.determined before same
      cases ended
      rw [List.append_cancel_left same]
      exact after
  · exact first.bind

/-- After an evaluation that has its value at once. -/
theorem of_exits_bind_value {a : α} {k : Machine} {r : Except RuntimeError β}
    (h : (x >>= next).Exits setting m log r n) (value : x setting m = .value a k) :
    (next a).Exits setting k log r n := by
  have first : x.Exits setting m [] (.ok a) k := by
    rw [Exits, value]
    exact .value
  exact (exits_bind_iff first).1 h

theorem exits_pure_iff {a : α} {r : Except RuntimeError α} :
    (pure a : Eval α).Exits setting m log r n ↔ log = [] ∧ r = .ok a ∧ n = m :=
  Outcome.exits_value_iff

/-- The ends of an evaluation whose value is put into another form. -/
theorem exits_bind_pure_iff {f : α → β} {r : Except RuntimeError β} :
    (x >>= fun a => pure (f a)).Exits setting m log r n ↔
      (∃ e, r = .error e ∧ x.Exits setting m log (.error e) n) ∨
      ∃ a, r = .ok (f a) ∧ x.Exits setting m log (.ok a) n := by
  constructor
  · intro h
    rcases exists_of_exits_bind h with ⟨e, rfl, fails⟩ | ⟨l₁, l₂, a, k, rfl, first, last⟩
    · exact .inl ⟨e, rfl, fails⟩
    · obtain ⟨rfl, rfl, rfl⟩ := exits_pure_iff.1 last
      rw [List.append_nil]
      exact .inr ⟨a, rfl, first⟩
  · rintro (⟨e, rfl, fails⟩ | ⟨a, rfl, first⟩)
    · exact .bind_error fails
    · rw [← List.append_nil log]
      exact .bind first .value

theorem exits_catching_iff {r : Except RuntimeError (Except RuntimeError α)} :
    (catching x).Exits setting m log r n ↔
      ∃ inner, r = .ok inner ∧ x.Exits setting m log inner n :=
  Outcome.exits_caught_iff

/-- A check that succeeds changes nothing. -/
theorem of_exits_check {f : Store → Except RuntimeError α} {a : α}
    (h : (check f).Exits setting m log (.ok a) n) : log = [] ∧ f m.store = .ok a ∧ n = m := by
  simp only [Exits, check] at h
  split at h
  · next found =>
    obtain ⟨rfl, same, rfl⟩ := Outcome.exits_value_iff.1 h
    exact ⟨rfl, found.trans same.symm, rfl⟩
  · obtain ⟨-, never, -⟩ := Outcome.exits_error_iff.1 h
    cases never

/-- A change of the store that has not failed. -/
theorem exists_of_exits_attempt {f : Store → Except RuntimeError (α × Store)} {a : α}
    (h : (attempt f).Exits setting m log (.ok a) n) :
    ∃ s, f m.store = .ok (a, s) ∧ n = { m with store := s } := by
  simp only [Exits, attempt] at h
  split at h
  · rename_i found
    obtain ⟨-, ok, rfl⟩ := Outcome.exits_value_iff.1 h
    cases ok
    exact ⟨_, found, rfl⟩
  · obtain ⟨-, never, -⟩ := Outcome.exits_error_iff.1 h
    cases never

/-- A change of the store that has failed has changed nothing. -/
theorem of_exits_attempt_error {f : Store → Except RuntimeError (α × Store)}
    (h : (attempt f).Exits setting m log (.error e) n) : f m.store = .error e ∧ n = m := by
  simp only [Exits, attempt] at h
  split at h
  · obtain ⟨-, never, -⟩ := Outcome.exits_value_iff.1 h
    cases never
  · rename_i failed
    obtain ⟨-, same, rfl⟩ := Outcome.exits_error_iff.1 h
    cases same
    exact ⟨failed, rfl⟩

/-- A change of the store asks for nothing. -/
theorem nil_of_exits_attempt {f : Store → Except RuntimeError (α × Store)}
    {r : Except RuntimeError α} (h : (attempt f).Exits setting m log r n) : log = [] := by
  simp only [Exits, attempt] at h
  split at h
  · exact (Outcome.exits_value_iff.1 h).1
  · exact (Outcome.exits_error_iff.1 h).1

theorem Exits.attempt {f : Store → Except RuntimeError (α × Store)} {a : α} {s : Store}
    (h : f m.store = .ok (a, s)) :
    (Eval.attempt f).Exits setting m [] (.ok a) { m with store := s } := by
  rw [Exits, Eval.attempt, h]
  exact .value

theorem Exits.attempt_error {f : Store → Except RuntimeError (α × Store)}
    (h : f m.store = .error e) : (Eval.attempt f).Exits setting m [] (.error e) m := by
  rw [Exits, Eval.attempt, h]
  exact .error

theorem exits_leaveAll_iff {r : Except RuntimeError Unit} :
    leaveAll.Exits setting m log r n ↔
      log = [] ∧ r = .ok () ∧ n = { m with current := m.global } :=
  Outcome.exits_value_iff

/-- A script ends with its value where its evaluation does, and in the global scope after an error
of either kind. -/
theorem exits_asScript_iff {x : Eval (Except SyntaxError Value)}
    {r : Except RuntimeError (Except Error Value)} :
    (asScript x).Exits setting m log r n ↔
      (∃ v, r = .ok (.ok v) ∧ x.Exits setting m log (.ok (.ok v)) n) ∨
      ∃ k, n = { k with current := k.global } ∧
        ((∃ e, r = .ok (.error (.reading e)) ∧ x.Exits setting m log (.ok (.error e)) k) ∨
          ∃ e, r = .ok (.error (.running e)) ∧ x.Exits setting m log (.error e) k) := by
  have home (k : Machine) (e : Error) {l : FileLog} :
      (do leaveAll; return .error e : Eval (Except Error Value)).Exits setting k l r n ↔
        l = [] ∧ r = .ok (.error e) ∧ n = { k with current := k.global } :=
    Outcome.exits_value_iff
  constructor
  · intro h
    obtain ⟨_, rfl, fails⟩ | ⟨l₁, l₂, inner, k, rfl, first, last⟩ := exists_of_exits_bind h
    · obtain ⟨_, same, -⟩ := exits_catching_iff.1 fails
      cases same
    · obtain ⟨_, same, first⟩ := exits_catching_iff.1 first
      cases same
      match inner with
      | .ok (.ok v) =>
        obtain ⟨rfl, rfl, rfl⟩ := exits_pure_iff.1 last
        rw [List.append_nil]
        exact .inl ⟨v, rfl, first⟩
      | .ok (.error e) =>
        obtain ⟨rfl, rfl, rfl⟩ := (home k (.reading e)).1 last
        rw [List.append_nil]
        exact .inr ⟨k, rfl, .inl ⟨e, rfl, first⟩⟩
      | .error e =>
        obtain ⟨rfl, rfl, rfl⟩ := (home k (.running e)).1 last
        rw [List.append_nil]
        exact .inr ⟨k, rfl, .inr ⟨e, rfl, first⟩⟩
  · rintro (⟨v, rfl, first⟩ | ⟨k, rfl, ⟨e, rfl, first⟩ | ⟨e, rfl, first⟩⟩)
    · rw [← List.append_nil log]
      exact .bind (exits_catching_iff.2 ⟨_, rfl, first⟩) .value
    · rw [← List.append_nil log]
      exact .bind (exits_catching_iff.2 ⟨_, rfl, first⟩) ((home k (.reading e)).2 ⟨rfl, rfl, rfl⟩)
    · rw [← List.append_nil log]
      exact .bind (exits_catching_iff.2 ⟨_, rfl, first⟩) ((home k (.running e)).2 ⟨rfl, rfl, rfl⟩)

end Eval

end Scriptlet
