import Scriptlet.Error

/-!
# Changes in place

A change in place writes as it goes, and what it has written stays when a later step of it fails.
Such a change is all or nothing for a step that gives the state after it or an error, if it ends in
that state or fails with that error and has changed nothing (`settled`).
-/

namespace Scriptlet

/-- A change of a state whose writes stay when a later step of it fails. -/
abbrev InPlace (σ α : Type) := ExceptT RuntimeError (StateM σ) α

namespace InPlace

variable {σ τ α β : Type}

/-- How a change of a state ends, with the state after it. -/
def on (x : InPlace σ α) (s : σ) : Except RuntimeError α × σ := StateT.run (ExceptT.run x) s

/-- A step that may fail and reads nothing. -/
def lift (r : Except RuntimeError α) : InPlace σ α := ExceptT.mk (pure r)

/-- A step that may fail and only reads. -/
def look (f : σ → Except RuntimeError α) : InPlace σ α := do lift (f (← get))

/-- A step that writes. -/
def write (t : σ) : InPlace σ Unit := set t

/-- A step that writes or fails. -/
def commit (f : σ → Except RuntimeError σ) : InPlace σ Unit := do write (← look f)

/-- A change of a part of the state. -/
def inside (part : σ → τ) (put : σ → τ → σ) (x : InPlace τ α) : InPlace σ α :=
  ExceptT.mk fun s => ((x.on (part s)).1, put s (x.on (part s)).2)

/-- The end of a step that leaves the state as it was if it fails. -/
def settled (s : σ) : Except RuntimeError σ → Except RuntimeError Unit × σ
  | .ok t => (.ok (), t)
  | .error e => (.error e, s)

@[simp] theorem on_throw (e : RuntimeError) (s : σ) :
    (throw e : InPlace σ α).on s = (.error e, s) := rfl

@[simp] theorem on_write (s t : σ) : (write t).on s = (.ok (), t) := rfl

@[simp] theorem on_lift (r : Except RuntimeError α) (s : σ) : (lift r).on s = (r, s) := rfl

@[simp] theorem on_inside (part : σ → τ) (put : σ → τ → σ) (x : InPlace τ α) (s : σ) :
    (inside part put x).on s = ((x.on (part s)).1, put s (x.on (part s)).2) := rfl

theorem on_bind (x : InPlace σ α) (next : α → InPlace σ β) (s : σ) :
    (x >>= next).on s =
      match x.on s with
      | (.ok a, t) => (next a).on t
      | (.error e, t) => (.error e, t) := by
  rcases ended : x.on s with ⟨_ | a, t⟩
  all_goals
    simp only [on, ExceptT.run_bind, StateT.run_bind] at ended ⊢
    rw [ended]
    rfl

@[simp] theorem on_get_bind (next : σ → InPlace σ β) (s : σ) :
    ((get : InPlace σ σ) >>= next).on s = (next s).on s := rfl

@[simp] theorem on_look (f : σ → Except RuntimeError α) (s : σ) : (look f).on s = (f s, s) := rfl

@[simp] theorem on_commit (f : σ → Except RuntimeError σ) (s : σ) :
    (commit f).on s = settled s (f s) := by
  rw [commit, on_bind, on_look]
  cases f s <;> rfl

/-- A change is all or nothing after steps that only look something up. -/
theorem on_lift_bind {r : Except RuntimeError α} {next : α → InPlace σ Unit} {s : σ}
    {f : α → Except RuntimeError σ} (ends : ∀ a, (next a).on s = settled s (f a)) :
    (lift r >>= next).on s = settled s (r >>= f) := by
  rw [on_bind, on_lift]
  cases r with
  | ok a => exact ends a
  | error e => rfl

/-- A change of a part that is all or nothing is so of the whole. -/
theorem on_inside_of_settled {part : σ → τ} {put : σ → τ → σ} {x : InPlace τ Unit} {s : σ}
    {r : Except RuntimeError τ} (ends : x.on (part s) = settled (part s) r)
    (back : put s (part s) = s) :
    (inside part put x).on s = settled s (r >>= fun t => pure (put s t)) := by
  rw [on_inside, ends]
  cases r with
  | ok t => rfl
  | error e => exact congrArg (Prod.mk _) back

end InPlace

end Scriptlet
