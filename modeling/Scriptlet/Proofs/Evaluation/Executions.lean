import Scriptlet.Proofs.Evaluation.Congruence
import Scriptlet.Proofs.Evaluation.Exits

/-!
# What statements do

An evaluation that ends in some number of steps ends in the same way in more of them. So what a
statement does (`Executes`) and what statements do one after another (`Performs`) is said without a
number of steps. A script keeps the value of each statement while it executes the next one, a host
that submits lines does not; that is the only difference between the two.
-/

namespace Scriptlet

variable {α β : Type}

namespace Eval

/-- Whether every end of an evaluation is an end of another one. -/
def EndsIn (x y : Eval α) : Prop :=
  ∀ {setting m log r n}, x.Exits setting m log r n → y.Exits setting m log r n

theorem EndsIn.refl (x : Eval α) : x.EndsIn x := fun ends => ends

theorem EndsIn.bind {x y : Eval α} {f g : α → Eval β} (first : x.EndsIn y)
    (second : ∀ a, (f a).EndsIn (g a)) : (x >>= f).EndsIn (y >>= g) := by
  intro setting m log r n ends
  rcases exists_of_exits_bind ends with ⟨e, rfl, fails⟩ | ⟨l₁, l₂, a, k, rfl, before, after⟩
  · exact .bind_error (first fails)
  · exact .bind (first before) (second a after)

theorem EndsIn.catching {x y : Eval α} (h : x.EndsIn y) : (catching x).EndsIn (catching y) := by
  intro setting m log r n ends
  obtain ⟨inner, rfl, inside⟩ := exits_catching_iff.1 ends
  exact exits_catching_iff.2 ⟨inner, rfl, h inside⟩

theorem EndsIn.within {x y : Eval α} (h : x.EndsIn y) (r : ScopeRef) (results : α → List Value) :
    (within r results x).EndsIn (within r results y) := by
  intro setting m log result n ends
  obtain ⟨k, inside, rfl⟩ := Outcome.exits_finish_iff.1 ends
  exact Outcome.exits_finish_iff.2 ⟨k, h inside, rfl⟩

theorem congruence_endsIn : Congruence EndsIn where
  cutOff _ _ _ _ _ _ ends := absurd ends Outcome.not_exits_cutOff
  primitive _ _ _ _ _ _ ends := ends
  setting h _ _ := EndsIn.bind (EndsIn.refl _) h
  bind first second := first.bind second
  catching h := h.catching
  holding _ h := fun ends => h ends
  within r results h := h.within r results

/-- When the first of two evaluations ends in some number of steps, the second one decides how both
of them end. -/
theorem exists_exits_bind_iff {x : Nat → Eval α} {f : Nat → α → Eval β} {setting : Setting}
    {m k n : Machine} {l₁ l₂ : FileLog} {a : α} {r : Except RuntimeError β}
    (more : ∀ {b c}, b ≤ c → (x b).EndsIn (x c)) (more' : ∀ {b c}, b ≤ c → (f b a).EndsIn (f c a))
    (first : ∃ fuel, (x fuel).Exits setting m l₁ (.ok a) k) :
    (∃ fuel, (x fuel >>= f fuel).Exits setting m (l₁ ++ l₂) r n) ↔
      ∃ fuel, (f fuel a).Exits setting k l₂ r n := by
  obtain ⟨b, first⟩ := first
  constructor
  · rintro ⟨c, ends⟩
    have both : (x (max b c) >>= f c).Exits setting m (l₁ ++ l₂) r n :=
      EndsIn.bind (more (Nat.le_max_right b c)) (fun v => EndsIn.refl (f c v)) ends
    exact ⟨c, (exits_bind_iff (more (Nat.le_max_left b c) first)).1 both⟩
  · rintro ⟨c, ends⟩
    exact ⟨max b c, .bind (more (Nat.le_max_left b c) first) (more' (Nat.le_max_right b c) ends)⟩

/-- The ends of two evaluations one after the other, in as many steps as they take. -/
theorem exists_exits_bind_cases {x : Nat → Eval α} {f : Nat → α → Eval β} {setting : Setting}
    {m n : Machine} {log : FileLog} {r : Except RuntimeError β}
    (more : ∀ {b c}, b ≤ c → (x b).EndsIn (x c))
    (more' : ∀ {b c}, b ≤ c → ∀ a, (f b a).EndsIn (f c a)) :
    (∃ fuel, (x fuel >>= f fuel).Exits setting m log r n) ↔
      (∃ e, r = .error e ∧ ∃ fuel, (x fuel).Exits setting m log (.error e) n) ∨
      ∃ l₁ l₂ a k, log = l₁ ++ l₂ ∧ (∃ fuel, (x fuel).Exits setting m l₁ (.ok a) k) ∧
        ∃ fuel, (f fuel a).Exits setting k l₂ r n := by
  constructor
  · rintro ⟨fuel, ends⟩
    rcases exists_of_exits_bind ends with ⟨e, rfl, fails⟩ | ⟨l₁, l₂, a, k, rfl, first, last⟩
    · exact .inl ⟨e, rfl, fuel, fails⟩
    · exact .inr ⟨l₁, l₂, a, k, rfl, ⟨fuel, first⟩, fuel, last⟩
  · rintro (⟨e, rfl, fuel, fails⟩ | ⟨l₁, l₂, a, k, rfl, ⟨b, first⟩, c, last⟩)
    · exact ⟨fuel, .bind_error fails⟩
    · exact ⟨max b c, .bind (more (Nat.le_max_left b c) first)
        (more' (Nat.le_max_right b c) a last)⟩

/-- What takes one step before it goes on ends as it does from there. -/
theorem exists_exits_iff_of_succ {x y : Nat → Eval α} {setting : Setting} {m n : Machine}
    {log : FileLog} {r : Except RuntimeError α} (zero : x 0 = .cutOff)
    (step : ∀ fuel, x (fuel + 1) = y fuel) :
    (∃ fuel, (x fuel).Exits setting m log r n) ↔ ∃ fuel, (y fuel).Exits setting m log r n := by
  constructor
  · rintro ⟨fuel, ends⟩
    cases fuel with
    | zero =>
      rw [zero] at ends
      cases ends
    | succ fuel =>
      rw [step] at ends
      exact ⟨fuel, ends⟩
  · rintro ⟨fuel, ends⟩
    refine ⟨fuel + 1, ?_⟩
    rw [step]
    exact ends

end Eval

namespace Evaluator

/-- More steps change no end. -/
theorem endsIn {n k : Nat} (le : n ≤ k) : Related Eval.EndsIn n k :=
  related Eval.congruence_endsIn le

/-- The end of a statement, in as many steps as it takes. -/
def Executes (setting : Setting) (m : Machine) (log : FileLog) (s : Stmt)
    (r : Except RuntimeError Flow) (n : Machine) : Prop :=
  ∃ fuel, (exec fuel s).Exits setting m log r n

/-- However many steps an evaluation may make, it ends in the same way. -/
theorem exits_determined {f : Nat → Eval α} {setting : Setting} {m n k : Machine} {a b : Nat}
    {l₁ l₂ x y : FileLog} {r r' : Except RuntimeError α}
    (more : ∀ {b c}, b ≤ c → (f b).EndsIn (f c)) (first : (f a).Exits setting m l₁ r n)
    (second : (f b).Exits setting m l₂ r' k) (same : l₁ ++ x = l₂ ++ y) :
    l₁ = l₂ ∧ r = r' ∧ n = k :=
  Outcome.Exits.determined (more (Nat.le_max_left a b) first) (more (Nat.le_max_right a b) second)
    same

theorem Executes.determined {setting : Setting} {m n k : Machine} {log : FileLog} {s : Stmt}
    {r r' : Except RuntimeError Flow} (first : Executes setting m log s r n)
    (second : Executes setting m log s r' k) : r = r' ∧ n = k := by
  obtain ⟨a, first⟩ := first
  obtain ⟨b, second⟩ := second
  have same : log ++ [] = log ++ [] := rfl
  exact (exits_determined (fun le => (endsIn le).exec s) first second same).2

/-- What can be executed without a file asks for none. -/
theorem Executes.determined_of_nil {setting : Setting} {m n k : Machine} {log : FileLog} {s : Stmt}
    {r r' : Except RuntimeError Flow} (first : Executes setting m [] s r n)
    (second : Executes setting m log s r' k) : log = [] ∧ r = r' ∧ n = k := by
  obtain ⟨a, first⟩ := first
  obtain ⟨b, second⟩ := second
  obtain ⟨silent, same⟩ := exits_determined (fun le => (endsIn le).exec s) first second
    (List.append_nil log).symm
  exact ⟨silent.symm, same⟩

/-- Statements that are executed one after another, none of which fails, from a value before them to
the value of the last one. While one of them is executed, what `keeps` says of the value before it
is in use. -/
inductive Performs (keeps : Value → List Value) (setting : Setting) :
    Machine → Value → FileLog → List Stmt → Value → Machine → Prop where
  | nil {m : Machine} {v : Value} : Performs keeps setting m v [] [] v m
  | cons {m k n : Machine} {u v : Value} {l₁ l₂ : FileLog} {s : Stmt} {rest : List Stmt}
      {flow : Flow} :
      Executes (setting.hold (keeps u)) m l₁ s (.ok flow) k →
        Performs keeps setting k flow.value l₂ rest v n →
          Performs keeps setting m u (l₁ ++ l₂) (s :: rest) v n

/-- The value before a statement is in use while the statement is executed. -/
def keepsLast (v : Value) : List Value := [v]

/-- The value before a statement is not in use while the statement is executed. -/
def keepsNothing (_ : Value) : List Value := []

variable {setting : Setting} {m k n : Machine} {u v w : Value} {log l₁ l₂ : FileLog}

section

variable {keeps : Value → List Value} {ss us : List Stmt}

theorem performs_nil_iff :
    Performs keeps setting m u log [] v n ↔ log = [] ∧ v = u ∧ n = m := by
  constructor
  · intro h
    cases h
    exact ⟨rfl, rfl, rfl⟩
  · rintro ⟨rfl, rfl, rfl⟩
    exact .nil

theorem performs_cons_iff {s : Stmt} :
    Performs keeps setting m u log (s :: ss) v n ↔ ∃ l₁ l₂ flow k, log = l₁ ++ l₂ ∧
      Executes (setting.hold (keeps u)) m l₁ s (.ok flow) k ∧
        Performs keeps setting k flow.value l₂ ss v n := by
  constructor
  · intro h
    cases h with
    | cons first rest => exact ⟨_, _, _, _, rfl, first, rest⟩
  · rintro ⟨l₁, l₂, flow, k, rfl, first, rest⟩
    exact .cons first rest

theorem performs_append_iff :
    Performs keeps setting m u log (ss ++ us) v n ↔ ∃ l₁ l₂ w k, log = l₁ ++ l₂ ∧
      Performs keeps setting m u l₁ ss w k ∧ Performs keeps setting k w l₂ us v n := by
  induction ss generalizing m u log with
  | nil =>
    constructor
    · intro h
      exact ⟨[], log, u, m, rfl, .nil, h⟩
    · rintro ⟨l₁, l₂, w, k, rfl, first, rest⟩
      obtain ⟨rfl, rfl, rfl⟩ := performs_nil_iff.1 first
      exact rest
  | cons s ss ih =>
    constructor
    · intro h
      obtain ⟨l₁, l₂, flow, k, rfl, first, rest⟩ := performs_cons_iff.1 h
      obtain ⟨l₃, l₄, w, j, rfl, middle, last⟩ := ih.1 rest
      exact ⟨l₁ ++ l₃, l₄, w, j, (List.append_assoc l₁ l₃ l₄).symm, .cons first middle, last⟩
    · rintro ⟨l, l₄, w, j, rfl, before, last⟩
      obtain ⟨l₁, l₃, flow, k, rfl, first, middle⟩ := performs_cons_iff.1 before
      rw [List.append_assoc]
      exact .cons first (ih.2 ⟨l₃, l₄, w, j, rfl, middle, last⟩)

end

/-! ## Statements of a script -/

theorem performs_of_exits_executed {fuel : Nat} {ss : List Stmt}
    (ends : (executed fuel ss u).Exits setting m log (.ok v) n) :
    Performs keepsLast setting m u log ss v n := by
  induction ss generalizing fuel m u log with
  | nil =>
    cases fuel with
    | zero =>
      rw [executed] at ends
      cases ends
    | succ fuel =>
      simp only [executed] at ends
      obtain ⟨rfl, same, rfl⟩ := Eval.exits_pure_iff.1 ends
      cases same
      exact .nil
  | cons s ss ih =>
    cases fuel with
    | zero =>
      rw [executed] at ends
      cases ends
    | succ fuel =>
      simp only [executed] at ends
      obtain ⟨l₁, l₂, flow, k, rfl, first, rest⟩ := Eval.exists_of_exits_bind_ok ends
      exact .cons ⟨fuel, first⟩ (ih rest)

theorem exists_exits_executed {ss : List Stmt} (h : Performs keepsLast setting m u log ss v n) :
    ∃ fuel, (executed fuel ss u).Exits setting m log (.ok v) n := by
  induction h with
  | nil => exact ⟨1, by rw [executed]; exact .value⟩
  | cons first _ ih =>
    obtain ⟨a, first⟩ := first
    obtain ⟨b, rest⟩ := ih
    refine ⟨max a b + 1, ?_⟩
    rw [executed]
    exact .bind ((endsIn (Nat.le_max_left a b)).exec _ first)
      ((endsIn (Nat.le_max_right a b)).executed _ _ rest)

end Evaluator

end Scriptlet
