import Scriptlet.Proofs.Evaluation.Level

/-!
# States of an evaluation

An evaluation goes from state to state. In each of them it is somewhere in the level of a piece of
work, which is part of the level of another one, and so on outward. It enters what a level comes to,
goes on with the answer to a request, and returns with the result of a level that has ended.
Evaluations end where their states come to an end (`State.exists_exits_iff_leads`), so what is shown
of the states holds throughout an evaluation, whether it ends or not.
-/

namespace Scriptlet

/-- Something that is about to be evaluated. -/
structure Point where
  work : Work
  setting : Setting
  machine : Machine

/-- How a point is evaluated, in as many steps as it takes. -/
def Point.Exits (x : Point) (log : FileLog) (r : Except RuntimeError x.work.Result) (n : Machine) :
    Prop :=
  ∃ fuel, (x.work.inSteps fuel).Exits x.setting x.machine log r n

/-- What an evaluation returns to: the rest of a level, and so on outward. -/
inductive Around (root : Work) : Work → Type where
  | outermost : Around root root
  | inside {v w : Work} (resume : Except RuntimeError w.Result → Machine → Level v.Result)
      (around : Around root v) : Around root w

/-- Where an evaluation is. -/
structure State (root : Work) where
  work : Work
  level : Level work.Result
  around : Around root work

namespace State

variable {root : Work}

/-- The state in which an evaluation begins. -/
def start (root : Work) (setting : Setting) (m : Machine) : State root :=
  ⟨root, root.level setting m, .outermost⟩

/-- The state in which an evaluation ends. -/
def finished (r : Except RuntimeError root.Result) (n : Machine) : State root :=
  ⟨root, .done r n, .outermost⟩

/-- Whether evaluation comes to a point in a state, and goes into it to another state. -/
inductive Enters : State root → Point → State root → Prop
  | mk {v w : Work} {setting : Setting} {m : Machine}
      {resume : Except RuntimeError w.Result → Machine → Level v.Result} {around : Around root v} :
      Enters ⟨v, .into w setting m resume, around⟩ ⟨w, setting, m⟩
        ⟨w, w.level setting m, .inside resume around⟩

/-- Whether evaluation comes to a point in a state. -/
def At (σ : State root) (x : Point) : Prop := ∃ τ, σ.Enters x τ

/-- Whether the point that evaluation comes to in a state is evaluated, and evaluation goes on in
another state. -/
inductive Passes : State root → (x : Point) → FileLog → Except RuntimeError x.work.Result →
    Machine → State root → Prop
  | mk {v w : Work} {setting : Setting} {m n : Machine} {log : FileLog}
      {resume : Except RuntimeError w.Result → Machine → Level v.Result} {around : Around root v}
      {r : Except RuntimeError w.Result} :
      Point.Exits ⟨w, setting, m⟩ log r n →
        Passes ⟨v, .into w setting m resume, around⟩ ⟨w, setting, m⟩ log r n
          ⟨v, resume r n, around⟩

/-- One step of an evaluation, with what it asks. -/
inductive Step : State root → FileLog → State root → Prop
  | enters {σ τ : State root} {x : Point} : σ.Enters x τ → Step σ [] τ
  | answers {v : Work} {request : FileRequest} {resume : FileAnswer → Level v.Result}
      {around : Around root v} (answer : FileAnswer) :
      Step ⟨v, .ask request resume, around⟩ [(request, answer)] ⟨v, resume answer, around⟩
  | returns {v w : Work} {n : Machine} {r : Except RuntimeError w.Result}
      {resume : Except RuntimeError w.Result → Machine → Level v.Result}
      {around : Around root v} :
      Step ⟨w, .done r n, .inside resume around⟩ [] ⟨v, resume r n, around⟩

/-- Whether evaluation goes from one state to another one, with what it asks in between. -/
inductive Leads : State root → FileLog → State root → Prop
  | here (σ : State root) : Leads σ [] σ
  | step {σ τ υ : State root} {l₁ l₂ : FileLog} : σ.Step l₁ τ → Leads τ l₂ υ → Leads σ (l₁ ++ l₂) υ

variable {log l₁ l₂ : FileLog} {setting : Setting} {m n : Machine} {σ τ υ : State root}

namespace Leads

theorem trans (first : σ.Leads l₁ τ) (second : τ.Leads l₂ υ) : σ.Leads (l₁ ++ l₂) υ := by
  induction first with
  | here _ => exact second
  | step step _ ih =>
    rw [List.append_assoc]
    exact .step step (ih second)

theorem single (step : σ.Step log τ) : σ.Leads log τ := by
  rw [← List.append_nil log]
  exact .step step (.here τ)

theorem enter {x : Point} (enters : σ.Enters x τ) (later : τ.Leads log υ) : σ.Leads log υ :=
  .step (.enters enters) later

theorem leave {v w : Work} {r : Except RuntimeError w.Result}
    {resume : Except RuntimeError w.Result → Machine → Level v.Result} {around : Around root v}
    (later : Leads ⟨v, resume r n, around⟩ log υ) :
    Leads ⟨w, .done r n, .inside resume around⟩ log υ :=
  .step .returns later

end Leads

/-! ## How levels end -/

end State

namespace Level

variable {α : Type} {log l₁ l₂ : FileLog} {setting : Setting} {m n k : Machine} {l : Level α}
  {r : Except RuntimeError α}

/-- How a level ends when what it comes to is evaluated in as many steps as it takes. -/
def Exits (l : Level α) (log : FileLog) (r : Except RuntimeError α) (n : Machine) : Prop :=
  ∃ fuel, (l.fill (Work.inSteps fuel)).Exits log r n

/-- What ends in some number of steps ends alike in more of them. -/
theorem fill_endsIn {a b : Nat} (le : a ≤ b) (ends : (l.fill (Work.inSteps a)).Exits log r n) :
    (l.fill (Work.inSteps b)).Exits log r n := by
  induction l generalizing log with
  | done _ _ | cutOff _ => exact ends
  | ask request resume ih =>
    cases ends with
    | ask ends => exact .ask (ih _ ends)
  | into w setting m resume ih =>
    rcases Outcome.exists_of_exits_andThen ends with
      ⟨e, -, fails⟩ | ⟨l₁, l₂, r, k, rfl, first, rest⟩
    · obtain ⟨_, never, -⟩ := Outcome.exits_caught_iff.1 fails
      cases never
    · obtain ⟨_, same, first⟩ := Outcome.exits_caught_iff.1 first
      cases same
      have more := Work.related (Evaluator.endsIn le) w first
      exact .andThen (Outcome.exits_caught_iff.2 ⟨r, rfl, more⟩) (ih r k rest)

theorem exits_done_iff {r' : Except RuntimeError α} :
    (done r m).Exits log r' n ↔ log = [] ∧ r = r' ∧ n = m := by
  constructor
  · rintro ⟨fuel, ends⟩
    cases r <;> cases ends <;> exact ⟨rfl, rfl, rfl⟩
  · rintro ⟨rfl, rfl, rfl⟩
    cases r with
    | ok a => exact ⟨0, .value⟩
    | error e => exact ⟨0, .error⟩

theorem Exits.ask {request : FileRequest} {resume : FileAnswer → Level α} {answer : FileAnswer}
    (ends : (resume answer).Exits log r n) :
    (Level.ask request resume).Exits ((request, answer) :: log) r n := by
  obtain ⟨fuel, ends⟩ := ends
  exact ⟨fuel, .ask ends⟩

/-- What a level comes to is evaluated, and then the rest of the level. -/
theorem Exits.into {w : Work} {r₁ : Except RuntimeError w.Result}
    {resume : Except RuntimeError w.Result → Machine → Level α}
    (first : Point.Exits ⟨w, setting, m⟩ l₁ r₁ k) (rest : (resume r₁ k).Exits l₂ r n) :
    (Level.into w setting m resume).Exits (l₁ ++ l₂) r n := by
  obtain ⟨a, first⟩ := first
  obtain ⟨b, rest⟩ := rest
  have more := Work.related (Evaluator.endsIn (Nat.le_max_left a b)) w first
  exact ⟨max a b, .andThen (Outcome.exits_caught_iff.2 ⟨r₁, rfl, more⟩)
    (fill_endsIn (Nat.le_max_right a b) rest)⟩

end Level

/-- What ends in a level ends alike as a whole. -/
theorem Point.Exits.of_level {x : Point} {log : FileLog} {r : Except RuntimeError x.work.Result}
    {n : Machine} (ends : (x.work.level x.setting x.machine).Exits log r n) : x.Exits log r n := by
  obtain ⟨fuel, ends⟩ := ends
  refine ⟨fuel + 1, ?_⟩
  rw [Work.inSteps_succ]
  exact ends

namespace State

/-! ## Evaluations and their states -/

variable {root v w : Work} {log : FileLog} {setting : Setting} {m n : Machine} {σ τ : State root}
  {around : Around root w}

/-- A level that ends is gone through from state to state. -/
theorem leads_of_fill {around : Around root v} {fuel : Nat} {l : Level v.Result}
    {r : Except RuntimeError v.Result}
    (whole : ∀ {w : Work} {setting m log} {r : Except RuntimeError w.Result} {n}
      {around : Around root w}, (w.inSteps fuel).Exits setting m log r n →
        Leads ⟨w, w.level setting m, around⟩ log ⟨w, .done r n, around⟩)
    (ends : (l.fill (Work.inSteps fuel)).Exits log r n) :
    Leads ⟨v, l, around⟩ log ⟨v, .done r n, around⟩ := by
  induction l generalizing log with
  | done r₁ m =>
    cases r₁ <;> cases ends <;> exact .here _
  | cutOff m => cases ends
  | ask request resume ih =>
    cases ends with
    | ask ends => exact .step (.answers _) (ih _ ends)
  | into w setting m resume ih =>
    rcases Outcome.exists_of_exits_andThen ends with
      ⟨e, -, fails⟩ | ⟨l₁, l₂, r₁, k, rfl, first, rest⟩
    · obtain ⟨_, never, -⟩ := Outcome.exits_caught_iff.1 fails
      cases never
    · obtain ⟨_, same, first⟩ := Outcome.exits_caught_iff.1 first
      cases same
      have inside := @whole _ _ _ _ _ _ (.inside resume around) first
      exact .enter .mk (inside.trans (.leave (ih r₁ k rest)))

/-- What is evaluated is gone through from state to state. -/
theorem leads_of_exits {r : Except RuntimeError w.Result} {fuel : Nat}
    (ends : (w.inSteps fuel).Exits setting m log r n) :
    Leads ⟨w, w.level setting m, around⟩ log ⟨w, .done r n, around⟩ := by
  induction fuel generalizing w setting m log r n with
  | zero =>
    rw [Work.inSteps_zero] at ends
    cases ends
  | succ fuel ih =>
    rw [Work.inSteps_succ] at ends
    exact leads_of_fill ih ends

theorem Passes.exits {x : Point} {r : Except RuntimeError x.work.Result}
    (passes : σ.Passes x log r n τ) : x.Exits log r n := by
  cases passes with
  | mk ends => exact ends

theorem Passes.enters {x : Point} {r : Except RuntimeError x.work.Result}
    (passes : σ.Passes x log r n τ) : ∃ υ, σ.Enters x υ := by
  cases passes with
  | mk _ => exact ⟨_, .mk⟩

/-- Evaluation that passes a point goes through what is evaluated there. -/
theorem Passes.leads {x : Point} {r : Except RuntimeError x.work.Result}
    (passes : σ.Passes x log r n τ) : σ.Leads log τ := by
  cases passes with
  | @mk v w setting m n log resume around r ends =>
    obtain ⟨fuel, ends⟩ := ends
    have inside : Leads ⟨w, w.level setting m, .inside resume around⟩ log
      ⟨w, .done r n, .inside resume around⟩ := leads_of_exits ends
    exact .enter .mk (List.append_nil log ▸ inside.trans (.leave (.here _)))

end State

namespace Around

variable {root v w : Work} {log : FileLog} {r : Except RuntimeError w.Result} {n : Machine}

/-- How an evaluation ends that returns with a result. -/
def Finishes : {w : Work} → Around root w → Except RuntimeError w.Result → Machine → FileLog →
    Except RuntimeError root.Result → Machine → Prop
  | _, .outermost, r, n, log, r', n' => log = [] ∧ r = r' ∧ n' = n
  | _, .inside resume around, r, n, log, r', n' => ∃ l₁ l₂ r₁ n₁, log = l₁ ++ l₂ ∧
      (resume r n).Exits l₁ r₁ n₁ ∧ around.Finishes r₁ n₁ l₂ r' n'

end Around

namespace State

variable {root : Work} {log l₁ : FileLog} {setting : Setting} {m n : Machine} {σ τ : State root}
  {r : Except RuntimeError root.Result}

/-- How an evaluation ends that is in a state. -/
def Finishes (σ : State root) (log : FileLog) (r : Except RuntimeError root.Result) (n : Machine) :
    Prop :=
  ∃ l₁ l₂ r₁ n₁, log = l₁ ++ l₂ ∧ σ.level.Exits l₁ r₁ n₁ ∧ σ.around.Finishes r₁ n₁ l₂ r n

theorem Step.finishes (step : σ.Step l₁ τ) (finishes : τ.Finishes log r n) :
    σ.Finishes (l₁ ++ log) r n := by
  obtain ⟨l₂, l₃, r₁, k, rfl, ends, finishes⟩ := finishes
  cases step with
  | enters enters =>
    cases enters
    obtain ⟨l₄, l₅, r₂, j, rfl, rest, finishes⟩ := finishes
    exact ⟨l₂ ++ l₄, l₅, r₂, j, by simp, .into (.of_level ends) rest, finishes⟩
  | answers answer => exact ⟨_ :: l₂, l₃, r₁, k, rfl, ends.ask, finishes⟩
  | returns =>
    exact ⟨[], l₂ ++ l₃, _, _, rfl, Level.exits_done_iff.2 ⟨rfl, rfl, rfl⟩,
      l₂, l₃, r₁, k, rfl, ends, finishes⟩

theorem Leads.finishes (leads : σ.Leads log (finished r n)) : σ.Finishes log r n := by
  generalize isLast : finished r n = τ at leads
  induction leads with
  | here σ =>
    subst isLast
    exact ⟨[], [], r, n, rfl, Level.exits_done_iff.2 ⟨rfl, rfl, rfl⟩, rfl, rfl, rfl⟩
  | step step _ ih => exact step.finishes (ih isLast)

/-- An evaluation ends in some number of steps exactly if its states come to this end. -/
theorem exists_exits_iff_leads :
    (∃ fuel, (root.inSteps fuel).Exits setting m log r n) ↔
      (start root setting m).Leads log (finished r n) := by
  constructor
  · rintro ⟨fuel, ends⟩
    exact leads_of_exits ends
  · intro leads
    obtain ⟨l₁, l₂, r₁, k, rfl, ends, rfl, rfl, rfl⟩ := leads.finishes
    rw [List.append_nil]
    exact Point.Exits.of_level (x := ⟨root, setting, m⟩) ends

end State

/-- A point is evaluated as its states are gone through. -/
theorem Point.exits_iff_leads {x : Point} {log : FileLog} {r : Except RuntimeError x.work.Result}
    {n : Machine} : x.Exits log r n ↔
      (State.start x.work x.setting x.machine).Leads log (State.finished r n) :=
  State.exists_exits_iff_leads

namespace State

variable {root : Work} {σ τ υ : State root} {x : Point} {log : FileLog}

/-! ## From state to state -/

/-- The point that evaluation comes to in a state, with the state that it enters there. -/
def point? : State root → Option (Point × State root)
  | ⟨_, .into w setting m resume, around⟩ =>
    some (⟨w, setting, m⟩, ⟨w, w.level setting m, .inside resume around⟩)
  | _ => none

/-- The next state, unless something is asked for or evaluation has ended. -/
def next? : State root → Option (State root)
  | ⟨_, .into w setting m resume, around⟩ => some ⟨w, w.level setting m, .inside resume around⟩
  | ⟨_, .done r n, .inside resume around⟩ => some ⟨_, resume r n, around⟩
  | _ => none

/-- How evaluation goes on after a point that has a value in some number of steps: on which machine
and in which state. -/
def skip? (fuel : Nat) : State root → Option (Machine × State root)
  | ⟨v, .into w setting m resume, around⟩ =>
    (w.inSteps fuel setting m).value?.map fun p => (p.2, ⟨v, resume (.ok p.1) p.2, around⟩)
  | _ => none

/-- The first state with a property, among some number of states. -/
def first? (test : State root → Bool) : Nat → State root → Option (State root)
  | 0, _ => none
  | fuel + 1, σ => if test σ then some σ else σ.next?.bind (first? test fuel)

/-- Whether something is asked for in a state. -/
def asks : State root → Bool
  | ⟨_, .ask _ _, _⟩ => true
  | _ => false

/-- Whether evaluation ends after some number of states, which all have a property, and asks for
nothing. -/
def settles (test : State root → Bool) : Nat → State root → Bool
  | 0, _ => false
  | fuel + 1, σ => test σ && !σ.asks && (σ.next?.map (settles test fuel)).getD true

theorem enters_of_point? (found : σ.point? = some (x, τ)) : σ.Enters x τ := by
  obtain ⟨v, l, around⟩ := σ
  cases l with
  | into w setting m resume =>
    cases found
    exact .mk
  | _ => cases found

theorem point?_of_enters (enters : σ.Enters x τ) : σ.point? = some (x, τ) := by
  cases enters
  rfl

theorem passes_of_skip? {fuel : Nat} {n : Machine} (skips : σ.skip? fuel = some (n, τ))
    (found : σ.point? = some (x, υ)) : ∃ a, σ.Passes x [] (.ok a) n τ := by
  obtain ⟨v, l, around⟩ := σ
  cases l with
  | into w setting m resume =>
    cases found
    obtain ⟨p, ends, same⟩ := Option.map_eq_some_iff.1 skips
    cases same
    refine ⟨p.1, .mk ⟨fuel, ?_⟩⟩
    rw [Eval.Exits, Outcome.eq_value_of_value? ends]
    exact .value
  | _ => cases skips

theorem exists_point_of_skip? {fuel : Nat} {n : Machine} (skips : σ.skip? fuel = some (n, τ)) :
    ∃ x υ, σ.point? = some (x, υ) := by
  obtain ⟨v, l, around⟩ := σ
  cases l with
  | into w setting m resume => exact ⟨_, _, rfl⟩
  | _ => cases skips

theorem step_of_next? (found : σ.next? = some τ) : σ.Step [] τ := by
  obtain ⟨v, l, around⟩ := σ
  cases l with
  | into w setting m resume =>
    cases found
    exact .enters .mk
  | done r n =>
    cases around with
    | outermost => cases found
    | inside resume around =>
      cases found
      exact .returns
  | _ => cases found

theorem leads_of_first? {test : State root → Bool} {fuel : Nat}
    (found : σ.first? test fuel = some τ) : σ.Leads [] τ ∧ test τ = true := by
  induction fuel generalizing σ with
  | zero => cases found
  | succ fuel ih =>
    rw [first?] at found
    split at found
    · rename_i here
      cases found
      exact ⟨.here _, here⟩
    · obtain ⟨υ, next, found⟩ := Option.bind_eq_some_iff.1 found
      obtain ⟨leads, here⟩ := ih found
      exact ⟨.step (step_of_next? next) leads, here⟩

/-- There is only one next state. -/
theorem Step.next? (step : σ.Step log τ) (silent : σ.asks = false) : σ.next? = some τ := by
  cases step with
  | enters enters =>
    cases enters
    rfl
  | answers answer => cases silent
  | returns => rfl

/-- What has a property in all states until evaluation ends, has it wherever evaluation comes to. -/
theorem Leads.settles {test : State root → Bool} {fuel : Nat} (settles : σ.settles test fuel = true)
    (leads : σ.Leads log τ) : test τ = true := by
  induction leads generalizing fuel with
  | here σ =>
    cases fuel with
    | zero => cases settles
    | succ fuel =>
      simp only [State.settles, Bool.and_eq_true] at settles
      exact settles.1.1
  | step step _ ih =>
    cases fuel with
    | zero => cases settles
    | succ fuel =>
      simp only [State.settles, Bool.and_eq_true, Bool.not_eq_true'] at settles
      obtain ⟨⟨-, silent⟩, rest⟩ := settles
      have later : _ = true := rest
      rw [step.next? silent] at later
      exact ih later

end State

end Scriptlet
