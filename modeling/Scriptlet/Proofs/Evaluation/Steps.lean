import Scriptlet.Proofs.Evaluation.Discipline
import Scriptlet.Proofs.Evaluation.States

/-!
# Steps of a discipline

An evaluation goes well in a discipline if it leads from a machine that it may run on to such
machines, however it ends: with a value, with an error, cut off, or after any answers to what it
asks. A level goes well (`Level.Goes`) if moreover evaluation may come to each of the points that it
comes to, and goes on well from there when they have been evaluated well. There is one rule for each
way in which evaluations and their levels are made.
-/

namespace Scriptlet

variable {α β : Type} {setting : Setting} {m n k : Machine}

/-! ## How evaluations end -/

/-- Whether an outcome ends as it should, whatever the answers to what it asks are: `value` is what
holds of its value, `error` of its error, and `cut` of the machine where it is cut off. -/
def Outcome.Reaches (o : Outcome α) (value : α → Machine → Prop)
    (error : RuntimeError → Machine → Prop) (cut : Machine → Prop) : Prop :=
  match o with
  | .value a m => value a m
  | .error e m => error e m
  | .cutOff m => cut m
  | .ask _ resume => ∀ answer, (resume answer).Reaches value error cut

/-- Whether an outcome ends as it should, where `stop` is what holds of the machine where it stops
without a value. -/
def Outcome.Ends (o : Outcome α) (value : α → Machine → Prop) (stop : Machine → Prop) : Prop :=
  match o with
  | .value a m => value a m
  | .error _ m | .cutOff m => stop m
  | .ask _ resume => ∀ answer, (resume answer).Ends value stop

namespace Outcome

variable {value value' : α → Machine → Prop} {error error' : RuntimeError → Machine → Prop}
  {cut cut' : Machine → Prop} {o : Outcome α}

theorem Reaches.imp (reaches : o.Reaches value error cut) (values : ∀ a m, value a m → value' a m)
    (errors : ∀ e m, error e m → error' e m) (cuts : ∀ m, cut m → cut' m) :
    o.Reaches value' error' cut' := by
  induction o with
  | value a m => exact values a m reaches
  | error e m => exact errors e m reaches
  | cutOff m => exact cuts m reaches
  | ask request resume ih => exact fun answer => ih answer (reaches answer)

theorem Reaches.andThen {next : α → Machine → Outcome β} {last : β → Machine → Prop}
    (reaches : o.Reaches value error cut)
    (go : ∀ a m, value a m → (next a m).Reaches last error cut) :
    (o.andThen next).Reaches last error cut := by
  induction o with
  | value a m => exact go a m reaches
  | error e m => exact reaches
  | cutOff m => exact reaches
  | ask request resume ih => exact fun answer => ih answer (reaches answer)

theorem Reaches.finish {last : Option α → Machine → Machine} (reaches : o.Reaches value error cut)
    (values : ∀ a m, value a m → value' a (last (some a) m))
    (errors : ∀ e m, error e m → error' e (last none m)) (cuts : ∀ m, cut m → cut' m) :
    (o.finish last).Reaches value' error' cut' := by
  induction o with
  | value a m => exact values a m reaches
  | error e m => exact errors e m reaches
  | cutOff m => exact cuts m reaches
  | ask request resume ih => exact fun answer => ih answer (reaches answer)

theorem Reaches.caught {last : Except RuntimeError α → Machine → Prop}
    (reaches : o.Reaches value error cut) (values : ∀ a m, value a m → last (.ok a) m)
    (errors : ∀ e m, error e m → last (.error e) m) : o.caught.Reaches last error' cut := by
  induction o with
  | value a m => exact values a m reaches
  | error e m => exact errors e m reaches
  | cutOff m => exact reaches
  | ask request resume ih => exact fun answer => ih answer (reaches answer)

/-- What holds of every machine that an outcome leads to holds wherever it ends. -/
theorem Reaches.ends {P : Machine → Prop} (reaches : o.Reaches value error cut)
    (values : ∀ a m, value a m → P m) (errors : ∀ e m, error e m → P m)
    (cuts : ∀ m, cut m → P m) : o.Ends (fun _ m => P m) P := by
  induction o with
  | value a m => exact values a m reaches
  | error e m => exact errors e m reaches
  | cutOff m => exact cuts m reaches
  | ask request resume ih => exact fun answer => ih answer (reaches answer)

/-- What holds of every end of an outcome holds of each of them. -/
theorem Reaches.of_exits {log : FileLog} {r : Except RuntimeError α}
    (reaches : o.Reaches value error cut) (exits : o.Exits log r n) :
    (∀ a, r = .ok a → value a n) ∧ ∀ e, r = .error e → error e n := by
  induction exits with
  | value =>
    refine ⟨fun a same => ?_, fun e never => ?_⟩
    · cases same
      exact reaches
    · cases never
  | error =>
    refine ⟨fun a never => ?_, fun e same => ?_⟩
    · cases never
    · cases same
      exact reaches
  | ask _ ih => exact ih (reaches _)

end Outcome

/-! ## Values in use -/

namespace Discipline

variable {D : Discipline}

/-- Whether all values are valid in a store. -/
def AllValid (D : Discipline) (values : List Value) (s : Store) : Prop := ∀ v ∈ values, D.Valid s v

namespace AllValid

variable {s t : Store} {v : Value} {values : List Value}

theorem more (lawful : D.Lawful) (extends' : D.Extends s t) (valid : D.AllValid values s) :
    D.AllValid values t :=
  fun v member => lawful.valid_extends extends' (valid v member)

theorem nil : D.AllValid [] s := by
  intro v member
  cases member

theorem cons (first : D.Valid s v) (rest : D.AllValid values s) : D.AllValid (v :: values) s := by
  intro u member
  rcases List.mem_cons.1 member with rfl | later
  · exact first
  · exact rest u later

theorem single (valid : D.Valid s v) : D.AllValid [v] s := .cons valid .nil

theorem tail (valid : D.AllValid (v :: values) s) : D.AllValid values s :=
  fun u member => valid u (List.mem_cons_of_mem _ member)

end AllValid

/-! ## Machines -/

/-- A machine turns into one that evaluation may run on. -/
structure Turns (D : Discipline) (m n : Machine) : Prop where
  running : D.Running n
  more : D.Extends m.store n.store

/-- Whether evaluation may run on a machine in a setting. -/
structure Ready (D : Discipline) (setting : Setting) (m : Machine) : Prop where
  running : D.Running m
  setting : D.Suits setting m.store

namespace Lawful

variable (lawful : D.Lawful)
include lawful

theorem stays (running : D.Running m) : D.Turns m m :=
  ⟨running, lawful.extends_of_grows (lawful.refl _)⟩

theorem turns (first : D.Turns m n) (second : D.Turns n k) : D.Turns m k :=
  ⟨second.running, lawful.extends_trans first.more second.more⟩

theorem putStore (running : D.Running m) {t : Store} (becomes : D.Becomes m.store t) :
    D.Turns m { m with store := t } :=
  ⟨lawful.put running becomes, lawful.extends_of_grows becomes.grows⟩

theorem next (ready : D.Ready setting m) (turns : D.Turns m n) : D.Ready setting n :=
  ⟨turns.running, lawful.suits_extends turns.more ready.setting⟩

theorem holding (ready : D.Ready setting m) {values : List Value}
    (valid : D.AllValid values m.store) : D.Ready (setting.hold values) m :=
  ⟨ready.running, lawful.hold ready.setting fun v member => .inl (valid v member)⟩

theorem holdingPlace (ready : D.Ready setting m) {p : Place} (here : D.HasPlace m.store p) :
    D.Ready (setting.hold p.values) m :=
  ⟨ready.running, lawful.hold ready.setting (lawful.usable_place here)⟩

/-- A scope that evaluation enters; the one around it stays in use. -/
theorem entering (ready : D.Ready setting m) {name : String} {c : Bool} {r : ScopeRef}
    (opened : D.Opened m.store name c r) :
    D.Ready (setting.hold [.object m.current]) { m with current := r } := by
  refine ⟨lawful.enter ready.running opened, lawful.hold ready.setting fun v member => ?_⟩
  rw [List.mem_singleton.1 member]
  exact .inr ⟨_, rfl, lawful.known_of_current (lawful.current ready.running)⟩

end Lawful

/-! ## What is evaluated -/

end Discipline

/-- Whether a function is written in a script. -/
def FunctionBody.isScript : FunctionBody → Bool
  | .script _ => true
  | _ => false

theorem FunctionBody.exists_of_isScript {b : FunctionBody} (h : b.isScript = true) :
    ∃ statements, b = .script statements := by
  cases b with
  | script statements => exact ⟨statements, rfl⟩
  | _ => cases h

namespace Discipline

variable {D : Discipline}

/-- Whether the value of an evaluation is valid. -/
abbrev IsValid (D : Discipline) (v : Value) (s : Store) : Prop := D.Valid s v

/-- Whether the value that a statement ends with is valid. -/
abbrev FlowValid (D : Discipline) (flow : Flow) (s : Store) : Prop := D.Valid s flow.value

/-- What holds of a result: a value is valid, and of an error something else holds. -/
def Answers {ε : Type} (D : Discipline) (refused : ε → Prop) (r : Except ε Value) (s : Store) : Prop :=
  (∀ v, r = .ok v → D.Valid s v) ∧ ∀ e, r = .error e → refused e

/-- Whether an expression names only lines that errors may name. -/
abbrev Admits (D : Discipline) (e : Expr) : Prop := e.EachLine D.line

/-- Whether statements name only lines that errors may name. -/
abbrev AdmitsAll (D : Discipline) (statements : List Stmt) : Prop :=
  ∀ st ∈ statements, Stmt.EachLine D.line D.imports st

/-- Whether evaluation may come to a piece of work. What is a script of its own is run by no plain
function of the host, so evaluation does not come to it. -/
def Takes (D : Discipline) : Work → Store → Prop
  | .eval e, _ => D.Admits e
  | .arguments operands, _ => ∀ e ∈ operands, D.Admits e
  | .call _ operands line, _ => (∀ e ∈ operands, D.Admits e) ∧ D.line line
  | .invoke _ values receiver line, s =>
    D.AllValid values s ∧ (∀ o, receiver = some o → D.Known s o) ∧ D.line line
  | .body statements, _ => D.AdmitsAll statements
  | .initialized o values line, s => D.Valid s (.object o) ∧ D.AllValid values s ∧ D.line line
  | .apply values line, s => D.AllValid values s ∧ D.line line
  | .callMember receiver _ values line, s =>
    D.Valid s receiver ∧ D.AllValid values s ∧ D.line line
  | .hosted _ made, s => D.AllValid made.arguments s ∧ D.line made.line
  | .act action, s => Host.Action.Plain D.Valid D.line s action
  | .assignment _ operands line, _ => (∀ e ∈ operands, D.Admits e) ∧ D.line line
  | .place target line, _ => D.Admits target ∧ D.line line
  | .exec statement, _ => Stmt.EachLine D.line D.imports statement
  | .sequence last statements, s => D.Valid s last ∧ D.AdmitsAll statements
  | .repeated test iterate statements last, s =>
    (∀ e ∈ test, D.Admits e) ∧ (∀ e ∈ iterate, D.Admits e) ∧ D.AdmitsAll statements ∧
      D.Valid s last
  | .each _ statements last values, s =>
    D.AdmitsAll statements ∧ D.Valid s last ∧ D.AllValid values s
  | .choose branches, _ =>
    (∀ b ∈ branches, ∀ e ∈ b.test, D.Admits e) ∧ ∀ b ∈ branches, D.AdmitsAll b.body
  | .run _, _ => False
  | .script _, _ => D.imports
  | .feed r tokens last, s => D.AdmitsAll (r.readAll tokens).1 ∧ D.Valid s last
  | .executed statements last, s => D.AdmitsAll statements ∧ D.Valid s last

/-- What holds of the result of a piece of work. -/
def Results (D : Discipline) : (w : Work) → w.Result → Store → Prop
  | .arguments _ => D.AllValid
  | .place _ _ => fun p s => D.HasPlace s p
  | .exec _ | .sequence _ _ | .repeated _ _ _ _ | .each _ _ _ _ | .choose _ => D.FlowValid
  | .run _ => fun _ _ => True
  | .script _ => D.Answers fun _ => True
  | .feed r tokens _ => D.Answers fun e => (r.readAll tokens).2 = some e
  | .eval _ | .call _ _ _ | .invoke _ _ _ _ | .body _ | .initialized _ _ _ | .apply _ _
  | .callMember _ _ _ _ | .hosted _ _ | .act _ | .assignment _ _ _ | .executed _ _ => D.IsValid

/-- Whether evaluation may go into a piece of work: a function that is written in a script may be
called only from some scopes, and a class may be defined only in some stores. -/
def May (D : Discipline) : Work → Machine → Prop
  | .invoke f _ receiver _, m =>
    (m.store.function f).body.isScript = true → D.MayCall m.store m.current f receiver
  | .exec (.classDef _ _ _ _), m => D.MayDeclare m.store
  | _, _ => True

/-- Whether evaluation has ended well since a machine: on one that evaluation may run on, with a
value of which something holds in the store, or with an error on one of the lines. -/
structure Ended (D : Discipline) (b : Machine) (P : α → Store → Prop) (r : Except RuntimeError α)
    (n : Machine) : Prop where
  turns : D.Turns b n
  value : ∀ a, r = .ok a → P a n.store
  line : ∀ e, r = .error e → D.line e.line

/-- Whether an evaluation leads from a machine to ones that evaluation may run on, with a value of
which something holds in the store, or with an error on one of the lines. -/
def Goes (D : Discipline) (x : Eval α) (setting : Setting) (m : Machine)
    (P : α → Store → Prop) : Prop :=
  (x setting m).Reaches (fun a n => D.Turns m n ∧ P a n.store)
    (fun e n => D.Turns m n ∧ D.line e.line) (D.Turns m ·)

end Discipline

/-- Whether a level goes well: it ends well since a machine, and what it comes to before may be
evaluated, after which it goes on well if that has ended well. The store moves from a first one
to those of the machines that it comes to. -/
def Level.Goes (D : Discipline) (b : Machine) (s : Store) (P : α → Store → Prop) : Level α → Prop
  | done r n => D.Moves s n.store ∧ D.Ended b P r n
  | ask _ resume => ∀ answer, (resume answer).Goes D b s P
  | cutOff n => D.Turns b n
  | into w setting n resume =>
    D.Moves s n.store ∧ D.Turns b n ∧ D.Ready setting n ∧ D.Takes w n.store ∧
      ∀ r k, D.Ended n (D.Results w) r k → (resume r k).Goes D b k.store P

namespace Discipline

variable {D : Discipline} {P : α → Store → Prop} {Q : β → Store → Prop} {line : Line} {v : Value}
  {statements : List Stmt}

/-- Whether what one function of the evaluator does itself goes well, since a machine before it. -/
def ProceedsSince (D : Discipline) (b : Machine) (x : Stepwise α) (setting : Setting) (m : Machine)
    (P : α → Store → Prop) : Prop :=
  ∀ s, D.Moves s m.store → (x setting m).Goes D b s P

/-- Whether what one function of the evaluator does itself goes well. -/
def Proceeds (D : Discipline) (x : Stepwise α) (setting : Setting) (m : Machine)
    (P : α → Store → Prop) : Prop :=
  D.ProceedsSince m x setting m P

namespace Ended

variable {b : Machine} {a : α} {e : RuntimeError}

theorem ok (turns : D.Turns b n) (value : P a n.store) : D.Ended b P (.ok a) n := by
  refine ⟨turns, fun c same => ?_, fun e never => ?_⟩
  · cases same
    exact value
  · cases never

theorem error (turns : D.Turns b n) (names : D.line e.line) : D.Ended b P (.error e) n := by
  refine ⟨turns, fun c never => ?_, fun f same => ?_⟩
  · cases never
  · cases same
    exact names

theorem imp {P' : α → Store → Prop} {r : Except RuntimeError α} (ended : D.Ended b P r n)
    (imp : ∀ a s, P a s → P' a s) : D.Ended b P' r n :=
  ⟨ended.turns, fun a same => imp a n.store (ended.value a same), ended.line⟩

end Ended

theorem AllValid.mem_drop {s : Store} {values : List Value} (valid : D.AllValid values s) (i : Nat) :
    D.AllValid (values.drop i) s :=
  fun v member => valid v (List.mem_of_mem_drop member)

theorem AdmitsAll.tail {st : Stmt} (admits : D.AdmitsAll (st :: statements)) :
    D.AdmitsAll statements :=
  fun u member => admits u (List.mem_cons_of_mem _ member)

/-! ## Evaluations -/

namespace Goes

variable {x : Eval α}

/-- What holds wherever an evaluation ends that goes well. -/
theorem exits {log : FileLog} {r : Except RuntimeError α} (goes : D.Goes x setting m P)
    (ends : x.Exits setting m log r n) : D.Ended m P r n := by
  have reached := Outcome.Reaches.of_exits goes ends
  cases r with
  | ok a => exact .ok (reached.1 a rfl).1 (reached.1 a rfl).2
  | error e => exact .error (reached.2 e rfl).1 (reached.2 e rfl).2

variable (lawful : D.Lawful)
include lawful

theorem bind {next : α → Eval β} (goes : D.Goes x setting m P)
    (go : ∀ a n, D.Turns m n → P a n.store → D.Goes (next a) setting n Q) :
    D.Goes (x >>= next) setting m Q := by
  have first : (x setting m).Reaches (fun a n => D.Turns m n ∧ P a n.store)
    (fun e n => D.Turns m n ∧ D.line e.line) (D.Turns m ·) := goes
  refine first.andThen fun a n ⟨turns, value⟩ => ?_
  exact Outcome.Reaches.imp (go a n turns value)
    (fun _ _ both => ⟨lawful.turns turns both.1, both.2⟩)
    (fun _ _ both => ⟨lawful.turns turns both.1, both.2⟩) fun _ cut => lawful.turns turns cut

theorem pure (running : D.Running m) {a : α} (value : P a m.store) :
    D.Goes (Pure.pure a : Eval α) setting m P := ⟨lawful.stays running, value⟩

theorem fail (running : D.Running m) {e : RuntimeError} (names : D.line e.line) :
    D.Goes (Eval.fail e : Eval α) setting m P := ⟨lawful.stays running, names⟩

theorem cutOff (running : D.Running m) : D.Goes (Eval.cutOff : Eval α) setting m P :=
  lawful.stays running

theorem look (running : D.Running m) {f : Store → ScopeRef → α}
    (value : P (f m.store m.current) m.store) : D.Goes (Eval.look f) setting m P :=
  ⟨lawful.stays running, value⟩

theorem check (running : D.Running m) {f : Store → Except RuntimeError α} (names : D.line line)
    (fails : FailsOn line (f m.store)) (value : ∀ a, f m.store = .ok a → P a m.store) :
    D.Goes (Eval.check f) setting m P := by
  unfold Goes Eval.check
  cases result : f m.store with
  | ok a => exact ⟨lawful.stays running, value a result⟩
  | error e =>
    refine ⟨lawful.stays running, ?_⟩
    rw [fails e result]
    exact names

theorem change (running : D.Running m) {f : Store → α × Store}
    (becomes : D.Becomes m.store (f m.store).2) (value : P (f m.store).1 (f m.store).2) :
    D.Goes (Eval.change f) setting m P := ⟨lawful.putStore running becomes, value⟩

theorem changeHere (running : D.Running m) {f : Store → ScopeRef → Store}
    {P : Unit → Store → Prop} (becomes : D.Becomes m.store (f m.store m.current))
    (value : P () (f m.store m.current)) : D.Goes (Eval.changeHere f) setting m P :=
  ⟨lawful.putStore running becomes, value⟩

theorem attempt (running : D.Running m) {f : Store → Except RuntimeError (α × Store)}
    (names : D.line line) (fails : FailsOn line (f m.store))
    (result : ∀ r, f m.store = .ok r → D.Becomes m.store r.2 ∧ P r.1 r.2) :
    D.Goes (Eval.attempt f) setting m P := by
  unfold Goes Eval.attempt
  cases found : f m.store with
  | ok r =>
    obtain ⟨becomes, value⟩ := result r found
    exact ⟨lawful.putStore running becomes, value⟩
  | error e =>
    refine ⟨lawful.stays running, ?_⟩
    rw [fails e found]
    exact names

theorem print (running : D.Running m) {text : String} {P : Unit → Store → Prop}
    (value : P () m.store) : D.Goes (Eval.print text) setting m P :=
  ⟨⟨lawful.print running _, (lawful.stays running).more⟩, value⟩

theorem ask (running : D.Running m) {request : FileRequest} {P : FileAnswer → Store → Prop}
    (value : ∀ answer, P answer m.store) : D.Goes (Eval.ask request) setting m P :=
  fun answer => ⟨lawful.stays running, value answer⟩

theorem around (running : D.Running m) {P : Setting → Store → Prop}
    (value : P setting m.store) : D.Goes Eval.setting setting m P := ⟨lawful.stays running, value⟩

end Goes

end Discipline

/-! ## Levels -/

namespace Level.Goes

variable {D : Discipline} {b b' : Machine} {s : Store} {P : α → Store → Prop}
  {Q : β → Store → Prop} {l : Level α} (lawful : D.Lawful)
include lawful

theorem since (goes : l.Goes D n s P) (turns : D.Turns m n) : l.Goes D m s P := by
  induction l generalizing s with
  | done r k =>
    obtain ⟨moves, ended⟩ := goes
    exact ⟨moves, lawful.turns turns ended.turns, ended.value, ended.line⟩
  | ask request resume ih => exact fun answer => ih answer (goes answer)
  | cutOff k => exact lawful.turns turns goes
  | into w setting k resume ih =>
    obtain ⟨moves, later, ready, takes, rest⟩ := goes
    exact ⟨moves, lawful.turns turns later, ready, takes, fun r j ended => ih r j (rest r j ended)⟩

omit lawful in
theorem imp {P' : α → Store → Prop} (goes : l.Goes D b s P) (imp : ∀ a s, P a s → P' a s) :
    l.Goes D b s P' := by
  induction l generalizing s with
  | done r n => exact ⟨goes.1, goes.2.imp imp⟩
  | ask request resume ih => exact fun answer => ih answer (goes answer)
  | cutOff n => exact goes
  | into w setting n resume ih =>
    obtain ⟨moves, turns, ready, takes, rest⟩ := goes
    exact ⟨moves, turns, ready, takes, fun r k ended => ih r k (rest r k ended)⟩

omit lawful in
theorem andThen {next : α → Machine → Level β} (goes : l.Goes D b s P)
    (go : ∀ a n s, D.Moves s n.store → D.Turns b n → P a n.store → (next a n).Goes D b s Q) :
    (l.andThen next).Goes D b s Q := by
  induction l generalizing s with
  | done r n =>
    obtain ⟨moves, ended⟩ := goes
    cases r with
    | ok a => exact go a n s moves ended.turns (ended.value a rfl)
    | error e => exact ⟨moves, .error ended.turns (ended.line e rfl)⟩
  | ask request resume ih => exact fun answer => ih answer (goes answer)
  | cutOff n => exact goes
  | into w setting n resume ih =>
    obtain ⟨moves, turns, ready, takes, rest⟩ := goes
    exact ⟨moves, turns, ready, takes, fun r k ended => ih r k (rest r k ended)⟩

/-- A level with a last change of the machine. -/
theorem finish {last : Option α → Machine → Machine} {P' : α → Store → Prop}
    (goes : l.Goes D b s P)
    (ends : ∀ r n, D.Ended b P r n → D.Moves n.store (last (Outcome.result? r) n).store ∧
      D.Ended b' P' r (last (Outcome.result? r) n))
    (turns : ∀ n, D.Turns b n → D.Turns b' n) : (l.finish last).Goes D b' s P' := by
  induction l generalizing s with
  | done r n =>
    obtain ⟨moves, ended⟩ := goes
    obtain ⟨later, ended⟩ := ends r n ended
    exact ⟨lawful.moves_trans moves later, ended⟩
  | ask request resume ih => exact fun answer => ih answer (goes answer)
  | cutOff n => exact turns n goes
  | into w setting n resume ih =>
    obtain ⟨moves, before, ready, takes, rest⟩ := goes
    exact ⟨moves, turns n before, ready, takes, fun r k ended => ih r k (rest r k ended)⟩

omit lawful in
theorem caught (goes : l.Goes D b s P) :
    l.caught.Goes D b s fun r s =>
      (∀ a, r = .ok a → P a s) ∧ ∀ e, r = .error e → D.line e.line := by
  induction l generalizing s with
  | done r n => exact ⟨goes.1, .ok goes.2.turns ⟨goes.2.value, goes.2.line⟩⟩
  | ask request resume ih => exact fun answer => ih answer (goes answer)
  | cutOff n => exact goes
  | into w setting n resume ih =>
    obtain ⟨moves, turns, ready, takes, rest⟩ := goes
    exact ⟨moves, turns, ready, takes, fun r k ended => ih r k (rest r k ended)⟩

theorem ofOutcome {o : Outcome α} (moves : D.Moves s b.store)
    (goes : o.Reaches (fun a n => D.Turns b n ∧ P a n.store)
      (fun e n => D.Turns b n ∧ D.line e.line) (D.Turns b ·)) :
    (Level.ofOutcome o).Goes D b s P := by
  have later {n : Machine} (turns : D.Turns b n) : D.Moves s n.store :=
    lawful.moves_trans moves (lawful.moves_of_extends turns.more)
  induction o with
  | value a n => exact ⟨later goes.1, .ok goes.1 goes.2⟩
  | error e n => exact ⟨later goes.1, .error goes.1 goes.2⟩
  | ask request resume ih => exact fun answer => ih answer (goes answer)
  | cutOff n => exact goes

/-- A level goes well as a whole if what it comes to does. -/
theorem fill {ran : (w : Work) → Eval w.Result} (goes : l.Goes D b s P)
    (runs : ∀ {setting n} w, D.Ready setting n → D.Takes w n.store →
      D.Goes (ran w) setting n (D.Results w)) :
    (l.fill ran).Reaches (fun a n => D.Turns b n ∧ P a n.store)
      (fun e n => D.Turns b n ∧ D.line e.line) (D.Turns b ·) := by
  induction l generalizing s with
  | done r n =>
    obtain ⟨-, ended⟩ := goes
    cases r with
    | ok a => exact ⟨ended.turns, ended.value a rfl⟩
    | error e => exact ⟨ended.turns, ended.line e rfl⟩
  | ask request resume ih => exact fun answer => ih answer (goes answer)
  | cutOff n => exact goes
  | into w setting n resume ih =>
    obtain ⟨-, turns, ready, takes, rest⟩ := goes
    have first : (ran w setting n).Reaches _ _ _ := runs w ready takes
    have first : (ran w setting n).caught.Reaches (D.Ended n (D.Results w))
        (fun e k => D.Turns b k ∧ D.line e.line) (D.Turns n ·) :=
      first.caught (fun a k both => .ok both.1 both.2) fun e k both => .error both.1 both.2
    have first := first.imp (fun _ _ ended => ended) (fun _ _ never => never) fun _ later =>
      lawful.turns turns later
    exact first.andThen fun r k ended => ih r k (rest r k ended)

end Level.Goes

theorem Discipline.Lawful.enters {D : Discipline} (lawful : D.Lawful) (w : Work)
    (ready : D.Ready setting m) (takes : D.Takes w m.store) :
    D.Proceeds (Stepwise.enter w) setting m (D.Results w) :=
  fun _ moves => ⟨moves, lawful.stays ready.running, ready, takes, fun _ k ended =>
    ⟨lawful.moves_of_extends (lawful.extends_of_grows (lawful.refl k.store)), ended⟩⟩

namespace Discipline.Proceeds

variable {D : Discipline} {P : α → Store → Prop} {Q : β → Store → Prop} {line : Line}
  {x : Stepwise α}

theorem imp {P' : α → Store → Prop} (goes : D.Proceeds x setting m P)
    (imp : ∀ a s, P a s → P' a s) : D.Proceeds x setting m P' :=
  fun s moves => (goes s moves).imp imp

theorem holding {values : List Value} (goes : D.Proceeds x (setting.hold values) m P) :
    D.Proceeds (Stepwise.holding values x) setting m P := goes

/-- Evaluation that looks at the store goes on with what it sees, on the same machine. -/
theorem look {f : Store → ScopeRef → α} {next : α → Stepwise β}
    (goes : D.Proceeds (next (f m.store m.current)) setting m Q) :
    D.Proceeds (Stepwise.lift (.look f) >>= next) setting m Q := goes

theorem around {next : Setting → Stepwise β} (goes : D.Proceeds (next setting) setting m Q) :
    D.Proceeds (Stepwise.lift .setting >>= next) setting m Q := goes

theorem catching (goes : D.Proceeds x setting m P) :
    D.Proceeds (Stepwise.catching x) setting m fun r s =>
      (∀ a, r = .ok a → P a s) ∧ ∀ e, r = .error e → D.line e.line :=
  fun s moves => (goes s moves).caught

variable (lawful : D.Lawful)
include lawful

theorem lift {x : Eval α} (goes : D.Goes x setting m P) :
    D.Proceeds (Stepwise.lift x) setting m P :=
  fun _ moves => .ofOutcome lawful moves goes

theorem pure (running : D.Running m) {a : α} (value : P a m.store) :
    D.Proceeds (Pure.pure a : Stepwise α) setting m P :=
  fun _ moves => ⟨moves, .ok (lawful.stays running) value⟩

theorem bind {next : α → Stepwise β} (goes : D.Proceeds x setting m P)
    (go : ∀ a n, D.Turns m n → P a n.store → D.Proceeds (next a) setting n Q) :
    D.Proceeds (x >>= next) setting m Q :=
  fun s moves => (goes s moves).andThen fun a n t moves turns value =>
    (go a n turns value t moves).since lawful turns

theorem resolved {x : Stepwise Value} (goes : D.Proceeds x setting m D.IsValid)
    (names : D.line line) : D.Proceeds (x.resolved line) setting m D.IsValid := by
  refine goes.bind lawful fun v n turns valid => .lift lawful ?_
  exact Goes.check lawful turns.running names (Store.failsOn_resolved v) fun w found =>
    lawful.resolved (lawful.sound turns.running) valid found

/-- Evaluation in the template of a class, which is left afterwards. -/
theorem withinTemplate (ready : D.Ready setting m) {name : String} {r : ScopeRef}
    (opened : D.Opened m.store name true r) {results : α → List Value}
    (stable : ∀ a s t, (∀ v, D.Valid s v → D.Valid t v) → P a s → P a t)
    (valid : ∀ a s, P a s → D.AllValid (results a) s)
    (goes : D.Proceeds x (setting.hold [.object m.current]) { m with current := r } P) :
    D.Proceeds (Stepwise.within r results x) setting m P := by
  intro s moves
  have sound := lawful.sound ready.running
  refine (goes s moves).finish lawful (fun result n ended => ?_) fun n turns =>
    ⟨turns.running, turns.more⟩
  have turns := ended.turns
  -- evaluation goes on in the scope around the one that it leaves
  have leaves {held : List Value} (usable : ∀ v ∈ held, D.Usable n.store v) :=
    lawful.leaveTemplate (o := m.current)
      (lawful.current_extends sound turns.more (lawful.current ready.running)) turns.running
      (lawful.suits_extends turns.more ready.setting)
      (lawful.opened_extends sound turns.more opened) usable
  refine ⟨lawful.moves_close turns.running _ _ _, ?_⟩
  cases result with
  | ok a =>
    obtain ⟨running, more⟩ := leaves fun v member =>
      .inl (valid a n.store (ended.value a rfl) v member)
    exact .ok ⟨running, lawful.extends_trans turns.more more⟩
      (stable a _ _ (fun _ => lawful.valid_extends more) (ended.value a rfl))
  | error e =>
    obtain ⟨running, more⟩ := leaves fun v (never : v ∈ []) => by cases never
    exact .error ⟨running, lawful.extends_trans turns.more more⟩ (ended.line e rfl)

/-- Evaluation in a scope that has been opened and is left afterwards. What the store was before
the scope was opened, it extends again when the scope has been left. -/
theorem opened (running : D.Running m) {k : Machine} (ready : D.Ready setting k)
    (opens : D.Turns m k) (same : k.current = m.current) {name : String} {r : ScopeRef}
    (fresh : m.store.scopes.size ≤ r.index) (opened : D.Opened k.store name false r)
    {results : α → List Value} (stable : ∀ a s t, (∀ v, D.Valid s v → D.Valid t v) → P a s → P a t)
    (valid : ∀ a s, P a s → D.AllValid (results a) s)
    (goes : D.Proceeds x (setting.hold [.object k.current]) { k with current := r } P) :
    D.ProceedsSince m (Stepwise.within r results x) setting k P := by
  intro s moves
  have here : D.Current m.store k.current := by
    rw [same]
    exact lawful.current running
  refine (goes s moves).finish lawful (fun result n ended => ?_) fun n turns =>
    ⟨turns.running, lawful.extends_trans opens.more turns.more⟩
  have turns := ended.turns
  have leaves {held : List Value} (usable : ∀ v ∈ held, D.Usable n.store v) :=
    lawful.leave (lawful.sound running) here (lawful.extends_trans opens.more turns.more) fresh
      turns.running (lawful.suits_extends turns.more ready.setting)
      (lawful.opened_extends (lawful.sound ready.running) turns.more opened) usable
  refine ⟨lawful.moves_close turns.running _ _ _, ?_⟩
  cases result with
  | ok a =>
    obtain ⟨running, more, keeps⟩ := leaves fun v member =>
      .inl (valid a n.store (ended.value a rfl) v member)
    exact .ok ⟨running, more⟩ (stable a _ _ keeps (ended.value a rfl))
  | error e =>
    obtain ⟨running, more, -⟩ := leaves fun v (never : v ∈ []) => by cases never
    exact .error ⟨running, more⟩ (ended.line e rfl)

/-- Evaluation in a new scope. -/
theorem nested (ready : D.Ready setting m) {name : String} {results : α → List Value}
    (stable : ∀ a s t, (∀ v, D.Valid s v → D.Valid t v) → P a s → P a t)
    (valid : ∀ a s, P a s → D.AllValid (results a) s)
    (goes : ∀ setting n, D.Extends m.store n.store → D.Ready setting n →
      D.Proceeds x setting n P) :
    D.Proceeds (Stepwise.nested name results x) setting m P := by
  have current := lawful.current ready.running
  obtain ⟨becomes, made⟩ := lawful.child (lawful.sound ready.running)
    (lawful.parent_of_current current) name false (fun never => by cases never)
  have opens := lawful.putStore ready.running becomes
  have inside := lawful.next ready opens
  intro s moves
  exact opened lawful ready.running inside opens rfl (Nat.le_refl _) made stable valid
    (goes _ _ opens.more (lawful.entering inside made)) s
    (lawful.moves_trans moves (lawful.moves_of_extends opens.more))

end Discipline.Proceeds

end Scriptlet
