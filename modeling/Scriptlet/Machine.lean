import Scriptlet.Host
import Scriptlet.Store.Closing
import Scriptlet.Store.Conversion

/-!
# Evaluation

An evaluation runs on a `Machine` in a `Setting` and has an `Outcome`: a value or an
error, both with the machine after it, or a request for a file with what follows its
answer. Evaluation is cut off after as many steps as its caller allows.
-/

namespace Scriptlet

/-- The closing of a scope that evaluation has left. -/
structure Closing where
  /-- The store before it. -/
  store : Store
  /-- The values in use. -/
  held : List Value
  scope : ScopeRef

/-- The state of evaluation. -/
structure Machine where
  store : Store
  global : ScopeRef
  /-- The scope that statements are evaluated in. -/
  current : ScopeRef
  /-- The scopes that were needed after evaluation had left them. -/
  retained : List ScopeRef
  /-- What has been printed. -/
  printed : String
  /-- The closings so far; only theorems speak of them. -/
  closings : Closing → Prop

/-- What evaluation depends on and does not change. -/
structure Setting where
  /-- The functions of the host, by their places. -/
  hosts : Array Host.Code
  /-- The directory that imports start from. -/
  importRoot : String
  /-- The values in use by the evaluations around this one. -/
  held : List Value

/-- The setting in which more values are in use. -/
def Setting.hold (setting : Setting) (values : List Value) : Setting :=
  { setting with held := values.filter (!·.isScalar) ++ setting.held }

/-- The machine after evaluation has left a scope, where `held` are the values in use. -/
def Machine.close (m : Machine) (held : List Value) (r : ScopeRef) : Machine :=
  if (m.store.scope r).isClass then m
  else
    let held := .object m.global :: .object m.current :: held
    let (kept, store) := m.store.leave held r
    { m with
      store
      retained := if kept then r :: m.retained else m.retained
      closings := fun c => c = ⟨m.store, held, r⟩ ∨ m.closings c }

namespace Machine

theorem close_of_class (m : Machine) {r : ScopeRef} (held : List Value)
    (ofClass : (m.store.scope r).isClass = true) : m.close held r = m := by
  unfold Machine.close
  rw [if_pos ofClass]

/-- The store after a scope is closed: that of a class stays, any other one is left. -/
@[elab_as_elim]
theorem store_close {motive : Store → Prop} (m : Machine) (held : List Value) (r : ScopeRef)
    (stays : motive m.store) (leaves : ∀ held', motive (m.store.leave held' r).2) :
    motive (m.close held r).store := by
  unfold Machine.close
  split
  · exact stays
  · exact leaves _

theorem scopes_close (m : Machine) (held : List Value) (r : ScopeRef) :
    (m.close held r).global = m.global ∧ (m.close held r).current = m.current := by
  unfold Machine.close
  split <;> exact ⟨rfl, rfl⟩

end Machine

/-- How an evaluation ends. -/
inductive Outcome (α : Type) where
  | value (a : α) (m : Machine)
  | error (e : RuntimeError) (m : Machine)
  /-- A file is needed to go on. -/
  | ask (request : FileRequest) (resume : FileAnswer → Outcome α)
  /-- The steps that were allowed are used up. -/
  | cutOff (m : Machine)

namespace Outcome

variable {α β : Type}

/-- An outcome followed by more evaluation, unless it is an error. -/
def andThen (o : Outcome α) (next : α → Machine → Outcome β) : Outcome β :=
  match o with
  | value a m => next a m
  | error e m => error e m
  | ask request resume => ask request fun answer => (resume answer).andThen next
  | cutOff m => cutOff m

/-- An outcome with a last change of the machine, also after an error. -/
def finish (o : Outcome α) (last : Option α → Machine → Machine) : Outcome α :=
  match o with
  | value a m => value a (last (some a) m)
  | error e m => error e (last none m)
  | ask request resume => ask request fun answer => (resume answer).finish last
  | cutOff m => cutOff m

/-- An outcome whose error has become a value. -/
def caught (o : Outcome α) : Outcome (Except RuntimeError α) :=
  match o with
  | value a m => value (.ok a) m
  | error e m => value (.error e) m
  | ask request resume => ask request fun answer => (resume answer).caught
  | cutOff m => cutOff m

theorem andThen_value (o : Outcome α) : o.andThen value = o := by
  induction o with
  | value _ _ | error _ _ | cutOff _ => rfl
  | ask request resume ih => simp [andThen, ih]

theorem andThen_assoc {γ : Type} (o : Outcome α) (f : α → Machine → Outcome β)
    (g : β → Machine → Outcome γ) :
    (o.andThen f).andThen g = o.andThen fun a m => (f a m).andThen g := by
  induction o with
  | value _ _ | error _ _ | cutOff _ => rfl
  | ask request resume ih => simp [andThen, ih]

end Outcome

/-- An evaluation. -/
def Eval (α : Type) := Setting → Machine → Outcome α

namespace Eval

variable {α β : Type}

@[always_inline, inline]
instance : Monad Eval where
  pure a := fun _ m => .value a m
  bind x next := fun setting m => (x setting m).andThen fun a m => next a setting m

instance : LawfulMonad Eval :=
  LawfulMonad.mk' Eval
    (fun x => funext fun setting => funext fun m => (x setting m).andThen_value)
    (fun _ _ => rfl)
    (fun x f g => funext fun setting => funext fun m =>
      (x setting m).andThen_assoc (f · setting) (g · setting))

/-- The evaluation that is cut off at once. -/
def cutOff : Eval α := fun _ m => .cutOff m

/-- The evaluation that ends in an error. -/
def fail (e : RuntimeError) : Eval α := fun _ m => .error e m

/-- An evaluation whose error has become a value. -/
@[inline]
def catching (x : Eval α) : Eval (Except RuntimeError α) := fun setting m => (x setting m).caught

/-- An evaluation during which more values are in use. -/
@[inline]
def holding (values : List Value) (x : Eval α) : Eval α := fun setting m =>
  x (setting.hold values) m

/-! ## The store -/

/-- What the store says, with the current scope. -/
@[inline]
def look (f : Store → ScopeRef → α) : Eval α := fun _ m => .value (f m.store m.current) m

/-- What the store says, which may be an error. -/
@[inline]
def check (f : Store → Except RuntimeError α) : Eval α := fun _ m =>
  match f m.store with
  | .ok a => .value a m
  | .error e => .error e m

/-- A change of the store. -/
@[inline]
def change (f : Store → α × Store) : Eval α := fun _ m =>
  let (a, store) := f m.store
  .value a { m with store }

/-- A change of the store around the current scope. -/
@[inline]
def changeHere (f : Store → ScopeRef → Store) : Eval Unit := fun _ m =>
  .value () { m with store := f m.store m.current }

/-- A change of the store that may fail and then changes nothing. -/
@[inline]
def attempt (f : Store → Except RuntimeError (α × Store)) : Eval α := fun _ m =>
  match f m.store with
  | .ok (a, store) => .value a { m with store }
  | .error e => .error e m

/-- An evaluation whose value, if it is a handle, gives way to its element. -/
@[inline]
def resolved (x : Eval Value) (line : Line) : Eval Value := do
  let v ← x
  check (·.resolved v line)

/-- A variable of the current scope. -/
def define (name : String) (v : Value) : Eval Unit := changeHere (·.setVariable · name v)

/-! ## Scopes, files and output -/

/-- A new scope inside another one. -/
def child (parent : ScopeRef) (name : String) (isClass : Bool) : Eval ScopeRef :=
  change (·.child parent name isClass)

/-- An evaluation in a scope, which is left afterwards; `results` are the values in its result. -/
@[inline]
def within (r : ScopeRef) (results : α → List Value) (x : Eval α) : Eval α := fun setting m =>
  let outer := m.current
  (x (setting.hold [.object outer]) { m with current := r }).finish fun a m =>
    { m with current := outer }.close ((a.elim [] results) ++ setting.held) r

/-- An evaluation in a new scope inside the current one. -/
@[inline]
def nested (name : String) (results : α → List Value) (x : Eval α) : Eval α := do
  let current ← look fun _ current => current
  let r ← child current name false
  within r results x

/-- The current scope becomes the global one. -/
def leaveAll : Eval Unit := fun _ m => .value () { m with current := m.global }

/-- A request for a file. -/
def ask (request : FileRequest) : Eval FileAnswer := fun _ m =>
  .ask request fun answer => .value answer m

/-- More output. -/
def print (text : String) : Eval Unit := fun _ m =>
  .value () { m with printed := m.printed ++ text }

/-- What evaluation depends on. -/
def setting : Eval Setting := fun setting m => .value setting m

/-- An evaluation that gives its errors as values and then goes on in the global scope. -/
@[inline]
def asScript (x : Eval (Except SyntaxError Value)) : Eval (Except Error Value) := do
  match ← catching x with
  | .ok (.ok v) => return .ok v
  | .ok (.error e) => do
    leaveAll
    return .error (.reading e)
  | .error e => do
    leaveAll
    return .error (.running e)

end Eval

end Scriptlet
