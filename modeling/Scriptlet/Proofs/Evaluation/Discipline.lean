import Scriptlet.Proofs.Statement.Lines
import Scriptlet.Proofs.Store.ErrorLines
import Scriptlet.Proofs.Store.Operations

/-!
# What evaluation keeps

A `Discipline` says what holds of the machines, scopes, values and lines that evaluation deals with.
It is lawful if every change that evaluation makes keeps it: a variable that is set, a scope that is
opened or left, a function or class that is defined. Whatever is said of evaluation by a lawful
discipline is proved of the whole evaluator at once (`Discipline.keeps`).
-/

namespace Scriptlet

/-- The actions of a plain function of the host, where a store is as it finds it: it looks, asks for
files and makes lists, and ends in a valid value or an error. -/
inductive Host.Action.Plain (Valid : Store → Value → Prop) (line : Line → Prop) :
    Store → Host.Action → Prop where
  | value {s : Store} {v : Value} : Valid s v → Plain Valid line s (.finish (.ok v))
  | error {s : Store} {e : RuntimeError} : line e.line → Plain Valid line s (.finish (.error e))
  | look {s : Store} {next : Store → Host.Action} : Plain Valid line s (next s) →
      Plain Valid line s (.look next)
  | file {s : Store} {request : FileRequest} {next : FileAnswer → Host.Action} :
      (∀ answer, Plain Valid line s (next answer)) → Plain Valid line s (.file request next)
  | makeList {s : Store} {items : List Value} {next : Value → Host.Action} :
      (∀ v ∈ items, Valid s v) → Plain Valid line (s.newList items).2 (next (s.newList items).1) →
        Plain Valid line s (.makeList items next)

theorem Host.Action.Plain.imp {Valid Valid' : Store → Value → Prop} {line line' : Line → Prop}
    {s : Store} {action : Host.Action} (plain : Host.Action.Plain Valid line s action)
    (valid : ∀ s v, Valid s v → Valid' s v) (lines : ∀ l, line l → line' l) :
    Host.Action.Plain Valid' line' s action := by
  induction plain with
  | value here => exact .value (valid _ _ here)
  | error names => exact .error (lines _ names)
  | look _ ih => exact .look ih
  | file _ ih => exact .file ih
  | makeList items _ ih => exact .makeList (fun v member => valid _ v (items v member)) ih

/-- What holds of the machines, scopes, values and lines that evaluation deals with. -/
structure Discipline extends Validity where
  /-- How a store may change in an evaluation that leaves every scope that it opens. -/
  Extends : Store → Store → Prop
  /-- The scopes that may be in use. -/
  Known : Store → ScopeRef → Prop
  /-- The scopes that statements may be evaluated in. -/
  Current : Store → ScopeRef → Prop
  /-- The scopes that evaluation has opened, with their names and whether they are class scopes. -/
  Opened : Store → String → Bool → ScopeRef → Prop
  /-- The variables that may be set. -/
  Writable : Store → ScopeRef → String → Prop
  /-- The machines that evaluation may run on. -/
  Running : Machine → Prop
  /-- The settings that evaluation may run in. -/
  Suits : Setting → Store → Prop
  /-- The lines that errors may name. -/
  line : Line → Prop
  /-- Whether scripts may import others. -/
  imports : Prop
  /-- The scopes that a new scope may stand in. -/
  Parent : Store → ScopeRef → Prop := Known
  /-- How a store may change from one moment of an evaluation to a later one. -/
  Moves : Store → Store → Prop := fun _ _ => True
  /-- The functions written in a script that may be called from a scope, on an instance or not. -/
  MayCall : Store → ScopeRef → FunctionRef → Option ScopeRef → Prop := fun _ _ _ _ => True
  /-- The stores in which a class may be defined. -/
  MayDeclare : Store → Prop := fun _ => True

namespace Discipline

/-- The values that may be in use: valid ones, and the scopes that evaluation is in. -/
def Usable (D : Discipline) (s : Store) (v : Value) : Prop :=
  D.Valid s v ∨ ∃ r, v = .object r ∧ D.Known s r

/-- What a discipline must have for evaluation to keep it. -/
structure Lawful (D : Discipline) : Prop extends D.toValidity.Lawful where
  extends_of_grows : ∀ {s t}, D.Grows s t → D.Extends s t
  moves_of_extends : ∀ {s t}, D.Extends s t → D.Moves s t := by intros; trivial
  moves_trans : ∀ {s t u}, D.Moves s t → D.Moves t u → D.Moves s u := by intros; trivial
  moves_close : ∀ {n}, D.Running n → ∀ o held r,
    D.Moves n.store ({ n with current := o }.close held r).store := by intros; trivial
  extends_trans : ∀ {s t u}, D.Extends s t → D.Extends t u → D.Extends s u
  valid_extends : ∀ {s t v}, D.Extends s t → D.Valid s v → D.Valid t v
  known_extends : ∀ {s t r}, D.Extends s t → D.Known s r → D.Known t r
  current_extends : ∀ {s t r}, D.Sound s → D.Extends s t → D.Current s r → D.Current t r
  opened_extends : ∀ {s t name c r}, D.Sound s → D.Extends s t → D.Opened s name c r →
    D.Opened t name c r
  writable_extends : ∀ {s t r name}, D.Extends s t → D.Writable s r name → D.Writable t r name
  suits_extends : ∀ {s t setting}, D.Extends s t → D.Suits setting s → D.Suits setting t
  known_of_current : ∀ {s r}, D.Current s r → D.Known s r
  parent_of_current : ∀ {s r}, D.Current s r → D.Parent s r
  known_of_writable : ∀ {s r name}, D.Writable s r name → D.Known s r
  known_of_valid : ∀ {s r}, D.Valid s (.object r) → D.Known s r
  current_of_opened : ∀ {s name c r}, D.Opened s name c r → D.Current s r
  writable_of_current : ∀ {s r}, D.Current s r → ∀ name, D.Writable s r name
  writable_of_found : ∀ {s r q name}, D.Sound s → D.Current s r →
    s.findVariableScope? r name = some q → D.Writable s q name
  parent_callParent : ∀ {s r receiver f}, D.Sound s → D.Current s r →
    (∀ o, receiver = some o → D.Known s o) → D.MayCall s r f receiver →
      D.Parent s (Evaluator.callParent (s.function f) receiver s r)
  setVariable : ∀ {s r name v}, D.Sound s → D.Writable s r name → D.Valid s v →
    D.Becomes s (s.setVariable r name v)
  child : ∀ {s r}, D.Sound s → D.Parent s r → ∀ name c, (c = true → D.MayDeclare s) →
    D.Becomes s (s.child r name c).2 ∧ D.Opened (s.child r name c).2 name c (s.child r name c).1
  instantiate : ∀ {s f template}, D.Sound s → (s.function f).body = .construct template →
    ∀ name, D.Becomes s (s.instantiate name template).2 ∧
      D.Valid (s.instantiate name template).2 (.object (s.instantiate name template).1)
  defineFunction : ∀ {s r statements}, D.Sound s → D.Current s r →
    (∀ st ∈ statements, Stmt.EachLine D.line D.imports st) → ∀ name kind parameters,
      D.Becomes s (s.defineFunction r ⟨name, kind, parameters, .script statements, some r⟩)
  inherit : ∀ {s name template}, D.Sound s → D.Opened s name true template → ∀ base,
    D.Becomes s (s.inherit template base)
  defineClass : ∀ {s r name template}, D.Sound s → D.Current s r → D.Opened s name true template →
    D.Becomes s (s.defineClass r name template)
  /-- The statements of a function. -/
  body : ∀ {s f statements}, D.Sound s → (s.function f).body = .script statements →
    ∀ st ∈ statements, Stmt.EachLine D.line D.imports st
  /-- The statements of an imported script. -/
  imported : D.imports → ∀ st : Stmt, st.EachLine D.line D.imports
  sound : ∀ {m}, D.Running m → D.Sound m.store
  current : ∀ {m}, D.Running m → D.Current m.store m.current
  put : ∀ {m t}, D.Running m → D.Becomes m.store t → D.Running { m with store := t }
  print : ∀ {m}, D.Running m → ∀ printed, D.Running { m with printed }
  enter : ∀ {m name c r}, D.Running m → D.Opened m.store name c r →
    D.Running { m with current := r }
  hold : ∀ {setting s values}, D.Suits setting s → (∀ v ∈ values, D.Usable s v) →
    D.Suits (setting.hold values) s
  /-- A scope of a function, block or loop that evaluation leaves for the one it has come from; `s`
  is the store before the scope was opened. -/
  leave : ∀ {s setting n o name r held}, D.Sound s → D.Current s o → D.Extends s n.store →
    s.scopes.size ≤ r.index → D.Running n → D.Suits setting n.store →
    D.Opened n.store name false r → (∀ v ∈ held, D.Usable n.store v) →
      D.Running ({ n with current := o }.close (held ++ setting.held) r) ∧
        D.Extends s ({ n with current := o }.close (held ++ setting.held) r).store ∧
        ∀ v, D.Valid n.store v →
          D.Valid ({ n with current := o }.close (held ++ setting.held) r).store v
  /-- The template of a class that evaluation leaves for the scope that it has come from. -/
  leaveTemplate : ∀ {setting n o name r held}, D.Current n.store o → D.Running n →
    D.Suits setting n.store → D.Opened n.store name true r → (∀ v ∈ held, D.Usable n.store v) →
      D.Running ({ n with current := o }.close (held ++ setting.held) r) ∧
        D.Extends n.store ({ n with current := o }.close (held ++ setting.held) r).store
  /-- Every function of the host is plain. -/
  hosts : ∀ {setting s} {i : Nat} {code : Host.Code} {call : Host.Call}, D.Suits setting s →
    D.Sound s → setting.hosts[i]? = some code → (∀ v ∈ call.arguments, D.Valid s v) →
      D.line call.line → Host.Action.Plain D.Valid D.line s (code call)

/-! ## What is found in a sound store -/

variable {D : Discipline} {s t : Store} {r : ScopeRef} {name : String} {v : Value} {line : Line}

/-- Whether a function may be in use. -/
def HasFunction (D : Discipline) (s : Store) (f : FunctionRef) : Prop := D.Valid s (.function f)

/-- Whether a place may be written. -/
def HasPlace (D : Discipline) (s : Store) : Place → Prop
  | .named r name => D.Writable s r name
  | .element collection key => D.Valid s collection ∧ D.Valid s key
  | .component container _ => D.HasPlace s container
  | .temporary v => D.Valid s v

namespace Lawful

variable (lawful : D.Lawful)
include lawful

theorem hasPlace_extends (more : D.Extends s t) {p : Place} (here : D.HasPlace s p) :
    D.HasPlace t p := by
  induction p with
  | named r name => exact lawful.writable_extends more here
  | element collection key =>
    exact ⟨lawful.valid_extends more here.1, lawful.valid_extends more here.2⟩
  | component container i ih => exact ih here
  | temporary v => exact lawful.valid_extends more here

theorem usable_place {p : Place} (here : D.HasPlace s p) : ∀ v ∈ p.values, D.Usable s v := by
  induction p with
  | named r name =>
    intro v member
    rw [List.mem_singleton.1 member]
    exact .inr ⟨r, rfl, lawful.known_of_writable here⟩
  | element collection key =>
    intro v member
    rcases List.mem_cons.1 member with rfl | member
    · exact .inl here.1
    · rw [List.mem_singleton.1 member]
      exact .inl here.2
  | component container i ih => exact ih here
  | temporary u =>
    intro v member
    rw [List.mem_singleton.1 member]
    exact .inl here

theorem findValue? (sound : D.Sound s) (h : s.findValue? r name = some v) : D.Valid s v := by
  obtain ⟨q, -, found⟩ := List.exists_of_findSome?_eq_some h
  exact lawful.valueAt? sound found

theorem callableAt? (sound : D.Sound s) {f : FunctionRef} (h : s.callableAt? r name = some f) :
    D.HasFunction s f := by
  unfold Store.callableAt? at h
  split at h
  · rename_i registered
    cases h
    obtain ⟨key, here⟩ := OrderedMap.mem_of_get? registered
    exact lawful.functions sound r _ here
  · rename_i held
    cases h
    obtain ⟨key, here⟩ := OrderedMap.mem_of_get? held
    exact lawful.vars sound r _ here
  · cases h

theorem findFunction? (sound : D.Sound s) {f : FunctionRef} (h : s.findFunction? r name = some f) :
    D.HasFunction s f := by
  obtain ⟨q, -, found⟩ := List.exists_of_findSome?_eq_some h
  exact lawful.callableAt? sound found

theorem items (sound : D.Sound s) (valid : D.Valid s v) {values : List Value}
    (h : Evaluator.items s line v = .ok values) : ∀ u ∈ values, D.Valid s u := by
  cases v with
  | null =>
    cases h
    intro u member
    cases member
  | list l =>
    cases h
    exact lawful.list sound l
  | array a =>
    cases h
    exact lawful.array sound a
  | dictionary d =>
    cases h
    exact Validity.valid_keyValues (lawful.dictionary sound d)
  | string text =>
    cases h
    intro u member
    obtain ⟨c, -, rfl⟩ := List.mem_map.1 member
    exact lawful.scalar rfl
  | _ => cases h

theorem memberFunction (sound : D.Sound s) {receiver : Value} {f : FunctionRef}
    (h : Evaluator.memberFunction s r receiver name line = .ok f) : D.HasFunction s f := by
  unfold Evaluator.memberFunction at h
  split at h
  · rename_i found
    cases h
    exact lawful.findFunction? sound found
  · cases h
  · cases h

/-- A function that a receiver has, and the instance that it runs on. -/
theorem ownFunction? (sound : D.Sound s) {receiver : Value} (valid : D.Valid s receiver)
    {found : FunctionRef × Option ScopeRef}
    (h : Evaluator.ownFunction? s receiver name = some found) :
    D.HasFunction s found.1 ∧ ∀ o, found.2 = some o → D.Known s o := by
  cases receiver with
  | object o =>
    obtain ⟨f, callable, rfl⟩ := Option.map_eq_some_iff.1 h
    refine ⟨lawful.callableAt? sound callable, ?_⟩
    rintro p same
    cases same
    exact lawful.known_of_valid valid
  | dictionary d =>
    simp only [Evaluator.ownFunction?] at h
    split at h
    · rename_i entry
      cases h
      refine ⟨Validity.validEntry (lawful.dictionary sound d) entry, ?_⟩
      intro p never
      cases never
    · cases h
  | _ => cases h

/-! ## Parameters and base classes -/

theorem bind (sound : D.Sound s) {c : Bool} (opened : D.Opened s name c r)
    (parameters : List String) {arguments : List Value} (valid : ∀ v ∈ arguments, D.Valid s v) :
    D.Becomes s (Evaluator.bind s r parameters arguments) := by
  induction parameters generalizing s arguments with
  | nil => exact lawful.unchanged sound
  | cons p rest ih =>
    have first : D.Valid s (arguments.head?.getD .null) :=
      lawful.valid_getD fun v head => valid v (List.mem_of_mem_head? head)
    have writable := lawful.writable_of_current (lawful.current_of_opened opened) p
    have sets := lawful.setVariable sound writable first
    have opened := lawful.opened_extends sound (lawful.extends_of_grows sets.grows) opened
    refine lawful.andThen sets (ih sets.sound opened ?_)
    exact fun v member => lawful.grows sets.grows (valid v (List.mem_of_mem_tail member))

theorem inheritAll (sound : D.Sound s) {current template : ScopeRef}
    (opened : D.Opened s name true template) {bases : List String}
    (h : s.inheritAll current template line bases = .ok t) : D.Becomes s t := by
  refine lawful.toLawful.inheritAll (P := fun s => D.Opened s name true template)
    (fun sound opened base => ?_) sound opened h
  have inherits := lawful.inherit sound opened base
  exact ⟨inherits, lawful.opened_extends sound (lawful.extends_of_grows inherits.grows) opened⟩

/-! ## Places -/

theorem read (sound : D.Sound s) {p : Place} (here : D.HasPlace s p)
    (h : p.read s line = .ok v) : D.Valid s v := by
  cases p with
  | named r name =>
    cases h
    refine lawful.valid_getD fun v found => ?_
    obtain ⟨key, member⟩ := OrderedMap.mem_of_get? found
    exact lawful.vars sound r _ member
  | element collection key => exact lawful.element sound here.1 h
  | component container i =>
    obtain ⟨u, -, h⟩ := bind_eq_ok_iff.1 h
    obtain ⟨u, -, h⟩ := bind_eq_ok_iff.1 h
    cases h
    exact lawful.valid_elim fun _ _ => lawful.scalar rfl
  | temporary u =>
    cases h
    exact here

theorem write (sound : D.Sound s) {p : Place} (here : D.HasPlace s p) (valid : D.Valid s v)
    (h : p.write s v line = .ok t) : D.Becomes s t := by
  induction p generalizing v with
  | named r name =>
    cases h
    exact lawful.setVariable sound here valid
  | element collection key => exact lawful.setElement sound here.1 here.2 valid h
  | component container i ih =>
    obtain ⟨u, -, h⟩ := bind_eq_ok_iff.1 h
    obtain ⟨u, -, h⟩ := bind_eq_ok_iff.1 h
    obtain ⟨x, -, h⟩ := bind_eq_ok_iff.1 h
    dsimp only at h
    split at h
    · exact ih here (lawful.scalar rfl) h
    · cases h
  | temporary u => cases h

theorem indexed (sound : D.Sound s) {container p : Place} {key : Value}
    (here : D.HasPlace s container) (valid : D.Valid s key)
    (h : container.indexed s key line = .ok p) : D.HasPlace s p := by
  obtain ⟨u, read, h⟩ := bind_eq_ok_iff.1 h
  have collection : D.Valid s u := lawful.read sound here read
  split at h
  · obtain ⟨i, -, h⟩ := bind_eq_ok_iff.1 h
    cases h
    exact here
  · cases h
    exact ⟨collection, valid⟩

theorem combined (sound : D.Sound s) {p : Place} (here : D.HasPlace s p) (valid : D.Valid s v)
    {op : AssignOperator} {r : Value × Store} (h : Evaluator.combined s p op v line = .ok r) :
    D.Gives s r := by
  unfold Evaluator.combined at h
  split at h
  · cases h
    exact lawful.gives sound valid
  · obtain ⟨old, read, h⟩ := bind_eq_ok_iff.1 h
    exact lawful.append sound (lawful.read sound here read) valid h
  · obtain ⟨old, read, h⟩ := bind_eq_ok_iff.1 h
    exact lawful.binary sound (lawful.read sound here read) valid h

end Lawful

end Discipline

end Scriptlet
