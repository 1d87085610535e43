import Scriptlet.Proofs.Evaluation.Run
import Scriptlet.Proofs.Store.Templates

/-!
# Handles come from the host

No expression has a handle as its value. Where no handle is stored and the host gives none,
evaluation stores none (`handleFree_lawful`) and no place is reached through one
(`hasHandle_of_exits_place`).
-/

namespace Scriptlet

/-- Whether a place is an element that is reached through a handle. -/
def Place.hasHandle : Place → Bool
  | .element collection key => collection.kind = .member || key.kind = .member
  | .component container _ => container.hasHandle
  | .named _ _ | .temporary _ => false

/-- Whether no collection and no variable holds a handle. -/
structure Store.HandleFree (s : Store) : Prop where
  list : ∀ l, ∀ v ∈ s.list l, v.kind ≠ .member
  dictionary : ∀ d, ∀ e ∈ (s.dictionary d).entries,
    e.2.key.kind ≠ .member ∧ e.2.value.kind ≠ .member
  vars : ∀ r, ∀ e ∈ (s.scope r).vars.entries, e.2.kind ≠ .member

/-- Whether a function of the host does no more than natives may and gives no handle. -/
def Host.Code.HandleFree (code : Host.Code) : Prop :=
  ∀ s : Store, s.HandleFree → ∀ call : Host.Call, (∀ v ∈ call.arguments, v.kind ≠ .member) →
    Host.Action.Plain (fun _ v => v.kind ≠ .member) (fun _ => True) s (code call)

namespace Store

/-- Stores and values without handles. -/
def handleFree : Validity := ⟨HandleFree, fun _ v => v.kind ≠ .member, fun _ _ => True⟩

variable {s t : Store} {r : ScopeRef} {v : Value}

namespace HandleFree

/-- A store stays free of handles if what has changed in it is free of them. -/
theorem becomes (free : s.HandleFree)
    (list : ∀ l, t.list l = s.list l ∨ ∀ v ∈ t.list l, v.kind ≠ .member)
    (dictionary : ∀ d, t.dictionary d = s.dictionary d ∨
      handleFree.ValidDictionary t (t.dictionary d))
    (vars : ∀ r, (t.scope r).vars = (s.scope r).vars ∨
      ∀ e ∈ (t.scope r).vars.entries, e.2.kind ≠ .member) : handleFree.Becomes s t := by
  refine ⟨trivial, fun l => ?_, fun d => ?_, fun r => ?_⟩
  · rcases list l with same | new
    · rw [same]
      exact free.list l
    · exact new
  · rcases dictionary d with same | new
    · rw [same]
      exact free.dictionary d
    · exact new
  · rcases vars r with same | new
    · rw [same]
      exact free.vars r
    · exact new

/-! ## Collections -/

theorem newList (free : s.HandleFree) {items : List Value} (valid : ∀ v ∈ items, v.kind ≠ .member) :
    handleFree.Gives s (s.newList items) := by
  refine ⟨free.becomes (fun l => ?_) (fun _ => .inl rfl) (fun _ => .inl rfl),
    fun never => by cases never⟩
  have read : (s.newList items).2.list l = _ := getD_push s.lists items [] l.index
  rw [read]
  split
  · exact .inr valid
  · exact .inl rfl

theorem newDictionary (free : s.HandleFree) {entries : Dictionary}
    (valid : handleFree.ValidDictionary s entries) :
    handleFree.Gives s (s.newDictionary entries) := by
  refine ⟨free.becomes (fun _ => .inl rfl) (fun d => ?_) (fun _ => .inl rfl),
    fun never => by cases never⟩
  have read : (s.newDictionary entries).2.dictionary d = _ :=
    getD_push s.dictionaries entries .empty d.index
  rw [read]
  split
  · exact .inr valid
  · exact .inl rfl

theorem setList (free : s.HandleFree) (l : ListRef) {items : List Value}
    (valid : ∀ v ∈ items, v.kind ≠ .member) : handleFree.Becomes s (s.setList l items) := by
  refine free.becomes (fun m => ?_) (fun _ => .inl rfl) (fun _ => .inl rfl)
  refine (getD_setIfInBounds s.lists items [] l.index m.index).imp_right fun new => ?_
  exact fun v member => valid v (new ▸ member)

theorem setDictionary (free : s.HandleFree) (d : DictionaryRef) {entries : Dictionary}
    (valid : handleFree.ValidDictionary s entries) :
    handleFree.Becomes s (s.setDictionary d entries) := by
  refine free.becomes (fun _ => .inl rfl) (fun e => ?_) (fun _ => .inl rfl)
  refine (getD_setIfInBounds s.dictionaries entries .empty d.index e.index).imp_right fun new => ?_
  exact fun e member => valid e (new ▸ member)

/-! ## Scopes -/

theorem setVariable (free : s.HandleFree) (r : ScopeRef) (name : String)
    (valid : v.kind ≠ .member) :
    handleFree.Becomes s (s.setVariable r name v) := by
  refine free.becomes (fun _ => .inl rfl) (fun _ => .inl rfl) fun q => ?_
  let sets (scope : Scope) : Scope := { scope with vars := scope.vars.insert name v }
  rcases scope_modifyScope_or s r q sets with same | ⟨rfl, new⟩
  · exact .inl (congrArg Scope.vars same)
  · refine .inr fun e member => ?_
    replace member : e ∈ ((s.modifyScope r sets).scope r).vars.entries := member
    rw [new] at member
    rcases OrderedMap.mem_insert member with rfl | old
    · exact valid
    · exact free.vars r e old

theorem newScope (free : s.HandleFree) (scope : Scope)
    (valid : ∀ e ∈ scope.vars.entries, e.2.kind ≠ .member) :
    handleFree.Becomes s (s.newScope scope).2 := by
  refine free.becomes (fun _ => .inl rfl) (fun _ => .inl rfl) fun q => ?_
  have read : (s.newScope scope).2.scope q = _ := getD_push s.scopes scope default q.index
  rw [read]
  split
  · exact .inr valid
  · exact .inl rfl

theorem defineFunction (free : s.HandleFree) (r : ScopeRef) (f : Function) :
    handleFree.Becomes s (s.defineFunction r f) :=
  free.becomes (fun _ => .inl rfl) (fun _ => .inl rfl) fun q => .inl (s.vars_defineFunction r q f)

theorem leave (free : s.HandleFree) (held : List Value) (r : ScopeRef) :
    handleFree.Becomes s (s.leave held r).2 := by
  obtain ⟨lists, -, dictionaries⟩ := s.collections_leave held r
  refine free.becomes (fun l => .inl ?_) (fun d => .inl ?_) fun q => ?_
  · rw [Store.list, lists]
    rfl
  · rw [Store.dictionary, dictionaries]
    rfl
  · rcases vars_leave s held r q with same | ⟨empty, -⟩
    · exact .inl same
    · refine .inr fun e member => ?_
      rw [empty] at member
      cases member

end HandleFree

theorem handleFree_validity_lawful : handleFree.Lawful where
  refl _ := trivial
  trans _ _ := trivial
  grows _ valid := valid
  scalar {s v} scalar := by
    rintro same
    cases v with
    | member _ _ => cases scalar
    | _ => cases same
  member never := absurd rfl never
  list free := free.list
  array {s} _ a v member := by
    have element := (s.array a).isElement
    rw [← (s.array a).uniform v member] at element
    rintro same
    rw [same] at element
    cases element
  dictionary free := free.dictionary
  vars free := free.vars
  functions _ _ _ _ never := by cases never
  newList free _ valid := free.newList valid
  newArray free _ _ :=
    ⟨free.becomes (fun _ => .inl rfl) (fun _ => .inl rfl) fun _ => .inl rfl,
      fun never => by cases never⟩
  newDictionary free _ valid := free.newDictionary valid
  setList free l _ valid := free.setList l valid
  setArray free _ _ _ := free.becomes (fun _ => .inl rfl) (fun _ => .inl rfl) fun _ => .inl rfl
  setDictionary free d _ valid := free.setDictionary d valid
  setMember free _ _ name _ valid := free.setVariable _ name valid

end Store

/-! ## As a discipline -/

/-- The discipline of machines without handles. -/
def handleFree : Discipline where
  toValidity := Store.handleFree
  Extends _ _ := True
  Known _ _ := True
  Current _ _ := True
  Opened _ _ _ _ := True
  Writable _ _ _ := True
  Running m := m.store.HandleFree
  Suits setting _ := ∀ code ∈ setting.hosts, Host.Code.HandleFree code
  line _ := True
  imports := True

theorem Machine.handleFree_close {m : Machine} (free : m.store.HandleFree) (held : List Value)
    (r : ScopeRef) : (m.close held r).store.HandleFree :=
  m.store_close held r free fun held' => (free.leave held' r).sound

theorem handleFree_lawful : handleFree.Lawful where
  toLawful := Store.handleFree_validity_lawful
  extends_of_grows _ := trivial
  extends_trans _ _ := trivial
  valid_extends _ valid := valid
  known_extends _ _ := trivial
  current_extends _ _ _ := trivial
  opened_extends _ _ _ := trivial
  writable_extends _ _ := trivial
  suits_extends _ suits := suits
  known_of_current _ := trivial
  parent_of_current _ := trivial
  known_of_writable _ := trivial
  known_of_valid _ := trivial
  current_of_opened _ := trivial
  writable_of_current _ _ := trivial
  writable_of_found _ _ _ := trivial
  parent_callParent _ _ _ _ := trivial
  setVariable {s r name v} free _ valid := Store.HandleFree.setVariable free r name valid
  child {s r} free _ name c _ := by
    refine ⟨Store.HandleFree.newScope free _ fun e never => ?_, trivial⟩
    cases never
  instantiate {s f template} free _ name :=
    ⟨Store.HandleFree.newScope free _ (free.vars template), fun never => by cases never⟩
  defineFunction free _ _ name kind parameters := Store.HandleFree.defineFunction free _ _
  inherit {s name template} free _ base := by
    have copies := Store.handleFree_validity_lawful.copyVariables (r := template)
      (fun free name valid => Store.HandleFree.setVariable free _ name valid) free (free.vars base)
    refine Store.handleFree_validity_lawful.andThen copies ?_
    exact Store.HandleFree.becomes copies.sound (fun _ => .inl rfl) (fun _ => .inl rfl)
      fun q => .inl (Store.keeps_modifyScope Scope.vars fun _ => rfl)
  defineClass {s r name template} free _ _ :=
    free.becomes (fun _ => .inl rfl) (fun _ => .inl rfl) fun q =>
      .inl (s.vars_defineClass r q template name)
  body _ _ st _ := Stmt.eachLine_of_all (fun _ => trivial) trivial st
  imported _ st := Stmt.eachLine_of_all (fun _ => trivial) trivial st
  sound free := free
  current _ := trivial
  put _ becomes := becomes.sound
  print free _ := free
  enter free _ := free
  hold suits _ := suits
  leave {s setting n o name r held} _ _ _ _ free _ _ _ :=
    ⟨Machine.handleFree_close (m := { n with current := o }) free _ r, trivial,
      fun _ valid => valid⟩
  leaveTemplate {setting n o name r held} _ free _ _ _ :=
    ⟨Machine.handleFree_close (m := { n with current := o }) free _ r, trivial⟩
  hosts {setting s i code call} suits free registered valid _ :=
    suits code (Array.mem_of_getElem? registered) s free call valid

/-! ## Whole evaluations -/

theorem Machine.handleFree_new : Machine.new.store.HandleFree := by
  have all (builtins : List Builtin) {s : Store} (free : s.HandleFree) : (builtins.foldl
      (fun s b => s.defineFunction ⟨0⟩ ⟨b.name, .free, [], .builtin b, none⟩) s).HandleFree := by
    induction builtins generalizing s with
    | nil => exact free
    | cons b rest ih => exact ih (free.defineFunction _ _).sound
  have empty : Store.empty.HandleFree := by
    refine ⟨fun l v never => ?_, fun d e never => ?_, fun r e never => ?_⟩ <;> cases never
  have opened : (Store.empty.newScope (.new "global" none false)).2.HandleFree := by
    refine (empty.newScope _ fun e never => ?_).sound
    cases never
  exact ((all Builtin.all opened).defineFunction _ _).sound

/-- A script leaves no handles if the host gives none. -/
theorem Evaluator.handleFree_of_exits_run {fuel : Nat} {source : String} {setting : Setting}
    {log : FileLog} {r : Except RuntimeError (Except Error Value)} {n : Machine}
    (hosts : ∀ code ∈ setting.hosts, Host.Code.HandleFree code)
    (ends : (run fuel source).Exits setting Machine.new log r n) : n.store.HandleFree := by
  have ready : handleFree.Ready setting Machine.new := ⟨Machine.handleFree_new, hosts⟩
  have goes : handleFree.Goes (run fuel source) setting Machine.new _ :=
    handleFree_lawful.goes_run {} id ready fuel (fun _ _ => trivial) fun tokens _ =>
      handleFree_lawful.yields_of_imports trivial .new tokens
  exact (goes.exits ends).turns.running

/-- Where no handle is stored and the host gives none, no place is reached through one. -/
theorem Evaluator.hasHandle_of_exits_place {fuel : Nat} {setting : Setting} {m n : Machine}
    {log : FileLog} {target : Expr} {line : Line} {p : Place} (ready : handleFree.Ready setting m)
    (ends : (place fuel target line).Exits setting m log (.ok p) n) :
    p.hasHandle = false := by
  have admits : handleFree.Admits target := Expr.eachLine_of_all (fun _ => trivial) target
  have goes : handleFree.Goes (place fuel target line) setting m
      fun p s => handleFree.HasPlace s p :=
    handleFree_lawful.goes {} fuel (.place target line) ready ⟨admits, trivial⟩
  have here := (goes.exits ends).value p rfl
  clear ends
  induction p with
  | named r name => rfl
  | element collection key =>
    obtain ⟨collected, keyed⟩ : collection.kind ≠ .member ∧ key.kind ≠ .member := here
    simp [Place.hasHandle, collected, keyed]
  | component container i ih => exact ih here
  | temporary v => rfl

end Scriptlet
