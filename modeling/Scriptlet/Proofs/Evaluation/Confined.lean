import Scriptlet.Proofs.Evaluation.Keeping
import Scriptlet.Proofs.Store.Confined

/-!
# Definitions stay in their scope

What is evaluated in a scope defines names in that scope and in scopes that it opens itself. Every
other scope that was there before keeps its names, unless it is the member storage of a class
instance (`Evaluator.keepsNames`): locals, parameters, loop variables, functions and classes do not
leak, and names that are assigned to are found or are new in the current scope.
-/

namespace Scriptlet

/-- Whether a function of the host does no more than natives may: it looks, asks for files, makes
lists and ends, and an instance that it gives is among its arguments, in the store or among those
that it knows. -/
def Host.Code.Plain (known : ScopeRef → Prop) (code : Host.Code) : Prop :=
  ∀ among : ScopeRef → Prop, (∀ r, known r → among r) → ∀ s : Store, s.InstancesIn among →
    ∀ call : Host.Call, (∀ v ∈ call.arguments, v.InstancesIn among) →
      Host.Action.Plain (fun _ v => v.InstancesIn among) (fun _ => True) s (code call)

namespace Site

/-- The discipline of confined stores. -/
def confinement (site : Site) : Discipline where
  toValidity := site.validity
  Extends _ _ := True
  Known _ _ := True
  Current _ r := r = site.here ∨ site.New r
  Opened _ _ _ r := site.New r
  Writable _ r name := site.Writable r name
  Running m := site.Confined m.store ∧ (m.current = site.here ∨ site.New m.current)
  Suits setting _ := ∀ code ∈ setting.hosts, Host.Code.Plain site.instances code
  line _ := True
  imports := True

theorem open_of_current {site : Site} {r : ScopeRef} (current : r = site.here ∨ site.New r) :
    site.Open r := current.imp_right .inl

/-- A scope that evaluation has opened and leaves for another one. -/
theorem confined_close {site : Site} {m : Machine}
    (running : site.Confined m.store ∧ (m.current = site.here ∨ site.New m.current)) {o : ScopeRef}
    (here : o = site.here ∨ site.New o) {held : List Value} {r : ScopeRef} (new : site.New r) :
    site.Confined ({ m with current := o }.close held r).store ∧
      (({ m with current := o }.close held r).current = site.here ∨
        site.New ({ m with current := o }.close held r).current) := by
  unfold Machine.close
  split
  · exact ⟨running.1, here⟩
  · exact ⟨(Confined.leave running.1 new _).sound, here⟩

theorem confinement_lawful (site : Site) : site.confinement.Lawful where
  toLawful := site.validity_lawful
  extends_of_grows _ := trivial
  extends_trans _ _ := trivial
  valid_extends _ valid := valid
  known_extends _ _ := trivial
  current_extends _ _ current := current
  opened_extends _ _ opened := opened
  writable_extends _ writable := writable
  suits_extends _ suits := suits
  known_of_current _ := trivial
  parent_of_current _ := trivial
  known_of_writable _ := trivial
  known_of_valid _ := trivial
  current_of_opened opened := .inr opened
  writable_of_current current _ := .inl (open_of_current current)
  writable_of_found confined _ found := confined.writable_of_found found
  parent_callParent _ _ _ _ := trivial
  setVariable confined writable valid := confined.setVariable writable valid
  child confined _ name c _ := confined.child _ name c
  instantiate confined _ name := by
    obtain ⟨becomes, new⟩ := Confined.instantiate confined name _
    refine ⟨becomes, fun r member => .inl ?_⟩
    obtain rfl : r = _ := by simpa [Value.referents] using member
    exact new
  defineFunction confined current _ name kind parameters :=
    confined.defineFunction (open_of_current current) _
  inherit confined opened base := confined.inherit opened.open base
  defineClass confined current opened :=
    confined.defineClass (open_of_current current) opened _
  body _ _ st _ := Stmt.eachLine_of_all (fun _ => trivial) trivial st
  imported _ st := Stmt.eachLine_of_all (fun _ => trivial) trivial st
  sound running := running.1
  current running := running.2
  put running becomes := ⟨becomes.sound, running.2⟩
  print running _ := running
  enter running opened := ⟨running.1, .inr opened⟩
  hold suits _ := suits
  leave _ here _ _ left _ opened _ := ⟨confined_close left here opened, trivial, fun _ valid => valid⟩
  leaveTemplate here left _ opened _ := ⟨confined_close left here opened, trivial⟩
  hosts suits confined registered valid _ :=
    suits _ (Array.mem_of_getElem? registered) _ (fun _ => .inr) _ confined.toInstancesIn _ valid

end Site

/-- Whether every scope that was there, besides the current one and the member storage of class
instances, has the names of variables, the functions and the sub-scopes that it had. -/
def Machine.KeepsNames (m : Machine) (instances : ScopeRef → Prop) (n : Machine) : Prop :=
  ∀ r, r.index < m.store.scopes.size → r ≠ m.current → ¬ instances r →
    (m.store.scope r).SameNames (n.store.scope r)

namespace Evaluator

/-- Expressions and statements define names in the current scope only. -/
theorem keepsNames (setting : Setting) (m : Machine) (instances : ScopeRef → Prop)
    (known : m.store.InstancesIn instances)
    (plain : ∀ code ∈ setting.hosts, Host.Code.Plain instances code) (fuel : Nat) :
    (∀ e, (eval fuel e setting m).Ends (fun _ n => m.KeepsNames instances n)
      (fun n => m.KeepsNames instances n)) ∧
    ∀ statement, (exec fuel statement setting m).Ends (fun _ n => m.KeepsNames instances n)
      (fun n => m.KeepsNames instances n) := by
  let site : Site := ⟨m.store, m.current, instances⟩
  have ready : site.confinement.Ready setting m := ⟨⟨site.confined_before known, .inl rfl⟩, plain⟩
  have kept {n : Machine} (turns : site.confinement.Turns m n) : m.KeepsNames instances n := by
    intro r bound other noInstance
    refine turns.running.1.names r fun isOpen => ?_
    rcases isOpen with same | new | member
    · exact other same
    · exact Nat.not_lt_of_le new bound
    · exact noInstance member
  constructor
  · intro e
    have goes := site.confinement_lawful.goes {} fuel (.eval e) ready
      (Expr.eachLine_of_all (fun _ => trivial) e)
    exact Outcome.Reaches.ends goes (fun _ _ both => kept both.1) (fun _ _ both => kept both.1)
      fun _ => kept
  · intro statement
    have goes := site.confinement_lawful.goes {} fuel (.exec statement) ready
      (Stmt.eachLine_of_all (fun _ => trivial) trivial statement)
    exact Outcome.Reaches.ends goes (fun _ _ both => kept both.1) (fun _ _ both => kept both.1)
      fun _ => kept

/-- A scope inside the global one, which has a variable `x` and a native function `seven`. -/
def insideGlobal : Machine :=
  let (global, store) := Store.empty.newScope (.new "global" none false)
  let store := store.defineFunction global ⟨"seven", .free, [], .host .plain ⟨0⟩, none⟩
  let store := store.setVariable global "x" (.int 1)
  let (current, store) := store.child global "block" false
  ⟨store, global, current, [], "", fun _ => False⟩

/-- A block that assigns what the native function gives and defines a function and a variable. -/
def assigningBlock : Stmt :=
  .block [
    .expr (.call "=" [.named "x" 1, .call "seven" [] .call 1] .assign 1),
    .function "f" ["p"] [] 2,
    .define "y" (.constant (.int 2) 3) 3] 1

theorem insideGlobal_instancesIn : insideGlobal.store.InstancesIn fun _ => False where
  list l v member := by
    have none : insideGlobal.store.lists = #[] := rfl
    simp [Store.list, none] at member
  array a v member := by
    have none : insideGlobal.store.arrays = #[] := rfl
    simp [Store.array, none, TypedArray.empty, TypedArray.emptyOf] at member
  dictionary d e member := by
    have none : insideGlobal.store.dictionaries = #[] := rfl
    simp [Store.dictionary, none, OrderedMap.empty] at member
  vars r e member := by
    obtain ⟨i⟩ := r
    rcases i with _ | _ | i
    · have only : (insideGlobal.store.scope ⟨0⟩).vars.entries = [("x", .int 1)] := rfl
      rw [only] at member
      rw [List.mem_singleton.1 member]
      exact Value.instancesIn_of_isScalar rfl
    · cases member
    · have two : insideGlobal.store.scopes.size = 2 := rfl
      have none : insideGlobal.store.scopes[i + 1 + 1]? = none :=
        Array.getElem?_eq_none (by omega)
      rw [Store.scope, none] at member
      cases member

/-- The block sets the variable of the global scope, which gains no name. -/
theorem keepsNames_insideGlobal : ∃ flow n,
    exec 20 assigningBlock ⟨#[fun _ => .value (.int 7)], ".", []⟩ insideGlobal = .value flow n ∧
    n.store.findValue? n.global "x" = some (.int 7) ∧
    (insideGlobal.store.scope insideGlobal.global).SameNames (n.store.scope insideGlobal.global) := by
  have plain : ∀ code ∈ #[fun _ => Host.Action.value (.int 7)],
      Host.Code.Plain (fun _ => False) code := by
    intro code member among _ s _ call _
    rw [List.mem_singleton.1 (Array.mem_toList_iff.2 member)]
    exact .value (Value.instancesIn_of_isScalar rfl)
  have keeps := (keepsNames ⟨#[fun _ => .value (.int 7)], ".", []⟩ insideGlobal (fun _ => False)
    insideGlobal_instancesIn plain 20).2 assigningBlock
  have evaluated : ((exec 20 assigningBlock ⟨#[fun _ => .value (.int 7)], ".", []⟩
      insideGlobal).value?.map fun p => p.2.store.findValue? p.2.global "x") =
        some (some (.int 7)) := by
    decide +kernel
  obtain ⟨p, ends, found⟩ := Option.map_eq_some_iff.1 evaluated
  have ends := Outcome.eq_value_of_value? ends
  rw [ends] at keeps
  exact ⟨p.1, p.2, ends, found, keeps insideGlobal.global (by decide) (by decide) id⟩

end Evaluator

end Scriptlet
