import Scriptlet.Proofs.Evaluation.Exits
import Scriptlet.Proofs.Evaluation.Soundness
import Scriptlet.Session

/-!
# Whole scripts

A new machine is sound, so every closing of a script that it runs is exact, whatever the script
is, however long it runs and whatever the files that it asks for hold.
-/

namespace Scriptlet

namespace Store

theorem sound_empty : Store.empty.Sound where
  list l v member := by simp [Store.empty, Store.list] at member
  array a v member := by
    simp [Store.empty, Store.array, TypedArray.empty, TypedArray.emptyOf] at member
  dictionary d e member := by
    simp [Store.empty, Store.dictionary, OrderedMap.empty] at member
  function f := by
    refine ⟨fun r same => ?_, fun r same => ?_⟩
    · simp [Store.empty, Store.function, default] at same
    · simp [Store.empty, Store.function, default] at same
  scope r := by
    refine soundScope_of_empty (fun p never => ?_) rfl rfl rfl
    cases never

/-- A function that belongs to the language refers to no scope. -/
theorem soundFunction_builtin {s : Store} {f : Function} (environment : f.environment = none)
    (body : ∀ r, f.body ≠ .construct r) : s.SoundFunction f := by
  refine ⟨fun r same => ?_, fun r same => absurd same (body r)⟩
  rw [environment] at same
  cases same

theorem Sound.withBuiltins {s : Store} (sound : s.Sound) (r : ScopeRef) :
    s.Becomes (s.withBuiltins r) := by
  have all (builtins : List Builtin) {s : Store} (sound : s.Sound) : s.Becomes (builtins.foldl
      (fun s b => s.defineFunction r ⟨b.name, .free, [], .builtin b, none⟩) s) := by
    induction builtins generalizing s with
    | nil => exact .refl sound
    | cons b rest ih =>
      have first := sound.defineFunction r (f := ⟨b.name, .free, [], .builtin b, none⟩)
        (soundFunction_builtin rfl fun _ never => by cases never)
      exact first.trans (ih first.sound)
  have defines := all Builtin.all sound
  refine defines.trans (defines.sound.defineFunction r ?_)
  exact soundFunction_builtin rfl fun _ never => by cases never

end Store

namespace Machine

/-- A new machine has closed nothing. -/
theorem sound_new : Machine.new.Sound := by
  have opens : Store.empty.Becomes (Store.empty.newScope (.new "global" none false)).2 := by
    refine Store.sound_empty.newScope (Store.soundScope_of_empty (fun p never => ?_) rfl rfl rfl)
    cases never
  have builtins := opens.sound.withBuiltins ⟨0⟩
  have here : Machine.new.store.HasScope ⟨0⟩ :=
    Store.HasScope.grows builtins.toGrows (Store.hasScope_newScope _ _)
  refine ⟨builtins.sound, here, here, ?_⟩
  intro c never
  cases never

end Machine

namespace Evaluator

/-- Every closing of a script in a new session is exact, also if the script goes on for ever. -/
theorem run_closings_exact (importRoot : String) (fuel : Nat) (source : String) :
    (run fuel source ⟨#[], importRoot, []⟩ Machine.new).Ends
      (fun _ m => ∀ c, m.closings c → c.Exact) (fun m => ∀ c, m.closings c → c.Exact) := by
  have ready : soundness.Ready ⟨#[], importRoot, []⟩ Machine.new := by
    refine ⟨Machine.sound_new, rfl, ?_⟩
    intro v member
    cases member
  have home {m : Machine} (sound : m.Sound) : Machine.Sound { m with current := m.global } :=
    sound.enter sound.global
  have goes : soundness.Goes (run fuel source) _ Machine.new _ :=
    soundness_lawful.goes_run {} home ready fuel (fun _ _ => trivial) fun tokens _ =>
      soundness_lawful.yields_of_imports trivial .new tokens
  exact Outcome.Reaches.ends goes (fun _ _ both => both.1.running.closings)
    (fun _ _ both => both.1.running.closings) fun _ turns => turns.running.closings

/-- A method that leaves the function in which its class is defined. Only the class links its
scopes to the variables of the call, and the class is a named sub-scope of the call. -/
def escapedMethod : String :=
  "func f() \x7b var x = 5; class P \x7b func m() \x7b return x; \x7d \x7d return P().m; \x7d " ++
    "var g = f(); var y = g();"

/-- The variable that an escaped method reads is lost when the call is closed. -/
theorem run_escapedMethod : ∃ v m, run 60 escapedMethod ⟨#[], ".", []⟩ Machine.new = .value v m ∧
    (∃ f, m.store.findValue? m.global "g" = some (.function f)) ∧
    m.store.findValue? m.global "y" = some .null := by
  have evaluated : ((run 60 escapedMethod ⟨#[], ".", []⟩ Machine.new).value?.map fun p =>
      (p.2.store.findValue? p.2.global "g", p.2.store.findValue? p.2.global "y")) =
        some (some (.function ⟨29⟩), some .null) := by
    rw [run, show escapedMethod = .ofList _ from String.ofList_append.symm, Lexer.tokenize_ofList]
    decide +kernel
  obtain ⟨p, ends, values⟩ := Option.map_eq_some_iff.1 evaluated
  obtain ⟨found, lost⟩ := Prod.ext_iff.1 values
  exact ⟨p.1, p.2, Outcome.eq_value_of_value? ends, ⟨_, found⟩, lost⟩

/-- A function that leaves the call in which it is defined. The function links the scope of the call
by itself. -/
def escapedFunction : String :=
  "func f() \x7b var x = 5; func m() \x7b return x; \x7d return m; \x7d var g = f(); g();"

/-- The variable that it reads is kept. -/
example : (run 60 escapedFunction ⟨#[], ".", []⟩ Machine.new).value?.map (·.1) =
    some (.ok (.int 5)) := by
  rw [run, show escapedFunction = .ofList _ from rfl, Lexer.tokenize_ofList]
  decide +kernel

end Evaluator

end Scriptlet
