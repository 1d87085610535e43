import Scriptlet.Proofs.Evaluation.Lineage
import Scriptlet.Proofs.Evaluation.Run
import Scriptlet.Proofs.Store.Names

/-!
# Variables read back

An assignment to a name writes to the nearest scope that has a variable of that name, and to the
current one if none has. What is read then is what was written, unless a scope inside that one holds
something else under the name (`eval_named_of_assigned`); that is a function, since no variable of
the name was there before the assignment.
-/

namespace Scriptlet

namespace Store

variable {s t : Store} {r q : ScopeRef} {x : String} {v : Value} {inner outer : List ScopeRef}

/-- Scopes that stay in place are found on the same way outward. -/
theorem Continues.chain (continues : s.Continues t) (before : s.Sound) (after : t.Sound)
    (here : s.HasScope r) : t.chain r = s.chain r := by
  induction size : r.index using Nat.strongRecOn generalizing r with
  | ind n ih =>
    subst size
    rw [before.chain_eq here, after.chain_eq (here.grows continues.toGrows),
      continues.parent r here]
    cases parent : (s.scope r).parent with
    | none => rfl
    | some p =>
      have older : p.index < r.index := (before.scope r).parent p parent
      exact congrArg (r :: ·) (ih p.index older (Nat.lt_trans older here) rfl)

end Store

namespace Evaluator

variable {setting : Setting} {m n : Machine} {log : FileLog} {v : Value} {fuel : Nat} {x : String}
  {l : Line} {source : Expr}

theorem exists_of_exits_named {line : Line} {r : Except RuntimeError Place}
    (ends : (place fuel (.named x l) line).Exits setting m log r n) :
    log = [] ∧ r = .ok (.named ((m.store.findVariableScope? m.current x).getD m.current) x) ∧
      n = m := by
  cases fuel with
  | zero =>
    rw [place] at ends
    exact absurd ends Outcome.not_exits_cutOff
  | succ fuel =>
    rw [place] at ends
    exact Outcome.exits_value_iff.1 ends

/-- An assignment to a name stores the value in the scope that was found before the value was
computed. -/
theorem exists_of_exits_assign {prec : Precedence} {line : Line}
    (ends : (eval fuel (.call "=" [.named x l, source] prec line)).Exits setting m log (.ok v) n) :
    ∃ s : Store, n.store =
      s.setVariable ((m.store.findVariableScope? m.current x).getD m.current) x v := by
  have operator : (Symbol.ofText? "=").bind Symbol.assign? = some .assign := by decide
  cases fuel with
  | zero =>
    rw [eval] at ends
    exact absurd ends Outcome.not_exits_cutOff
  | succ fuel =>
    simp only [eval, operator] at ends
    cases fuel with
    | zero =>
      rw [assignment] at ends
      exact absurd ends Outcome.not_exits_cutOff
    | succ fuel =>
      unfold assignment at ends
      obtain ⟨l₁, l₂, p, j, rfl, placed, ends⟩ := Eval.exists_of_exits_bind_ok ends
      obtain ⟨-, same, rfl⟩ := exists_of_exits_named placed
      obtain rfl := Except.ok.inj same
      obtain ⟨l₃, l₄, w, k, rfl, -, stored⟩ := Eval.exists_of_exits_bind_ok ends
      obtain ⟨-, same, rfl⟩ := Outcome.exits_value_iff.1 stored
      obtain rfl := Except.ok.inj same
      exact ⟨k.store, rfl⟩

/-- A name that has been assigned to reads as what was assigned, unless a scope inside the one that
was written holds something under the name. No variable of the name was in those scopes before. -/
theorem eval_named_of_assigned {prec : Precedence} {line : Line} (placed : m.Placed)
    (ends : (eval fuel (.call "=" [.named x l, source] prec line)).Exits setting m log (.ok v) n)
    (follows : m.Follows n) :
    ∃ inner outer,
      n.store.chain n.current =
        inner ++ (m.store.findVariableScope? m.current x).getD m.current :: outer ∧
      (∀ q ∈ inner, m.store.variableAt? q x = none) ∧
      ∀ fuel setting l, (eval (fuel + 1) (.named x l)).Exits setting n []
        (.ok ((inner.findSome? (n.store.valueAt? · x)).getD v)) n := by
  obtain ⟨inner, outer, chain, free⟩ := Store.exists_chain_written placed.store placed.current x
  have written : (m.store.findVariableScope? m.current x).getD m.current ∈
      m.store.chain m.current := by
    rw [chain]
    simp
  have here := (placed.store.mem_chain placed.current written).grows follows.continues.toGrows
  have stays : n.store.chain n.current =
      inner ++ (m.store.findVariableScope? m.current x).getD m.current :: outer := by
    rw [follows.current, follows.continues.chain placed.store follows.placed.store placed.current,
      chain]
  obtain ⟨s, stored⟩ := exists_of_exits_assign ends
  have last :
      n.store.valueAt? ((m.store.findVariableScope? m.current x).getD m.current) x = some v := by
    rw [stored] at here ⊢
    exact Store.valueAt?_setVariable here
  refine ⟨inner, outer, stays, free, fun fuel setting l => ?_⟩
  have reads := Store.findValue?_of_chain stays last
  rw [eval]
  refine Outcome.exits_value_iff.2 ⟨rfl, ?_, rfl⟩
  dsimp only
  rw [reads, Option.getD_some]

/-- A machine in a block, with a variable around it. -/
def insideBlock : Machine :=
  let (r, store) := (Machine.new.store.setVariable ⟨0⟩ "x" (.int 1)).child ⟨0⟩ "block" false
  { Machine.new with store, current := r }

theorem placed_insideBlock : insideBlock.Placed := by
  have start := Machine.sound_new.placed
  have sets := start.store.setVariable (v := .int 1) ⟨0⟩ "x" trivial
  have defined := start.put sets.sound sets.toGrows
  have opens := defined.store.child defined.global "block" false
  exact (defined.put opens.sound opens.toGrows).enter (Store.hasScope_newScope _ _)

/-- The theorem at an assignment in a block to a variable around it. -/
theorem eval_named_insideBlock : ∃ n,
    (eval 3 (.call "=" [.named "x" 1, .constant (.int 5) 1] .assign 1)).Exits ⟨#[], ".", []⟩
      insideBlock [] (.ok (.int 5)) n ∧ insideBlock.Follows n ∧
    ∃ inner outer, n.store.chain n.current =
        inner ++ (insideBlock.store.findVariableScope? insideBlock.current "x").getD
          insideBlock.current :: outer ∧
      (∀ q ∈ inner, insideBlock.store.variableAt? q "x" = none) ∧
      ∀ fuel setting l, (eval (fuel + 1) (.named "x" l)).Exits setting n []
        (.ok ((inner.findSome? (n.store.valueAt? · "x")).getD (.int 5))) n := by
  have evaluated : ((eval 3 (.call "=" [.named "x" 1, .constant (.int 5) 1] .assign 1)
      ⟨#[], ".", []⟩ insideBlock).value?.map (·.1)) = some (.int 5) := by
    decide +kernel
  obtain ⟨⟨v, n⟩, found, rfl⟩ := Option.map_eq_some_iff.1 evaluated
  have ends : (eval 3 (.call "=" [.named "x" 1, .constant (.int 5) 1] .assign 1)).Exits
      ⟨#[], ".", []⟩ insideBlock [] (.ok (.int 5)) n := Outcome.exits_of_value? found
  have follows := (follows_eval rfl placed_insideBlock ends).1
  exact ⟨n, ends, follows, eval_named_of_assigned placed_insideBlock ends follows⟩

/-- A call in which a function of the same name stands inside the variable that is assigned. -/
def hiddenVariable : String :=
  "var x = 1; func f() \x7b func x() \x7b \x7d x = 5; return x; \x7d var y = f();"

/-- The assignment goes to the variable around the call, and the name reads as the function. -/
theorem run_hiddenVariable : ∃ v m,
    run 60 hiddenVariable ⟨#[], ".", []⟩ Machine.new = .value v m ∧
    m.store.findValue? m.global "x" = some (.int 5) ∧
    ∃ f, m.store.findValue? m.global "y" = some (.function f) := by
  have evaluated : ((run 60 hiddenVariable ⟨#[], ".", []⟩ Machine.new).value?.map fun p =>
      (p.2.store.findValue? p.2.global "x", p.2.store.findValue? p.2.global "y")) =
        some (some (.int 5), some (.function ⟨29⟩)) := by
    rw [run, show hiddenVariable = .ofList _ from rfl, Lexer.tokenize_ofList]
    decide +kernel
  obtain ⟨p, ends, values⟩ := Option.map_eq_some_iff.1 evaluated
  obtain ⟨stored, read⟩ := Prod.ext_iff.1 values
  exact ⟨p.1, p.2, Outcome.eq_value_of_value? ends, stored, _, read⟩

end Evaluator

end Scriptlet
