import Scriptlet.Proofs.Evaluation.Keeping
import Scriptlet.Proofs.Statement.ErrorLines
import Scriptlet.Proofs.Store.Lineage
import Scriptlet.Proofs.Token.Scanning
import Scriptlet.Session

/-!
# The lines of reported errors

Evaluation raises errors on the lines of what it evaluates: of the trees of a script and of the
statements of functions, which were in a script themselves. So a script without imports ends in an
error on one of its own lines (`Evaluator.run_error_line`). The exception is an expression without
tokens, whose error names line zero.
-/

namespace Scriptlet

namespace Store

/-- Whether the statements of every function name only certain lines, and import nothing. -/
def BodiesOn (q : Line → Prop) (s : Store) : Prop :=
  ∀ f statements, (s.function f).body = .script statements →
    ∀ st ∈ statements, Stmt.EachLine q False st

variable {q : Line → Prop} {s t : Store}

theorem BodiesOn.of_body (on : s.BodiesOn q)
    (same : ∀ f, (t.function f).body = (s.function f).body) : t.BodiesOn q :=
  fun f statements body => on f statements ((same f).symm.trans body)

theorem BodiesOn.newFunction (on : s.BodiesOn q) {f : Function}
    (body : ∀ statements, f.body = .script statements →
      ∀ st ∈ statements, Stmt.EachLine q False st) : (s.newFunction f).2.BodiesOn q := by
  intro g statements same
  have read : (s.newFunction f).2.function g = _ := getD_push s.functions f default g.index
  rw [read] at same
  split at same
  · exact body statements same
  · exact on g statements same

/-- A function without statements, in a scope. -/
theorem BodiesOn.defineOther (on : s.BodiesOn q) (r : ScopeRef) {f : Function}
    (other : ∀ statements, f.body ≠ .script statements) : (s.defineFunction r f).BodiesOn q :=
  BodiesOn.newFunction on fun statements same => absurd same (other statements)

theorem BodiesOn.forget (on : s.BodiesOn q) (r : ScopeRef) : (s.forget r).BodiesOn q :=
  on.of_body fun f => by rw [function, function, functions_forget]

/-- A scope that is left takes no function along. -/
theorem BodiesOn.leave (on : s.BodiesOn q) (held : List Value) (r : ScopeRef) :
    (s.leave held r).2.BodiesOn q := by
  rw [leave_eq]
  split
  · exact on.forget r
  · split
    · exact on
    · have empties : (s.teardown r).BodiesOn q :=
        on.of_body fun f => by rw [function, function, functions_teardown]
      exact empties.forget r

/-- Stores whose functions name only certain lines. -/
def bodies (q : Line → Prop) : Validity := ⟨BodiesOn q, fun _ _ => True, fun _ _ => True⟩

theorem bodies_lawful (q : Line → Prop) : (bodies q).Lawful where
  refl _ := trivial
  trans _ _ := trivial
  grows _ _ := trivial
  scalar _ := trivial
  member _ := ⟨trivial, trivial⟩
  list _ _ _ _ := trivial
  array _ _ _ _ := trivial
  dictionary _ _ _ _ := ⟨trivial, trivial⟩
  vars _ _ _ _ := trivial
  functions _ _ _ _ := trivial
  newList on _ _ := ⟨⟨trivial, on⟩, trivial⟩
  newArray on _ _ := ⟨⟨trivial, on⟩, trivial⟩
  newDictionary on _ _ := ⟨⟨trivial, on⟩, trivial⟩
  setList on _ _ _ := ⟨trivial, on⟩
  setArray on _ _ _ := ⟨trivial, on⟩
  setDictionary on _ _ _ := ⟨trivial, on⟩
  setMember on _ _ _ _ _ := ⟨trivial, on⟩

theorem BodiesOn.copyVariables (on : s.BodiesOn q) (r : ScopeRef)
    (entries : List (String × Value)) : (s.copyVariables r entries).BodiesOn q :=
  ((bodies_lawful q).copyVariables (fun on _ _ => ⟨trivial, on⟩) on fun _ _ => trivial).sound

end Store

theorem Store.BodiesOn.close {q : Line → Prop} {m : Machine} (on : m.store.BodiesOn q)
    (o : ScopeRef) (held : List Value) (r : ScopeRef) :
    ({ m with current := o }.close held r).store.BodiesOn q :=
  Machine.store_close { m with current := o } held r on fun held' => BodiesOn.leave on held' r

/-- The discipline of scripts on certain lines, without imports. -/
def onLines (q : Line → Prop) : Discipline where
  toValidity := Store.bodies q
  Extends _ _ := True
  Known _ _ := True
  Current _ _ := True
  Opened _ _ _ _ := True
  Writable _ _ _ := True
  Running m := m.store.BodiesOn q
  Suits setting _ := setting.hosts = #[]
  line := q
  imports := False

theorem onLines_lawful (q : Line → Prop) : (onLines q).Lawful where
  toLawful := Store.bodies_lawful q
  extends_of_grows _ := trivial
  extends_trans _ _ := trivial
  valid_extends _ _ := trivial
  known_extends _ _ := trivial
  current_extends _ _ _ := trivial
  opened_extends _ _ _ := trivial
  writable_extends _ _ := trivial
  suits_extends _ none := none
  known_of_current _ := trivial
  parent_of_current _ := trivial
  known_of_writable _ := trivial
  known_of_valid _ := trivial
  current_of_opened _ := trivial
  writable_of_current _ _ := trivial
  writable_of_found _ _ _ := trivial
  parent_callParent _ _ _ _ := trivial
  setVariable on _ _ := ⟨trivial, on⟩
  child on _ _ _ _ := ⟨⟨trivial, on⟩, trivial⟩
  instantiate on _ _ := ⟨⟨trivial, on⟩, trivial⟩
  defineFunction on _ admits _ _ _ := by
    refine ⟨trivial, Store.BodiesOn.newFunction on fun statements same => ?_⟩
    cases same
    exact admits
  inherit on _ _ := ⟨trivial, Store.BodiesOn.copyVariables on _ _⟩
  defineClass on _ _ := by
    refine ⟨trivial, ?_⟩
    exact Store.BodiesOn.defineOther (s := Store.addScope _ _ _ _) on _ fun _ never => by cases never
  body on same := on _ _ same
  imported never := never.elim
  sound on := on
  current _ := trivial
  put _ becomes := becomes.sound
  print on _ := on
  enter on _ := on
  hold none _ := none
  leave _ _ _ _ on _ _ _ := ⟨Store.BodiesOn.close on _ _ _, trivial, fun _ _ => trivial⟩
  leaveTemplate _ on _ _ _ := ⟨Store.BodiesOn.close on _ _ _, trivial⟩
  hosts {setting s i code call} none _ registered _ _ := by
    have empty : setting.hosts = #[] := none
    simp [empty] at registered

/-! ## A new machine -/

theorem Store.bodiesOn_empty (q : Line → Prop) : Store.empty.BodiesOn q := by
  intro f statements never
  simp [Store.empty, Store.function, default] at never

/-- The functions of the language have no statements. -/
theorem Machine.bodiesOn_new (q : Line → Prop) : Machine.new.store.BodiesOn q := by
  have all (builtins : List Builtin) {s : Store} (on : s.BodiesOn q) : (builtins.foldl
      (fun s b => s.defineFunction ⟨0⟩ ⟨b.name, .free, [], .builtin b, none⟩) s).BodiesOn q := by
    induction builtins generalizing s with
    | nil => exact on
    | cons b rest ih => exact ih (on.defineOther _ fun _ never => by cases never)
  have opened : (Store.empty.newScope (.new "global" none false)).2.BodiesOn q :=
    Store.bodiesOn_empty q
  exact (all Builtin.all opened).defineOther _ fun _ never => by cases never

/-! ## Whole scripts -/

namespace Evaluator

open Lexer

/-- Whether the word `import` is not among the tokens of a text. -/
def ImportFree (source : String) : Prop :=
  ∀ tokens, tokenize source 1 = .ok tokens → ∀ t ∈ tokens, t.token ≠ .keyword .importWord

/-- Whether a bracket of a text closes in the place of an operand. -/
def HollowText (source : String) : Prop :=
  ∃ tokens, tokenize source 1 = .ok tokens ∧ isHollow false tokens = true

/-- A script without imports that ends in an error ends in one on its lines, or in the end of the
input in an expression without tokens. -/
theorem run_error_line {importRoot source : String} (noImport : ImportFree source) {fuel : Nat}
    {log : FileLog} {e : Error} {m : Machine}
    (ends : (run fuel source ⟨#[], importRoot, []⟩ Machine.new).Exits log (.ok (.error e)) m) :
    (1 ≤ e.line ∧ e.line ≤ source.toList.count '\n' + 1) ∨
      (e = .reading (.unexpectedEnd 0) ∧ HollowText source) := by
  let q (l : Nat) : Prop := ∃ i < lines source.toList, l = 1 + i
  let survey : Survey := ⟨q, HollowText source⟩
  have ready : (onLines q).Ready ⟨#[], importRoot, []⟩ Machine.new := ⟨Machine.bodiesOn_new q, rfl⟩
  have covers {tokens : List PlacedToken} (found : tokenize source 1 = .ok tokens) :
      survey.Covers false tokens :=
    ⟨fun _ member => line_of_mem_tokenize found member, fun hollow => ⟨tokens, found, hollow⟩,
      noImport tokens found⟩
  have goes : (onLines q).Goes (run fuel source) _ Machine.new
      ((onLines q).Answers ((onLines q).Reported survey.Names)) :=
    (onLines_lawful q).goes_run {} id ready fuel (fun _ cut => .inl (line_of_tokenize_error cut))
      fun _ found => survey.yields_new (covers found)
  have real {l : Nat} (on : q l) : 1 ≤ l ∧ l ≤ source.toList.count '\n' + 1 := by
    obtain ⟨i, below, rfl⟩ := on
    have bound : lines source.toList ≤ source.toList.count '\n' + 1 := by
      unfold lines
      split <;> omega
    omega
  have reported := ((Outcome.Reaches.of_exits goes ends).1 _ rfl).2.2 e rfl
  cases e with
  | reading e =>
    rcases reported with on | ⟨rfl, hollow⟩
    · exact .inl (real on)
    · exact .inr ⟨rfl, hollow⟩
  | running e => exact .inl (real reported)
  | file => exact reported.elim

theorem importFree_of_all {source : String} (all : (tokenize source 1).toOption.all
    (fun tokens => tokens.all fun t => t.token != .keyword .importWord) = true) :
    ImportFree source := by
  intro tokens found t member word
  rw [found] at all
  have other := List.all_eq_true.1 all t member
  rw [word] at other
  cases other

/-- A script that calls a function that there is not on its third line. -/
def unknownCall : String := "var a = 1;\nvar b = 2;\nb = nosuch(a);"

/-- The error names the third line, which the script has. -/
theorem run_error_line_unknownCall : ImportFree unknownCall ∧ ∃ m,
    run 60 unknownCall ⟨#[], ".", []⟩ Machine.new =
      .value (.error (.running (.unknownFunction "nosuch" 3))) m ∧
    3 ≤ unknownCall.toList.count '\n' + 1 := by
  have free : ImportFree unknownCall := importFree_of_all (by decide)
  have stopped : ((run 60 unknownCall ⟨#[], ".", []⟩ Machine.new).value?.map (·.1)) =
      some (.error (.running (.unknownFunction "nosuch" 3))) := by
    rw [run, show unknownCall = .ofList _ from rfl, tokenize_ofList]
    decide +kernel
  obtain ⟨⟨r, m⟩, ends, same⟩ := Option.map_eq_some_iff.1 stopped
  dsimp only at same
  subst same
  have ran := Outcome.eq_value_of_value? ends
  have exits : (run 60 unknownCall ⟨#[], ".", []⟩ Machine.new).Exits []
      (.ok (.error (.running (.unknownFunction "nosuch" 3)))) m := by
    rw [ran]
    exact .value
  rcases run_error_line free exits with ⟨-, within⟩ | ⟨never, -⟩
  · exact ⟨free, m, ran, within⟩
  · cases never

/-- An expression in parentheses without tokens is reported on line zero. -/
theorem run_emptyGroup : ImportFree "();" ∧ ∃ e m,
    run 60 "();" ⟨#[], ".", []⟩ Machine.new = .value (.error e) m ∧ e.line = 0 := by
  have free : ImportFree "();" := importFree_of_all (by decide)
  have stopped : ((run 60 "();" ⟨#[], ".", []⟩ Machine.new).value?.map (·.1)) =
      some (.error (.reading (.unexpectedEnd 0))) := by
    decide +kernel
  obtain ⟨⟨r, m⟩, ends, same⟩ := Option.map_eq_some_iff.1 stopped
  dsimp only at same
  subst same
  exact ⟨free, _, m, Outcome.eq_value_of_value? ends, rfl⟩

end Evaluator

end Scriptlet
