import Scriptlet.Proofs.Evaluation.Handles
import Scriptlet.Proofs.Store.Intact

/-!
# Rejected assignments

An assignment evaluates its target and its source and then combines and stores. Where that fails,
everything is as it was after the evaluation (`store_of_rejected`), except for what `+=` has
appended to a collection that the target computes and that then has no place to be stored in.
-/

namespace Scriptlet

namespace Evaluator

variable {fuel : Nat} {setting : Setting} {m n k : Machine} {log : FileLog} {op : AssignOperator}
  {operands : List Expr} {line : Line} {p : Place} {v w : Value} {e : RuntimeError}

/-- What an assignment evaluates before it combines and stores: a place, a value, which is `1` in a
step, and the machine after both. -/
inductive Prepares (fuel : Nat) (setting : Setting) (m : Machine) (line : Line) :
    AssignOperator → List Expr → FileLog → Place → Value → Machine → Prop where
  | step {op : AssignOperator} {target : Expr} {log : FileLog} {p : Place} {k : Machine}
      (isStep : op.isStep = true)
      (placed : (place fuel target line).Exits setting m log (.ok p) k) :
      Prepares fuel setting m line op [target] log p (.int 1) k
  | operand {op : AssignOperator} {target source : Expr} {first second : FileLog} {p : Place}
      {v : Value} {j k : Machine} (isStep : op.isStep = false)
      (placed : (place fuel target line).Exits setting m first (.ok p) j)
      (computed : (Eval.holding p.values ((eval fuel source).resolved source.line)).Exits setting j
        second (.ok v) k) :
      Prepares fuel setting m line op [target, source] (first ++ second) p v k

theorem Prepares.hasHandle (prepared : Prepares fuel setting m line op operands log p v k)
    (ready : handleFree.Ready setting m) : p.hasHandle = false := by
  cases prepared with
  | step _ placed | operand _ placed _ => exact hasHandle_of_exits_place ready placed

/-- What comes after the evaluation of an assignment's parts. -/
theorem exits_assignment_iff (prepared : Prepares fuel setting m line op operands log p v k)
    {r : Except RuntimeError Value} :
    (assignment (fuel + 1) op operands line).Exits setting m log r n ↔
      (store p op v line).Exits setting k [] r n := by
  cases prepared with
  | @step target log p k isStep placed =>
    have same : assignment (fuel + 1) op [target] line =
        (place fuel target line >>= fun p => store p op (.int 1) line) := by
      rw [assignment]
      exact isStep
    rw [same, ← List.append_nil log]
    exact Eval.exits_bind_iff placed
  | @operand target source first second p v j k isStep placed computed =>
    have same : assignment (fuel + 1) op [target, source] line =
        (place fuel target line >>= fun p =>
          Eval.holding p.values ((eval fuel source).resolved source.line) >>= fun v =>
            store p op v line) := by
      rw [assignment]
      exact isStep
    rw [same, Eval.exits_bind_iff placed, ← List.append_nil second]
    exact Eval.exits_bind_iff computed

/-- An index for which there is no place is rejected before anything is combined. -/
theorem machine_of_unplaced_index {collection key : Expr} {prec : Precedence} {l : Line}
    {first second : FileLog} {j : Machine}
    (placed : (place fuel collection line).Exits setting m first (.ok p) j)
    (computed : (Eval.holding p.values ((eval fuel key).resolved key.line)).Exits setting j second
      (.ok v) k)
    (rejected : (place (fuel + 1) (.call "listindex" [collection, key] prec l) line).Exits setting m
      (first ++ second) (.error e) n) : n = k := by
  rw [place, Eval.exits_bind_iff placed, ← List.append_nil second] at rejected
  have checks := (Eval.exits_bind_iff computed).1 rejected
  simp only [Eval.Exits, Eval.check] at checks
  split at checks
  · obtain ⟨-, never, -⟩ := Outcome.exits_value_iff.1 checks
    cases never
  · exact (Outcome.exits_error_iff.1 checks).2.2

/-- The collection that a place which cannot be written holds: that of a computed value, or one that
is reached through a handle. -/
theorem temporary_or_hasHandle {s t : Store} (reads : p.read s line = .ok w)
    (collected : w.isCollection = true) (longer : ∀ l, (s.list l).length ≤ (t.list l).length)
    (fails : p.write t v line = .error e) : p = .temporary w ∨ p.hasHandle = true := by
  -- Variables can always be written, and components of vectors are no collections.
  cases p with
  | named r name => cases fails
  | temporary u => exact .inl (congrArg Place.temporary (Except.ok.inj reads))
  | component container i =>
    obtain ⟨u, -, reads⟩ := bind_eq_ok_iff.1 reads
    obtain ⟨x, -, reads⟩ := bind_eq_ok_iff.1 reads
    cases reads
    cases found : x.component? i <;> rw [found] at collected <;> cases collected
  | element collection key =>
    by_cases handle : (Place.element collection key).hasHandle = true
    · exact .inr handle
    · simp only [Place.hasHandle, Bool.or_eq_true, decide_eq_true_eq, not_or] at handle
      obtain ⟨u, written⟩ :=
        Store.exists_setElement handle.1 handle.2 reads collected longer v
      rw [Place.write, written] at fails
      cases fails

/-- Combining changes nothing that is there, unless it appends to a collection. -/
theorem combined_cases {s t : Store} (combines : combined s p op v line = .ok (w, t)) :
    s.Intact t ∨ (op = .addAssign ∧ p.read s line = .ok w ∧ w.isCollection = true ∧
      s.append w v line = .ok (w, t) ∧ ∀ l, (s.list l).length ≤ (t.list l).length) := by
  have binary {operator : BinaryOperator}
      (h : (do s.binary operator (← p.read s line) v line) = .ok (w, t)) : s.Intact t := by
    obtain ⟨a, -, h⟩ := bind_eq_ok_iff.1 h
    exact .binary h
  cases op with
  | assign =>
    cases combines
    exact .inl (.refl s)
  | addAssign =>
    obtain ⟨a, reads, appends⟩ := bind_eq_ok_iff.1 combines
    rcases Store.append_cases appends with intact | ⟨rfl, collected, longer⟩
    · exact .inl intact
    · exact .inr ⟨rfl, reads, collected, appends, longer⟩
  | subAssign | mulAssign | divAssign | increment | decrement => exact .inl (binary combines)

/-- A rejected assignment changes nothing after the evaluation of its parts, unless `+=` appends to
a collection that it can read and not write: a computed one, or one that is reached through a handle
of the host. -/
theorem store_of_rejected {prec : Precedence}
    (prepared : Prepares fuel setting m line op operands log p v k)
    (rejected : (eval (fuel + 2) (.call op.symbol.text operands prec line)).Exits setting m log
      (.error e) n) :
    n = { k with store := n.store } ∧
      (k.store.Intact n.store ∨ ∃ w, op = .addAssign ∧ p.read k.store line = .ok w ∧
        w.isCollection = true ∧ k.store.append w v line = .ok (w, n.store) ∧
        (p = .temporary w ∨ p.hasHandle = true ∧ ¬ handleFree.Ready setting m)) := by
  have operator : (Symbol.ofText? op.symbol.text).bind Symbol.assign? = some op := by
    cases op <;> decide
  simp only [eval, operator] at rejected
  have stores := (exits_assignment_iff prepared).1 rejected
  rcases Eval.exists_of_exits_bind stores with ⟨_, -, fails⟩ | ⟨l₁, l₂, w, j, -, combines, writes⟩
  · obtain ⟨-, rfl⟩ := Eval.of_exits_attempt_error fails
    exact ⟨rfl, .inl (.refl _)⟩
  · obtain ⟨t, sum, rfl⟩ := Eval.exists_of_exits_attempt combines
    rcases Eval.exists_of_exits_bind writes with ⟨_, same, fails⟩ | ⟨_, _, _, _, -, -, never⟩
    · cases same
      obtain ⟨unwritten, rfl⟩ := Eval.of_exits_attempt_error fails
      refine ⟨rfl, (combined_cases sum).imp_right ?_⟩
      rintro ⟨rfl, reads, collected, appends, longer⟩
      refine ⟨w, rfl, reads, collected, appends, ?_⟩
      have unwritten := map_eq_error_iff.1 unwritten
      rcases temporary_or_hasHandle reads collected longer unwritten with computed | handle
      · exact .inl computed
      · refine .inr ⟨handle, fun ready => ?_⟩
        rw [prepared.hasHandle ready] at handle
        cases handle
    · obtain ⟨-, same, -⟩ := Eval.exits_pure_iff.1 never
      cases same

/-- A list that is computed each time. -/
def computedList : Expr := .list [.constant (.int 1) 1, .constant (.string "a") 1] 1

/-- An increment of a computed list is rejected and changes nothing. -/
theorem store_of_rejected_increment : ∃ p k e n,
    Prepares 8 ⟨#[], ".", []⟩ Machine.new 1 .increment [computedList] [] p (.int 1) k ∧
    (eval 10 (.call AssignOperator.increment.symbol.text [computedList] .incDec 1)).Exits
      ⟨#[], ".", []⟩ Machine.new [] (.error e) n ∧
    n = { k with store := n.store } ∧ k.store.Intact n.store := by
  have placed : (place 8 computedList 1 ⟨#[], ".", []⟩ Machine.new).value?.isSome = true := by
    decide +kernel
  have fails : (eval 10 (.call AssignOperator.increment.symbol.text [computedList] .incDec 1)
      ⟨#[], ".", []⟩ Machine.new).error?.isSome = true := by
    decide +kernel
  obtain ⟨⟨p, k⟩, placed⟩ := Option.isSome_iff_exists.1 placed
  obtain ⟨⟨e, n⟩, fails⟩ := Option.isSome_iff_exists.1 fails
  have prepared :
      Prepares 8 ⟨#[], ".", []⟩ Machine.new 1 .increment [computedList] [] p (.int 1) k :=
    .step rfl (Outcome.exits_of_value? placed)
  have rejected : (eval 10 (.call AssignOperator.increment.symbol.text [computedList] .incDec
      1)).Exits ⟨#[], ".", []⟩ Machine.new [] (.error e) n := Outcome.exits_of_error? fails
  obtain ⟨same, intact | ⟨_, never, -⟩⟩ := store_of_rejected prepared rejected
  · exact ⟨p, k, e, n, prepared, rejected, same, intact⟩
  · cases never

/-- What has been appended to a computed collection stays, though it cannot be assigned. -/
theorem exits_store_temporary {t : Store} (appends : m.store.append w v line = .ok (w, t)) :
    (store (.temporary w) .addAssign v line).Exits setting m [] (.error (.invalidTarget line))
      { m with store := t } := by
  have combines : combined m.store (.temporary w) .addAssign v line = .ok (w, t) := appends
  have combined : (Eval.attempt fun s => combined s (.temporary w) .addAssign v line).Exits setting
      m [] (.ok w) { m with store := t } := by
    rw [Eval.Exits, Eval.attempt, combines]
    exact .value
  have written : (Eval.attempt fun s => ((Place.temporary w).write s w line).map ((), ·)).Exits
      setting { m with store := t } [] (.error (.invalidTarget line)) { m with store := t } :=
    .error
  exact .bind combined (.bind_error written)

/-- A variable with a list and a function that gives it. -/
def listInCall : String := "var l = [1, \"a\"]; func f() \x7b return l; \x7d"

/-- An assignment to what the function gives is rejected, and the list has one more element. -/
theorem run_listInCall : ∃ v m n l,
    run 60 listInCall ⟨#[], ".", []⟩ Machine.new = .value (.ok v) m ∧
    m.store.findValue? m.global "l" = some (.list l) ∧ m.store.list l = [.int 1, .string "a"] ∧
    run 60 (listInCall ++ " f() += 2;") ⟨#[], ".", []⟩ Machine.new =
      .value (.error (.running (.invalidTarget 1))) n ∧
    n.store.findValue? n.global "l" = some (.list l) ∧
    n.store.list l = [.int 1, .string "a", .int 2] := by
  have before : ((run 60 listInCall ⟨#[], ".", []⟩ Machine.new).value?.map fun p =>
      (p.1.toOption.isSome, p.2.store.findValue? p.2.global "l", p.2.store.list ⟨1⟩)) =
        some (true, some (.list ⟨1⟩), [.int 1, .string "a"]) := by
    rw [run, show listInCall = .ofList _ from rfl, Lexer.tokenize_ofList]
    decide +kernel
  have after : ((run 60 (listInCall ++ " f() += 2;") ⟨#[], ".", []⟩ Machine.new).value?.map fun p =>
      (p.1, p.2.store.findValue? p.2.global "l", p.2.store.list ⟨1⟩)) =
        some (.error (.running (.invalidTarget 1)), some (.list ⟨1⟩),
          [.int 1, .string "a", .int 2]) := by
    rw [run, show listInCall ++ " f() += 2;" = .ofList _ from String.ofList_append.symm,
      Lexer.tokenize_ofList]
    decide +kernel
  obtain ⟨⟨r, m⟩, ran, values⟩ := Option.map_eq_some_iff.1 before
  obtain ⟨ok, found, items⟩ : r.toOption.isSome = true ∧ _ = _ ∧ _ = _ := by simpa using values
  obtain ⟨⟨q, n⟩, rejected, values⟩ := Option.map_eq_some_iff.1 after
  obtain ⟨rfl, still, appended⟩ : q = _ ∧ _ = _ ∧ _ = _ := by simpa using values
  cases r with
  | error e => cases ok
  | ok v =>
    exact ⟨v, m, n, ⟨1⟩, Outcome.eq_value_of_value? ran, found, items,
      Outcome.eq_value_of_value? rejected, still, appended⟩

end Evaluator

end Scriptlet
