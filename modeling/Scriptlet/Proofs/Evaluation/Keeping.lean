import Scriptlet.Proofs.Evaluation.Steps

/-!
# Evaluation keeps every lawful discipline

The level of every function of the evaluator goes well in a lawful discipline: on a machine that
evaluation may run on, with valid arguments and trees that name the lines that they may, it leads to
such machines, comes only to what may be evaluated, and gives valid values or errors on such lines
(`Discipline.Lawful.proceeds`). So whole evaluations go well, by induction on the steps that they
may make (`Discipline.Lawful.goes`), and so does every state of them (`State.Keeps.leads`).
-/

namespace Scriptlet

namespace Discipline

variable {D : Discipline}

/-- What holds of the error that a whole script ends in, where `refused` is what holds of the error
of a text that cannot be read. -/
def Reported (D : Discipline) (refused : SyntaxError → Prop) : Error → Prop
  | .reading e => refused e
  | .running e => D.line e.line
  | .file _ _ => False

/-- Whether a reader makes statements of tokens that name only lines that they may; `refused` is
what holds of the error if it refuses a token. -/
def Yields (D : Discipline) (refused : SyntaxError → Prop) (r : StatementReader)
    (tokens : List PlacedToken) : Prop :=
  (∀ st ∈ (r.readAll tokens).1, st.EachLine D.line D.imports) ∧
    ∀ e, (r.readAll tokens).2 = some e → refused e

variable {setting : Setting} {m n : Machine} {line : Line} {e : Expr} {v : Value}
  {values : List Value} {statements : List Stmt}

theorem noReceiver {s : Store} : ∀ o, (none : Option ScopeRef) = some o → D.Known s o := by
  intro o never
  cases never

namespace Lawful

variable (lawful : D.Lawful)
include lawful

theorem onInstance {s : Store} {o : ScopeRef} (valid : D.Valid s (.object o)) :
    ∀ p, some o = some p → D.Known s p := by
  intro p same
  cases same
  exact lawful.known_of_valid valid

theorem goes_define (ready : D.Ready setting m) (name : String) (valid : D.Valid m.store v) :
    D.Goes (Eval.define name v) setting m fun _ _ => True :=
  Goes.changeHere lawful ready.running (lawful.setVariable (lawful.sound ready.running)
    (lawful.writable_of_current (lawful.current ready.running) name) valid) trivial

omit lawful in
theorem isValid_stable (v : Value) (s t : Store) (keeps : ∀ v, D.Valid s v → D.Valid t v)
    (valid : D.IsValid v s) : D.IsValid v t := keeps v valid

omit lawful in
theorem isValid_single (v : Value) (s : Store) (valid : D.IsValid v s) : D.AllValid [v] s :=
  .single valid

omit lawful in
theorem flowValid_stable (flow : Flow) (s t : Store) (keeps : ∀ v, D.Valid s v → D.Valid t v)
    (valid : D.FlowValid flow s) : D.FlowValid flow t := keeps flow.value valid

omit lawful in
theorem flowValid_values (flow : Flow) (s : Store) (valid : D.FlowValid flow s) :
    D.AllValid flow.values s := .single valid

/-! ## Expressions -/

theorem proceeds_eval (ready : D.Ready setting m) (admits : D.Admits e) :
    D.Proceeds (Stepwise.eval e) setting m D.IsValid := by
  have sound := lawful.sound ready.running
  cases admits with
  | @constant c l here =>
    have gives := lawful.ofConstant sound c
    exact .lift lawful (Goes.change lawful ready.running gives.becomes gives.valid)
  | named here =>
    refine .lift lawful (Goes.look lawful ready.running ?_)
    exact lawful.valid_getD fun v found => lawful.findValue? sound found
  | @define name l here =>
    refine (Proceeds.lift lawful (lawful.goes_define ready name lawful.null)).bind lawful
      fun _ n turns _ => ?_
    exact .pure lawful turns.running lawful.null
  | @list es l elements here =>
    refine (lawful.enters (.arguments es) ready elements).bind lawful fun values n turns valid => ?_
    have gives := lawful.newList (lawful.sound turns.running) valid
    exact .lift lawful (Goes.change lawful turns.running gives.becomes gives.valid)
  | @call name es p l operands here =>
    simp only [Stepwise.eval]
    split
    · exact lawful.enters (.assignment _ es l) ready ⟨operands, here⟩
    · exact lawful.enters (.call name es l) ready ⟨operands, here⟩

/-- What is evaluated as an operand. -/
theorem proceeds_operand (ready : D.Ready setting m) (admits : D.Admits e) :
    D.Proceeds ((Stepwise.enter (.eval e)).resolved e.line) setting m D.IsValid :=
  (lawful.enters (.eval e) ready admits).resolved lawful admits.line

theorem proceeds_arguments (ready : D.Ready setting m) {operands : List Expr}
    (admits : ∀ e ∈ operands, D.Admits e) :
    D.Proceeds (Stepwise.arguments operands) setting m D.AllValid := by
  cases operands with
  | nil => exact .pure lawful ready.running .nil
  | cons e rest =>
    refine (lawful.proceeds_operand ready (admits e List.mem_cons_self)).bind lawful
      fun v n turns valid => ?_
    have ready := lawful.next ready turns
    have later := lawful.enters (.arguments rest) (lawful.holding ready (.single valid))
      fun e member => admits e (List.mem_cons_of_mem _ member)
    refine later.holding.bind lawful fun values k turns others => ?_
    exact .pure lawful turns.running (.cons (lawful.valid_extends turns.more valid) others)

theorem proceeds_call (ready : D.Ready setting m) (name : String) {operands : List Expr}
    (admits : ∀ e ∈ operands, D.Admits e) (names : D.line line) :
    D.Proceeds (Stepwise.call name operands line) setting m D.IsValid := by
  refine .look ?_
  have found : D.AllValid ((m.store.findFunction? m.current name).toList.map .function) m.store := by
    intro v member
    obtain ⟨f, isTarget, rfl⟩ := List.mem_map.1 member
    exact lawful.findFunction? (lawful.sound ready.running) (Option.mem_toList.1 isTarget)
  generalize m.store.findFunction? m.current name = target at found ⊢
  have inside := lawful.enters (.arguments operands) (lawful.holding ready found) admits
  refine inside.holding.bind lawful fun values k turns valid => ?_
  have ready := lawful.next ready turns
  have found := found.more lawful turns.more
  split
  · exact (lawful.enters (.invoke _ _ none line) (lawful.holding ready found)
      ⟨valid, noReceiver, names⟩).holding
  · have first : D.Valid k.store (.function _) := valid _ List.mem_cons_self
    exact (lawful.enters (.invoke _ _ none line) (lawful.holding ready (.single first))
      ⟨valid.tail, noReceiver, names⟩).holding
  · exact .lift lawful (Goes.fail lawful ready.running names)

/-! ## Calls -/

/-- A call of a function that is written in a script: its body runs in a new scope that holds the
arguments. -/
theorem proceeds_scriptCall (ready : D.Ready setting m) {ref : FunctionRef}
    (admits : D.AdmitsAll statements) (valid : D.AllValid values m.store)
    {receiver : Option ScopeRef} (receivers : ∀ o, receiver = some o → D.Known m.store o)
    (may : D.MayCall m.store m.current ref receiver) :
    D.Proceeds (Stepwise.scriptCall (m.store.function ref) statements values receiver) setting m
      D.IsValid := by
  have parent := lawful.parent_callParent (lawful.sound ready.running)
    (lawful.current ready.running) receivers may
  obtain ⟨becomes, made⟩ := lawful.child (lawful.sound ready.running) parent
    (m.store.function ref).name false (fun never => by cases never)
  have child := lawful.putStore ready.running becomes
  have binds := lawful.bind becomes.sound made (m.store.function ref).parameters
    (valid.more lawful child.more)
  have opens := lawful.turns child (lawful.putStore child.running binds)
  have unbound := (valid.more lawful opens.more).mem_drop (m.store.function ref).parameters.length
  have inside := lawful.holding (lawful.next ready opens) unbound
  have opened := lawful.opened_extends becomes.sound (lawful.extends_of_grows binds.grows) made
  intro s moves
  exact Proceeds.opened lawful ready.running inside opens rfl (Nat.le_refl _) opened isValid_stable
    isValid_single (lawful.enters (.body statements) (lawful.entering inside opened) admits) s
    (lawful.moves_trans moves (lawful.moves_of_extends opens.more))

/-- A call of a builtin function. -/
theorem proceeds_builtinCall (ready : D.Ready setting m) (b : Builtin)
    (valid : D.AllValid values m.store) (names : D.line line) :
    D.Proceeds (do
      let output ← Stepwise.lift (.look fun s _ => b.output s values)
      let v ← Stepwise.lift (.attempt fun s => b.call s values line)
      if !output.isEmpty then Stepwise.lift (.print output)
      return v) setting m D.IsValid := by
  refine .look (Proceeds.bind (P := D.IsValid) lawful (.lift lawful (Goes.attempt lawful
    ready.running names (Store.failsOn_builtinCall b values) fun r called => ?_)) fun v k turns value => ?_)
  · have gives := lawful.builtinCall (lawful.sound ready.running) valid called
    exact ⟨gives.becomes, gives.valid⟩
  · have ready := lawful.next ready turns
    split
    · refine Proceeds.bind (P := fun _ _ => True) lawful
        (.lift lawful (Goes.print lawful ready.running trivial)) fun _ n turns _ => ?_
      exact .pure lawful turns.running (lawful.valid_extends turns.more value)
    · exact .pure lawful ready.running value

theorem proceeds_invoke (ready : D.Ready setting m) (ref : FunctionRef)
    (valid : D.AllValid values m.store) {receiver : Option ScopeRef}
    (receivers : ∀ o, receiver = some o → D.Known m.store o) (names : D.line line)
    (may : D.May (.invoke ref values receiver line) m) :
    D.Proceeds (Stepwise.invoke ref values receiver line) setting m D.IsValid := by
  have sound := lawful.sound ready.running
  refine .look ?_
  split
  · rename_i body
    exact lawful.proceeds_scriptCall ready (lawful.body sound body) valid receivers
      (may (by rw [body]; rfl))
  · exact lawful.proceeds_builtinCall ready _ valid names
  · exact Proceeds.holding (.nested lawful (lawful.holding ready valid) isValid_stable
      isValid_single fun setting k more ready => lawful.enters (.apply values line) ready
        ⟨valid.more lawful more, names⟩)
  · rename_i body
    obtain ⟨becomes, made⟩ := lawful.instantiate sound body (m.store.function ref).name
    refine (Proceeds.lift lawful (Goes.change (P := fun o s => D.Valid s (.object o)) lawful
      ready.running becomes made)).bind lawful fun o k turns made => ?_
    have valid := valid.more lawful turns.more
    have ready := lawful.holding (lawful.next ready turns) (.cons made valid)
    exact Proceeds.holding (.nested lawful ready isValid_stable isValid_single
      fun setting k more ready => lawful.enters (.initialized o values line) ready
        ⟨lawful.valid_extends more made, valid.more lawful more, names⟩)
  · refine .look (Proceeds.holding ?_)
    exact lawful.enters (.hosted _ ⟨values, none, _, line⟩) (lawful.holding ready valid)
      ⟨valid, names⟩
  · exact Proceeds.holding (.nested lawful (lawful.holding ready valid) isValid_stable
      isValid_single fun setting k more ready => .look
        (lawful.enters (.hosted _ ⟨values, receiver, _, line⟩) ready
          ⟨valid.more lawful more, names⟩))

theorem proceeds_body (ready : D.Ready setting m) (admits : D.AdmitsAll statements) :
    D.Proceeds (Stepwise.body statements) setting m D.IsValid := by
  cases statements with
  | nil => exact .pure lawful ready.running lawful.null
  | cons s rest =>
    refine (lawful.enters (.exec s) ready (admits s List.mem_cons_self)).bind lawful
      fun flow n turns valid => ?_
    cases flow with
    | normal v => exact lawful.enters (.body rest) (lawful.next ready turns) admits.tail
    | ret v => exact .pure lawful turns.running valid

theorem proceeds_initialized (ready : D.Ready setting m) {o : ScopeRef}
    (made : D.Valid m.store (.object o)) (valid : D.AllValid values m.store)
    (names : D.line line) :
    D.Proceeds (Stepwise.initialized o values line) setting m D.IsValid := by
  refine .look ?_
  split
  · exact .pure lawful ready.running made
  · rename_i f found
    have here := lawful.callableAt? (lawful.sound ready.running) found
    have runs := lawful.enters (.invoke f values (some o) line) (lawful.holding ready (.single here))
      ⟨valid, lawful.onInstance made, names⟩
    refine runs.holding.bind lawful fun _ k turns _ => ?_
    exact .pure lawful turns.running (lawful.valid_extends turns.more made)

theorem proceeds_apply (ready : D.Ready setting m) (valid : D.AllValid values m.store)
    (names : D.line line) : D.Proceeds (Stepwise.apply values line) setting m D.IsValid := by
  unfold Stepwise.apply
  split
  · rename_i name receiver rest
    exact lawful.enters (.callMember receiver name rest line) ready
      ⟨valid receiver (by simp), valid.tail.tail, names⟩
  · rename_i f rest
    refine .look ?_
    have valid := valid.tail
    split
    · exact lawful.enters (.invoke f _ (some _) line) ready
        ⟨valid.tail, lawful.onInstance (valid _ List.mem_cons_self), names⟩
    · exact lawful.enters (.invoke f _ none line) ready ⟨valid, noReceiver, names⟩
  · exact .lift lawful (Goes.fail lawful ready.running names)
  · exact .lift lawful (Goes.fail lawful ready.running names)
  · exact .lift lawful (Goes.fail lawful ready.running names)

theorem proceeds_callMember (ready : D.Ready setting m) {receiver : Value}
    (receiverValid : D.Valid m.store receiver) (name : String) (valid : D.AllValid values m.store)
    (names : D.line line) :
    D.Proceeds (Stepwise.callMember receiver name values line) setting m D.IsValid := by
  have sound := lawful.sound ready.running
  refine .look ?_
  split
  · rename_i f on found
    obtain ⟨here, receivers⟩ := lawful.ownFunction? sound receiverValid found
    exact (lawful.enters (.invoke f values on line) (lawful.holding ready (.single here))
      ⟨valid, receivers, names⟩).holding
  · refine .look ((Proceeds.lift lawful (Goes.check (P := fun f s => D.HasFunction s f) lawful
      ready.running names (Store.failsOn_memberFunction _ _ _)
      fun f => lawful.memberFunction sound)).bind lawful fun f k turns here => .look ?_)
    have receiverValid := lawful.valid_extends turns.more receiverValid
    have valid := valid.more lawful turns.more
    have ready := lawful.holding (lawful.next ready turns) (.single here)
    split
    · exact (lawful.enters (.invoke f values (some _) line) ready
        ⟨valid, lawful.onInstance receiverValid, names⟩).holding
    · exact (lawful.enters (.invoke f (_ :: values) none line) ready
        ⟨.cons receiverValid valid, noReceiver, names⟩).holding

/-! ## Functions of the host -/

theorem proceeds_hosted (ready : D.Ready setting m) (ref : HostRef) {made : Host.Call}
    (valid : D.AllValid made.arguments m.store) (names : D.line made.line) :
    D.Proceeds (Stepwise.hosted ref made) setting m D.IsValid := by
  refine .around ?_
  split
  · rename_i code registered
    exact lawful.enters (.act (code made)) ready
      (lawful.hosts ready.setting (lawful.sound ready.running) registered valid names)
  · exact .pure lawful ready.running lawful.null

theorem proceeds_act (ready : D.Ready setting m) {action : Host.Action}
    (plain : Host.Action.Plain D.Valid D.line m.store action) :
    D.Proceeds (Stepwise.act action) setting m D.IsValid := by
  cases plain with
  | value valid => exact .pure lawful ready.running valid
  | error names => exact .lift lawful (Goes.fail lawful ready.running names)
  | @look _ next rest => exact .look (lawful.enters (.act (next m.store)) ready rest)
  | @file _ request next rest =>
    have asks : D.Goes (Eval.ask request) setting m fun _ s => s = m.store :=
      Goes.ask lawful ready.running fun _ => rfl
    refine (Proceeds.lift lawful asks).bind lawful fun answer n turns same => ?_
    have rest := rest answer
    rw [← same] at rest
    exact lawful.enters (.act (next answer)) (lawful.next ready turns) rest
  | @makeList _ items next valid rest =>
    have gives := lawful.newList (lawful.sound ready.running) valid
    have makes : D.Goes (Eval.change (·.newList items)) setting m
        fun v s => (v, s) = m.store.newList items :=
      Goes.change lawful ready.running gives.becomes rfl
    refine (Proceeds.lift lawful makes).bind lawful fun v n turns found => ?_
    rw [← found] at rest
    exact lawful.enters (.act (next v)) (lawful.next ready turns) rest

/-! ## Assignments -/

theorem goes_store (ready : D.Ready setting m) {p : Place} (here : D.HasPlace m.store p)
    (op : AssignOperator) (valid : D.Valid m.store v) (names : D.line line) :
    D.Goes (Evaluator.store p op v line) setting m D.IsValid := by
  unfold Evaluator.store
  refine Goes.bind (P := D.IsValid) lawful (Goes.attempt lawful ready.running names
    (Store.failsOn_combined p op v) fun r combined => ?_) fun w n turns stored => ?_
  · have gives := lawful.combined (lawful.sound ready.running) here valid combined
    exact ⟨gives.becomes, gives.valid⟩
  · have here := lawful.hasPlace_extends turns.more here
    have ready := lawful.next ready turns
    refine Goes.bind (P := fun _ _ => True) lawful (Goes.attempt lawful ready.running names
      (Store.failsOn_write p w).map fun r written => ?_) fun _ k turns _ => ?_
    · obtain ⟨t, writes, rfl⟩ := map_eq_ok_iff.1 written
      exact ⟨lawful.write (lawful.sound ready.running) here stored writes, trivial⟩
    · exact Goes.pure lawful turns.running (lawful.valid_extends turns.more stored)

theorem proceeds_assignment (ready : D.Ready setting m) (op : AssignOperator)
    {operands : List Expr} (admits : ∀ e ∈ operands, D.Admits e) (names : D.line line) :
    D.Proceeds (Stepwise.assignment op operands line) setting m D.IsValid := by
  unfold Stepwise.assignment
  split
  · rename_i target _
    refine (lawful.enters (.place target line) ready ⟨admits target (by simp), names⟩).bind lawful
      fun p n turns here => .lift lawful ?_
    exact lawful.goes_store (lawful.next ready turns) here op (lawful.scalar rfl) names
  · rename_i target source _
    refine (lawful.enters (.place target line) ready ⟨admits target (by simp), names⟩).bind lawful
      fun p n turns here => ?_
    have ready := lawful.next ready turns
    refine (lawful.proceeds_operand (lawful.holdingPlace ready here)
      (admits source (by simp))).holding.bind lawful fun v k turns valid => .lift lawful ?_
    exact lawful.goes_store (lawful.next ready turns) (lawful.hasPlace_extends turns.more here) op
      valid names
  · exact .lift lawful (Goes.fail lawful ready.running names)

theorem proceeds_place (ready : D.Ready setting m) {target : Expr} (admits : D.Admits target)
    (names : D.line line) :
    D.Proceeds (Stepwise.place target line) setting m fun p s => D.HasPlace s p := by
  unfold Stepwise.place
  split
  · rename_i name _
    refine .lift lawful (Goes.look lawful ready.running ?_)
    have current := lawful.current ready.running
    cases found : m.store.findVariableScope? m.current name with
    | none => exact lawful.writable_of_current current name
    | some r => exact lawful.writable_of_found (lawful.sound ready.running) current found
  · rename_i name _
    refine (lawful.enters (.eval _) ready admits).bind lawful fun v n turns _ => .lift lawful ?_
    have current := lawful.current turns.running
    exact Goes.look lawful turns.running (lawful.writable_of_current current name)
  · rename_i collection key _ _
    cases admits with
    | call operands _ =>
      have second : D.Admits key := operands key (by simp)
      refine (lawful.enters (.place collection line) ready
        ⟨operands collection (by simp), names⟩).bind lawful fun container n turns here => ?_
      have ready := lawful.next ready turns
      refine (lawful.proceeds_operand (lawful.holdingPlace ready here) second).holding.bind lawful
        fun k n turns valid => .lift lawful ?_
      have here := lawful.hasPlace_extends turns.more here
      exact Goes.check lawful turns.running names (Store.failsOn_indexed container k)
        fun p indexed => lawful.indexed (lawful.sound turns.running) here valid indexed
  · refine (lawful.enters (.eval _) ready admits).bind lawful fun v n turns valid => ?_
    split
    · exact .pure lawful turns.running (lawful.member valid)
    · exact .pure lawful turns.running valid

/-! ## Statements -/

/-- An imported script. -/
theorem proceeds_imported (path : String) (names : D.line line)
    {x : Stepwise (Except SyntaxError Value)}
    (goes : D.Proceeds x setting m (D.Answers fun _ => True)) :
    D.Proceeds (Stepwise.imported path line x) setting m D.IsValid := by
  refine goes.catching.bind lawful fun r n turns result => ?_
  obtain e | e | v := r
  · exact .lift lawful (Goes.fail lawful turns.running names)
  · exact .lift lawful (Goes.fail lawful turns.running names)
  · exact .pure lawful turns.running ((result.1 _ rfl).1 v rfl)

theorem proceeds_classDef (ready : D.Ready setting m) (name : String) (bases : List String)
    (admits : D.AdmitsAll statements) (names : D.line line) (may : D.MayDeclare m.store) :
    D.Proceeds (Stepwise.classDef name bases statements line) setting m D.FlowValid := by
  have current := lawful.current ready.running
  obtain ⟨becomes, opened⟩ := lawful.child (lawful.sound ready.running)
    (lawful.parent_of_current current) name true fun _ => may
  have opens : D.Goes (Eval.child m.current name true) setting m
      fun r s => D.Opened s name true r := Goes.change lawful ready.running becomes opened
  refine .look ((Proceeds.lift lawful opens).bind lawful fun template n turns made => ?_)
  have ready := lawful.next ready turns
  have inherits : D.Goes (Eval.attempt fun s =>
      (s.inheritAll m.current template line bases).map ((), ·)) setting n fun _ _ => True := by
    refine Goes.attempt lawful ready.running names
      (Store.failsOn_inheritAll m.current template bases).map fun r inherited => ?_
    obtain ⟨t, inherits, rfl⟩ := map_eq_ok_iff.1 inherited
    exact ⟨lawful.inheritAll (lawful.sound ready.running) made inherits, trivial⟩
  refine (Proceeds.lift lawful inherits).bind lawful fun _ k turns _ => ?_
  have made := lawful.opened_extends (lawful.sound ready.running) turns.more made
  have ready := lawful.next ready turns
  have runs := lawful.enters (.sequence .null statements) (lawful.entering ready made)
    ⟨lawful.null, admits⟩
  refine (Proceeds.withinTemplate lawful ready made flowValid_stable flowValid_values runs).bind
    lawful fun _ n turns _ => ?_
  have made := lawful.opened_extends (lawful.sound ready.running) turns.more made
  have defines := lawful.defineClass (lawful.sound turns.running) (lawful.current turns.running) made
  refine (Proceeds.lift lawful (Goes.changeHere (P := fun _ _ => True) lawful turns.running defines
    trivial)).bind lawful fun _ n turns _ => ?_
  exact .pure lawful turns.running lawful.null

/-- A statement that imports a script. -/
theorem proceeds_importFile (ready : D.Ready setting m) (path : String) (may : D.imports)
    (names : D.line line) :
    D.Proceeds (Stepwise.exec (.importFile path line)) setting m D.FlowValid := by
  have asks : D.Goes (Eval.ask (.read (joinPath setting.importRoot path))) setting m
      fun _ _ => True := Goes.ask lawful ready.running fun _ => trivial
  refine .around ((Proceeds.lift lawful asks).bind lawful fun answer n turns _ => ?_)
  have ready := lawful.next ready turns
  cases answer with
  | error reason => exact .lift lawful (Goes.fail lawful ready.running names)
  | ok source =>
    refine (lawful.proceeds_imported path names
      (lawful.enters (.script source) ready may)).bind lawful fun v n turns valid => ?_
    exact .pure lawful turns.running valid

theorem proceeds_exec (ready : D.Ready setting m) {statement : Stmt}
    (admits : statement.EachLine D.line D.imports) (may : D.May (.exec statement) m) :
    D.Proceeds (Stepwise.exec statement) setting m D.FlowValid := by
  cases admits with
  | @expr e inside =>
    refine (lawful.enters (.eval e) ready inside).bind lawful fun v n turns valid => ?_
    exact .pure lawful turns.running valid
  | @define name e l inside here =>
    refine (lawful.proceeds_operand ready inside).bind lawful fun v n turns valid => ?_
    have ready := lawful.next ready turns
    have gives := lawful.duplicate (lawful.sound ready.running) valid
    refine (Proceeds.lift lawful (Goes.change (P := D.IsValid) lawful ready.running gives.becomes
      gives.valid)).bind lawful fun w k turns valid => ?_
    have ready := lawful.next ready turns
    refine (Proceeds.lift lawful (lawful.goes_define ready name valid)).bind lawful
      fun _ l turns _ => ?_
    exact .pure lawful turns.running (lawful.valid_extends turns.more valid)
  | @function name ps body l inside here =>
    have defines := lawful.defineFunction (lawful.sound ready.running)
      (lawful.current ready.running) inside name
      (if (m.store.scope m.current).isClass then .method else .free) ps
    have goes : D.Goes (Evaluator.defineFunction name ps body) setting m fun _ _ => True :=
      Goes.changeHere lawful ready.running defines trivial
    refine (Proceeds.lift lawful goes).bind lawful fun _ n turns _ => ?_
    exact .pure lawful turns.running lawful.null
  | @classDef name bases body l inside here =>
    exact lawful.proceeds_classDef ready name bases inside here may
  | @block body l inside here =>
    exact .nested lawful ready flowValid_stable flowValid_values
      fun setting n _ ready => lawful.enters (.sequence .null body) ready ⟨lawful.null, inside⟩
  | @ret e l inside here =>
    cases e with
    | none => exact .pure lawful ready.running lawful.null
    | some e =>
      refine (lawful.proceeds_operand ready (inside e rfl)).bind lawful fun v n turns valid => ?_
      exact .pure lawful turns.running valid
  | @loop init test iterate body l starts tests iterates inside here =>
    refine .nested lawful ready flowValid_stable flowValid_values fun setting n _ ready => ?_
    have rounds {setting : Setting} {n : Machine} (ready : D.Ready setting n) :=
      lawful.enters (.repeated test iterate body .null) ready
        ⟨tests, iterates, inside, lawful.null⟩
    cases init with
    | none => exact rounds ready
    | some e =>
      refine (lawful.enters (.eval e) ready (starts e rfl)).bind lawful fun _ n turns _ => ?_
      exact rounds (lawful.next ready turns)
  | @foreach name source body l first inside here =>
    refine (lawful.proceeds_operand ready first).bind lawful fun v n turns valid => ?_
    have ready := lawful.next ready turns
    refine (Proceeds.lift lawful (Goes.check (P := D.AllValid) lawful ready.running here
      (Store.failsOn_items v) fun values => lawful.items (lawful.sound ready.running) valid)).bind
      lawful fun values n turns valid => ?_
    exact .nested lawful (lawful.next ready turns) flowValid_stable flowValid_values
      fun setting n more ready => lawful.enters (.each name body .null values) ready
        ⟨inside, lawful.null, valid.more lawful more⟩
  | @choice branches l tests bodies here =>
    exact lawful.enters (.choose branches) ready ⟨tests, bodies⟩
  | @importFile path l imports here => exact lawful.proceeds_importFile ready path imports here

theorem proceeds_sequence (ready : D.Ready setting m) {last : Value}
    (valid : D.Valid m.store last) (admits : D.AdmitsAll statements) :
    D.Proceeds (Stepwise.sequence last statements) setting m D.FlowValid := by
  cases statements with
  | nil => exact .pure lawful ready.running valid
  | cons s rest =>
    refine (lawful.enters (.exec s) (lawful.holding ready (.single valid))
      (admits s List.mem_cons_self)).holding.bind lawful fun flow n turns valid => ?_
    cases flow with
    | normal v => exact lawful.enters (.sequence v rest) (lawful.next ready turns) ⟨valid, admits.tail⟩
    | ret v => exact .pure lawful turns.running valid

theorem proceeds_round (ready : D.Ready setting m) {test iterate : Option Expr}
    (tests : ∀ e ∈ test, D.Admits e) (iterates : ∀ e ∈ iterate, D.Admits e)
    (admits : D.AdmitsAll statements) {last : Value} (valid : D.Valid m.store last) (goes : Bool) :
    D.Proceeds (Stepwise.round test iterate statements last goes) setting m D.FlowValid := by
  cases goes with
  | false => exact .pure lawful ready.running valid
  | true =>
    refine (lawful.enters (.sequence .null statements) (lawful.holding ready (.single valid))
      ⟨lawful.null, admits⟩).holding.bind lawful fun flow k turns valid => ?_
    have ready := lawful.next ready turns
    cases flow with
    | ret v => exact .pure lawful ready.running valid
    | normal v =>
      cases iterate with
      | none =>
        exact lawful.enters (.repeated test none statements v) ready
          ⟨tests, iterates, admits, valid⟩
      | some e =>
        refine (lawful.enters (.eval e) (lawful.holding ready (.single valid))
          (iterates e rfl)).holding.bind lawful fun _ k turns _ => ?_
        exact lawful.enters (.repeated test (some e) statements v) (lawful.next ready turns)
          ⟨tests, iterates, admits, lawful.valid_extends turns.more valid⟩

theorem proceeds_repeated (ready : D.Ready setting m) {test iterate : Option Expr}
    (tests : ∀ e ∈ test, D.Admits e) (iterates : ∀ e ∈ iterate, D.Admits e)
    (admits : D.AdmitsAll statements) {last : Value} (valid : D.Valid m.store last) :
    D.Proceeds (Stepwise.repeated test iterate statements last) setting m D.FlowValid := by
  cases test with
  | none => exact lawful.proceeds_round ready tests iterates admits valid true
  | some e =>
    refine (lawful.proceeds_operand (lawful.holding ready (.single valid))
      (tests e rfl)).holding.bind lawful fun v n turns _ => .look ?_
    exact lawful.proceeds_round (lawful.next ready turns) tests iterates admits
      (lawful.valid_extends turns.more valid) _

theorem proceeds_each (ready : D.Ready setting m) (name : String)
    (admits : D.AdmitsAll statements) {last : Value} (valid : D.Valid m.store last)
    (allValid : D.AllValid values m.store) :
    D.Proceeds (Stepwise.each name statements last values) setting m D.FlowValid := by
  cases values with
  | nil => exact .pure lawful ready.running valid
  | cons item rest =>
    refine (Proceeds.lift lawful (lawful.goes_define ready name
      (allValid item List.mem_cons_self))).bind lawful fun _ n turns _ => ?_
    have ready := lawful.next ready turns
    have valid := lawful.valid_extends turns.more valid
    have others := allValid.tail.more lawful turns.more
    refine (lawful.enters (.sequence .null statements) (lawful.holding ready (.cons valid others))
      ⟨lawful.null, admits⟩).holding.bind lawful fun flow n turns valid => ?_
    cases flow with
    | normal v =>
      exact lawful.enters (.each name statements v rest) (lawful.next ready turns)
        ⟨admits, valid, others.more lawful turns.more⟩
    | ret v => exact .pure lawful turns.running valid

theorem proceeds_branch (ready : D.Ready setting m) {b : Branch} {rest : List Branch}
    (tests : ∀ b ∈ rest, ∀ e ∈ b.test, D.Admits e) (bodies : ∀ b ∈ rest, D.AdmitsAll b.body)
    (admits : D.AdmitsAll b.body) (taken : Bool) :
    D.Proceeds (Stepwise.branch b rest taken) setting m D.FlowValid := by
  cases taken with
  | false => exact lawful.enters (.choose rest) ready ⟨tests, bodies⟩
  | true =>
    exact .nested lawful ready flowValid_stable flowValid_values
      fun setting n _ ready => lawful.enters (.sequence .null b.body) ready ⟨lawful.null, admits⟩

theorem proceeds_choose (ready : D.Ready setting m) {branches : List Branch}
    (tests : ∀ b ∈ branches, ∀ e ∈ b.test, D.Admits e)
    (bodies : ∀ b ∈ branches, D.AdmitsAll b.body) :
    D.Proceeds (Stepwise.choose branches) setting m D.FlowValid := by
  cases branches with
  | nil => exact .pure lawful ready.running lawful.null
  | cons b rest =>
    have branch {n : Machine} (ready : D.Ready setting n) (taken : Bool) :=
      lawful.proceeds_branch ready (fun b member => tests b (List.mem_cons_of_mem _ member))
        (fun b member => bodies b (List.mem_cons_of_mem _ member)) (bodies b List.mem_cons_self)
        taken
    rw [Stepwise.choose]
    split
    · exact branch ready true
    · rename_i e isTest
      refine (lawful.proceeds_operand ready (tests b List.mem_cons_self e isTest)).bind lawful
        fun v n turns _ => .look ?_
      exact branch (lawful.next ready turns) _

/-! ## Scripts -/

/-- An imported script may name any line. -/
theorem yields_of_imports (may : D.imports) (r : StatementReader) (tokens : List PlacedToken) :
    D.Yields (fun _ => True) r tokens :=
  ⟨fun st _ => lawful.imported may st, fun _ _ => trivial⟩

omit lawful in
theorem answers_error {ε : Type} {refused : ε → Prop} {e : ε} {s : Store} (h : refused e) :
    D.Answers refused (.error e) s := by
  refine ⟨fun v never => ?_, fun f same => ?_⟩
  · cases never
  · cases same
    exact h

omit lawful in
theorem answers_ok {ε : Type} {refused : ε → Prop} {s : Store} (valid : D.Valid s v) :
    D.Answers refused (.ok v) s := by
  refine ⟨fun w same => ?_, fun e never => ?_⟩
  · cases same
    exact valid
  · cases never

theorem proceeds_feed (ready : D.Ready setting m) {r : StatementReader}
    {tokens : List PlacedToken} (admits : D.AdmitsAll (r.readAll tokens).1) {last : Value}
    (valid : D.Valid m.store last) :
    D.Proceeds (Stepwise.feed r tokens last) setting m
      (D.Answers fun e => (r.readAll tokens).2 = some e) := by
  cases tokens with
  | nil =>
    rw [StatementReader.readAll] at admits ⊢
    unfold Stepwise.feed
    dsimp only
    split
    · rename_i e flushed
      rw [flushed]
      exact .pure lawful ready.running (answers_error rfl)
    · rename_i flushed
      rw [flushed] at admits ⊢
      refine (lawful.enters (.executed _ last) ready ⟨admits, valid⟩).bind lawful
        fun v n turns valid => ?_
      exact .pure lawful turns.running (answers_ok valid)
  | cons t rest =>
    rw [StatementReader.readAll] at admits ⊢
    unfold Stepwise.feed
    dsimp only
    split
    · rename_i e fed
      rw [fed]
      exact .pure lawful ready.running (answers_error rfl)
    · rename_i fed
      rw [fed] at admits ⊢
      have now := fun st member => admits st (List.mem_append_left _ member)
      have later := fun st member => admits st (List.mem_append_right _ member)
      refine (lawful.enters (.executed _ last) ready ⟨now, valid⟩).bind lawful
        fun v n turns valid => ?_
      exact lawful.enters (.feed _ rest v) (lawful.next ready turns) ⟨later, valid⟩

theorem proceeds_script (ready : D.Ready setting m) (may : D.imports) (source : String) :
    D.Proceeds (Stepwise.script source) setting m (D.Answers fun _ => True) := by
  unfold Stepwise.script
  split
  · exact .pure lawful ready.running (answers_error trivial)
  · rename_i tokens _
    have fed := lawful.enters (.feed .new tokens .null) ready
      ⟨(lawful.yields_of_imports may .new tokens).1, lawful.null⟩
    exact fed.imp fun _ _ answers => ⟨answers.1, fun _ _ => trivial⟩

theorem proceeds_executed (ready : D.Ready setting m) (admits : D.AdmitsAll statements)
    {last : Value} (valid : D.Valid m.store last) :
    D.Proceeds (Stepwise.executed statements last) setting m D.IsValid := by
  cases statements with
  | nil => exact .pure lawful ready.running valid
  | cons s rest =>
    refine (lawful.enters (.exec s) (lawful.holding ready (.single valid))
      (admits s List.mem_cons_self)).holding.bind lawful fun flow n turns valid => ?_
    exact lawful.enters (.executed rest flow.value) (lawful.next ready turns) ⟨admits.tail, valid⟩

/-! ## All together -/

/-- Whatever evaluation may come to and go into goes well. -/
theorem proceeds (w : Work) (ready : D.Ready setting m) (takes : D.Takes w m.store)
    (may : D.May w m) : D.Proceeds w.level setting m (D.Results w) := by
  cases w with
  | eval e => exact lawful.proceeds_eval ready takes
  | arguments operands => exact lawful.proceeds_arguments ready takes
  | call name operands line => exact lawful.proceeds_call ready name takes.1 takes.2
  | invoke f values receiver line =>
    exact lawful.proceeds_invoke ready f takes.1 takes.2.1 takes.2.2 may
  | body statements => exact lawful.proceeds_body ready takes
  | initialized o values line =>
    exact lawful.proceeds_initialized ready takes.1 takes.2.1 takes.2.2
  | apply values line => exact lawful.proceeds_apply ready takes.1 takes.2
  | callMember receiver name values line =>
    exact lawful.proceeds_callMember ready takes.1 name takes.2.1 takes.2.2
  | hosted ref made => exact lawful.proceeds_hosted ready ref takes.1 takes.2
  | act action => exact lawful.proceeds_act ready takes
  | assignment op operands line => exact lawful.proceeds_assignment ready op takes.1 takes.2
  | place target line => exact lawful.proceeds_place ready takes.1 takes.2
  | exec statement => exact lawful.proceeds_exec ready takes may
  | sequence last statements => exact lawful.proceeds_sequence ready takes.1 takes.2
  | repeated test iterate statements last =>
    exact lawful.proceeds_repeated ready takes.1 takes.2.1 takes.2.2.1 takes.2.2.2
  | each name statements last values =>
    exact lawful.proceeds_each ready name takes.1 takes.2.1 takes.2.2
  | choose branches => exact lawful.proceeds_choose ready takes.1 takes.2
  | run source => exact takes.elim
  | script source => exact lawful.proceeds_script ready takes source
  | feed r tokens last => exact lawful.proceeds_feed ready takes.1 takes.2
  | executed statements last => exact lawful.proceeds_executed ready takes.1 takes.2

/-- A whole script, if evaluation may always go on in the global scope. -/
theorem proceeds_run (home : ∀ {m}, D.Running m → D.Running { m with current := m.global })
    (ready : D.Ready setting m) {source : String} {refused : SyntaxError → Prop}
    (cut : ∀ e, Lexer.tokenize source 1 = .error e → refused e)
    (yields : ∀ tokens, Lexer.tokenize source 1 = .ok tokens → D.Yields refused .new tokens) :
    D.Proceeds (Stepwise.run source) setting m (D.Answers (D.Reported refused)) := by
  unfold Stepwise.run
  split
  · rename_i e broken
    exact .pure lawful ready.running (answers_error (cut e broken))
  · rename_i tokens found
    obtain ⟨admits, refuses⟩ := yields tokens found
    refine (lawful.enters (.feed .new tokens .null) ready ⟨admits, lawful.null⟩).catching.bind
      lawful fun r n turns result => ?_
    have leaves {e : Error} (reported : D.Reported refused e) :
        D.Proceeds (do Stepwise.lift .leaveAll; return .error e) setting n
          (D.Answers (D.Reported refused)) :=
      fun s moves => ⟨moves, .ok ⟨home turns.running, (lawful.stays turns.running).more⟩
        (answers_error reported)⟩
    obtain e | e | v := r
    · exact leaves (result.2 e rfl)
    · exact leaves (refuses e ((result.1 _ rfl).2 e rfl))
    · exact .pure lawful turns.running (answers_ok ((result.1 _ rfl).1 v rfl))

end Lawful

/-- Whether evaluation may go into whatever it comes to. -/
structure Free (D : Discipline) : Prop where
  call : ∀ s r f o, D.MayCall s r f o := by intros; trivial
  declare : ∀ s, D.MayDeclare s := by intros; trivial

theorem may_of {w : Work} {m : Machine}
    (call : ∀ f values receiver line, w = .invoke f values receiver line →
      (m.store.function f).body.isScript = true → D.MayCall m.store m.current f receiver)
    (declare : ∀ name bases body line, w = .exec (.classDef name bases body line) →
      D.MayDeclare m.store) : D.May w m := by
  cases w with
  | invoke f values receiver line =>
    exact call f values receiver line rfl
  | exec statement =>
    cases statement with
    | classDef name bases statements line => exact declare name bases statements line rfl
    | _ => trivial
  | _ => trivial

theorem Free.may (free : D.Free) (w : Work) (m : Machine) : D.May w m :=
  may_of (fun _ _ _ _ _ _ => free.call _ _ _ _) fun _ _ _ _ _ => free.declare _

namespace Lawful

variable (lawful : D.Lawful)
include lawful

/-- An evaluation goes well if its level does. -/
theorem goes_of_level {α : Type} {fuel : Nat} {x : Stepwise α}
    {P : α → Store → Prop}
    (runs : ∀ {setting n} w, D.Ready setting n → D.Takes w n.store →
      D.Goes (w.inSteps fuel) setting n (D.Results w))
    (goes : D.Proceeds x setting m P) : D.Goes (x.fill (Work.inSteps fuel)) setting m P := by
  have refl := lawful.moves_of_extends (lawful.extends_of_grows (lawful.refl m.store))
  exact (goes m.store refl).fill lawful runs

/-- Evaluation keeps a lawful discipline, however many steps it may make. -/
theorem goes (free : D.Free) (fuel : Nat) (w : Work) (ready : D.Ready setting m)
    (takes : D.Takes w m.store) : D.Goes (w.inSteps fuel) setting m (D.Results w) := by
  induction fuel generalizing w setting m with
  | zero =>
    rw [Work.inSteps_zero]
    exact Goes.cutOff lawful ready.running
  | succ fuel ih =>
    rw [Work.inSteps_succ]
    exact lawful.goes_of_level ih (lawful.proceeds w ready takes (free.may w m))

/-- A whole script, if evaluation may always go on in the global scope. -/
theorem goes_run (free : D.Free)
    (home : ∀ {m}, D.Running m → D.Running { m with current := m.global })
    (ready : D.Ready setting m) (fuel : Nat) {source : String} {refused : SyntaxError → Prop}
    (cut : ∀ e, Lexer.tokenize source 1 = .error e → refused e)
    (yields : ∀ tokens, Lexer.tokenize source 1 = .ok tokens → D.Yields refused .new tokens) :
    D.Goes (Evaluator.run fuel source) setting m (D.Answers (D.Reported refused)) := by
  cases fuel with
  | zero =>
    rw [Evaluator.run]
    exact Goes.cutOff lawful ready.running
  | succ fuel =>
    rw [Work.run_succ]
    exact lawful.goes_of_level (lawful.goes free fuel)
      (lawful.proceeds_run home ready cut yields)

end Lawful

end Discipline

/-! ## States -/

/-- Whether evaluation goes on well where it returns to since a machine, if it has ended well. -/
def Around.Keeps {root : Work} (D : Discipline) : {w : Work} → Around root w → Machine → Prop
  | _, .outermost, _ => True
  | w, .inside resume around, b => ∃ b',
    (∀ r k, D.Ended b (D.Results w) r k → (resume r k).Goes D b' k.store (D.Results _)) ∧
      around.Keeps D b'

namespace State

variable {D : Discipline} {root : Work} {σ τ υ : State root} {log : FileLog} {setting : Setting}
  {m n : Machine} {s : Store} {x : Point}

/-- Whether evaluation goes well in a state, and wherever it returns to. The store moves from a
first one to those that it comes to. -/
def Keeps (D : Discipline) (s : Store) (σ : State root) : Prop :=
  ∃ b, σ.level.Goes D b s (D.Results σ.work) ∧ σ.around.Keeps D b

/-- What holds of a point that evaluation comes to. -/
theorem Keeps.enters (keeps : σ.Keeps D s) (enters : σ.Enters x τ) :
    D.Moves s x.machine.store ∧ D.Ready x.setting x.machine ∧
      D.Takes x.work x.machine.store := by
  cases enters
  obtain ⟨b, ⟨moves, -, ready, takes, -⟩, -⟩ := keeps
  exact ⟨moves, ready, takes⟩

/-- A level goes well from the machine that it begins on. -/
theorem Keeps.since (lawful : D.Lawful) (keeps : σ.Keeps D s)
    (begins : σ.level.machine? = some n) : σ.Keeps D n.store := by
  have refl := lawful.moves_of_extends (lawful.extends_of_grows (lawful.refl n.store))
  obtain ⟨v, l, around⟩ := σ
  obtain ⟨b, goes, rest⟩ := keeps
  refine ⟨b, ?_, rest⟩
  cases l with
  | done r k =>
    cases begins
    exact ⟨refl, goes.2⟩
  | into w setting k resume =>
    cases begins
    exact ⟨refl, goes.2⟩
  | _ => cases begins

/-- Evaluation goes on well after a point that has been evaluated well. -/
theorem Keeps.passes {r : Except RuntimeError x.work.Result} (keeps : σ.Keeps D s)
    (passes : σ.Passes x log r n τ) (ended : D.Ended x.machine (D.Results x.work) r n) :
    τ.Keeps D n.store := by
  cases passes
  obtain ⟨b, ⟨-, -, -, -, rest⟩, around⟩ := keeps
  exact ⟨b, rest _ _ ended, around⟩

variable (lawful : D.Lawful)
include lawful

/-- Evaluation goes well in what it goes into. -/
theorem Keeps.entered (keeps : σ.Keeps D s) (enters : σ.Enters x τ)
    (may : D.May x.work x.machine) : τ.Keeps D x.machine.store := by
  have refl := lawful.moves_of_extends (lawful.extends_of_grows (lawful.refl x.machine.store))
  cases enters
  obtain ⟨b, ⟨-, -, ready, takes, rest⟩, around⟩ := keeps
  exact ⟨_, lawful.proceeds _ ready takes may _ refl, b, rest, around⟩

theorem Step.keeps (keeps : σ.Keeps D s)
    (may : ∀ x, σ.Enters x τ → D.May x.work x.machine) (step : σ.Step log τ) :
    ∃ t, D.Moves s t ∧ τ.Keeps D t := by
  have refl (s : Store) := lawful.moves_of_extends (lawful.extends_of_grows (lawful.refl s))
  cases step with
  | @enters _ _ x enters =>
    exact ⟨_, (keeps.enters enters).1, keeps.entered lawful enters (may x enters)⟩
  | answers answer =>
    obtain ⟨b, goes, around⟩ := keeps
    exact ⟨s, refl s, b, goes answer, around⟩
  | returns =>
    obtain ⟨b, ⟨moves, ended⟩, b', rest, around⟩ := keeps
    exact ⟨_, moves, b', rest _ _ ended, around⟩

/-- Evaluation goes well in every state, if it may go into what it goes into before. -/
theorem Leads.keeps (keeps : σ.Keeps D s) (leads : σ.Leads log τ)
    (may : ∀ {l ρ x υ l'}, σ.Leads l ρ → ρ.Enters x υ → υ.Leads l' τ →
      D.May x.work x.machine) : ∃ t, D.Moves s t ∧ τ.Keeps D t := by
  induction leads generalizing s with
  | here σ =>
    exact ⟨s, lawful.moves_of_extends (lawful.extends_of_grows (lawful.refl s)), keeps⟩
  | @step σ υ τ _ _ step rest ih =>
    obtain ⟨t, moves, keeps⟩ := step.keeps lawful keeps fun x enters => may (.here σ) enters rest
    obtain ⟨u, later, keeps⟩ := ih keeps fun before enters after =>
      may (.step step before) enters after
    exact ⟨u, lawful.moves_trans moves later, keeps⟩

/-- The state in which a script begins. -/
theorem keeps_start (home : ∀ {m}, D.Running m → D.Running { m with current := m.global })
    (imports : D.imports) (ready : D.Ready setting m) (source : String) :
    (start (.run source) setting m).Keeps D m.store := by
  have refl := lawful.moves_of_extends (lawful.extends_of_grows (lawful.refl m.store))
  have goes : D.Proceeds (Stepwise.run source) setting m (D.Answers (D.Reported fun _ => True)) :=
    lawful.proceeds_run home ready (fun _ _ => trivial)
      fun tokens _ => lawful.yields_of_imports imports .new tokens
  exact ⟨m, (goes m.store refl).imp fun _ _ _ => trivial, trivial⟩

end State

end Scriptlet
