import Scriptlet.Proofs.Evaluation.Executions
import Scriptlet.Proofs.Evaluation.Rejections
import Scriptlet.Proofs.Evaluation.Variables
import Scriptlet.Proofs.Store.Names
import Scriptlet.Proofs.Store.Sharing

/-!
# Definitions copy and assignments share

The statement `var x = a` gives `x` a copy of what `a` holds, `x = a` gives it the same collection.
So what changes the elements of `x` in place (`Edit`) does not reach `a` after a definition
(`Separate.performs`), and reaches it after an assignment.
-/

namespace Scriptlet

variable {setting : Setting} {m n k : Machine} {log : FileLog}

namespace Evaluator

variable {x y : String} {q : ScopeRef} {c d v w : Value} {st : Stmt} {flow : Flow} {s t u : Store}

/-! ## Changes in place -/

/-- Whether the evaluation of an expression changes nothing that is there. -/
def Quiet (e : Expr) : Prop :=
  ∀ {fuel setting m log v n}, ((eval fuel e).resolved e.line).Exits setting m log (.ok v) n →
    m.store.Intact n.store ∧ n.current = m.current

/-- What evaluates without a change does so with handles giving way to elements. -/
theorem quiet_of_eval {e : Expr} (quiet : ∀ {fuel setting m log v n},
    (eval (fuel + 1) e).Exits setting m log (.ok v) n →
      m.store.Intact n.store ∧ n.current = m.current) : Quiet e := by
  intro fuel setting m log v n ends
  obtain ⟨l₁, l₂, w, k, -, evaluates, checks⟩ := Eval.exists_of_exits_bind_ok ends
  obtain ⟨-, -, rfl⟩ := Eval.of_exits_check checks
  cases fuel with
  | zero =>
    rw [eval] at evaluates
    cases evaluates
  | succ fuel => exact quiet evaluates

theorem quiet_constant (c : Constant) (l : Line) : Quiet (.constant c l) := by
  apply quiet_of_eval
  intro fuel setting m log v n ends
  rw [eval] at ends
  obtain ⟨-, -, rfl⟩ := Outcome.exits_value_iff.1 ends
  cases c with
  | array items => exact ⟨.newArray m.store _, rfl⟩
  | _ => exact ⟨.refl m.store, rfl⟩

theorem quiet_named (x : String) (l : Line) : Quiet (.named x l) := by
  apply quiet_of_eval
  intro fuel setting m log v n ends
  rw [eval] at ends
  obtain ⟨-, -, rfl⟩ := Outcome.exits_value_iff.1 ends
  exact ⟨.refl _, rfl⟩

theorem quiet_arguments {elements : List Expr} (quiet : ∀ e ∈ elements, Quiet e) {fuel : Nat}
    {values : List Value} (ends : (arguments fuel elements).Exits setting m log (.ok values) n) :
    m.store.Intact n.store ∧ n.current = m.current := by
  induction elements generalizing fuel setting m log values with
  | nil =>
    cases fuel with
    | zero =>
      rw [arguments] at ends
      cases ends
    | succ fuel =>
      rw [arguments] at ends
      obtain ⟨-, -, rfl⟩ := Eval.exits_pure_iff.1 ends
      exact ⟨.refl _, rfl⟩
  | cons e rest ih =>
    cases fuel with
    | zero =>
      rw [arguments] at ends
      cases ends
    | succ fuel =>
      rw [arguments] at ends
      obtain ⟨l₁, l₂, v, k, -, first, later⟩ := Eval.exists_of_exits_bind_ok ends
      rcases Eval.exits_bind_pure_iff.1 later with ⟨_, never, -⟩ | ⟨values, -, later⟩
      · cases never
      obtain ⟨before, here⟩ := quiet e List.mem_cons_self first
      obtain ⟨after, stays⟩ := ih (fun e member => quiet e (List.mem_cons_of_mem _ member)) later
      exact ⟨before.trans after, stays.trans here⟩

/-- A list of expressions that change nothing changes nothing. -/
theorem quiet_list {elements : List Expr} (quiet : ∀ e ∈ elements, Quiet e) (l : Line) :
    Quiet (.list elements l) := by
  apply quiet_of_eval
  intro fuel setting m log v n ends
  rw [eval] at ends
  obtain ⟨l₁, l₂, values, k, -, evaluates, makes⟩ := Eval.exists_of_exits_bind_ok ends
  obtain ⟨-, -, rfl⟩ := Outcome.exits_value_iff.1 makes
  obtain ⟨intact, stays⟩ := quiet_arguments quiet evaluates
  exact ⟨intact.trans (.newList k.store values), stays⟩

/-- Whether a statement changes the elements of what a name holds: it appends to it, or it assigns to
one of its elements in another way than by appending to that. -/
inductive Edit (x : String) : Stmt → Prop where
  | append {source : Expr} {l line : Line} {prec : Precedence} (quiet : Quiet source) :
      Edit x (.expr (.call AssignOperator.addAssign.symbol.text [.named x l, source] prec line))
  | set {op : AssignOperator} {key source : Expr} {l l' line : Line} {prec prec' : Precedence}
      (other : op ≠ .addAssign) (quietKey : Quiet key) (quiet : Quiet source) :
      Edit x (.expr (.call op.symbol.text
        [.call "listindex" [.named x l, key] prec' l', source] prec line))
  | step {op : AssignOperator} {key : Expr} {l l' line : Line} {prec prec' : Precedence}
      (other : op ≠ .addAssign) (quietKey : Quiet key) :
      Edit x (.expr (.call op.symbol.text [.call "listindex" [.named x l, key] prec' l'] prec line))

/-- A name and a number in a list, appended to what another name holds. -/
example : Edit "b" (.expr (.call "+=" [.named "b" 1, .list [.named "a" 1, .constant (.int 2) 1] 1]
    .assign 1)) := by
  refine .append (quiet_list (fun e member => ?_) 1)
  rcases List.mem_pair.1 member with rfl | rfl
  · exact quiet_named "a" 1
  · exact quiet_constant (.int 2) 1

/-- What such a statement does to a store once its operands are there: it appends and stores the
result in the variable, sets an element, or stores a changed vector in the variable. -/
inductive Effect (t : Store) (q : ScopeRef) (x : String) (d : Value) : Store → Prop where
  | append {b w : Value} {line : Line} {u : Store} (appends : t.append d b line = .ok (w, u)) :
      Effect t q x d (u.setVariable q x w)
  | set {key b : Value} {line : Line} {u : Store} (sets : t.setElement d key b line = .ok u) :
      Effect t q x d u
  | component (w : Vec3) : Effect t q x d (t.setVariable q x (.vec3 w))

theorem Store.read_of_intact (intact : s.Intact t) :
    (t.variableAt? q x).getD .null = (s.variableAt? q x).getD .null := by
  rw [Store.variableAt?, Store.variableAt?, Store.scope, Store.scope, intact.scopes]

/-- What an assignment stores, where it succeeds. -/
theorem exists_of_exits_store {p : Place} {op : AssignOperator} {line : Line}
    (ends : (store p op v line).Exits setting m log (.ok w) n) :
    ∃ t u, combined m.store p op v line = .ok (w, t) ∧ p.write t w line = .ok u ∧
      n = { m with store := u } := by
  obtain ⟨l₁, l₂, x, j, -, combines, ends⟩ := Eval.exists_of_exits_bind_ok ends
  obtain ⟨t, sum, rfl⟩ := Eval.exists_of_exits_attempt combines
  obtain ⟨l₃, l₄, y, i, -, writes, last⟩ := Eval.exists_of_exits_bind_ok ends
  obtain ⟨u, written, rfl⟩ := Eval.exists_of_exits_attempt writes
  obtain ⟨-, same, rfl⟩ := Eval.exits_pure_iff.1 last
  cases same
  obtain ⟨u', found, pair⟩ := map_eq_ok_iff.1 written
  obtain rfl : u' = u := congrArg Prod.snd pair
  exact ⟨t, u', sum, found, rfl⟩

/-- What an assignment evaluates before it combines and stores, where it succeeds. -/
theorem exists_of_exits_assignment {fuel : Nat} {op : AssignOperator} {operands : List Expr}
    {line : Line} (ends : (assignment fuel op operands line).Exits setting m log (.ok w) n) :
    ∃ fuel l l' p v k, Prepares fuel setting m line op operands l p v k ∧
      (store p op v line).Exits setting k l' (.ok w) n := by
  cases fuel with
  | zero =>
    rw [assignment] at ends
    cases ends
  | succ fuel =>
    unfold assignment at ends
    split at ends
    · next target isStep =>
      obtain ⟨l₁, l₂, p, k, rfl, placed, stores⟩ := Eval.exists_of_exits_bind_ok ends
      exact ⟨fuel, _, _, p, _, k, .step isStep placed, stores⟩
    · next target source isStep =>
      obtain ⟨l₁, l₂, p, j, rfl, placed, follows⟩ := Eval.exists_of_exits_bind_ok ends
      obtain ⟨l₃, l₄, v, k, rfl, computed, stores⟩ := Eval.exists_of_exits_bind_ok follows
      exact ⟨fuel, _, _, p, v, k, .operand isStep placed computed, stores⟩
    · obtain ⟨-, never, -⟩ := Outcome.exits_error_iff.1 ends
      cases never

/-- What a statement does that is an assignment, where it succeeds: it finds the place, evaluates the
operand, combines and writes. -/
theorem exists_of_executes_assignment {op : AssignOperator} {operands : List Expr}
    {prec : Precedence} {line : Line}
    (executes : Executes setting n log (.expr (.call op.symbol.text operands prec line))
      (.ok flow) k) :
    ∃ fuel l p v i w t u, Prepares fuel setting n line op operands l p v i ∧
      combined i.store p op v line = .ok (w, t) ∧ p.write t w line = .ok u ∧
        k = { i with store := u } := by
  have operator : (Symbol.ofText? op.symbol.text).bind Symbol.assign? = some op := by
    cases op <;> decide
  obtain ⟨fuel, executes⟩ := executes
  cases fuel with
  | zero =>
    rw [exec] at executes
    cases executes
  | succ fuel =>
    rw [exec] at executes
    rcases Eval.exits_bind_pure_iff.1 executes with ⟨_, never, -⟩ | ⟨w, -, evaluates⟩
    · cases never
    cases fuel with
    | zero =>
      rw [eval] at evaluates
      cases evaluates
    | succ fuel =>
      simp only [eval, operator] at evaluates
      obtain ⟨fuel, l, l', p, v, i, prepared, stores⟩ := exists_of_exits_assignment evaluates
      obtain ⟨t, u, combines, writes, ended⟩ := exists_of_exits_store stores
      exact ⟨fuel, l, p, v, i, w, t, u, prepared, combines, writes, ended⟩

/-- The place of an element of what a name holds: the name is looked up, then the key is evaluated. -/
theorem exists_of_exits_index {key : Expr} {l l' line : Line} {prec : Precedence} {fuel : Nat}
    {p : Place} (ends : (place fuel (.call "listindex" [.named x l, key] prec l') line).Exits setting
      n log (.ok p) k) :
    ∃ fuel setting log kv, ((eval fuel key).resolved key.line).Exits setting n log (.ok kv) k ∧
      (Place.named (n.store.written n.current x) x).indexed k.store kv line = .ok p := by
  cases fuel with
  | zero =>
    rw [place] at ends
    cases ends
  | succ fuel =>
    rw [place] at ends
    obtain ⟨l₁, l₂, container, j, rfl, placed, follows⟩ := Eval.exists_of_exits_bind_ok ends
    obtain ⟨-, same, rfl⟩ := exists_of_exits_named placed
    cases same
    obtain ⟨l₃, l₄, kv, i, rfl, keyed, checks⟩ := Eval.exists_of_exits_bind_ok follows
    obtain ⟨-, found, rfl⟩ := Eval.of_exits_check checks
    exact ⟨fuel, _, l₃, kv, keyed, found⟩

theorem effect_of_indexed {p : Place} {key : Value} {line line' : Line}
    (indexed : (Place.named q x).indexed s key line = .ok p) (writes : p.write t v line' = .ok u) :
    Effect t q x ((s.variableAt? q x).getD .null) u := by
  obtain ⟨d, reads, indexed⟩ := bind_eq_ok_iff.1 indexed
  cases reads
  split at indexed
  · obtain ⟨i, -, indexed⟩ := bind_eq_ok_iff.1 indexed
    cases indexed
    obtain ⟨_, -, writes⟩ := bind_eq_ok_iff.1 writes
    obtain ⟨_, -, writes⟩ := bind_eq_ok_iff.1 writes
    obtain ⟨_, -, writes⟩ := bind_eq_ok_iff.1 writes
    dsimp only at writes
    split at writes
    · cases writes
      exact .component _
    · cases writes
  · cases indexed
    exact .set writes

/-- Combining changes nothing that is there unless it appends. -/
theorem intact_of_combined {p : Place} {op : AssignOperator} {line : Line} (other : op ≠ .addAssign)
    (combines : combined s p op v line = .ok (w, t)) : s.Intact t :=
  (combined_cases combines).resolve_right fun appends => other appends.1

/-- What a change in place does: its operands change nothing that is there, and then it has its
effect on what the variable holds. -/
theorem Edit.effect (edit : Edit x st) (executes : Executes setting n log st (.ok flow) k) :
    ∃ t, n.store.Intact t ∧ k.current = n.current ∧
      Effect t (n.store.written n.current x) x
        ((n.store.variableAt? (n.store.written n.current x) x).getD .null) k.store := by
  cases edit with
  | append quiet =>
    obtain ⟨fuel, l, p, b, i, w, t, u, prepared, combines, writes, rfl⟩ :=
      exists_of_executes_assignment executes
    cases prepared with
    | operand _ placed computed =>
      obtain ⟨-, same, rfl⟩ := exists_of_exits_named placed
      cases same
      obtain ⟨intact, stays⟩ := quiet computed
      refine ⟨i.store, intact, stays, ?_⟩
      cases writes
      obtain ⟨a, reads, appends⟩ := bind_eq_ok_iff.1 combines
      cases reads
      rw [← Store.read_of_intact intact]
      exact .append appends
  | set other quietKey quiet =>
    obtain ⟨fuel, l, p, b, i, w, t, u, prepared, combines, writes, rfl⟩ :=
      exists_of_executes_assignment executes
    cases prepared with
    | operand _ placed computed =>
      obtain ⟨_, _, _, kv, keyed, indexed⟩ := exists_of_exits_index placed
      obtain ⟨before, here⟩ := quietKey keyed
      obtain ⟨after, stays⟩ := quiet computed
      have last := intact_of_combined other combines
      refine ⟨t, (before.trans after).trans last, stays.trans here, ?_⟩
      rw [← Store.read_of_intact before]
      exact effect_of_indexed indexed writes
  | step other quietKey =>
    obtain ⟨fuel, l, p, b, i, w, t, u, prepared, combines, writes, rfl⟩ :=
      exists_of_executes_assignment executes
    cases prepared with
    | step _ placed =>
      obtain ⟨_, _, _, kv, keyed, indexed⟩ := exists_of_exits_index placed
      obtain ⟨before, here⟩ := quietKey keyed
      have last := intact_of_combined other combines
      refine ⟨t, before.trans last, here, ?_⟩
      rw [← Store.read_of_intact before]
      exact effect_of_indexed indexed writes

/-- Variables are no storage of collections. -/
theorem spares_setVariable (s : Store) (q : ScopeRef) (x : String) (w o : Value)
    (collected : o.isCollection = true) (valid : s.Valid o) :
    Store.SameStorage s (s.setVariable q x w) o ∧ (s.setVariable q x w).Valid o := by
  cases o <;> first | exact ⟨rfl, valid⟩ | cases collected

theorem sameContents_setVariable (same : Store.SameContents s v t w) :
    Store.SameContents s v (t.setVariable q x c) w := by
  cases v <;> cases w <;> exact same

/-- What an effect leaves as it is, and what the variable holds after it: what it held or something
new. -/
theorem Effect.spares (effect : Effect t q x d u) (plain : d.isScalar = true ∨ d.isCollection = true)
    {r : ScopeRef} (binds : t.Binds r x q d) (here : t.HasScope q) :
    ∃ w, u.Binds r x q w ∧ (w = d ∨ t.New u w) ∧ t.SameBut u q x ∧ t.Spares d u := by
  have noInstance := Store.ne_object_of_plain plain
  cases effect with
  | @append b w line u appends =>
    obtain ⟨intact, result⟩ := Store.intactBut_append appends
    have same := (intact.sameBut noInstance q x).trans (Store.sameBut_setVariable u q x w)
    have here : u.HasScope q := by rwa [Store.HasScope, intact.scopes]
    refine ⟨w, binds.write same (Store.variableAt?_setVariable here), ?_, same, ?_⟩
    · rcases result with same | scalar | ⟨fresh, valid⟩
      · exact .inl same
      · exact .inr (.inl scalar)
      · have valid := (spares_setVariable u q x w w fresh.isCollection valid).2
        exact .inr (.inr ⟨fresh, valid⟩)
    · intro o collected valid other
      obtain ⟨first, valid⟩ := intact.spares o collected valid other
      obtain ⟨second, valid⟩ := spares_setVariable u q x w o collected valid
      exact ⟨first.trans second, valid⟩
  | set sets =>
    have intact := Store.intactBut_setElement (Store.kind_of_plain plain) sets
    have same := intact.sameBut noInstance q x
    have unchanged := (intact.variableAt? noInstance q x).trans binds.holds
    exact ⟨d, binds.write same unchanged, .inl rfl, same, intact.spares⟩
  | component w =>
    have same := Store.sameBut_setVariable t q x (.vec3 w)
    exact ⟨.vec3 w, binds.write same (Store.variableAt?_setVariable here), .inr (.inl rfl), same,
      fun o collected valid _ => spares_setVariable t q x _ o collected valid⟩

/-! ## Definitions -/

/-- What holds after a variable of the current scope has been defined as a copy of a collection: it
holds something apart from the collection, and no other name stands for something else. -/
structure Separate (m : Machine) (x : String) (v : Value) (n : Machine) (d : Value) : Prop where
  current : n.current = m.current
  same : m.store.SameBut n.store m.current x
  binds : n.store.Binds m.current x m.current d
  apart : m.store.Apart v n.store d

theorem Separate.findValue? {a : String} (separate : Separate m x v n d) (other : a ≠ x) :
    n.store.findValue? n.current a = m.store.findValue? m.current a := by
  rw [separate.current, separate.same.findValue? other]

/-- A change in place of the copy. -/
theorem Separate.step (separate : Separate m x v n d) (placed : m.Placed)
    (collected : v.isCollection = true) (edit : Edit x st)
    (executes : Executes setting n log st (.ok flow) k) : ∃ w, Separate m x v k w := by
  obtain ⟨t, intact, current, effect⟩ := edit.effect executes
  rw [separate.current, separate.binds.written, separate.binds.holds, Option.getD_some] at effect
  have noInstance := Store.ne_object_of_plain separate.apart.plain
  have before : n.store.SameBut t m.current x := (intact.but d).sameBut noInstance m.current x
  have still : t.Binds m.current x m.current d :=
    separate.binds.write before
      (((intact.but d).variableAt? noInstance m.current x).trans separate.binds.holds)
  have here : t.HasScope m.current := by
    rw [Store.HasScope, before.size, separate.same.size]
    exact placed.current
  have apart := separate.apart.step collected (intact.but d).spares (.inl rfl)
  obtain ⟨w, after, leads, same, spares⟩ := effect.spares apart.plain still here
  exact ⟨w, current.trans separate.current, (separate.same.trans before).trans same, after,
    apart.step collected spares leads⟩

/-- Changes in place of the copy, one after another. -/
theorem Separate.performs {keeps : Value → List Value} {ss : List Stmt} {u w : Value}
    (separate : Separate m x v n d) (placed : m.Placed) (collected : v.isCollection = true)
    (edits : ∀ s ∈ ss, Edit x s) (performs : Performs keeps setting n u log ss w k) :
    ∃ d', Separate m x v k d' := by
  induction performs generalizing d with
  | nil => exact ⟨d, separate⟩
  | cons first _ ih =>
    obtain ⟨d', step⟩ := separate.step placed collected (edits _ List.mem_cons_self) first
    exact ih step fun s member => edits s (List.mem_cons_of_mem _ member)

theorem kind_ne_function (collected : v.isCollection = true) : v.kind ≠ .function := by
  cases v with
  | function _ => cases collected
  | _ => exact (nomatch ·)

theorem exits_resolved_named {a : String} {l : Line}
    (reads : m.store.findValue? m.current a = some v) (plain : v.kind ≠ .member) :
    ((eval 1 (.named a l)).resolved l).Exits setting m [] (.ok v) m := by
  have named : (eval 1 (.named a l)).Exits setting m [] (.ok v) m := by
    rw [eval]
    refine Outcome.exits_value_iff.2 ⟨rfl, ?_, rfl⟩
    dsimp only
    rw [reads, Option.getD_some]
  have checks : (Eval.check fun s => s.resolved v l).Exits setting m [] (.ok v) m := by
    rw [Eval.Exits, Eval.check, Store.resolved_of_kind plain]
    exact .value
  exact .bind_nil named checks

/-- The definition of a variable as what another name reads, which is a collection, makes a copy. -/
theorem executes_define {a : String} (reads : m.store.findValue? m.current a = some v)
    (collected : v.isCollection = true) (setting : Setting) (l l' : Line) :
    Executes setting m [] (.define x (.named a l) l') (.ok (.normal (m.store.duplicate v).1))
      { m with store := (m.store.duplicate v).2.setVariable m.current x (m.store.duplicate v).1 } := by
  refine ⟨2, ?_⟩
  rw [exec]
  exact .bind_nil (exits_resolved_named reads (Store.kind_of_plain (.inr collected)))
    (.bind_nil .value (.bind_nil .value .value))

/-- The copy is apart from what it is a copy of. -/
theorem separate_define (placed : m.Placed) (copies : m.store.Copies v c s)
    (valid : m.store.Valid v) (collected : v.isCollection = true) :
    Separate m x v { m with store := s.setVariable m.current x c } c := by
  have noInstance := Store.ne_object_of_plain (.inr copies.fresh.isCollection)
  have same : m.store.SameBut (s.setVariable m.current x c) m.current x :=
    ((copies.intact.but c).sameBut noInstance m.current x).trans
      (Store.sameBut_setVariable s m.current x c)
  have here : s.HasScope m.current := by
    rw [Store.HasScope, copies.intact.scopes]
    exact placed.current
  have binds := placed.store.binds_here placed.current same (Store.variableAt?_setVariable here)
  obtain ⟨still, there⟩ := (copies.intact.but c).spares v collected valid
    (copies.fresh.ne valid).symm
  obtain ⟨storage, there⟩ := spares_setVariable s m.current x c v collected there
  exact ⟨rfl, same, binds, still.trans storage, there, copies.fresh.ne valid,
    .inr copies.fresh.isCollection⟩

/-! ## Assignments -/

/-- The assignment of what another name reads, which is a collection, gives the variable that
collection. -/
theorem executes_assign {a : String} (reads : m.store.findValue? m.current a = some v)
    (collected : v.isCollection = true) (setting : Setting) (l l' line : Line) (prec : Precedence) :
    Executes setting m [] (.expr (.call "=" [.named x l, .named a l'] prec line)) (.ok (.normal v))
      { m with store := m.store.setVariable (m.store.written m.current x) x v } := by
  have operator : (Symbol.ofText? "=").bind Symbol.assign? = some .assign := by decide
  have placed : (place 1 (.named x l) line).Exits setting m []
      (.ok (.named (m.store.written m.current x) x)) m := by
    rw [place]
    exact .value
  have evaluates : (eval 3 (.call "=" [.named x l, .named a l'] prec line)).Exits setting m []
      (.ok v) { m with store := m.store.setVariable (m.store.written m.current x) x v } := by
    simp only [eval, operator]
    unfold assignment
    refine .bind_nil placed ?_
    refine .bind_nil (exits_resolved_named reads (Store.kind_of_plain (.inr collected))) ?_
    exact .bind_nil .value (.bind_nil .value .value)
  refine ⟨4, ?_⟩
  rw [exec]
  exact .bind_nil evaluates .value

/-- Whether two names stand for variables that hold one value. -/
structure Shares (n : Machine) (a x : String) (p q : ScopeRef) (v : Value) : Prop where
  first : n.store.Binds n.current a p v
  second : n.store.Binds n.current x q v

theorem Shares.symm {a : String} {p : ScopeRef} (shares : Shares n a x p q v) :
    Shares n x a q p v :=
  ⟨shares.second, shares.first⟩

/-- Changes in place, through either of two names, of the collection that both hold: after each of
them the name that it goes through holds the same collection. -/
inductive EditsInPlace (a x : String) (v : Value) (m : Machine) : Machine → Prop where
  | none : EditsInPlace a x v m m
  | edit {n k : Machine} {setting : Setting} {log : FileLog} {y : String} {st : Stmt} {flow : Flow}
      (before : EditsInPlace a x v m n) (name : y = a ∨ y = x) (edit : Edit y st)
      (executes : Executes setting n log st (.ok flow) k)
      (inPlace : ∃ p, k.store.Binds k.current y p v) : EditsInPlace a x v m k

/-- What a change in place leaves behind: both names hold the collection, and what read as it does so
still. -/
structure Keeps (n : Machine) (a x : String) (p q : ScopeRef) (v : Value) (k : Machine) : Prop where
  current : k.current = n.current
  size : k.store.scopes.size = n.store.scopes.size
  shares : Shares k a x p q v
  reads : ∀ y, y = a ∨ y = x → n.store.findValue? n.current y = some v →
    k.store.findValue? k.current y = some v

/-- A change in place through the first of two names, after which it holds the same collection. -/
theorem Shares.step {a : String} {p : ScopeRef} (shares : Shares n a x p q v) (names : a ≠ x)
    (here : n.store.HasScope p) (collected : v.isCollection = true) (edit : Edit a st)
    (executes : Executes setting n log st (.ok flow) k)
    (inPlace : ∃ p, k.store.Binds k.current a p v) : Keeps n a x p q v k := by
  obtain ⟨t, intact, current, effect⟩ := edit.effect executes
  rw [shares.first.written, shares.first.holds, Option.getD_some] at effect
  have noInstance := Store.ne_object_of_plain (.inr collected)
  have before : n.store.SameBut t p a := (intact.but v).sameBut noInstance p a
  have still : t.Binds n.current a p v :=
    shares.first.write before (((intact.but v).variableAt? noInstance p a).trans shares.first.holds)
  have there : t.HasScope p := by rwa [Store.HasScope, before.size]
  obtain ⟨w, after, -, same, -⟩ := effect.spares (.inr collected) still there
  have same := before.trans same
  -- The variable is where it was, so what it holds after the change is the collection.
  obtain rfl : w = v := by
    obtain ⟨p', binds⟩ := inPlace
    rw [current] at binds
    obtain rfl := Option.some.inj (binds.leads.symm.trans after.leads)
    exact Option.some.inj (after.holds.symm.trans binds.holds)
  refine ⟨current, same.size, ?_, ?_⟩
  · have second := shares.second.keep same names.symm
    exact ⟨current.symm ▸ after, current.symm ▸ second⟩
  · rintro y name reads
    rw [current]
    by_cases written : y = a
    · subst written
      exact shares.first.findValue?_write reads (kind_ne_function collected) same after.holds
    · rw [same.findValue? written, reads]

theorem Keeps.symm {a : String} {p : ScopeRef} (keeps : Keeps n a x p q v k) :
    Keeps n x a q p v k :=
  ⟨keeps.current, keeps.size, keeps.shares.symm, fun y name => keeps.reads y name.symm⟩

/-- After any changes in place, through either name, both hold the collection still. -/
theorem EditsInPlace.keeps {a : String} {p : ScopeRef} (edits : EditsInPlace a x v n k)
    (shares : Shares n a x p q v) (names : a ≠ x) (first : n.store.HasScope p)
    (second : n.store.HasScope q) (collected : v.isCollection = true) : Keeps n a x p q v k := by
  induction edits with
  | none => exact ⟨rfl, rfl, shares, fun _ _ reads => reads⟩
  | @edit j k _ _ y _ _ _ name edit executes inPlace before =>
    have stays {r : ScopeRef} (here : n.store.HasScope r) : j.store.HasScope r := by
      rwa [Store.HasScope, before.size]
    have step : Keeps j a x p q v k := by
      rcases name with rfl | rfl
      · exact before.shares.step names (stays first) collected edit executes inPlace
      · exact (before.shares.symm.step names.symm (stays second) collected edit executes
          inPlace).symm
    exact ⟨step.current.trans before.current, step.size.trans before.size, step.shares,
      fun y name reads => step.reads y name (before.reads y name reads)⟩

/-- Both names hold the collection after an assignment. -/
theorem shares_assign {a : String} (placed : m.Placed)
    (reads : m.store.findValue? m.current a = some v) (collected : v.isCollection = true)
    (names : a ≠ x) :
    ∃ p, m.store.HasScope p ∧ Shares { m with store :=
      (m.store.setVariable (m.store.written m.current x) x v) } a x p (m.store.written m.current x)
        v := by
  obtain ⟨p, binds⟩ := Store.exists_binds reads (kind_ne_function collected)
  have same := Store.sameBut_setVariable m.store (m.store.written m.current x) x v
  exact ⟨p, placed.store.findVariableScope? placed.current binds.leads, binds.keep same names,
    placed.store.binds_written placed.current x v⟩

/-! ## Copies and shares -/

/-- Whether the definition of a variable as what another name reads makes a copy: the variable holds
new storage with the same contents, and no changes in place of it reach what the other name reads. -/
def DefinesCopy (m : Machine) (a x : String) (v : Value) : Prop :=
  ∀ setting l l', ∃ c n, Executes setting m [] (.define x (.named a l) l') (.ok (.normal c)) n ∧
    n.store.Binds n.current x n.current c ∧ m.store.Fresh c ∧
    Store.SameContents m.store v n.store c ∧
    ∀ keeps setting u log ss w k, (∀ st ∈ ss, Edit x st) →
      Performs keeps setting n u log ss w k →
        k.store.findValue? k.current a = some v ∧ m.store.SameStorage k.store v

/-- Whether the assignment of what another name reads makes the name stand for the same collection:
then every change in place through either name acts on that collection, and both hold it and read as
it afterwards. A name may be hidden by a function inside the variable, and reads as that. -/
def AssignsSame (m : Machine) (a x : String) (v : Value) : Prop :=
  ∀ setting l l' line prec, ∃ p q n,
    Executes setting m [] (.expr (.call "=" [.named x l, .named a l'] prec line)) (.ok (.normal v))
      n ∧
    Shares n a x p q v ∧ n.store.findValue? n.current a = some v ∧
    ((∀ r ∈ n.store.chain n.current, n.store.functionAt? r x = none) →
      n.store.findValue? n.current x = some v) ∧
    ∀ k, EditsInPlace a x v n k → Keeps n a x p q v k ∧
      ∀ setting log st flow y j, y = a ∨ y = x → Edit y st →
        Executes setting k log st (.ok flow) j → ∃ t r, k.store.Intact t ∧ Effect t r y v j.store

theorem definesCopy {a : String} (placed : m.Placed)
    (reads : m.store.findValue? m.current a = some v) (collected : v.isCollection = true)
    (names : a ≠ x) : DefinesCopy m a x v := by
  intro setting l l'
  have valid : m.store.Valid v := by
    obtain ⟨r, -, found⟩ := List.exists_of_findSome?_eq_some reads
    exact Store.soundness_lawful.valueAt? placed.store found
  have copies := Store.copies_duplicate m.store collected
  have separate := separate_define (x := x) placed copies valid collected
  refine ⟨_, _, executes_define reads collected setting l l', separate.binds, copies.fresh, ?_, ?_⟩
  · exact sameContents_setVariable copies.contents
  · intro keeps setting u log ss w k edits performs
    obtain ⟨d, after⟩ := separate.performs placed collected edits performs
    exact ⟨(after.findValue? names).trans reads, after.apart.same⟩

theorem assignsSame {a : String} (placed : m.Placed)
    (reads : m.store.findValue? m.current a = some v) (collected : v.isCollection = true)
    (names : a ≠ x) : AssignsSame m a x v := by
  intro setting l l' line prec
  obtain ⟨p, first, shares⟩ := shares_assign placed reads collected names
  have same := Store.sameBut_setVariable m.store (m.store.written m.current x) x v
  have second := placed.store.hasScope_written placed.current x
  refine ⟨p, _, _, executes_assign reads collected setting l l' line prec, shares, ?_, ?_, ?_⟩
  · exact (same.findValue? names).trans reads
  · exact shares.second.findValue?
  · intro k edits
    have here {r : ScopeRef} (here : m.store.HasScope r) :
        (m.store.setVariable (m.store.written m.current x) x v).HasScope r := by
      rwa [Store.HasScope, same.size]
    have keeps := edits.keeps shares names (here first) (here second) collected
    refine ⟨keeps, ?_⟩
    intro setting log st flow y j name edit executes
    obtain ⟨t, intact, -, effect⟩ := edit.effect executes
    obtain ⟨r, binds⟩ : ∃ r, k.store.Binds k.current y r v := by
      rcases name with rfl | rfl
      · exact ⟨_, keeps.shares.first⟩
      · exact ⟨_, keeps.shares.second⟩
    rw [binds.written, binds.holds, Option.getD_some] at effect
    exact ⟨t, r, intact, effect⟩

/-- Each operation touches only the storage that it names: a sum and a copy have storage of their own,
appending has that of its target. So definitions copy and assignments share. -/
theorem own_or_shared :
    (∀ (s : Store) (a b : Value) (line : Line) (w : Value) (u : Store),
      s.addition a b line = .ok (w, u) → s.Intact u ∧ s.New u w ∧
        (w.isCollection = true → s.Fresh w ∧ (s.Valid a → w ≠ a) ∧ (s.Valid b → w ≠ b))) ∧
    (∀ (s : Store) (a b : Value) (line : Line) (w : Value) (u : Store),
      s.append a b line = .ok (w, u) →
        w = a ∧ a.isCollection = true ∧ s.IntactBut a u ∨ s.New u w ∧ s.Intact u) ∧
    (∀ (s : Store) (a : Value) (line : Line), s.Valid a → a.isCollection = true →
      ∃ u, s.append a a line = .ok (a, u) ∧ s.IntactBut a u ∧ s.Twice u a) ∧
    (∀ (s : Store) (a : Value), s.Valid a → a.isCollection = true →
      s.Copies a (s.duplicate a).1 (s.duplicate a).2 ∧ ∀ u d,
        ((s.duplicate a).2.Changes (s.duplicate a).1 u d → s.SameStorage u a) ∧
          ((s.duplicate a).2.Changes a u d → (s.duplicate a).2.SameStorage u (s.duplicate a).1)) ∧
    ∀ (m : Machine) (a x : String) (v : Value), m.Placed → a ≠ x →
      m.store.findValue? m.current a = some v → v.isCollection = true →
        DefinesCopy m a x v ∧ AssignsSame m a x v := by
  refine ⟨?_, ?_, ?_, ?_, ?_⟩
  · intro s a b line w u sum
    have new := Store.new_of_addition sum
    refine ⟨.addition sum, new, fun collected => ?_⟩
    have fresh := new.fresh collected
    exact ⟨fresh, fresh.ne, fresh.ne⟩
  · intro s a b line w u appends
    exact Store.append_touches appends
  · intro s a line valid collected
    exact Store.append_self valid collected line
  · intro s a valid collected
    have copies := Store.copies_duplicate s collected
    have apart := copies.fresh.ne valid
    obtain ⟨still, there⟩ := (copies.intact.but _).spares a collected valid apart.symm
    refine ⟨copies, fun u d => ⟨fun changes => ?_, fun changes => ?_⟩⟩
    · exact still.trans (changes.apart copies.fresh.isCollection there collected apart).same
    · exact (changes.apart collected copies.valid copies.fresh.isCollection apart.symm).same
  · intro m a x v placed names reads collected
    exact ⟨definesCopy placed reads collected names, assignsSame placed reads collected names⟩

/-- A list. -/
def twoItems : Value × Store := Machine.new.store.newList [.int 1, .string "x"]

/-- A machine with a variable that holds the list. -/
def holdingList : Machine :=
  { Machine.new with store := twoItems.2.setVariable ⟨0⟩ "a" twoItems.1 }

theorem placed_holdingList : holdingList.Placed := by
  have start := Machine.sound_new.placed
  have items : ∀ v ∈ [Value.int 1, .string "x"], Machine.new.store.Valid v := by simp [Store.Valid]
  have makes := start.store.newList items
  have made := start.put makes.becomes.sound makes.becomes.toGrows
  have sets := made.store.setVariable (v := twoItems.1) ⟨0⟩ "a" makes.valid
  exact made.put sets.sound sets.toGrows

/-- A list that one name reads, defined and assigned as what another one holds. -/
theorem own_or_shared_list :
    DefinesCopy holdingList "a" "b" twoItems.1 ∧ AssignsSame holdingList "a" "b" twoItems.1 := by
  have reads : holdingList.store.findValue? holdingList.current "a" = some twoItems.1 := by
    decide +kernel
  exact own_or_shared.2.2.2.2 holdingList "a" "b" twoItems.1 placed_holdingList (by decide) reads rfl

end Evaluator

end Scriptlet
