import Scriptlet.Evaluator

/-!
# The lines of errors

What fails in an operation on values fails on the line that the operation is given: the line of the
call, whatever the operands are and wherever they come from.
-/

namespace Scriptlet

/-- Whether an error, if there is one, names a line. -/
def FailsOn {α : Type} (line : Line) (r : Except RuntimeError α) : Prop :=
  ∀ e, r = .error e → e.line = line

namespace FailsOn

variable {α β : Type} {line : Line}

theorem ok (a : α) : FailsOn line (.ok a) := by
  intro e never
  cases never

theorem error {e : RuntimeError} (same : e.line = line) : FailsOn line (.error e : Except _ α) := by
  intro f fails
  cases fails
  exact same

theorem bind {x : Except RuntimeError α} {next : α → Except RuntimeError β} (first : FailsOn line x)
    (second : ∀ a, FailsOn line (next a)) : FailsOn line (x >>= next) := by
  intro e fails
  cases x with
  | ok a => exact second a e fails
  | error f =>
    cases fails
    exact first _ rfl

theorem map {x : Except RuntimeError α} {f : α → β} (first : FailsOn line x) :
    FailsOn line (x.map f) := by
  intro e fails
  cases x with
  | ok a => cases fails
  | error g =>
    cases fails
    exact first _ rfl

/-- What is read where there may be nothing. -/
theorem elim {found : Option α} {f : α → β} {e : RuntimeError} (same : e.line = line) :
    FailsOn line (found.elim (.error e) fun a => .ok (f a)) := by
  cases found with
  | none => exact .error same
  | some a => exact .ok _

end FailsOn

variable {s : Store} {line : Line}

theorem Value.failsOn_position (v : Value) (length : Nat) : FailsOn line (v.position length line) := by
  have within (i : Int64) : FailsOn line
      (if 0 ≤ i.toInt ∧ i.toInt < length then Except.ok i.toInt.toNat
        else .error (.indexOutOfBounds i.toInt length line)) := by
    split
    · exact .ok _
    · exact .error rfl
  unfold Value.position
  split
  · exact within _
  · exact within _
  · exact .error rfl

theorem Value.failsOn_memberName (v : Value) : FailsOn line (v.memberName line) := by
  unfold Value.memberName
  split
  · exact .ok _
  · exact .error rfl

theorem Key.failsOn_ofValue (v : Value) : FailsOn line (Key.ofValue v line) := .elim rfl

namespace TypedArray

theorem failsOn_ofValues (values : List Value) : FailsOn line (ofValues values line) := by
  unfold ofValues
  split
  · exact .ok _
  · split
    · split
      · exact .ok _
      · exact .error rfl
    · exact .error rfl

variable (a : TypedArray)

theorem failsOn_adopt (v : Value) : FailsOn line (a.adopt v line) := by
  unfold adopt
  split
  · exact .ok _
  · split
    · exact .ok _
    · exact .error rfl

theorem failsOn_push (v : Value) : FailsOn line (a.push v line) := by
  unfold push
  split
  · split
    · exact .ok _
    · exact .error rfl
  · exact (a.failsOn_adopt v).bind fun _ => .ok _

theorem failsOn_set (i : Nat) (v : Value) : FailsOn line (a.set i v line) := by
  refine (a.failsOn_adopt v).bind fun w => ?_
  dsimp only
  split
  · exact .ok _
  · exact .error rfl

theorem failsOn_extend (b : TypedArray) : FailsOn line (a.extend b line) := by
  unfold extend
  split
  · exact .ok _
  · split
    · exact .ok _
    · split
      · exact .ok _
      · exact .error rfl

end TypedArray

namespace Store

/-! ## Elements -/

theorem failsOn_componentPlace {settle : Value → Except RuntimeError Value}
    (settles : ∀ v, FailsOn line (settle v)) (key : Value) :
    FailsOn line (componentPlace settle key line) := by
  unfold componentPlace
  split
  · exact .elim rfl
  · exact (settles _).bind fun k => k.failsOn_position 3

theorem failsOn_elementBy {settle : Value → Except RuntimeError Value}
    (settles : ∀ v, FailsOn line (settle v)) (collection key : Value) :
    FailsOn line (elementBy settle s collection key line) := by
  refine (settles collection).bind fun c => ?_
  cases c with
  | array a => exact (settles key).bind fun k => (k.failsOn_position _).bind fun _ => .ok _
  | list l => exact (settles key).bind fun k => (k.failsOn_position _).bind fun _ => .ok _
  | string text => exact (settles key).bind fun k => (k.failsOn_position _).bind fun _ => .ok _
  | vec3 u => exact (failsOn_componentPlace settles key).bind fun _ => .ok _
  | dictionary d => exact (settles key).bind fun k => (Key.failsOn_ofValue k).bind fun _ => .ok _
  | object o => exact key.failsOn_memberName.bind fun _ => .elim rfl
  | _ => exact .error rfl

theorem failsOn_settleWithin (fuel : Nat) (v : Value) : FailsOn line (s.settleWithin line fuel v) := by
  induction fuel generalizing v with
  | zero => exact .ok _
  | succ fuel ih =>
    cases v with
    | member collection key => exact (failsOn_elementBy ih collection key).bind ih
    | _ => exact .ok _

theorem failsOn_settle (v : Value) : FailsOn line (s.settle line v) := by
  unfold settle
  split
  · exact failsOn_settleWithin _ _
  · exact .ok _

theorem failsOn_element (collection key : Value) : FailsOn line (s.element collection key line) :=
  failsOn_elementBy failsOn_settle collection key

theorem failsOn_resolved (v : Value) : FailsOn line (s.resolved v line) := by
  unfold resolved
  split
  · exact failsOn_element _ _
  · exact .ok _

theorem failsOn_withEntry (d : Dictionary) (key v : Value) :
    FailsOn line (s.withEntry d key v line) :=
  (failsOn_resolved key).bind fun k =>
    ((failsOn_settle k).bind Key.failsOn_ofValue).bind fun _ => .ok _

theorem failsOn_setElement (collection key v : Value) :
    FailsOn line (s.setElement collection key v line) := by
  refine (failsOn_settle collection).bind fun c => ?_
  cases c with
  | array a =>
    exact (failsOn_settle key).bind fun k => (k.failsOn_position _).bind fun i =>
      ((s.array a).failsOn_set i v).bind fun _ => .ok _
  | list l => exact (failsOn_settle key).bind fun k => (k.failsOn_position _).bind fun _ => .ok _
  | dictionary d => exact (failsOn_withEntry _ key v).bind fun _ => .ok _
  | object o => exact key.failsOn_memberName.bind fun _ => .ok _
  | _ => exact .error rfl

/-! ## Conversions -/

theorem failsOn_upconvert (v : Value) (target : Kind) :
    FailsOn line (s.upconvert v target line) := by
  refine (failsOn_settle v).bind fun u => ?_
  dsimp only
  split
  · exact .ok _
  · split
    · exact .error rfl
    · split
      · exact .ok _
      · split
        all_goals first
          | exact .ok _
          | exact .error rfl
          | split
            · exact .ok _
            · exact .error rfl

theorem failsOn_unify (v w : Value) : FailsOn line (s.unify v w line) :=
  (failsOn_upconvert v _).bind fun _ => (failsOn_upconvert w _).bind fun _ => .ok _

theorem failsOn_vectorOf (items : List Value) : FailsOn line (s.vectorOf items line) := by
  have parts (vs : List Value) :
      FailsOn line (vs.mapM fun v => do return s.lossyFloat (← s.settle line v)) := by
    induction vs with
    | nil => exact .ok _
    | cons v vs ih =>
      rw [List.mapM_cons]
      exact ((failsOn_settle v).bind fun _ => .ok _).bind fun _ => ih.bind fun _ => .ok _
  exact (parts _).bind fun _ => .ok _

theorem failsOn_toVec3 (v : Value) : FailsOn line (s.toVec3 v line) := by
  unfold toVec3
  split
  all_goals first
    | exact .ok _
    | exact .error rfl
    | exact failsOn_vectorOf _

theorem failsOn_hardconvert (v : Value) (target : Kind) :
    FailsOn line (s.hardconvert v target line) := by
  refine (failsOn_settle v).bind fun u => ?_
  split
  · exact .ok _
  · exact .ok _
  · exact .ok _
  · exact (failsOn_toVec3 _).bind fun _ => .ok _
  · exact .ok _
  · exact (TypedArray.failsOn_ofValues _).bind fun _ => .ok _
  · exact (TypedArray.failsOn_ofValues _).bind fun _ => .ok _
  · exact .ok _
  · exact failsOn_upconvert _ _

/-! ## Operators -/

theorem failsOn_onInts (op : BinaryOperator) (i j : Int64) : FailsOn line (op.onInts i j line) := by
  unfold BinaryOperator.onInts
  split
  · exact .error rfl
  · split
    · split
      · exact .ok _
      · exact .error rfl
    · exact .error rfl

theorem failsOn_arithmetic (op : BinaryOperator) (v w : Value) :
    FailsOn line (s.arithmetic op v w line) := by
  refine (failsOn_unify v w).bind fun r => ?_
  dsimp only
  split
  · exact (failsOn_onInts op _ _).bind fun _ => .ok _
  · exact (failsOn_onInts op _ _).bind fun _ => .ok _
  · exact .ok _
  · exact .ok _
  · exact .error rfl

theorem failsOn_addition (v w : Value) : FailsOn line (s.addition v w line) := by
  unfold addition
  split
  · exact .ok _
  · split
    · exact failsOn_arithmetic .add v w
    · refine (failsOn_unify v w).bind fun r => ?_
      dsimp only
      split
      · exact .ok _
      · exact (TypedArray.failsOn_extend _ _).bind fun _ => .ok _
      · exact .ok _
      · exact .ok _
      · exact .error rfl

theorem failsOn_append (v w : Value) : FailsOn line (s.append v w line) := by
  refine (failsOn_resolved w).bind fun u => ?_
  cases v with
  | list l =>
    dsimp only
    split
    · exact .ok _
    · exact .ok _
  | array a =>
    dsimp only
    split
    · exact (TypedArray.failsOn_extend _ _).bind fun _ => .ok _
    · split
      · exact (TypedArray.failsOn_push _ _).bind fun _ => .ok _
      · exact failsOn_addition _ _
  | dictionary d =>
    refine (failsOn_upconvert u .dictionary).bind fun r => ?_
    dsimp only
    split
    · exact .ok _
    · exact failsOn_addition _ _
  | _ => exact failsOn_addition _ _

theorem failsOn_comparison (op : BinaryOperator) (v w : Value) :
    FailsOn line (s.comparison op v w line) := by
  have unifies : FailsOn line (s.unifyForCompare v w line) := by
    unfold unifyForCompare
    split
    · exact failsOn_unify v w
    · exact .error rfl
  unfold comparison
  split
  · next source target l failed =>
    split
    · exact .ok _
    · exact .error (unifies _ failed)
  · next e _ failed => exact .error (unifies e failed)
  · split
    · exact .ok _
    · exact .error rfl

theorem failsOn_binary (op : BinaryOperator) (v w : Value) : FailsOn line (s.binary op v w line) := by
  refine (failsOn_resolved v).bind fun a => (failsOn_resolved w).bind fun b => ?_
  cases op with
  | add => exact failsOn_addition a b
  | sub | mul | div | mod => exact failsOn_arithmetic _ a b
  | equal | notEqual | less | greater | lessEqual | greaterEqual => exact failsOn_comparison _ a b
  | and | or => exact .ok _

theorem failsOn_negate (v : Value) : FailsOn line (negate v line) := by
  unfold negate
  split
  all_goals first
    | exact .ok _
    | exact .error rfl
    | exact .elim rfl

theorem failsOn_unary (op : UnaryOperator) (v : Value) : FailsOn line (s.unary op v line) := by
  refine (failsOn_resolved v).bind fun u => ?_
  cases op with
  | not => exact .ok _
  | negate => exact failsOn_negate u

/-! ## Builtin functions -/

theorem failsOn_collectionFrom (v : Value) (target : Kind) :
    FailsOn line (s.collectionFrom v target line) :=
  (failsOn_hardconvert v target).bind fun _ => .ok _

theorem failsOn_builtinValue (b : Builtin) (arguments : List Value) :
    FailsOn line (b.value s arguments line) := by
  unfold Builtin.value
  split
  · exact failsOn_binary _ _ _
  · exact (failsOn_unary _ _).map
  · exact failsOn_binary _ _ _
  · exact (failsOn_unary _ _).map
  · exact (failsOn_element _ _).map
  · split
    · exact .ok _
    · exact .error rfl
  · exact .ok _
  · split
    · exact .ok _
    · exact .error rfl
  · exact .ok _
  · exact failsOn_hardconvert _ _
  · exact failsOn_hardconvert _ _
  · exact failsOn_hardconvert _ _
  · exact failsOn_hardconvert _ _
  · exact (failsOn_vectorOf _).map
  · exact .ok _
  · exact failsOn_collectionFrom _ _
  · exact (TypedArray.failsOn_ofValues _).map
  · exact failsOn_collectionFrom _ _
  · exact .ok _
  · exact .ok _
  · exact failsOn_collectionFrom _ _
  · split
    · exact .ok _
    · exact .error rfl
  · exact .error rfl

theorem failsOn_builtinCall (b : Builtin) (arguments : List Value) :
    FailsOn line (b.call s arguments line) := by
  unfold Builtin.call
  split
  · exact failsOn_builtinValue b arguments
  · exact .error rfl

/-! ## Places, classes and calls -/

theorem failsOn_expectVec3 (v : Value) : FailsOn line (Place.expectVec3 v line) := by
  unfold Place.expectVec3
  split
  · exact .ok _
  · exact .error rfl

theorem failsOn_read (p : Place) : FailsOn line (p.read s line) := by
  induction p with
  | named r name => exact .ok _
  | element collection key => exact failsOn_element collection key
  | component container i ih => exact ih.bind fun v => (failsOn_expectVec3 v).bind fun _ => .ok _
  | temporary v => exact .ok _

theorem failsOn_write (p : Place) (v : Value) : FailsOn line (p.write s v line) := by
  induction p generalizing v with
  | named r name => exact .ok _
  | element collection key => exact failsOn_setElement collection key v
  | component container i ih =>
    refine (failsOn_read container).bind fun u => (failsOn_expectVec3 u).bind fun x =>
      (failsOn_settle v).bind fun w => ?_
    dsimp only
    split
    · exact ih _
    · exact .error rfl
  | temporary u => exact .error rfl

theorem failsOn_indexed (p : Place) (key : Value) : FailsOn line (p.indexed s key line) := by
  refine (failsOn_read p).bind fun c => ?_
  split
  · exact (failsOn_componentPlace failsOn_settle key).bind fun _ => .ok _
  · exact .ok _

theorem failsOn_combined (p : Place) (op : AssignOperator) (v : Value) :
    FailsOn line (Evaluator.combined s p op v line) := by
  unfold Evaluator.combined
  split
  · exact .ok _
  · exact (failsOn_read p).bind fun u => failsOn_append u v
  · exact (failsOn_read p).bind fun u => failsOn_binary _ u v

theorem failsOn_items (v : Value) : FailsOn line (Evaluator.items s line v) := by
  unfold Evaluator.items
  split
  all_goals first
    | exact .ok _
    | exact .error rfl

theorem failsOn_memberFunction (current : ScopeRef) (receiver : Value) (name : String) :
    FailsOn line (Evaluator.memberFunction s current receiver name line) := by
  unfold Evaluator.memberFunction
  split
  · exact .ok _
  · exact .error rfl
  · exact .error rfl

theorem failsOn_inheritAll (current template : ScopeRef) (bases : List String) :
    FailsOn line (s.inheritAll current template line bases) := by
  induction bases generalizing s with
  | nil => exact .ok _
  | cons name rest ih =>
    unfold inheritAll
    split
    · exact .error rfl
    · exact ih

end Store

end Scriptlet
