import Scriptlet.Proofs.Evaluation.Executions

/-!
# What a kept value can change

The values in use are looked at in one place only, when a scope is closed. So an evaluation during
which some more values are kept in use does the same as without them, if each of its closings comes
out the same without them. `Unkept` says that for an evaluation and is a congruence.

The closings of a machine are there for theorems alone. What is said here holds up to them.
-/

namespace Scriptlet

/-- The machine with other closings. -/
def Machine.withClosings (m : Machine) (closings : Closing → Prop) : Machine := { m with closings }

/-- The setting in which some more values are in use, after the others. -/
def Setting.keep (setting : Setting) (kept : List Value) : Setting :=
  { setting with held := setting.held ++ kept }

/-- Whether a closing comes out the same without the last of the values in use. -/
def Closing.Without (kept : List Value) (c : Closing) : Prop :=
  ∀ held, c.held = held ++ kept → c.store.leave held c.scope = c.store.leave c.held c.scope

theorem Closing.without_nil (c : Closing) : c.Without [] := by
  intro held same
  rw [same, List.append_nil]

namespace Machine

variable {m : Machine} {kept held : List Value} {r : ScopeRef}

theorem closings_close {c : Closing} (before : m.closings c) : (m.close held r).closings c := by
  unfold close
  split
  · exact before
  · exact .inr before

theorem close_without (alone : ∀ c, (m.close (held ++ kept) r).closings c → c.Without kept)
    (closings : Closing → Prop) :
    ∃ closings', (m.withClosings closings).close held r =
      (m.close (held ++ kept) r).withClosings closings' := by
  unfold close at alone ⊢
  have store : (m.withClosings closings).store = m.store := rfl
  rw [store]
  split
  · exact ⟨closings, rfl⟩
  · next isClass =>
    rw [if_neg isClass] at alone
    have same := alone ⟨m.store, .object m.global :: .object m.current :: (held ++ kept), r⟩ (.inl rfl)
      (.object m.global :: .object m.current :: held) rfl
    have left : m.store.leave (.object m.global :: .object m.current :: held) r =
        m.store.leave (.object m.global :: .object m.current :: (held ++ kept)) r := same
    have global : (m.withClosings closings).global = m.global := rfl
    have current : (m.withClosings closings).current = m.current := rfl
    dsimp only
    rw [global, current, left]
    exact ⟨_, rfl⟩

end Machine

namespace Eval

variable {α β : Type} {kept : List Value}

/-- Whether every end of an evaluation with some values kept is an end of another one without them,
if each closing so far comes out the same without them. -/
def Unkept (kept : List Value) (x y : Eval α) : Prop :=
  ∀ {setting m log r n}, x.Exits (setting.keep kept) m log r n →
    (∀ c, m.closings c → n.closings c) ∧
    ((∀ c, n.closings c → c.Without kept) → ∀ closings, ∃ closings',
      y.Exits setting (m.withClosings closings) log r (n.withClosings closings'))

/-- A primitive evaluation has nothing to do with the values in use and closes no scope. -/
theorem Primitive.free {x : Eval α} (h : Primitive x) {setting : Setting} {m n : Machine}
    {log : FileLog} {r : Except RuntimeError α} (ends : x.Exits setting m log r n) :
    n.closings = m.closings ∧ ∀ setting' closings,
      x.Exits setting' (m.withClosings closings) log r (n.withClosings closings) := by
  cases h with
  | pure _ | look _ | change _ | changeHere _ | print _ | leaveAll =>
    obtain ⟨rfl, rfl, rfl⟩ := Outcome.exits_value_iff.1 ends
    exact ⟨rfl, fun _ _ => .value⟩
  | fail _ =>
    obtain ⟨rfl, rfl, rfl⟩ := Outcome.exits_error_iff.1 ends
    exact ⟨rfl, fun _ _ => .error⟩
  | check f =>
    simp only [Eval.Exits, Eval.check] at ends ⊢
    have store (closings : Closing → Prop) : (m.withClosings closings).store = m.store := rfl
    split at ends
    · next found =>
      obtain ⟨rfl, rfl, rfl⟩ := Outcome.exits_value_iff.1 ends
      refine ⟨rfl, fun _ closings => ?_⟩
      rw [store, found]
      exact .value
    · next found =>
      obtain ⟨rfl, rfl, rfl⟩ := Outcome.exits_error_iff.1 ends
      refine ⟨rfl, fun _ closings => ?_⟩
      rw [store, found]
      exact .error
  | attempt f =>
    simp only [Eval.Exits, Eval.attempt] at ends ⊢
    have store (closings : Closing → Prop) : (m.withClosings closings).store = m.store := rfl
    split at ends
    · next found =>
      obtain ⟨rfl, rfl, rfl⟩ := Outcome.exits_value_iff.1 ends
      refine ⟨rfl, fun _ closings => ?_⟩
      rw [store, found]
      exact .value
    · next found =>
      obtain ⟨rfl, rfl, rfl⟩ := Outcome.exits_error_iff.1 ends
      refine ⟨rfl, fun _ closings => ?_⟩
      rw [store, found]
      exact .error
  | ask request =>
    cases ends with
    | ask ends =>
      obtain ⟨rfl, rfl, rfl⟩ := Outcome.exits_value_iff.1 ends
      exact ⟨rfl, fun _ _ => .ask .value⟩

theorem Unkept.primitive {x : Eval α} (h : Primitive x) : x.Unkept kept x := by
  intro setting m log r n ends
  obtain ⟨closings, free⟩ := h.free ends
  refine ⟨fun c before => ?_, fun _ others => ⟨others, free setting others⟩⟩
  rw [closings]
  exact before

theorem Unkept.setting {f g : Setting → Eval α} (h : ∀ got, (f got).Unkept kept (g got))
    (insensitive : Insensitive f) : (setting >>= f).Unkept kept (setting >>= g) := by
  intro setting m log r n ends
  have inside : (f (setting.keep kept)).Exits (setting.keep kept) m log r n := ends
  have same : f (setting.keep kept) = f setting := insensitive setting _
  rw [same] at inside
  exact h setting inside

theorem Unkept.bind {x y : Eval α} {f g : α → Eval β} (first : x.Unkept kept y)
    (second : ∀ a, (f a).Unkept kept (g a)) : (x >>= f).Unkept kept (y >>= g) := by
  intro setting m log r n ends
  rcases exists_of_exits_bind ends with ⟨e, rfl, fails⟩ | ⟨l₁, l₂, a, k, rfl, before, after⟩
  · obtain ⟨grows, same⟩ := first fails
    refine ⟨grows, fun alone others => ?_⟩
    obtain ⟨closings, fails⟩ := same alone others
    exact ⟨closings, .bind_error fails⟩
  · obtain ⟨grows, same⟩ := first before
    obtain ⟨grows', same'⟩ := second a after
    refine ⟨fun c early => grows' c (grows c early), fun alone others => ?_⟩
    obtain ⟨closings, before⟩ := same (fun c early => alone c (grows' c early)) others
    obtain ⟨closings', after⟩ := same' alone closings
    exact ⟨closings', .bind before after⟩

theorem Unkept.catching {x y : Eval α} (h : x.Unkept kept y) :
    (catching x).Unkept kept (catching y) := by
  intro setting m log r n ends
  obtain ⟨inner, rfl, inside⟩ := exits_catching_iff.1 ends
  obtain ⟨grows, same⟩ := h inside
  refine ⟨grows, fun alone others => ?_⟩
  obtain ⟨closings, inside⟩ := same alone others
  exact ⟨closings, exits_catching_iff.2 ⟨inner, rfl, inside⟩⟩

theorem hold_keep (setting : Setting) (values : List Value) :
    (setting.keep kept).hold values = (setting.hold values).keep kept := by
  simp only [Setting.hold, Setting.keep, List.append_assoc]

theorem Unkept.holding {x y : Eval α} (h : x.Unkept kept y) (values : List Value) :
    (holding values x).Unkept kept (holding values y) := by
  intro setting m log r n ends
  have inside : x.Exits ((setting.keep kept).hold values) m log r n := ends
  rw [hold_keep] at inside
  exact h inside

theorem Unkept.within {x y : Eval α} (h : x.Unkept kept y) (r : ScopeRef)
    (results : α → List Value) : (within r results x).Unkept kept (within r results y) := by
  intro setting m log result n ends
  obtain ⟨k, inside, rfl⟩ := Outcome.exits_finish_iff.1 ends
  have inside : x.Exits ((setting.keep kept).hold [.object m.current]) { m with current := r } log
      result k := inside
  rw [hold_keep] at inside
  obtain ⟨grows, same⟩ := h inside
  have held (values : List Value) : values ++ (setting.keep kept).held =
      (values ++ setting.held) ++ kept :=
    (List.append_assoc values setting.held kept).symm
  refine ⟨fun c before => Machine.closings_close (grows c before), fun alone others => ?_⟩
  rw [held] at alone ⊢
  obtain ⟨closings, inside⟩ := same (fun c before => alone c (Machine.closings_close before)) others
  obtain ⟨closings', closed⟩ := Machine.close_without alone closings
  refine ⟨closings', Outcome.exits_finish_iff.2 ⟨_, inside, ?_⟩⟩
  exact closed.symm

theorem congruence_unkept (kept : List Value) : Congruence (Unkept kept) where
  cutOff _ _ _ _ _ _ ends := absurd ends Outcome.not_exits_cutOff
  primitive h := Unkept.primitive h
  setting h insensitive _ := Unkept.setting h insensitive
  bind first second := Unkept.bind first second
  catching h := Unkept.catching h
  holding values h := Unkept.holding h values
  within r results h := Unkept.within h r results

end Eval

namespace Evaluator

variable {setting : Setting} {m n : Machine} {u v : Value} {log : FileLog} {s : Stmt}
  {r : Except RuntimeError Flow} {kept : List Value}

theorem unkept (kept : List Value) (fuel : Nat) : Related (Eval.Unkept kept) fuel fuel :=
  related (Eval.congruence_unkept kept) (Nat.le_refl fuel)

/-- What a value keeps in use. -/
def keptBy (v : Value) : List Value := [v].filter (!·.isScalar)

/-- Whether each closing while a statement is executed comes out the same without the value before
the statement. -/
def ClosesAlone (setting : Setting) (m : Machine) (u : Value) (s : Stmt) : Prop :=
  ∀ log r n, Executes (setting.hold (keepsLast u)) (m.withClosings fun _ => False) log s r n →
    ∀ c, n.closings c → c.Without (keptBy u)

theorem closesAlone_of_isScalar (scalar : u.isScalar = true) : ClosesAlone setting m u s := by
  intro log r n _ c _
  have none : keptBy u = [] := by
    simp [keptBy, scalar]
  rw [none]
  exact c.without_nil

/-- A statement whose closings all come out the same without the value before it does the same
without it. -/
theorem executes_alone (base : setting.held = []) (alone : ClosesAlone setting m u s)
    (h : Executes (setting.hold (keepsLast u)) m log s r n) (closings : Closing → Prop) :
    ∃ closings', Executes setting (m.withClosings closings) log s r (n.withClosings closings') := by
  obtain ⟨fuel, ends⟩ := h
  -- the same without any closings before it
  have ends : (exec fuel s).Exits ((setting.hold (keepsLast u)).keep []) m log r n := by
    rw [Setting.keep, List.append_nil]
    exact ends
  obtain ⟨only, fresh⟩ := ((unkept [] fuel).exec s ends).2 (fun c _ => c.without_nil) fun _ => False
  have last : setting.hold (keepsLast u) = setting.keep (keptBy u) := by
    simp only [Setting.hold, Setting.keep, base, keepsLast, keptBy, List.append_nil,
      List.nil_append]
  have without := alone log r _ ⟨fuel, fresh⟩
  rw [last] at fresh
  obtain ⟨closings', ends⟩ := ((unkept (keptBy u) fuel).exec s fresh).2 without closings
  exact ⟨closings', fuel, ends⟩

/-- Statements that are executed one after another do the same without the values before them, if
their closings come out the same. -/
theorem performs_alone {ss : List Stmt} (base : setting.held = [])
    (h : Performs keepsLast setting m u log ss v n)
    (alone : ∀ before s after l w k, ss = before ++ s :: after → l <+: log →
      Performs keepsLast setting m u l before w k → ClosesAlone setting k w s)
    (closings : Closing → Prop) :
    ∃ closings', Performs keepsNothing setting (m.withClosings closings) u log ss v
      (n.withClosings closings') := by
  induction h generalizing closings with
  | nil => exact ⟨closings, .nil⟩
  | @cons m k n u v l₁ l₂ s rest flow first _ ih =>
    have now : ClosesAlone setting m u s :=
      alone [] s rest [] u m rfl (List.nil_prefix) .nil
    obtain ⟨closings₁, first'⟩ := executes_alone base now first closings
    obtain ⟨closings₂, later⟩ := ih (fun before s' after l w j same inside performed =>
      alone (s :: before) s' after (l₁ ++ l) w j (by rw [same, List.cons_append])
        ((List.prefix_append_right_inj l₁).2 inside) (.cons first performed)) closings₁
    exact ⟨closings₂, .cons first' later⟩

end Evaluator

end Scriptlet
