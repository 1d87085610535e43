import Mathlib.Tactic.SplitIfs
import Scriptlet.Bracket

/-!
# Nested brackets

A run of tokens is nested when each bracket in it is closed by one of its own kind. The
search for a closing bracket passes over nested runs and stops exactly where one ends; the
cut at commas passes over the brackets of a run and gives back the parts it was joined from.
-/

namespace Scriptlet.Bracket

/-- Runs in which every bracket is closed by one of its own kind. -/
inductive Nested : List PlacedToken → Prop
  | nil : Nested []
  | other {t : PlacedToken} {rest : List PlacedToken} :
      t.token.opens? = none → t.token.closes? = none → Nested rest → Nested (t :: rest)
  | bracket {o c : PlacedToken} {b : Bracket} {inside rest : List PlacedToken} :
      o.token.opens? = some b → Nested inside → c.token.closes? = some b → Nested rest →
        Nested (o :: (inside ++ c :: rest))

/-- Nested runs without a comma outside their brackets. -/
inductive Solid : List PlacedToken → Prop
  | nil : Solid []
  | other {t : PlacedToken} {rest : List PlacedToken} :
      t.token.opens? = none → t.token.closes? = none → t.token.isComma = false → Solid rest →
        Solid (t :: rest)
  | bracket {o c : PlacedToken} {b : Bracket} {inside rest : List PlacedToken} :
      o.token.opens? = some b → Nested inside → c.token.closes? = some b → Solid rest →
        Solid (o :: (inside ++ c :: rest))

/-- Runs that are parts with single commas between them. -/
inductive Joined : List PlacedToken → List (List PlacedToken) → Prop
  | last {part : List PlacedToken} : part ≠ [] → Joined part [part]
  | cons {part rest : List PlacedToken} {comma : PlacedToken} {parts : List (List PlacedToken)} :
      part ≠ [] → comma.token.isComma = true → Joined rest parts →
        Joined (part ++ comma :: rest) (part :: parts)

theorem Joined.ne_nil {ts : List PlacedToken} {parts : List (List PlacedToken)}
    (h : Joined ts parts) : ts ≠ [] := by
  cases h with
  | last nonempty => exact nonempty
  | cons => simp

theorem Joined.nonempty {ts : List PlacedToken} {parts : List (List PlacedToken)}
    (h : Joined ts parts) : ∀ part ∈ parts, part ≠ [] := by
  induction h with
  | last nonempty => simpa using nonempty
  | cons nonempty _ _ ih => simpa using ⟨nonempty, ih⟩

theorem opens?_of_closes? {t : Token} {b : Bracket} (h : t.closes? = some b) : t.opens? = none := by
  unfold Token.closes? at h
  split at h <;> first | rfl | exact absurd h (by simp)

theorem isComma_of_opens? {t : Token} {b : Bracket} (h : t.opens? = some b) : t.isComma = false := by
  unfold Token.opens? at h
  split at h <;> first | rfl | exact absurd h (by simp)

theorem isComma_of_closes? {t : Token} {b : Bracket} (h : t.closes? = some b) :
    t.isComma = false := by
  unfold Token.closes? at h
  split at h <;> first | rfl | exact absurd h (by simp)

theorem opens?_of_isComma {t : Token} (h : t.isComma = true) : t.opens? = none := by
  cases opens : t.opens? with
  | none => rfl
  | some b => rw [isComma_of_opens? opens] at h; cases h

theorem closes?_of_isComma {t : Token} (h : t.isComma = true) : t.closes? = none := by
  cases closes : t.closes? with
  | none => rfl
  | some b => rw [isComma_of_closes? closes] at h; cases h

theorem enclosed_append (o c : PlacedToken) (inside rest : List PlacedToken) :
    (o :: (inside ++ [c])) ++ rest = o :: (inside ++ c :: rest) := by
  rw [List.cons_append, List.append_assoc, List.singleton_append]

theorem Nested.tail {t : PlacedToken} {ts : List PlacedToken} (h : Nested (t :: ts))
    (opens : t.token.opens? = none) : Nested ts := by
  cases h with
  | other _ _ rest => exact rest
  | bracket opens' _ _ _ =>
    rw [opens] at opens'
    cases opens'

theorem Nested.append {a b : List PlacedToken} (ha : Nested a) (hb : Nested b) : Nested (a ++ b) := by
  induction ha with
  | nil => exact hb
  | other opens closes _ ih => exact .other opens closes ih
  | bracket opens inside closes _ _ ih =>
    rw [List.cons_append, List.append_assoc, List.cons_append]
    exact .bracket opens inside closes ih

theorem Solid.append {a b : List PlacedToken} (ha : Solid a) (hb : Solid b) : Solid (a ++ b) := by
  induction ha with
  | nil => exact hb
  | other opens closes comma _ ih => exact .other opens closes comma ih
  | bracket opens inside closes _ ih =>
    rw [List.cons_append, List.append_assoc, List.cons_append]
    exact .bracket opens inside closes ih

theorem Solid.nested {a : List PlacedToken} (h : Solid a) : Nested a := by
  induction h with
  | nil => exact .nil
  | other opens closes _ _ ih => exact .other opens closes ih
  | bracket opens inside closes _ ih => exact .bracket opens inside closes ih

/-! ## The closing bracket -/

theorem closingFrom_cons_opens {endLine : Line} {index : Nat} {opened : List Bracket}
    {t : PlacedToken} {b : Bracket} {rest : List PlacedToken} (h : t.token.opens? = some b) :
    closingFrom endLine index opened (t :: rest) =
      closingFrom endLine (index + 1) (b :: opened) rest := by
  simp only [closingFrom, h]

theorem closingFrom_cons_other {endLine : Line} {index : Nat} {opened : List Bracket}
    {t : PlacedToken} {rest : List PlacedToken} (opens : t.token.opens? = none)
    (closes : t.token.closes? = none) :
    closingFrom endLine index opened (t :: rest) = closingFrom endLine (index + 1) opened rest := by
  simp only [closingFrom, opens, closes]

theorem closingFrom_cons_closes {endLine : Line} {index : Nat} {b c : Bracket}
    {outer : List Bracket} {t : PlacedToken} {rest : List PlacedToken}
    (h : t.token.closes? = some c) :
    closingFrom endLine index (b :: outer) (t :: rest) =
      if c = b then
        if outer = [] then .ok index else closingFrom endLine (index + 1) outer rest
      else .error (.unexpectedToken t.token.text t.line) := by
  simp only [closingFrom, opens?_of_closes? h, h]

/-- The search passes over a nested run inside an open bracket. -/
theorem closingFrom_nested {inside : List PlacedToken} (h : Nested inside) (endLine : Line)
    (index : Nat) (b : Bracket) (outer : List Bracket) (rest : List PlacedToken) :
    closingFrom endLine index (b :: outer) (inside ++ rest) =
      closingFrom endLine (index + inside.length) (b :: outer) rest := by
  induction h generalizing index b outer rest with
  | nil => rfl
  | @other t tail opens closes _ ih =>
    rw [List.cons_append, closingFrom_cons_other opens closes, ih, List.length_cons]
    congr 1
    omega
  | @bracket o c kind inner tail opens _ closes _ ihInside ihTail =>
    rw [List.cons_append, closingFrom_cons_opens opens, List.append_assoc, ihInside,
      List.cons_append, closingFrom_cons_closes closes, if_pos rfl, if_neg (List.cons_ne_nil _ _),
      ihTail]
    congr 1
    simp only [List.length_cons, List.length_append]
    omega

/-- Where the search stops, the innermost open bracket has been closed after a nested run, and
the search for the others has gone on from there. -/
theorem closingFrom_ok {endLine : Line} {index found : Nat} {b : Bracket} {outer : List Bracket}
    {ts : List PlacedToken} (h : closingFrom endLine index (b :: outer) ts = .ok found) :
    ∃ inside c rest, ts = inside ++ c :: rest ∧ Nested inside ∧ c.token.closes? = some b ∧
      if outer = [] then found = index + inside.length
      else closingFrom endLine (index + inside.length + 1) outer rest = .ok found := by
  match ts with
  | [] => rw [closingFrom] at h; exact absurd h (by simp)
  | t :: rest =>
    cases opens : t.token.opens? with
    | some b' =>
      rw [closingFrom_cons_opens opens] at h
      obtain ⟨inner, c, after, split, nested, closes, found'⟩ := closingFrom_ok h
      rw [if_neg (List.cons_ne_nil _ _)] at found'
      have shorter : after.length < rest.length + 1 := by rw [split]; simp; omega
      obtain ⟨inner', c', after', split', nested', closes', found''⟩ := closingFrom_ok found'
      have size : index + 1 + inner.length + 1 + inner'.length =
          index + (t :: (inner ++ c :: inner')).length := by
        simp only [List.length_cons, List.length_append]
        omega
      refine ⟨t :: (inner ++ c :: inner'), c', after', ?_, .bracket opens nested closes nested',
        closes', ?_⟩
      · rw [split, split', List.cons_append, List.append_assoc, List.cons_append]
      · rw [← size]
        exact found''
    | none =>
      cases closes : t.token.closes? with
      | none =>
        rw [closingFrom_cons_other opens closes] at h
        obtain ⟨inner, c, after, split, nested, closes', found'⟩ := closingFrom_ok h
        have size : index + 1 + inner.length = index + (t :: inner).length := by
          rw [List.length_cons]
          omega
        refine ⟨t :: inner, c, after, by rw [split, List.cons_append], .other opens closes nested,
          closes', ?_⟩
        rw [← size]
        exact found'
      | some c =>
        rw [closingFrom_cons_closes closes] at h
        by_cases same : c = b
        · rw [if_pos same] at h
          refine ⟨[], t, rest, rfl, .nil, by rw [closes, same], ?_⟩
          by_cases last : outer = []
          · rw [if_pos last] at h ⊢
            injection h with h
            exact h.symm
          · rw [if_neg last] at h ⊢
            exact h
        · rw [if_neg same] at h
          exact absurd h (by simp)
termination_by ts.length
decreasing_by
  · simp
  · simp
  · exact shorter

/-- A group is what stands between an opening bracket and the first closing one of its kind after
a nested run. -/
theorem group_eq_ok_iff {o : PlacedToken} {b : Bracket} (opens : o.token.opens? = some b)
    {ts inside after : List PlacedToken} :
    group (o :: ts) = .ok (inside, after) ↔
      ∃ c : PlacedToken, c.token.closes? = some b ∧ Nested inside ∧ ts = inside ++ c :: after := by
  have start (endLine : Line) : closingFrom endLine 0 [] (o :: ts) = closingFrom endLine 1 [b] ts :=
    closingFrom_cons_opens opens
  constructor
  · intro h
    cases search : closingFrom (lastLine (o :: ts)) 1 [b] ts with
    | error e => simp [group, findClosing, start, search, bind, Except.bind] at h
    | ok close =>
      simp only [group, findClosing, List.drop_zero, start, search, bind, Except.bind, pure,
        Except.pure, Except.ok.injEq, Prod.mk.injEq] at h
      obtain ⟨inner, c, rest, split, nested, closes, found⟩ := closingFrom_ok search
      rw [if_pos rfl] at found
      have ends : close = inner.length + 1 := by omega
      subst ends
      refine ⟨c, closes, ?_⟩
      obtain ⟨rfl, rfl⟩ := h
      simp only [split, List.take_succ_cons, List.take_left', List.drop_succ_cons, List.drop_zero]
      refine ⟨nested, ?_⟩
      rw [← List.drop_drop, List.drop_left']
      · rfl
      · rfl
  · rintro ⟨c, closes, nested, rfl⟩
    have search : closingFrom (lastLine (o :: (inside ++ c :: after))) 1 [b] (inside ++ c :: after) =
        .ok (1 + inside.length) := by
      rw [closingFrom_nested nested, closingFrom_cons_closes closes, if_pos rfl, if_pos rfl]
    simp only [group, findClosing, List.drop_zero, start, search, bind, Except.bind, pure,
      Except.pure, Except.ok.injEq, Prod.mk.injEq]
    rw [Nat.add_comm 1, List.take_succ_cons, List.drop_succ_cons, List.drop_zero, List.take_left' rfl,
      List.drop_succ_cons, ← List.drop_drop, List.drop_left' rfl]
    exact ⟨rfl, rfl⟩

/-! ## The parts between commas -/

theorem partsFrom_cons_opens {endLine : Line} {depth : Nat} {part : List PlacedToken}
    {t : PlacedToken} {b : Bracket} {rest : List PlacedToken} (h : t.token.opens? = some b) :
    partsFrom endLine depth part (t :: rest) = partsFrom endLine (depth + 1) (t :: part) rest := by
  simp [partsFrom, h]

theorem partsFrom_cons_closes {endLine : Line} {depth : Nat} {part : List PlacedToken}
    {t : PlacedToken} {b : Bracket} {rest : List PlacedToken} (h : t.token.closes? = some b) :
    partsFrom endLine depth part (t :: rest) = partsFrom endLine (depth - 1) (t :: part) rest := by
  simp [partsFrom, h, opens?_of_closes? h]

theorem partsFrom_cons_other {endLine : Line} {depth : Nat} {part : List PlacedToken}
    {t : PlacedToken} {rest : List PlacedToken} (opens : t.token.opens? = none)
    (closes : t.token.closes? = none) (within : t.token.isComma = false ∨ 0 < depth) :
    partsFrom endLine depth part (t :: rest) = partsFrom endLine depth (t :: part) rest := by
  rcases within with comma | within
  · simp [partsFrom, opens, closes, comma]
  · simp [partsFrom, opens, closes, Nat.pos_iff_ne_zero.1 within]

/-- The cut passes over a nested run inside a bracket. -/
theorem partsFrom_nested {inside : List PlacedToken} (h : Nested inside) (endLine : Line)
    (depth : Nat) (part rest : List PlacedToken) :
    partsFrom endLine (depth + 1) part (inside ++ rest) =
      partsFrom endLine (depth + 1) (inside.reverse ++ part) rest := by
  induction h generalizing depth part rest with
  | nil => rfl
  | other opens closes _ ih =>
    rw [List.cons_append, partsFrom_cons_other opens closes (.inr (Nat.succ_pos _)), ih,
      List.reverse_cons, List.append_assoc, List.singleton_append]
  | bracket opens _ closes _ ihInside ihTail =>
    rw [List.cons_append, partsFrom_cons_opens opens, List.append_assoc, ihInside, List.cons_append,
      partsFrom_cons_closes closes, Nat.add_sub_cancel, ihTail]
    simp

/-- The cut passes over a run without a comma outside its brackets. -/
theorem partsFrom_solid {run : List PlacedToken} (h : Solid run) (endLine : Line)
    (part rest : List PlacedToken) :
    partsFrom endLine 0 part (run ++ rest) = partsFrom endLine 0 (run.reverse ++ part) rest := by
  induction h generalizing part rest with
  | nil => rfl
  | other opens closes comma _ ih =>
    rw [List.cons_append, partsFrom_cons_other opens closes (.inl comma), ih, List.reverse_cons,
      List.append_assoc, List.singleton_append]
  | bracket opens inside closes _ ih =>
    rw [List.cons_append, partsFrom_cons_opens opens, List.append_assoc, partsFrom_nested inside,
      List.cons_append, partsFrom_cons_closes closes, Nat.add_sub_cancel, ih]
    simp

/-- A run without such a comma is its own only part. -/
theorem partsFrom_solid_end {run : List PlacedToken} (h : Solid run) (nonempty : run ≠ [])
    (endLine : Line) : partsFrom endLine 0 [] run = .ok [run] := by
  have walk := partsFrom_solid h endLine [] []
  rw [List.append_nil] at walk
  rw [walk, List.append_nil, partsFrom, if_neg (by simpa using nonempty), List.reverse_reverse]

/-- A comma after such a run ends a part, which may not be empty. -/
theorem partsFrom_solid_comma {run : List PlacedToken} (h : Solid run) {comma : PlacedToken}
    (isComma : comma.token.isComma = true) (endLine : Line) (rest : List PlacedToken) :
    partsFrom endLine 0 [] (run ++ comma :: rest) =
      if run = [] then .error (.unexpectedToken "," comma.line)
      else (partsFrom endLine 0 [] rest).map (run :: ·) := by
  rw [partsFrom_solid h, List.append_nil, partsFrom]
  simp only [opens?_of_isComma isComma, closes?_of_isComma isComma, isComma, Option.isSome_none,
    Bool.false_eq_true, if_false, Bool.true_and, beq_self_eq_true, if_true,
    List.reverse_eq_nil_iff, List.reverse_reverse]
  cases partsFrom endLine 0 [] rest <;> rfl

theorem partsFrom_of_joined {ts : List PlacedToken} {parts : List (List PlacedToken)}
    (h : Joined ts parts) (solid : ∀ part ∈ parts, Solid part) (endLine : Line) :
    partsFrom endLine 0 [] ts = .ok parts := by
  induction h with
  | last nonempty => exact partsFrom_solid_end (solid _ List.mem_cons_self) nonempty endLine
  | @cons part rest comma parts nonempty isComma _ ih =>
    rw [partsFrom_solid_comma (solid part List.mem_cons_self) isComma, if_neg nonempty,
      ih fun p hp => solid p (List.mem_cons_of_mem _ hp)]
    rfl

theorem joined_of_partsFrom {endLine : Line} {depth : Nat} {part ts : List PlacedToken}
    {parts : List (List PlacedToken)} (h : partsFrom endLine depth part ts = .ok parts) :
    Joined (part.reverse ++ ts) parts := by
  induction ts generalizing depth part parts with
  | nil =>
    rw [partsFrom] at h
    split_ifs at h with empty
    injection h with h
    subst h
    rw [List.append_nil]
    exact .last (by simpa using empty)
  | cons t rest ih =>
    have moved : part.reverse ++ t :: rest = (t :: part).reverse ++ rest := by simp
    rw [partsFrom] at h
    split_ifs at h with opens closes comma empty
    · rw [moved]; exact ih h
    · rw [moved]; exact ih h
    · cases tail : partsFrom endLine 0 [] rest with
      | error e => rw [tail] at h; exact absurd h (by simp [bind, Except.bind])
      | ok later =>
        rw [tail] at h
        injection h with h
        subst h
        rw [Bool.and_eq_true] at comma
        exact .cons (by simpa using empty) comma.1 (ih tail)
    · rw [moved]; exact ih h

theorem splitTopLevel_of_joined {ts : List PlacedToken} {parts : List (List PlacedToken)}
    (h : Joined ts parts) (solid : ∀ part ∈ parts, Solid part) : splitTopLevel ts = .ok parts := by
  rw [splitTopLevel, if_neg h.ne_nil]
  exact partsFrom_of_joined h solid _

theorem joined_of_splitTopLevel {ts : List PlacedToken} {parts : List (List PlacedToken)}
    (h : splitTopLevel ts = .ok parts) : ts = [] ∧ parts = [] ∨ Joined ts parts := by
  rw [splitTopLevel] at h
  split_ifs at h with empty
  · injection h with h
    exact .inl ⟨empty, h.symm⟩
  · exact .inr (joined_of_partsFrom h)

end Scriptlet.Bracket
