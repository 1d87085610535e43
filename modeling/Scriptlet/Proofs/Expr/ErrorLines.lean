import Scriptlet.Proofs.Expr.Reading

/-!
# The lines of errors of the builder

What cannot be built is refused on the line of one of the tokens. There is one exception: a run
without tokens has no line, and the end of the input in it is reported on line zero. The builder
comes to such a run only where a bracket closes in the place of an operand (`isHollow`).
-/

namespace Scriptlet

/-- Whether an operand ends with a token, where `after` is whether one ended before it. -/
def Token.endsOperand (after : Bool) : Token → Bool
  | .symbol s => after && s.isTrailing
  | .name _ | .mark .rightParen | .mark .rightBracket => true
  | t => t.isLiteral

/-- Whether an operand belongs after a token, where `after` is whether one ended before it:
a parenthesis that calls nothing, a bracket of an index, a semicolon in a header. -/
def Token.asksOperand (after : Bool) : Token → Bool
  | .mark .leftParen => !after
  | .mark .leftBracket => after
  | .mark .semicolon => true
  | _ => false

/-- Whether a bracket closes somewhere in a run where an operand belongs, where `after` is whether
an operand ended before the run. -/
def isHollow : (after : Bool) → List PlacedToken → Bool
  | after, t :: u :: rest => (t.token.asksOperand after && u.token.closes?.isSome) ||
      isHollow (t.token.endsOperand after) (u :: rest)
  | _, _ => false

/-- Whether an operand has ended after a run. -/
def endsAfter (after : Bool) (ts : List PlacedToken) : Bool :=
  ts.foldl (fun after t => t.token.endsOperand after) after

section

variable {after : Bool} {t : PlacedToken} {ts us : List PlacedToken}

@[simp] theorem endsAfter_nil : endsAfter after [] = after := rfl

@[simp] theorem endsAfter_cons :
    endsAfter after (t :: ts) = endsAfter (t.token.endsOperand after) ts := rfl

@[simp] theorem endsAfter_append :
    endsAfter after (ts ++ us) = endsAfter (endsAfter after ts) us := List.foldl_append

theorem isHollow_cons (h : isHollow (t.token.endsOperand after) ts = true) :
    isHollow after (t :: ts) = true := by
  cases ts with
  | nil => cases h
  | cons u rest => simp [isHollow, h]

theorem isHollow_append_left (h : isHollow after ts = true) :
    isHollow after (ts ++ us) = true := by
  fun_induction isHollow after ts with
  | case1 after t u rest ih =>
    rcases Bool.or_eq_true_iff.1 h with here | later
    · simp [isHollow, here]
    · exact isHollow_cons (ih later)
  | case2 => cases h

theorem isHollow_append_right (h : isHollow (endsAfter after ts) us = true) :
    isHollow after (ts ++ us) = true := by
  induction ts generalizing after with
  | nil => exact h
  | cons t ts ih => exact isHollow_cons (ih h)

theorem endsOperand_of_opens? {b : Bracket} (opens : t.token.opens? = some b) :
    t.token.endsOperand after = false := by
  unfold Token.opens? at opens
  split at opens
  · next same =>
    rw [same]
    rfl
  · next same =>
    rw [same]
    rfl
  · cases opens

theorem endsOperand_of_closes? {b : Bracket} (closes : t.token.closes? = some b) :
    t.token.endsOperand after = true := by
  unfold Token.closes? at closes
  split at closes
  · next same =>
    rw [same]
    rfl
  · next same =>
    rw [same]
    rfl
  · cases closes

theorem endsOperand_of_isComma (comma : t.token.isComma = true) :
    t.token.endsOperand after = false := by
  rw [of_decide_eq_true comma]
  rfl

theorem endsOperand_of_isBinary {s : Symbol} (binary : s.isBinary = true) :
    (Token.symbol s).endsOperand after = false := by
  have step : s.isTrailing = false := by
    cases s with
    | increment | decrement => cases binary
    | _ => rfl
  rw [Token.endsOperand, step, Bool.and_false]

theorem endsOperand_of_literal? {t : Token} {c : Constant} (literal : Expr.literal? t = some c) :
    t.endsOperand after = true := by
  cases t with
  | int | float | string | bool => rfl
  | keyword word =>
    cases word with
    | nullWord => rfl
    | _ => cases literal
  | _ => cases literal

end

/-- An operand has ended after the tokens that read as one. -/
theorem Expr.endsAfter_of_reads {p : Phrase} {ts : List PlacedToken} (h : Reads p ts) :
    match p with
    | .operand _ => endsAfter false ts = true
    | .operators _ _ | .trailing _ _ => endsAfter true ts = true
    | .expr _ | .arguments _ | .items _ => True := by
  induction h with
  | expr | none | some | last | more => trivial
  | done | plain => rfl
  | operator binary _ _ right later =>
    dsimp only at right later ⊢
    rw [endsAfter_cons, endsOperand_of_isBinary binary, endsAfter_append, right]
    exact later
  | leading _ _ inner => exact inner
  | literal literal _ later =>
    dsimp only at later ⊢
    rw [endsAfter_cons, endsOperand_of_literal? literal]
    exact later
  | define _ later | named _ _ later | member _ _ later => exact later
  | call _ _ _ later | group _ _ _ later | list _ _ _ later | apply _ _ _ later
  | index _ _ _ later | memberCall _ _ _ later =>
    dsimp only at later ⊢
    simp only [endsAfter_cons, endsAfter_append]
    exact later
  | step trailing _ later =>
    dsimp only at later ⊢
    rw [endsAfter_cons, Token.endsOperand, trailing]
    exact later

/-- What may be said of the tokens of a script. -/
structure Survey where
  /-- The lines that they are on. -/
  line : Line → Prop
  /-- Whether a bracket closes where an operand belongs. -/
  hollow : Prop

namespace Survey

/-- Whether an error names one of the lines, or none where nothing stands between brackets. -/
def Names (S : Survey) (e : SyntaxError) : Prop := S.line e.line ∨ e = .unexpectedEnd 0 ∧ S.hollow

/-- Whether the error of a step, if there is one, names a line. -/
def Refuses {α : Type} (S : Survey) (r : Except SyntaxError α) : Prop :=
  ∀ e, r = .error e → S.Names e

/-- Whether the survey holds of a run without imports, where `after` is whether an operand ended
before it. -/
structure Covers (S : Survey) (after : Bool) (ts : List PlacedToken) : Prop where
  line : ∀ t ∈ ts, S.line t.line
  hollow : isHollow after ts = true → S.hollow
  noImport : ∀ t ∈ ts, t.token ≠ .keyword .importWord

variable {S : Survey} {α β : Type} {ts us : List PlacedToken} {t u : PlacedToken} {after : Bool}

theorem covers_nil : S.Covers after [] := by
  refine ⟨fun t never => ?_, fun never => ?_, fun t never => ?_⟩ <;> cases never

theorem Covers.left (covers : S.Covers after (ts ++ us)) : S.Covers after ts where
  line t member := covers.line t (List.mem_append_left _ member)
  hollow hollow := covers.hollow (isHollow_append_left hollow)
  noImport t member := covers.noImport t (List.mem_append_left _ member)

theorem Covers.right (covers : S.Covers after (ts ++ us)) : S.Covers (endsAfter after ts) us where
  line t member := covers.line t (List.mem_append_right _ member)
  hollow hollow := covers.hollow (isHollow_append_right hollow)
  noImport t member := covers.noImport t (List.mem_append_right _ member)

theorem Covers.tail (covers : S.Covers after (t :: ts)) :
    S.Covers (t.token.endsOperand after) ts := by
  rw [← List.singleton_append] at covers
  exact covers.right

theorem Covers.next (covers : S.Covers after (t :: ts)) {b : Bool}
    (ends : t.token.endsOperand after = b) : S.Covers b ts := ends ▸ covers.tail

theorem Covers.beyond (covers : S.Covers after (ts ++ us)) {b : Bool}
    (ends : endsAfter after ts = b) : S.Covers b us := ends ▸ covers.right

theorem Covers.head (covers : S.Covers after (t :: ts)) : S.line t.line :=
  covers.line t List.mem_cons_self

/-- A token before others that is not one of those after which an operand belongs. -/
theorem Covers.before {b : Bool} (covers : S.Covers b ts) (here : S.line u.line)
    (asks : u.token.asksOperand after = false) (noImport : u.token ≠ .keyword .importWord)
    (ends : u.token.endsOperand after = b) : S.Covers after (u :: ts) where
  line t member := by
    rcases List.mem_cons.1 member with rfl | member
    · exact here
    · exact covers.line t member
  hollow h := by
    subst ends
    cases ts with
    | nil => cases h
    | cons v rest => exact covers.hollow (by simpa [isHollow, asks] using h)
  noImport t member := by
    rcases List.mem_cons.1 member with rfl | member
    · exact noImport
    · exact covers.noImport t member

/-- Nothing stands between two tokens that follow one another. -/
theorem Covers.hollow_of_adjacent (covers : S.Covers after (t :: u :: ts))
    (asks : t.token.asksOperand after = true) (closes : u.token.closes?.isSome = true) :
    S.hollow :=
  covers.hollow (by simp [isHollow, asks, closes])

/-! ## Steps that may fail -/

theorem refuses_ok (a : α) : S.Refuses (.ok a) := by
  intro e never
  cases never

theorem refuses_error {e : SyntaxError} (names : S.Names e) : S.Refuses (.error e : Except _ α) := by
  intro f same
  cases same
  exact names

/-- An error on one of the lines. -/
theorem refuses_here {e : SyntaxError} (here : S.line e.line) :
    S.Refuses (.error e : Except _ α) := refuses_error (.inl here)

theorem Refuses.bind {x : Except SyntaxError α} {next : α → Except SyntaxError β}
    (first : S.Refuses x) (later : ∀ a, x = .ok a → S.Refuses (next a)) :
    S.Refuses (x >>= next) := by
  intro e fails
  rcases bind_eq_error_iff.1 fails with fails | ⟨a, found, fails⟩
  · exact first e fails
  · exact later a found e fails

theorem refuses_mapM {f : α → Except SyntaxError β} {items : List α}
    (each : ∀ a ∈ items, S.Refuses (f a)) : S.Refuses (items.mapM f) := by
  induction items with
  | nil => exact refuses_ok _
  | cons a rest ih =>
    rw [List.mapM_cons]
    refine (each a List.mem_cons_self).bind fun b _ => ?_
    refine (ih fun a member => each a (List.mem_cons_of_mem _ member)).bind fun bs _ => ?_
    exact refuses_ok _

/-! ## Brackets -/

open Scriptlet.Bracket

theorem Covers.line_lastLine (covers : S.Covers after ts) (some : ts ≠ []) : S.line (lastLine ts) := by
  rw [lastLine, List.getLast?_eq_some_getLast some]
  exact covers.line _ (List.getLast_mem some)

theorem refuses_closingFrom {endLine : Line} (ends : S.line endLine)
    (on : ∀ t ∈ ts, S.line t.line) (index : Nat) (opened : List Bracket) :
    S.Refuses (closingFrom endLine index opened ts) := by
  induction ts generalizing index opened with
  | nil =>
    rw [closingFrom]
    exact refuses_here ends
  | cons t rest ih =>
    have here := on t List.mem_cons_self
    have later := ih fun u member => on u (List.mem_cons_of_mem _ member)
    unfold closingFrom
    split
    · exact later _ _
    · exact later _ _
    · exact refuses_here here
    · split
      · split
        · exact refuses_ok _
        · exact later _ _
      · exact refuses_here here

/-- What is done with the tokens between two brackets and those after them. -/
theorem refuses_group {b : Bracket} (covers : S.Covers after (t :: ts))
    (opens : t.token.opens? = some b)
    {next : List PlacedToken × List PlacedToken → Except SyntaxError α}
    (go : ∀ inside rest, S.Covers false inside → S.Covers true rest →
      (t.token.asksOperand after = true → inside = [] → S.hollow) →
      inside.length + rest.length < ts.length → S.Refuses (next (inside, rest))) :
    S.Refuses (group (t :: ts) >>= next) := by
  have search : S.Refuses (group (t :: ts)) := by
    have ends := covers.line_lastLine (List.cons_ne_nil t ts)
    have finds := refuses_closingFrom ends (fun u member => covers.line u member) 0 []
    exact finds.bind fun _ _ => refuses_ok _
  refine search.bind fun split found => ?_
  obtain ⟨inside, rest⟩ := split
  obtain ⟨c, closes, -, rfl⟩ := (group_eq_ok_iff opens).1 found
  have within := covers.next (endsOperand_of_opens? opens)
  have beyond := within.right.next (endsOperand_of_closes? closes)
  refine go inside rest within.left beyond (fun asks empty => ?_) (by simp)
  subst empty
  exact covers.hollow_of_adjacent asks (by rw [closes]; rfl)

theorem refuses_partsFrom {endLine : Line} (ends : S.line endLine) (on : ∀ t ∈ ts, S.line t.line)
    (depth : Nat) (part : List PlacedToken) : S.Refuses (partsFrom endLine depth part ts) := by
  induction ts generalizing depth part with
  | nil =>
    rw [partsFrom]
    split
    · exact refuses_here ends
    · exact refuses_ok _
  | cons t rest ih =>
    have here := on t List.mem_cons_self
    have later := ih fun u member => on u (List.mem_cons_of_mem _ member)
    rw [partsFrom]
    split
    · exact later _ _
    · split
      · exact later _ _
      · split
        · split
          · exact refuses_here here
          · exact (later _ _).bind fun _ _ => refuses_ok _
        · exact later _ _

theorem refuses_splitTopLevel (covers : S.Covers after ts) : S.Refuses (splitTopLevel ts) := by
  unfold splitTopLevel
  split
  · exact refuses_ok _
  · rename_i some
    exact refuses_partsFrom (covers.line_lastLine some) covers.line 0 []

/-- The survey holds of the parts of a run, and there is something in each. -/
theorem Covers.of_joined {parts : List (List PlacedToken)} (joined : Joined ts parts)
    (covers : S.Covers false ts) :
    ∀ part ∈ parts, part ≠ [] ∧ part.length ≤ ts.length ∧ S.Covers false part := by
  induction joined with
  | last some =>
    intro part member
    rw [List.mem_singleton.1 member]
    exact ⟨some, Nat.le_refl _, covers⟩
  | cons some comma _ ih =>
    intro part member
    rcases List.mem_cons.1 member with rfl | member
    · exact ⟨some, by simp, covers.left⟩
    · have later := covers.right.next (endsOperand_of_isComma comma)
      obtain ⟨some, shorter, here⟩ := ih later part member
      refine ⟨some, ?_, here⟩
      rw [List.length_append, List.length_cons]
      omega

/-! ## The builder -/

open Scriptlet.Expr

/-- What holds of the errors of the builder in some number of steps. -/
structure Blames (S : Survey) (fuel : Nat) : Prop where
  build : ∀ {ts}, S.Covers false ts → (ts = [] → S.hollow) → 3 * ts.length + 3 ≤ fuel →
    S.Refuses (Expr.build fuel ts)
  operators : ∀ {endLine ts}, S.line endLine → S.Covers true ts → ∀ tree, 3 * ts.length + 1 ≤ fuel →
    S.Refuses (Expr.operators fuel endLine tree ts)
  operand : ∀ {endLine ts}, S.line endLine → S.Covers false ts → 3 * ts.length + 2 ≤ fuel →
    S.Refuses (Expr.operand fuel endLine ts)
  trailing : ∀ {ts}, S.Covers true ts → ∀ tree, 3 * ts.length + 1 ≤ fuel →
    S.Refuses (Expr.trailing fuel tree ts)
  parts : ∀ {ts}, S.Covers false ts → 3 * ts.length + 4 ≤ fuel → S.Refuses (Expr.parts fuel ts)

namespace Blames

variable {fuel : Nat} {endLine : Line} {tree : Expr} (blames : S.Blames fuel)
include blames

/-- Nothing can be built of no tokens. -/
theorem build_succ (covers : S.Covers false ts) (some : ts = [] → S.hollow)
    (enough : 3 * ts.length + 3 ≤ fuel + 1) : S.Refuses (Expr.build (fuel + 1) ts) := by
  rw [Expr.build]
  by_cases empty : ts = []
  · subst empty
    have last : Expr.operand fuel (lastLine []) [] = .error (.unexpectedEnd 0) := by
      cases fuel with
      | zero => rw [Expr.operand]
      | succ fuel =>
        rw [Expr.operand]
        rfl
    rw [last]
    exact refuses_error (.inr ⟨rfl, some rfl⟩)
  · have ends := covers.line_lastLine empty
    refine (blames.operand ends covers (by omega)).bind fun result read => ?_
    obtain ⟨first, rest⟩ := result
    obtain ⟨used, rfl, reads, -⟩ := (sound fuel).operand read
    have later := covers.beyond (endsAfter_of_reads reads)
    exact blames.operators ends later first (by simp at enough; omega)

theorem operators_succ (ends : S.line endLine) (covers : S.Covers true ts) (tree : Expr)
    (enough : 3 * ts.length + 1 ≤ fuel + 1) :
    S.Refuses (Expr.operators (fuel + 1) endLine tree ts) := by
  cases ts with
  | nil =>
    rw [Expr.operators]
    exact refuses_ok _
  | cons t rest =>
    rw [List.length_cons] at enough
    unfold Expr.operators
    split
    · rename_i s isSymbol
      split
      · rename_i binary
        have after := covers.next (b := false) (by rw [isSymbol]; exact endsOperand_of_isBinary binary)
        refine (blames.operand ends after (by omega)).bind fun result read => ?_
        obtain ⟨right, rest⟩ := result
        obtain ⟨used, rfl, reads, -⟩ := (sound fuel).operand read
        rw [List.length_append] at enough
        exact blames.operators ends (after.beyond (endsAfter_of_reads reads)) _ (by omega)
      · exact refuses_here covers.head
    · split
      · exact refuses_here covers.head
      · exact refuses_here covers.head

/-- Arguments between parentheses, and what trails the call. -/
theorem called {o : PlacedToken} {b : Bracket} (covers : S.Covers after (o :: ts))
    (opens : o.token.opens? = some b) (enough : 3 * ts.length + 1 ≤ fuel) (tree : List Expr → Expr) :
    S.Refuses (do
      let (inside, rest) ← group (o :: ts)
      let arguments ← Expr.parts fuel inside
      Expr.trailing fuel (tree arguments) rest) := by
  refine refuses_group covers opens fun inside rest within after _ shorter => ?_
  exact (blames.parts within (by omega)).bind fun es _ => blames.trailing after _ (by omega)

/-- An expression between brackets, and what trails it. -/
theorem enclosed {o : PlacedToken} {b : Bracket} (covers : S.Covers after (o :: ts))
    (opens : o.token.opens? = some b) (asks : o.token.asksOperand after = true) (enough : 3 * ts.length + 1 ≤ fuel) (tree : Expr → Expr) :
    S.Refuses (do
      let (inside, rest) ← group (o :: ts)
      let e ← Expr.build fuel inside
      Expr.trailing fuel (tree e) rest) := by
  refine refuses_group covers opens fun inside rest within after some shorter => ?_
  exact (blames.build within (some asks) (by omega)).bind fun e _ => blames.trailing after _ (by omega)

theorem trailing_succ (covers : S.Covers true ts) (tree : Expr)
    (enough : 3 * ts.length + 1 ≤ fuel + 1) : S.Refuses (Expr.trailing (fuel + 1) tree ts) := by
  cases ts with
  | nil =>
    rw [Expr.trailing]
    exact refuses_ok _
  | cons t rest =>
    rw [List.length_cons] at enough
    unfold Expr.trailing
    split
    · rename_i opens
      exact blames.called covers (by rw [opens]; rfl) (by omega) _
    · rename_i opens
      exact blames.enclosed covers (by rw [opens]; rfl) (by rw [opens]; rfl) (by omega) _
    · split
      · rename_i name l rest
        rw [List.length_cons] at enough
        split
        · rename_i l' rest
          rw [List.length_cons] at enough
          have opens : (PlacedToken.mk (.mark .leftParen) l').token.opens? = some .round := rfl
          exact blames.called covers.tail.tail opens (by omega) _
        · exact blames.trailing covers.tail.tail _ (by omega)
      · exact refuses_here covers.tail.head
      · exact refuses_here covers.head
    · rename_i s isSymbol
      split
      · rename_i trails
        exact blames.trailing (covers.next (by rw [isSymbol]; exact trails)) _ (by omega)
      · exact refuses_ok _
    · exact refuses_ok _

theorem operand_succ (ends : S.line endLine) (covers : S.Covers false ts)
    (enough : 3 * ts.length + 2 ≤ fuel + 1) : S.Refuses (Expr.operand (fuel + 1) endLine ts) := by
  cases ts with
  | nil =>
    rw [Expr.operand]
    exact refuses_here ends
  | cons t rest =>
    rw [List.length_cons] at enough
    unfold Expr.operand
    split
    · rename_i s isSymbol
      split
      · have after := covers.next (b := false) (by rw [isSymbol]; rfl)
        exact (blames.operand ends after (by omega)).bind fun _ _ => refuses_ok _
      · exact refuses_here covers.head
    · split
      · rw [List.length_cons] at enough
        exact blames.trailing covers.tail.tail _ (by omega)
      · exact refuses_here covers.tail.head
      · exact refuses_here covers.head
    · rename_i name isName
      split
      · rename_i l' rest
        rw [List.length_cons] at enough
        have opens : (PlacedToken.mk (.mark .leftParen) l').token.opens? = some .round := rfl
        exact blames.called covers.tail opens (by omega) _
      · exact blames.trailing (covers.next (by rw [isName]; rfl)) _ (by omega)
    · rename_i opens
      exact blames.enclosed covers (by rw [opens]; rfl) (by rw [opens]; rfl) (by omega) _
    · rename_i opens
      exact blames.called covers (by rw [opens]; rfl) (by omega) _
    · split
      · rename_i literal
        exact blames.trailing (covers.next (endsOperand_of_literal? literal)) _ (by omega)
      · exact refuses_here covers.head

theorem parts_succ (covers : S.Covers false ts) (enough : 3 * ts.length + 4 ≤ fuel + 1) :
    S.Refuses (Expr.parts (fuel + 1) ts) := by
  rw [Expr.parts]
  refine (refuses_splitTopLevel covers).bind fun runs found => ?_
  rcases joined_of_splitTopLevel found with ⟨-, rfl⟩ | joined
  · exact refuses_ok _
  · refine refuses_mapM fun run member => ?_
    obtain ⟨some, shorter, here⟩ := covers.of_joined joined run member
    exact blames.build here (fun empty => absurd empty some) (by omega)

end Blames

theorem blames (S : Survey) (fuel : Nat) : S.Blames fuel := by
  induction fuel with
  | zero =>
    refine ⟨fun _ _ enough => ?_, fun _ _ _ enough => ?_, fun _ _ enough => ?_,
      fun _ _ enough => ?_, fun _ enough => ?_⟩ <;> omega
  | succ fuel ih =>
    exact ⟨ih.build_succ, ih.operators_succ, ih.operand_succ, ih.trailing_succ, ih.parts_succ⟩

/-- What cannot be built is refused on the line of one of its tokens. -/
theorem refuses_ofTokens (covers : S.Covers false ts) (some : ts = [] → S.hollow) :
    S.Refuses (ofTokens ts) := (S.blames _).build covers some (Nat.le_refl _)

end Survey

end Scriptlet
