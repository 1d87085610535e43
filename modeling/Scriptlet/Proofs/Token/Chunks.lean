import Mathlib.Data.List.Basic
import Scriptlet.Proofs.Token.Scanning

/-!
# The tokens of a text in chunks

A text that is cut after ends of lines has the tokens of its chunks, one after another and with the
same lines, but for one thing: whether a minus that touches a number is its sign depends on the
token before. A chunk is cut into tokens as if there was none.
-/

namespace Scriptlet.Lexer

variable {text tail : List Char} {line : Line} {previous : Option Token}
  {failure : Option SyntaxError} {ts us : List PlacedToken} {ls : List Lexeme}

/-! ## The token before -/

/-- The last token of a run that follows another token, or nothing. -/
def lastToken (previous : Option Token) (ts : List PlacedToken) : Option Token :=
  (ts.getLast?.map (·.token)).or previous

theorem lastToken_cons (t : PlacedToken) :
    lastToken previous (t :: ts) = lastToken (some t.token) ts := by
  cases ts with
  | nil => rfl
  | cons u us =>
    have some := List.getLast?_eq_some_getLast (List.cons_ne_nil u us)
    simp [lastToken, List.getLast?_cons_cons, some]

theorem lastToken_append : lastToken previous (ts ++ us) = lastToken (lastToken previous ts) us := by
  induction ts generalizing previous with
  | nil => rfl
  | cons t ts ih => rw [List.cons_append, lastToken_cons, ih, lastToken_cons]

/-! ## Joining pieces -/

theorem join_error (e : SyntaxError) (previous : Option Token) (ls : List Lexeme) :
    ∃ e', join (some e) previous ls = .error e' := by
  fun_induction join (some e) previous ls with
  | case1 => exact ⟨e, rfl⟩
  | case2 previous l next rest number signed ih =>
    cases number with
    | error e' => exact ⟨e', rfl⟩
    | ok t =>
      obtain ⟨e', same⟩ := ih t
      exact ⟨e', by rw [ok_bind, same]; rfl⟩
  | case3 previous l next rest plain ih =>
    cases l.plain with
    | error e' => exact ⟨e', rfl⟩
    | ok t =>
      obtain ⟨e', same⟩ := ih t
      exact ⟨e', by rw [ok_bind, same]; rfl⟩
  | case4 previous l =>
    cases l.plain with
    | error e' => exact ⟨e', rfl⟩
    | ok t => exact ⟨e, rfl⟩

theorem negative?_of_apart {l : Lexeme} (apart : l.glued = false) : l.negative? = none := by
  rw [Lexeme.negative?, apart]

/-- A piece and the one after it are joined only if they are a minus and a number that touches it. -/
theorem signedNumber?_eq_none {l next : Lexeme}
    (apart : l.isMinus = true → next.negative? = none) : signedNumber? previous l next = none := by
  unfold signedNumber?
  split
  · next both => exact apart (Bool.and_eq_true_iff.1 both).1
  · rfl

theorem signedNumber?_eq_some {l next : Lexeme} {number : Except SyntaxError Token}
    (signed : signedNumber? previous l next = some number) :
    l.isMinus = true ∧ takesSign previous = true ∧ next.negative? = some number := by
  unfold signedNumber? at signed
  split at signed
  · next both =>
    obtain ⟨minus, takes⟩ := Bool.and_eq_true_iff.1 both
    exact ⟨minus, takes, signed⟩
  · cases signed

/-- Pieces are joined separately, but for the token before, if no number after a minus starts the
second part. -/
theorem join_append {ls' : List Lexeme}
    (apart : ∀ m ∈ ls.getLast?, m.isMinus = true → ∀ l ∈ ls'.head?, l.negative? = none) :
    join failure previous (ls ++ ls') = (do
      let ts ← join none previous ls
      let us ← join failure (lastToken previous ts) ls'
      return ts ++ us) := by
  fun_induction join none previous ls with
  | case1 previous =>
    show join failure previous ls' = (do
      let us ← join failure previous ls'
      return [] ++ us)
    cases join failure previous ls' <;> rfl
  | case2 previous l next rest number signed ih =>
    obtain ⟨-, -, negative⟩ := signedNumber?_eq_some signed
    have apart' : ∀ m ∈ rest.getLast?, m.isMinus = true → ∀ l ∈ ls'.head?, l.negative? = none :=
      fun m last => apart m (List.mem_getLast?_cons (List.mem_getLast?_cons last))
    rw [List.cons_append, List.cons_append, join, signed]
    simp only [ih _ apart', bind_assoc, pure_bind, lastToken_cons, List.cons_append]
  | case3 previous l next rest plain ih =>
    have apart' : ∀ m ∈ (next :: rest).getLast?, m.isMinus = true →
        ∀ l ∈ ls'.head?, l.negative? = none := by
      rwa [List.getLast?_cons_cons] at apart
    rw [List.cons_append, List.cons_append, join, plain]
    simp only [← List.cons_append, ih _ apart', bind_assoc, pure_bind, lastToken_cons]
  | case4 previous l =>
    cases ls' with
    | nil =>
      simp only [List.append_nil, join]
      cases l.plain with
      | error e => rfl
      | ok t => cases failure <;> rfl
    | cons next rest =>
      have plain : signedNumber? previous l next = none :=
        signedNumber?_eq_none fun minus => apart l rfl minus next rfl
      rw [List.cons_append, List.nil_append, join, plain]
      cases l.plain <;> rfl

/-! ## Whole texts -/

/-- The tokens of a text after another token, or after nothing. -/
def tokensFrom (line : Line) (previous : Option Token) (text : List Char) :
    Except SyntaxError (List PlacedToken) :=
  let (lexemes, failure) := pieces text.length line false text
  join failure previous lexemes

theorem head_apart {n : Nat} {l : Lexeme} (head : l ∈ (pieces n line false text).1.head?) :
    l.glued = false := by
  induction n generalizing text line with
  | zero => cases head
  | succ n ih =>
    cases text with
    | nil => cases head
    | cons c rest =>
      cases found : scan c rest with
      | piece p later =>
        rw [pieces_of_piece n line false found] at head
        obtain rfl := Option.some.inj head
        rfl
      | blank later =>
        rw [pieces_of_blank n line false found] at head
        exact ih head
      | newline later =>
        rw [pieces_of_newline n line false found] at head
        exact ih head
      | fail e =>
        rw [pieces_of_fail n line false found] at head
        cases head

/-- The tokens of a text that is cut after the end of a line. -/
theorem tokensFrom_append (ends : EndsLine text) :
    tokensFrom line previous (text ++ tail) = (do
      let ts ← tokensFrom line previous text
      let us ← tokensFrom (line + text.count '\n') (lastToken previous ts) tail
      return ts ++ us) := by
  have whole : pieces (text ++ tail).length line false (text ++ tail) =
      followedBy (pieces text.length line false text)
        (pieces tail.length (line + text.count '\n') false tail) :=
    pieces_append (Nat.le_refl _) (Nat.le_refl _) (Nat.le_refl _) ends fun _ => rfl
  simp only [tokensFrom, whole]
  generalize pieces text.length line false text = first
  obtain ⟨ls, _ | e⟩ := first
  · exact join_append fun _ _ _ l head => negative?_of_apart (head_apart head)
  · obtain ⟨e', same⟩ := join_error e previous ls
    simp only [followedBy, same]
    rfl

/-- Whether pieces start with a minus that touches a number. -/
def opensSigned : List Lexeme → Bool
  | l :: next :: _ => l.isMinus && next.negative?.isSome
  | _ => false

/-- Whether a text starts with a minus that touches a number. -/
def StartsSigned (text : List Char) : Prop :=
  opensSigned (pieces text.length 1 false text).1 = true

theorem pieces_line (n : Nat) (line line' : Line) (glued : Bool) (text : List Char) :
    (pieces n line glued text).1.map (fun l => (l.piece, l.glued)) =
      (pieces n line' glued text).1.map fun l => (l.piece, l.glued) := by
  induction n generalizing text line line' glued with
  | zero => rfl
  | succ n ih =>
    cases text with
    | nil => rfl
    | cons c rest =>
      cases found : scan c rest with
      | piece p later =>
        rw [pieces_of_piece n line glued found, pieces_of_piece n line' glued found, List.map_cons,
          List.map_cons, ih line line' true later]
      | blank later =>
        rw [pieces_of_blank n line glued found, pieces_of_blank n line' glued found]
        exact ih line line' false later
      | newline later =>
        rw [pieces_of_newline n line glued found, pieces_of_newline n line' glued found]
        exact ih (line + 1) (line' + 1) false later
      | fail e => rw [pieces_of_fail n line glued found, pieces_of_fail n line' glued found]

theorem opensSigned_congr {ls ls' : List Lexeme}
    (same : ls.map (fun l => (l.piece, l.glued)) = ls'.map fun l => (l.piece, l.glued)) :
    opensSigned ls = opensSigned ls' := by
  match ls, ls' with
  | [], [] => rfl
  | [_], [_] => rfl
  | ⟨p, l, g⟩ :: ⟨p', l', g'⟩ :: _, ⟨q, k, f⟩ :: ⟨q', k', f'⟩ :: _ =>
    simp only [List.map_cons, List.cons.injEq, Prod.mk.injEq] at same
    obtain ⟨⟨rfl, rfl⟩, ⟨rfl, rfl⟩, -⟩ := same
    simp only [opensSigned, Lexeme.isMinus, Lexeme.negative?]
    congr 1
    split <;> rfl
  | [], _ :: _ | _ :: _, [] | [_], _ :: _ :: _ | _ :: _ :: _, [_] => simp at same

/-- The token before a text does not matter, unless the text starts with a minus that touches a
number and that is no sign after this token. -/
theorem tokensFrom_previous (agree : StartsSigned text → takesSign previous = true) :
    tokensFrom line previous text = tokensFrom line none text := by
  have signed : opensSigned (pieces text.length line false text).1 = true →
      takesSign previous = true := by
    rw [opensSigned_congr (pieces_line text.length line 1 false text)]
    exact agree
  simp only [tokensFrom]
  generalize pieces text.length line false text = found at signed
  obtain ⟨ls, failure⟩ := found
  match ls with
  | [] | [_] => rfl
  | l :: next :: rest =>
    have same : signedNumber? previous l next = signedNumber? none l next := by
      have free : takesSign none = true := rfl
      cases minus : l.isMinus with
      | false => simp [signedNumber?, minus]
      | true =>
        cases number : next.negative? with
        | none => simp [signedNumber?, number]
        | some t =>
          have takes : takesSign previous = true := signed (by simp [opensSigned, minus, number])
          simp [signedNumber?, takes, free]
    simp only [join, same]

/-! ## Chunks -/

/-- The tokens of each of some chunks, the first of which starts on a line. -/
inductive ChunkTokens : Line → List String → List (List PlacedToken) → Prop where
  | nil {line : Line} : ChunkTokens line [] []
  | cons {line : Line} {chunk : String} {chunks : List String} {ts : List PlacedToken}
      {tss : List (List PlacedToken)} : tokenize chunk line = .ok ts →
        ChunkTokens (line + max 1 (lines chunk.toList)) chunks tss →
          ChunkTokens line (chunk :: chunks) (ts :: tss)

/-- A text in chunks: each of them but the last one ends with the end of a line. -/
structure Cut (source : String) (chunks : List String) : Prop where
  whole : String.join chunks = source
  ends : ∀ chunk ∈ chunks.dropLast, chunk.toList.getLast? = some '\n'

/-- Whether no chunk starts with a minus that touches a number where the token before, in an earlier
chunk, makes the minus an operator. -/
def SignsAgree (chunks : List String) : Prop :=
  ∀ before chunk after, chunks = before ++ chunk :: after → StartsSigned chunk.toList →
    ∀ ts, tokenize (String.join before) 1 = .ok ts → takesSign (lastToken none ts) = true

theorem lines_of_ends (ends : text.getLast? = some '\n') : max 1 (lines text) = text.count '\n' := by
  have member : '\n' ∈ text := List.mem_of_getLast? ends
  have positive : 0 < text.count '\n' := List.count_pos_iff.2 member
  have same : lines text = text.count '\n' := by
    rw [lines, ends]
    rfl
  omega

theorem exists_chunkTokens_after {before chunks : List String} {ts us : List PlacedToken}
    (agree : SignsAgree (before ++ chunks)) (first : tokenize (String.join before) 1 = .ok ts)
    (line : EndsLine (String.join before).toList)
    (lexes : tokensFrom (1 + (String.join before).toList.count '\n') (lastToken none ts)
      (String.join chunks).toList = .ok us)
    (ends : ∀ chunk ∈ chunks.dropLast, chunk.toList.getLast? = some '\n') :
    ∃ tss, ChunkTokens (1 + (String.join before).toList.count '\n') chunks tss ∧
      tss.flatten = us := by
  induction chunks generalizing before ts us with
  | nil =>
    obtain rfl : [] = us := Except.ok.inj lexes
    exact ⟨[], .nil, rfl⟩
  | cons chunk rest ih =>
    have parts : (String.join (chunk :: rest)).toList =
        chunk.toList ++ (String.join rest).toList := by
      simp
    have done : (String.join (before ++ [chunk])).toList =
        (String.join before).toList ++ chunk.toList := by
      simp
    have agrees := agree before chunk rest rfl
    cases rest with
    | nil =>
      have last : (String.join [chunk]).toList = chunk.toList := by simp
      rw [last, tokensFrom_previous fun starts => agrees starts ts first] at lexes
      exact ⟨[us], .cons lexes .nil, List.append_nil us⟩
    | cons next rest =>
      have newline : chunk.toList.getLast? = some '\n' := ends chunk (by simp)
      have line' : EndsLine chunk.toList := by
        intro c last
        rw [newline] at last
        exact (Option.some.inj last).symm
      rw [parts, tokensFrom_append line'] at lexes
      obtain ⟨vs, now, lexes⟩ := bind_eq_ok_iff.1 lexes
      obtain ⟨ws, later, same⟩ := bind_eq_ok_iff.1 lexes
      obtain rfl := Except.ok.inj same
      have alone := now
      rw [tokensFrom_previous fun starts => agrees starts ts first] at alone
      have first' : tokenize (String.join (before ++ [chunk])) 1 = .ok (ts ++ vs) := by
        show tokensFrom 1 none _ = _
        rw [done, tokensFrom_append line]
        have first : tokensFrom 1 none (String.join before).toList = .ok ts := first
        rw [first, ok_bind, now]
        rfl
      have line'' : EndsLine (String.join (before ++ [chunk])).toList := by
        rw [done, EndsLine, List.getLast?_append, newline]
        intro c last
        exact (Option.some.inj last).symm
      have count : 1 + (String.join (before ++ [chunk])).toList.count '\n' =
          1 + (String.join before).toList.count '\n' + chunk.toList.count '\n' := by
        rw [done, List.count_append, Nat.add_assoc]
      obtain ⟨tss, chunked, rfl⟩ := @ih (before ++ [chunk]) (ts ++ vs) ws (by simpa using agree)
        first' line'' (by rw [count, lastToken_append]; exact later)
        fun c hc => ends c (by simp [List.dropLast, hc])
      rw [count, ← lines_of_ends newline] at chunked
      exact ⟨vs :: tss, .cons alone chunked, rfl⟩

/-- A text in chunks has the tokens of its chunks, with the same lines, if the signs at the starts of
the chunks agree. -/
theorem exists_chunkTokens {source : String} {chunks : List String} (cut : Cut source chunks)
    (agree : SignsAgree chunks) {ts : List PlacedToken} (lexes : tokenize source 1 = .ok ts) :
    ∃ tss, ChunkTokens 1 chunks tss ∧ tss.flatten = ts := by
  have whole : tokensFrom 1 none (String.join chunks).toList = .ok ts := by
    rw [cut.whole]
    exact lexes
  exact @exists_chunkTokens_after [] chunks [] ts agree rfl (by simp [EndsLine]) whole cut.ends

end Scriptlet.Lexer
