import Scriptlet.Proofs.Session.Isolation
import Scriptlet.Proofs.Token.Places

/-!
# Lines of submissions

A session counts the lines of each chunk that is submitted, and the lexer counts the ends of lines
in front of each token of one. Together they number the lines of the text that the chunks make when
each of them ends its last line, whatever has become of the chunks before.
-/

namespace Scriptlet.Session

open Scriptlet.Lexer (Stands StandingToken exists_stands_of_tokenize)

variable {config : Config} {s u : Session} {log : FileLog} {chunks before : List String}
  {chunk : String}

/-! ## The text of some chunks -/

/-- The text of a chunk with an end of its last line. -/
def ended (chunk : String) : List Char :=
  if chunk.toList.getLast? = some '\n' then chunk.toList else chunk.toList ++ ['\n']

/-- Whether a chunk that is submitted feeds a token after some others: the reader has accepted the
tokens before it, and no statement that they complete has ended the submission. -/
def Feeds (s : Session) (chunk : String) (pre : List PlacedToken) (t : PlacedToken) : Prop :=
  ∃ post log r reported m, Lexer.tokenize chunk s.nextLine = .ok (pre ++ t :: post) ∧
    Submits s.setting s.nextLine s.machine log s.reader [] pre ⟨r, reported, none⟩ m

end Scriptlet.Session
