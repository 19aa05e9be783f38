import LogMining.Token.Basic

/-!
# Merging the tokens of one word

When the words of a slot are shortened, some of them may become equal. `mergeDuplicates` leaves one
token per word, which counts for all of them, and puts the tokens in the code-point order of their
words. The sort is stable, so the token that stays has the flags of the one that came first.
-/

namespace LogMining.Token

def consMerging (t : Token) : List Token → List Token
  | [] => [t]
  | u :: rest =>
    if t.word = u.word then { t with occurs := t.occurs + u.occurs } :: rest else t :: u :: rest

def mergeRuns (tokens : List Token) : List Token := tokens.foldr consMerging []

/-- Sorts tokens by their words and leaves one token per word. -/
def mergeDuplicates (tokens : List Token) : List Token :=
  mergeRuns (tokens.mergeSort fun t u => decide (t.word ≤ u.word))

@[simp] theorem mergeRuns_nil : mergeRuns [] = [] := rfl

theorem mergeRuns_cons (t : Token) (tokens : List Token) :
    mergeRuns (t :: tokens) = consMerging t (mergeRuns tokens) := rfl

end LogMining.Token
