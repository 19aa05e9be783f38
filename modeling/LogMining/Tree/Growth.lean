import LogMining.Token.Source
import LogMining.Tree.Basic

/-!
# Growing the tree line by line

The tokens of a line go down the tree, each one below the node of the token before it. Among the
nodes there, the first one that holds the word counts it once more. Failing that, the first one that
is followed by the next word of the line takes the word as another value, since what goes on alike
is taken for the same slot. Otherwise the word becomes a new alternative, the last in the chain.

The source of the tokens is read one token ahead. When it fails, the token before the failure has
not been placed yet.
-/

namespace LogMining.Tree

/-- Where a word goes among the alternatives below a node. -/
inductive Placement where
  /-- It is counted once more at a node that holds it. -/
  | counted (id : NodeId)
  /-- It becomes another value of a node. -/
  | joined (id : NodeId)
  /-- It becomes a node of its own after the last alternative, if there is one. -/
  | opened (last : Option NodeId)
deriving DecidableEq, Repr

/-- The first node of a chain that passes a test, as far as it is reached by the given number of
links. What comes after it is not looked at. -/
def firstWithin (tree : Tree) (test : Node → Except Fault Bool) :
    Nat → Option NodeId → Except Fault (Option NodeId)
  | _, none => .ok none
  | 0, some _ => .error .endless
  | n + 1, some id => do
    let node ← tree.node id
    if ← test node then return some id else tree.firstWithin test n node.sibling

def firstAlong (tree : Tree) (test : Node → Except Fault Bool) (first : Option NodeId) :
    Except Fault (Option NodeId) :=
  tree.firstWithin test tree.linkLimit first

def isFollowedBy (tree : Tree) (word : String) (node : Node) : Except Fault Bool :=
  match node.child with
  | none => .ok false
  | some id => do return (← (← tree.node id).firstWord) == word

/-- The place for a word in the chain that begins at a node, if the given word follows it. -/
def placement (tree : Tree) (first : Option NodeId) (word : String) (next : Option String) :
    Except Fault Placement := do
  match ← tree.firstAlong (fun node => .ok (node.value? word).isSome) first with
  | some id => return .counted id
  | none =>
    match ← next.bindM fun next => tree.firstAlong (tree.isFollowedBy next) first with
    | some id => return .joined id
    | none => return .opened (← tree.chain first).getLast?

def countWord (word : String) : List Token → List Token
  | [] => []
  | t :: rest =>
    if t.word = word then { t with occurs := t.occurs + 1 } :: rest else t :: countWord word rest

def insertBelow (level : NodeId) (token : Token) (next : Option Token) : Step Tree NodeId := do
  let (n, above) ← Step.query (·.locate level)
  match ← Step.query (·.placement above.child token.word (next.map Token.word)) with
  | .counted id =>
    update id fun node => { node with values := countWord token.word node.values }
    return id
  | .joined id =>
    update id fun node => { node with values := node.values ++ [{ token with occurs := 1 }] }
    return id
  | .opened last =>
    let id ← create { values := [token], parent := some level }
    match last with
    | none => modify (setAt n fun node => { node with child := some id })
    | some last => update last fun node => { node with sibling := some id }
    return id

def endLine (id : NodeId) : Step Tree NodeId := do
  update id fun node => { node with lineEnds := node.lineEnds + 1 }
  return id

variable {σ : Type}

/-- Places tokens one below the other, each with the token that follows it, and ends the line at the
last one. `fault` and `last` tell how the source of the tokens ended. -/
def insertFrom (fault : Option Fault) (last : σ) (level : NodeId) :
    List (Token × σ) → Tree → EStateM.Result Fault (Tree × σ) NodeId
  | [], tree =>
    match fault with
    | none => Step.mapState (·, last) ((endLine level).run tree)
    | some fault => .error fault (tree, last)
  | (token, _) :: more, tree =>
    match more, fault with
    | [], some fault => .error fault (tree, last)
    | _, _ =>
      match (insertBelow level token (more.head?.map Prod.fst)).run tree with
      | .ok id tree => insertFrom fault last id more tree
      | .error fault tree => .error fault (tree, (more.head?.map Prod.snd).getD last)

def insertFeed (feed : Feed σ) (tree : Tree) : EStateM.Result Fault (Tree × σ) NodeId :=
  insertFrom feed.fault feed.last root feed.tokens tree

def insertTokens (tokens : List Token) : Step Tree NodeId := fun tree =>
  Step.mapState Prod.fst
    (insertFeed { tokens := tokens.map (·, ()), fault := none, last := () } tree)

/-- Inserts a line. Tokens that are pending already come before those of the line. -/
def insertLine (line : String) : Step (Tree × Pending) NodeId := fun (tree, pending) =>
  Step.mapState (fun (tree, source) => (tree, source.pending))
    (insertFeed (Source.ofLine (Line.maskDates line) pending).feed tree)

end LogMining.Tree
