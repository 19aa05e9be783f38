import LogMining.Proofs.Growth.Line

/-!
# Inserting several lines

A tree grows line by line from the empty one. `Slots.Grown` says which line ends of a node and which chain
below it the lines of a log make; the numbers of the slots that are opened are left open.
-/

namespace LogMining

def Tree.insertLines : List (List Token) → Step Tree Unit
  | [] => pure ()
  | tokens :: lines => do
    let _ ← Tree.insertTokens tokens
    insertLines lines

namespace Slots

/-- The line ends and the chain have grown from nothing by lines with these words, each of which counts
once. -/
inductive Grown : List (List String) → Int × Slots → Prop
  | empty : Grown [] (0, nil)
  | insert {lines : List (List String)} {p : Int × Slots} {tokens : List Token} (fresh : Nat)
      (hone : ∀ t ∈ tokens, t.occurs = 1) (h : Grown lines p) :
      Grown (lines ++ [tokens.map Token.word]) (grow true fresh tokens p)

end Slots

namespace Tree

variable {tree : Tree} {ends : Int} {below : Slots}

theorem run_insertLines (h : tree.Comprises ends below) (lines : List (List Token)) :
    ∃ tree' ends' below', (insertLines lines).run tree = .ok () tree' ∧
      tree'.Comprises ends' below' ∧
      ∀ done, (∀ line ∈ lines, ∀ t ∈ line, t.occurs = 1) → Slots.Grown done (ends, below) →
        Slots.Grown (done ++ lines.map fun line => line.map Token.word) (ends', below') := by
  induction lines generalizing tree ends below with
  | nil => exact ⟨tree, ends, below, rfl, h, fun done _ hgrown => by simpa using hgrown⟩
  | cons tokens lines ih =>
      obtain ⟨id, mid, hrun, hmid⟩ := run_insertTokens h tokens
      obtain ⟨tree', ends', below', hrest, htree, hgrows⟩ := ih hmid
      refine ⟨tree', ends', below', ?_, htree, ?_⟩
      · rw [insertLines, EStateM.run_bind, hrun]
        exact hrest
      · intro done hone hgrown
        have hlines := hgrows _ (fun line hline => hone line (List.mem_cons_of_mem _ hline))
          (.insert tree.size (hone tokens List.mem_cons_self) hgrown)
        simpa using hlines

theorem run_insertLines_empty (lines : List (List Token)) :
    ∃ tree ends below, (insertLines lines).run empty = .ok () tree ∧
      tree.Comprises ends below ∧
      ((∀ line ∈ lines, ∀ t ∈ line, t.occurs = 1) →
        Slots.Grown (lines.map fun line => line.map Token.word) (ends, below)) := by
  obtain ⟨tree, ends, below, hrun, htree, hgrows⟩ := run_insertLines comprises_empty lines
  exact ⟨tree, ends, below, hrun, htree, fun hone => by simpa using hgrows [] hone .empty⟩

end Tree

end LogMining
