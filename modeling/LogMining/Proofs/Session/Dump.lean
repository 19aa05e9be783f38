import LogMining.Proofs.Reading.Dump
import LogMining.Proofs.Session.Alone

/-!
# The dump of a session tells its tree

The words that lines bring into a session have no blanks in them, and whether they stand for shapes can be
seen from them. So nothing but the numbers of the nodes is lost in the dump of a tree that only lines have
been taken into.
-/

namespace LogMining.Session

/-- Trees that lines have been taken into have dumps, and the dumps are the same if and only if the trees
differ in the numbers of their nodes only. -/
theorem exists_dump_eq_iff (s s' : Session) (lines lines' : List String) :
    ∃ text text',
      (s.cleared.after (lines.map .addLine)).tree.dump = .ok text ∧
      (s'.cleared.after (lines'.map .addLine)).tree.dump = .ok text' ∧
      (text = text' ↔ ∃ f, (s.cleared.after (lines.map .addLine)).tree.Renumbers
        (s'.cleared.after (lines'.map .addLine)).tree f) := by
  have hgenuine : ∀ (s : Session) (lines : List String), ∃ ends below,
      (s.cleared.after (lines.map .addLine)).tree.Comprises ends below ∧
        below.All fun values => ∀ t ∈ values, t.Genuine := by
    intro s lines
    have hempty : s.cleared.tree.Comprises 0 .nil := Tree.comprises_empty
    exact genuine_after hempty trivial (by simp [cleared, Pending.clear]) lines
  obtain ⟨ends, below, htree, hbelow⟩ := hgenuine s lines
  obtain ⟨ends', below', htree', hbelow'⟩ := hgenuine s' lines'
  refine ⟨_, _, htree.dump_eq, htree'.dump_eq, ?_⟩
  rw [← htree.dump_eq_iff htree' hbelow hbelow', htree.dump_eq, htree'.dump_eq, Except.ok.injEq]

/-- In another order the same lines may number the nodes differently. -/
example :
    let tree := (after {} [.addLine "a b", .addLine "c d", .addLine "a e"]).tree
    let tree' := (after {} [.addLine "a b", .addLine "a e", .addLine "c d"]).tree
    tree.dump = tree'.dump ∧ tree ≠ tree' := by
  decide +kernel

end LogMining.Session
