import LogMining.Proofs.Growth.Values
import LogMining.Proofs.Session.Calls
import LogMining.Proofs.Token.Feed
import LogMining.Proofs.Token.Intact

/-!
# The tokens in a session

All tokens in the tree of a session and all pending ones come from the words of its lines. What is true of
the tokens of every word, and stays true when a token is counted, is true of all of them.
-/

namespace LogMining.Session

variable {s : Session} {ends : Int} {below : Slots} {Q : Token → Prop}

theorem genuine_of_mem_line {line : String} {word : List Char} {t : Token} (hword : word ∈ Line.words line)
    (ht : t ∈ Token.ofWord word) : t.Genuine :=
  Token.genuine_of_mem_ofWord (Text.isInk_of_mem_words hword).1 (Text.isInk_of_mem_words hword).2 ht

theorem forall_mem_addLine (hcount : ∀ t, Q t → Q { t with occurs := t.occurs + 1 })
    (hone : ∀ t, Q t → Q { t with occurs := 1 }) (h : s.tree.Comprises ends below)
    (hbelow : below.All fun values => ∀ t ∈ values, Q t) (hitems : ∀ t ∈ s.pending.items, Q t)
    (line : String) (hline : ∀ word ∈ Line.words line, ∀ t ∈ Token.ofWord word, Q t) :
    (∃ ends' below', (Step.state ((addLine line).run s)).tree.Comprises ends' below' ∧
        below'.All fun values => ∀ t ∈ values, Q t) ∧
      ∀ t ∈ (Step.state ((addLine line).run s)).pending.items, Q t := by
  cases hreport : (Progress.report "reading").run s.progress with
  | error fault progress =>
      rw [addLine, EStateM.run_bind, run_onProgress, hreport]
      exact ⟨⟨ends, below, h, hbelow⟩, hitems⟩
  | ok _ progress =>
      obtain ⟨htokens, hlast⟩ :=
        (Source.ofLine (Line.maskDates line) s.pending).forall_mem_feed hline hitems
      obtain ⟨id, tree', hinsert, htree⟩ :=
        Tree.insertFeed_eq h (Source.ofLine (Line.maskDates line) s.pending).feed
      have hgrown := hbelow.grow hcount hone
        (Source.ofLine (Line.maskDates line) s.pending).feed.fault.isNone s.tree.size htokens ends
      rw [run_addLine_of_report line hreport, hinsert]
      cases (Source.ofLine (Line.maskDates line) s.pending).feed.fault with
      | none => exact ⟨⟨_, _, htree, hgrown⟩, hlast⟩
      | some fault => exact ⟨⟨_, _, htree, hgrown⟩, hlast⟩

theorem after_addLine (s : Session) (line : String) :
    s.after [.addLine line] = Step.state ((addLine line).run s) := by
  rw [after, after, Call.step, EStateM.run_bind]
  cases (addLine line).run s <;> rfl

theorem genuine_after (h : s.tree.Comprises ends below)
    (hbelow : below.All fun values => ∀ t ∈ values, t.Genuine)
    (hitems : ∀ t ∈ s.pending.items, t.Genuine) (lines : List String) :
    ∃ ends' below', (s.after (lines.map .addLine)).tree.Comprises ends' below' ∧
      below'.All fun values => ∀ t ∈ values, t.Genuine := by
  induction lines generalizing s ends below with
  | nil => exact ⟨ends, below, h, hbelow⟩
  | cons line lines ih =>
      obtain ⟨⟨ends', below', htree, hbelow'⟩, hitems'⟩ := forall_mem_addLine
        (fun _ ht => ht.count) (fun _ ht => ht.countOne) h hbelow hitems line
        (fun _ hword _ ht => genuine_of_mem_line hword ht)
      rw [← after_addLine] at htree hitems'
      rw [List.map_cons, ← List.singleton_append, after_append]
      exact ih htree hbelow' hitems'

end LogMining.Session
