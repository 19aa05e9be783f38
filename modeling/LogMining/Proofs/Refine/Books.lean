import LogMining.Proofs.Refine.Recorded
import Mathlib.Algebra.Group.Nat.Defs
import Mathlib.Algebra.Group.Prod

/-!
# The books of a sweep

A pass counts the nodes that are joined and those that are split, and its tree counts the nodes that have ever
been created. What a sweep adds to these counts is told by its record: one for each join, one for each split, and
a node for the front and one for the back that is split off.
-/

namespace LogMining

namespace Step

variable {σ α β : Type}

theorem exists_of_run_bind {step : Step σ α} {f : α → Step σ β} {s s'' : σ} {b : β}
    (h : (step >>= f).run s = .ok b s'') :
    ∃ a s', step.run s = .ok a s' ∧ (f a).run s' = .ok b s'' := by
  rw [EStateM.run_bind] at h
  cases hrun : step.run s with
  | ok a s' => exact ⟨a, s', rfl, by rwa [hrun] at h⟩
  | error fault s' =>
      rw [hrun] at h
      cases h

end Step

namespace Tree

variable {α β : Type} {step : Step Tree α} {n m : Nat}

/-- A step that goes through creates as many nodes. -/
def Creates (n : Nat) (step : Step Tree α) : Prop :=
  ∀ tree a tree', step.run tree = .ok a tree' → tree'.size = tree.size + n

namespace Creates

theorem bind {f : α → Step Tree β} (h : Creates n step) (hf : ∀ a, Creates m (f a)) :
    Creates (n + m) (step >>= f) := by
  intro tree b tree' hrun
  obtain ⟨a, mid, hfirst, hrest⟩ := Step.exists_of_run_bind hrun
  rw [hf a mid b tree' hrest, h tree a mid hfirst, Nat.add_assoc]

theorem after {f : α → Step Tree β} (h : Creates 0 step) (hf : ∀ a, Creates n (f a)) :
    Creates n (step >>= f) := by
  have hbind := h.bind hf
  rwa [Nat.zero_add] at hbind

theorem pure (a : α) : Creates 0 (pure a) := by
  intro tree b tree' hrun
  cases hrun
  rfl

theorem throw (fault : Fault) : Creates n (throw fault : Step Tree α) := by
  intro tree a tree' hrun
  cases hrun

theorem query (ask : Tree → Except Fault α) : Creates 0 (Step.query ask) := by
  intro tree a tree' hrun
  rw [Step.run_query] at hrun
  split at hrun
  · cases hrun
    rfl
  · cases hrun

theorem changed {change : Tree → Tree} (h : ∀ tree, (change tree).size = tree.size) :
    Creates 0 (modify change) := by
  intro tree a tree' hrun
  cases hrun
  exact h tree

theorem setAt (n : Nat) (change : Node → Node) : Creates 0 (modify (Tree.setAt n change)) :=
  changed fun tree => size_setAt n change tree

theorem create (node : Node) : Creates 1 (create node) := by
  intro tree a tree' hrun
  rw [run_create] at hrun
  cases hrun
  exact size_push tree node

theorem update (id : NodeId) (change : Node → Node) : Creates 0 (update id change) :=
  (query _).after fun _ => setAt _ change

theorem delete (id : NodeId) : Creates 0 (delete id) :=
  (query _).after fun _ => changed fun tree => size_erase tree _

theorem adoptWithin (parent : NodeId) (n : Nat) (first : Option NodeId) :
    Creates 0 (adoptWithin parent n first) := by
  induction n generalizing first with
  | zero =>
      cases first with
      | none => exact pure ()
      | some id => exact throw .endless
  | succ n ih =>
      cases first with
      | none => exact pure ()
      | some id => exact (update id _).after fun _ => (query _).after fun node => ih node.sibling

theorem adopt (parent : NodeId) (first : Option NodeId) : Creates 0 (adopt parent first) :=
  (query .ok).after fun tree => adoptWithin parent tree.linkLimit first

theorem splice (n : Nat) (id : NodeId) (child : Option NodeId) (values : List Token) :
    Creates 1 (splice n id child values) :=
  (create _).bind fun new => (adopt new child).after fun _ => (setAt n _).after fun _ => pure new

theorem splitFront (id : NodeId) (front : Int) : Creates 1 (splitFront id front) :=
  (query _).after fun (n, node) => (query _).after fun _ => (setAt n _).after fun _ =>
    (splice n id node.child node.values).bind fun rest => (update rest _).after fun _ => pure rest

theorem splitBack (id : NodeId) (back : Int) : Creates 1 (splitBack id back) :=
  (query _).after fun (n, node) => (query _).after fun _ =>
    (splice n id node.child _).bind fun _ => setAt n _

theorem settle (id : NodeId) (back : Int) : Creates (if 0 < back then 1 else 0) (settle id back) := by
  refine (query _).after fun (n, _) => ?_
  by_cases hback : 0 < back
  · simp only [if_pos hback]
    exact (splitBack id back).bind fun _ => setAt n _
  · simp only [if_neg hback]
    exact setAt n _

theorem disjoin (id : NodeId) (front back : Int) :
    Creates ((if 0 < front then 1 else 0) + if 0 < back then 1 else 0) (disjoin id front back) := by
  rw [disjoin_eq]
  by_cases hfront : 0 < front
  · rw [if_pos hfront, if_pos hfront]
    exact (splitFront id front).bind fun rest => (settle rest back).bind fun _ => pure rest
  · rw [if_neg hfront, if_neg hfront]
    exact (pure id).bind fun rest => (settle rest back).bind fun _ => pure rest

end Creates

end Tree

/-- The number of nodes that are created where the affixes are split off. -/
def Affixes.created (a : Affixes) : Nat := (if 0 < a.front then 1 else 0) + if 0 < a.back then 1 else 0

namespace Pass

variable {α β : Type} {pass pass' : Pass} {id : NodeId}

/-- The nodes that have been joined, those that have been split, and those that have been created. -/
def books (pass : Pass) : ℕ × ℕ × ℕ := (pass.tally.squashed, pass.tally.disjoined, pass.tree.size)

def Event.entry : Event → ℕ × ℕ × ℕ
  | visit _ => (0, 0, 0)
  | join _ _ => (1, 0, 0)
  | split _ a => (0, 1, a.created)

def entries : List Event → ℕ × ℕ × ℕ
  | [] => (0, 0, 0)
  | event :: events => event.entry + entries events

theorem entries_append (events events' : List Event) :
    entries (events ++ events') = entries events + entries events' := by
  induction events with
  | nil => exact (zero_add _).symm
  | cons event events ih => rw [List.cons_append, entries, entries, ih, add_assoc]

theorem entries_joinEvents {node : Node} (h : pass.tree.node id = .ok node) :
    entries (joinEvents id pass true) = (1, 0, 0) := by
  simp only [joinEvents, h]
  rfl

theorem entries_splitEvents {node : Node} {a : Affixes} (h : pass.tree.node id = .ok node)
    (ha : node.affixes? = .ok (some a)) : entries (splitEvents id pass true) = (0, 1, a.created) := by
  simp only [splitEvents, h, ha]
  rfl

theorem eq_of_run_ask {question : Tree → Except Fault α} {a : α}
    (h : (ask question).run pass = .ok a pass') : question pass.tree = .ok a ∧ pass' = pass := by
  rw [run_ask] at h
  cases hquestion : question pass.tree with
  | ok b =>
      rw [hquestion] at h
      cases h
      exact ⟨rfl, rfl⟩
  | error fault =>
      rw [hquestion] at h
      cases h

theorem books_onTree {step : Step Tree α} {n : Nat} (hstep : Tree.Creates n step) {a : α}
    (h : (onTree step).run pass = .ok a pass') : pass'.books = pass.books + (0, 0, n) := by
  rw [run_onTree] at h
  cases hrun : step.run pass.tree with
  | ok b tree =>
      rw [hrun] at h
      cases h
      exact congrArg (fun size => (pass.tally.squashed, pass.tally.disjoined, size))
        (hstep pass.tree _ tree hrun)
  | error fault tree =>
      rw [hrun] at h
      cases h

theorem books_note {notes : List Note} (h : (note notes).run pass = .ok () pass') :
    pass'.books = pass.books := by
  rw [run_note] at h
  cases h
  rfl

theorem books_report {label : String} (h : (report label).run pass = .ok () pass') :
    pass'.books = pass.books := by
  rw [run_report_eq] at h
  cases hrun : (Progress.report label).run pass.progress with
  | ok _ progress =>
      rw [hrun] at h
      cases h
      rfl
  | error fault progress =>
      rw [hrun] at h
      cases h

theorem books_collapseChild {joined : Bool} (h : (collapseChild id).run pass = .ok joined pass') :
    pass'.books = pass.books + entries (joinEvents id pass joined) := by
  obtain ⟨node, _, hask, hrest⟩ := Step.exists_of_run_bind h
  obtain ⟨hnode, rfl⟩ := eq_of_run_ask hask
  obtain ⟨found, _, hask, hrest⟩ := Step.exists_of_run_bind hrest
  obtain ⟨-, rfl⟩ := eq_of_run_ask hask
  cases found with
  | none =>
      cases hrest
      rfl
  | some c =>
      obtain ⟨_, updated, hupdate, hrest⟩ := Step.exists_of_run_bind hrest
      obtain ⟨_, noted, hnote, hrest⟩ := Step.exists_of_run_bind hrest
      obtain ⟨_, adopted, hadopt, hrest⟩ := Step.exists_of_run_bind hrest
      obtain ⟨_, deleted, hdelete, hrest⟩ := Step.exists_of_run_bind hrest
      obtain ⟨_, counted, hcount, hrest⟩ := Step.exists_of_run_bind hrest
      cases hrest
      cases hcount
      have hdeleted := books_onTree (.delete _) hdelete
      rw [books_onTree (.adopt _ _) hadopt, books_note hnote, books_onTree (.update _ _) hupdate] at hdeleted
      rw [entries_joinEvents hnode]
      exact congrArg (fun books : ℕ × ℕ × ℕ => books + (1, 0, 0)) hdeleted

theorem books_factor {split : Bool} (h : (factor id).run pass = .ok split pass') :
    pass'.books = pass.books + entries (splitEvents id pass split) := by
  obtain ⟨node, _, hask, hrest⟩ := Step.exists_of_run_bind h
  obtain ⟨hnode, rfl⟩ := eq_of_run_ask hask
  obtain ⟨found, _, hask, hrest⟩ := Step.exists_of_run_bind hrest
  obtain ⟨haffixes, rfl⟩ := eq_of_run_ask hask
  cases found with
  | none =>
      cases hrest
      rfl
  | some a =>
      obtain ⟨_, noted, hnote, hrest⟩ := Step.exists_of_run_bind hrest
      obtain ⟨_, counted, hdisjoin, hrest⟩ := Step.exists_of_run_bind hrest
      obtain ⟨rest, divided, hdivide, hdisjoin⟩ := Step.exists_of_run_bind hdisjoin
      obtain ⟨_, _, hcount, hdisjoin⟩ := Step.exists_of_run_bind hdisjoin
      cases hdisjoin
      cases hrest
      cases hcount
      have hdivided := books_onTree (.disjoin _ _ _) hdivide
      rw [books_note hnote] at hdivided
      simp only [Int.natCast_pos] at hdivided
      rw [entries_splitEvents hnode haffixes]
      exact congrArg (fun books : ℕ × ℕ × ℕ => books + (0, 1, 0)) hdivided

/-- The books are the first ones with the entries of the record. -/
def Balances (first : ℕ × ℕ × ℕ) (s : Pass × List Event) : Prop := s.1.books = first + entries s.2

/-- A recorded step that goes through keeps the books balanced. -/
def KeepsBooks (recorded : Step (Pass × List Event) α) : Prop :=
  ∀ first s a s', Balances first s → recorded.run s = .ok a s' → Balances first s'

namespace KeepsBooks

theorem watch {tell : Pass → α → List Event} {step : Step Pass α}
    (h : ∀ pass a pass', step.run pass = .ok a pass' →
      pass'.books = pass.books + entries (tell pass a)) : KeepsBooks (watch tell step) := by
  rintro first ⟨pass, events⟩ a s' hbalances hrun
  rw [EStateM.run, Pass.watch] at hrun
  cases hstep : step.run pass with
  | ok b pass' =>
      simp only [hstep] at hrun
      cases hrun
      rw [Balances] at hbalances ⊢
      rw [h pass _ pass' hstep, hbalances, entries_append, add_assoc]
  | error fault pass' =>
      simp only [hstep] at hrun
      cases hrun

theorem silent {step : Step Pass α}
    (h : ∀ pass a pass', step.run pass = .ok a pass' → pass'.books = pass.books) :
    KeepsBooks (silent step) :=
  watch fun pass a pass' hrun => h pass a pass' hrun

theorem ask (question : Tree → Except Fault α) : KeepsBooks (Pass.silent (ask question)) :=
  silent fun _ _ _ hrun => (eq_of_run_ask hrun).2 ▸ rfl

theorem get : KeepsBooks (Pass.silent get) := by
  refine silent fun pass a pass' hrun => ?_
  cases hrun
  rfl

theorem pure (a : α) : KeepsBooks (pure a) := by
  intro first s b s' hbalances hrun
  cases hrun
  exact hbalances

theorem throw (fault : Fault) : KeepsBooks (throw fault : Step (Pass × List Event) α) := by
  intro first s a s' hbalances hrun
  cases hrun

theorem bind {recorded : Step (Pass × List Event) α} {f : α → Step (Pass × List Event) β}
    (h : KeepsBooks recorded) (hf : ∀ a, KeepsBooks (f a)) : KeepsBooks (recorded >>= f) := by
  intro first s b s' hbalances hrun
  obtain ⟨a, mid, hfirst, hrest⟩ := Step.exists_of_run_bind hrun
  exact hf a first mid b s' (h first s a mid hbalances hfirst) hrest

theorem recordWithin (n : Nat) (id : NodeId) : KeepsBooks (recordWithin n id) := by
  induction n with
  | zero => exact throw .endless
  | succ n ih =>
      refine (watch fun _ _ _ => books_collapseChild).bind fun joined => ?_
      cases joined with
      | true => exact ih
      | false => exact pure ()

theorem recordPrepare (id : NodeId) (isChoice : Bool) : KeepsBooks (recordPrepare id isChoice) := by
  cases isChoice with
  | true => exact pure ()
  | false => exact get.bind fun pass => recordWithin (pass.tree.size + 1) id

theorem recordChain (n : Nat) (isChoice : Bool) (first : Option NodeId) :
    KeepsBooks (recordChain n isChoice first) := by
  induction n generalizing isChoice first with
  | zero =>
      cases first with
      | none => exact pure ()
      | some id => exact throw .endless
  | succ n ih =>
      cases first with
      | none => exact pure ()
      | some id =>
          exact (watch fun _ _ _ => books_report).bind fun _ => (recordPrepare id isChoice).bind fun _ =>
            (watch fun _ _ _ => books_factor).bind fun _ => (ask _).bind fun node => (ask _).bind fun next =>
              (ih _ _).bind fun _ => ih isChoice node.sibling

theorem recordSweep : KeepsBooks recordSweep :=
  (ask _).bind fun _ => (ask _).bind fun _ => get.bind fun _ => recordChain _ _ _

end KeepsBooks

end Pass

end LogMining
