import LogMining.Proofs.Slots.Change
import LogMining.Proofs.Slots.Read
import LogMining.Tree.Growth

/-!
# Placing a token in a chain of slots

`Slots.place` is what `Tree.insertBelow` does to the chain below a node: the first slot that holds the
word counts it once more, else the first slot that leads to the next word takes it as a value, else it
becomes a slot of its own at the end. In each case the slot that holds the word afterwards is the one
in which the line goes on.
-/

namespace LogMining

namespace Slots

def holdsWord (word : String) : Slots → Bool
  | nil => false
  | slot _ values _ _ _ => (values.find? fun t => t.word == word).isSome

/-- Whether the first slot of a chain is followed by the next word of a line. At the end of the line
there is none. -/
def leadsTo (next : Option String) : Slots → Bool
  | nil => false
  | slot _ _ _ below _ => next.isSome && below.firstWord? == next

def opens (word : String) (next : Option String) (slots : Slots) : Bool :=
  (slots.from? (holdsWord word)).isNone && (slots.from? (leadsTo next)).isNone

/-- The chain after a token has been placed in it. A slot that is opened has the number `fresh`. -/
def place (fresh : Nat) (t : Token) (next : Option String) (slots : Slots) : Slots :=
  if (slots.from? (holdsWord t.word)).isSome then
    slots.changeFrom (holdsWord t.word) (mapValues (Tree.countWord t.word))
  else if (slots.from? (leadsTo next)).isSome then
    slots.changeFrom (leadsTo next) (mapValues (· ++ [{ t with occurs := 1 }]))
  else slots.append (slot fresh [t] 0 nil nil)

theorem holdsWord_slot (word : String) (id : Nat) (values : List Token) (ends : Int)
    (below beside : Slots) :
    holdsWord word (slot id values ends below beside) = true ↔
      word ∈ values.map Token.word := by
  simp [holdsWord, List.find?_isSome]

theorem from?_of_holdsWord {word : String} {slots : Slots} (h : holdsWord word slots = true) :
    slots.from? (holdsWord word) = some slots := by
  cases slots with
  | nil => cases h
  | slot id values ends below beside => rw [from?_slot, if_pos h]

theorem from?_holdsWord_eq_none_iff (word : String) (slots : Slots) :
    slots.from? (holdsWord word) = none ↔ word ∉ slots.words := by
  induction slots with
  | nil => simp
  | slot id values ends below beside _ ihBeside =>
      rw [from?_slot, words_slot, List.mem_append, not_or, ← holdsWord_slot word id values ends
        below beside, ← ihBeside]
      split
      · next h => simp [h]
      · next h => simp [h]

theorem place_of_mem {fresh : Nat} {t : Token} {next : Option String} {slots : Slots}
    (h : t.word ∈ slots.words) :
    slots.place fresh t next =
      slots.changeFrom (holdsWord t.word) (mapValues (Tree.countWord t.word)) := by
  rw [place, if_pos]
  rw [Option.isSome_iff_ne_none, ne_eq, from?_holdsWord_eq_none_iff]
  exact not_not_intro h

theorem place_of_leadsTo {fresh : Nat} {t : Token} {next : Option String} {slots rest : Slots}
    (h : t.word ∉ slots.words) (hnext : slots.from? (leadsTo next) = some rest) :
    slots.place fresh t next =
      slots.changeFrom (leadsTo next) (mapValues (· ++ [{ t with occurs := 1 }])) := by
  rw [place, (from?_holdsWord_eq_none_iff t.word slots).mpr h, hnext]
  rfl

theorem place_of_opens {fresh : Nat} {t : Token} {next : Option String} {slots : Slots}
    (h : t.word ∉ slots.words) (hnext : slots.from? (leadsTo next) = none) :
    slots.place fresh t next = slots.append (slot fresh [t] 0 nil nil) := by
  rw [place, (from?_holdsWord_eq_none_iff t.word slots).mpr h, hnext]
  rfl

theorem opens_of_mem {word : String} {next : Option String} {slots : Slots}
    (h : word ∈ slots.words) : slots.opens word next = false := by
  have hsome : slots.from? (holdsWord word) ≠ none := fun hnone =>
    (from?_holdsWord_eq_none_iff word slots).mp hnone h
  cases hfrom : slots.from? (holdsWord word) with
  | none => exact absurd hfrom hsome
  | some rest => simp [opens, hfrom]

/-- A change that makes a slot hold a word is found again under that word, if no slot before it holds
the word. -/
theorem from?_changeFrom {word : String} {test : Slots → Bool} {change : Slots → Slots}
    {slots rest : Slots} (hrest : slots.from? test = some rest)
    (hword : test = holdsWord word ∨ word ∉ slots.words)
    (hchange : holdsWord word (change rest) = true) :
    (slots.changeFrom test change).from? (holdsWord word) = some (change rest) := by
  induction slots with
  | nil => simp at hrest
  | slot id values ends below beside _ ihBeside =>
      rw [from?_slot] at hrest
      rw [changeFrom_slot]
      split at hrest
      · next htest =>
        cases hrest
        rw [if_pos htest]
        exact from?_of_holdsWord hchange
      · next htest =>
        have hnot : ¬holdsWord word (slot id values ends below (beside.changeFrom test change)) := by
          rw [holdsWord_slot]
          rcases hword with rfl | hword
          · rwa [holdsWord_slot] at htest
          · exact fun hmem => hword (List.mem_append_left _ hmem)
        rw [if_neg htest, from?_slot, if_neg hnot]
        exact ihBeside hrest (hword.imp_right fun h hmem => h (List.mem_append_right _ hmem))

theorem from?_append {word : String} {slots : Slots} (more : Slots) (h : word ∉ slots.words)
    (hmore : holdsWord word more = true) :
    (slots.append more).from? (holdsWord word) = some more := by
  induction slots with
  | nil => exact from?_of_holdsWord hmore
  | slot id values ends below beside _ ihBeside =>
      rw [words_slot, List.mem_append, not_or] at h
      rw [append_slot, from?_slot, if_neg, ihBeside h.2]
      rw [holdsWord_slot]
      exact h.1

theorem map_word_countWord (word : String) (values : List Token) :
    (Tree.countWord word values).map Token.word = values.map Token.word := by
  induction values with
  | nil => rfl
  | cons t values ih =>
      rw [Tree.countWord]
      split
      · rfl
      · simp [ih]

theorem proper_place {fresh : Nat} {t : Token} {next : Option String} {slots : Slots}
    (h : slots.Proper) : (slots.place fresh t next).Proper := by
  by_cases hmem : t.word ∈ slots.words
  · rw [place_of_mem hmem]
    refine proper_changeFrom h fun rest hrest hproper => ?_
    obtain ⟨-, id, values, ends, below, beside, rfl⟩ := from?_eq_some hrest
    obtain ⟨hne, hnodup, hbelow⟩ := hproper
    have hwords := map_word_countWord t.word values
    refine ⟨fun hnil => hne ?_, hwords ▸ hnodup, hbelow⟩
    rw [hnil] at hwords
    exact List.map_eq_nil_iff.mp hwords.symm
  · cases hnext : slots.from? (leadsTo next) with
    | none =>
        rw [place_of_opens hmem hnext]
        exact proper_append h (by simp)
    | some rest =>
        rw [place_of_leadsTo hmem hnext]
        refine proper_changeFrom h fun rest hrest hproper => ?_
        obtain ⟨-, id, values, ends, below, beside, rfl⟩ := from?_eq_some hrest
        obtain ⟨-, hnodup, hbelow⟩ := hproper
        refine ⟨by simp, ?_, hbelow⟩
        have hnot : t.word ∉ values.map Token.word := fun hin =>
          hmem (words_from?_subset hrest (List.mem_append_left _ hin))
        rw [List.map_append, List.map_cons, List.map_nil, List.nodup_append]
        refine ⟨hnodup, List.nodup_singleton _, fun a ha b hb hab => hnot ?_⟩
        rw [List.mem_singleton] at hb
        exact hb ▸ hab ▸ ha

end Slots

namespace Tree

variable {tree : Tree} {parent : Option NodeId} {slots rest : Slots}

theorem firstAlong_eq {test : Node → Except Fault Bool} {test' : Slots → Bool}
    (htest : ∀ {parent id values ends below beside},
      tree.Spells parent (.slot id values ends below beside) →
      (Slots.slot id values ends below beside).Proper →
      test { values, parent, child := below.first, sibling := beside.first, lineEnds := ends } =
        .ok (test' (.slot id values ends below beside)))
    (h : tree.Holds parent slots) (hproper : slots.Proper) :
    tree.firstAlong test slots.first = .ok ((slots.from? test').bind Slots.first) := by
  have hlimit := Nat.le_trans slots.length_chain_le h.length_ids_le_linkLimit
  have hspells := h.spells
  rw [firstAlong]
  generalize tree.linkLimit = n at hlimit
  clear h
  induction slots generalizing n with
  | nil => cases n <;> rfl
  | slot id values ends below beside _ ihBeside =>
      cases n with
      | zero => simp at hlimit
      | succ n =>
          rw [Slots.first_slot, firstWithin, node_of_get? hspells.1, Slots.from?_slot]
          simp only [bind, Except.bind, htest hspells hproper]
          split
          · rfl
          · exact ihBeside hproper.2.2.2 hspells.2.2 n (by simpa using hlimit)

theorem isFollowedBy_eq {id : Nat} {values : List Token} {ends : Int} {below beside : Slots}
    (h : tree.Spells parent (.slot id values ends below beside))
    (hproper : (Slots.slot id values ends below beside).Proper) (word : String) :
    tree.isFollowedBy word
        { values, parent, child := below.first, sibling := beside.first, lineEnds := ends } =
      .ok (Slots.leadsTo (some word) (.slot id values ends below beside)) := by
  cases below with
  | nil => rfl
  | slot id' values' ends' below' beside' =>
      obtain ⟨t, more, rfl⟩ := List.exists_cons_of_ne_nil hproper.2.2.1.1
      simp only [isFollowedBy, Slots.first_slot, node_of_get? h.2.1.1]
      simp [bind, Except.bind, pure, Except.pure, Node.firstWord, Slots.leadsTo,
        Slots.firstWord?]

theorem firstAlong_holdsWord (h : tree.Holds parent slots) (hproper : slots.Proper)
    (word : String) :
    tree.firstAlong (fun node => .ok (node.value? word).isSome) slots.first =
      .ok ((slots.from? (Slots.holdsWord word)).bind Slots.first) :=
  firstAlong_eq (fun _ _ => rfl) h hproper

theorem placement_of_mem {word : String} {id : NodeId} (next : Option String)
    (h : tree.Holds parent slots) (hproper : slots.Proper)
    (hrest : slots.from? (Slots.holdsWord word) = some rest) (hid : rest.first = some id) :
    tree.placement slots.first word next = .ok (.counted id) := by
  rw [placement, firstAlong_holdsWord h hproper, hrest, Option.bind_some, hid]
  rfl

theorem placement_of_leadsTo {word : String} {next : Option String} {id : NodeId}
    (h : tree.Holds parent slots) (hproper : slots.Proper) (hword : word ∉ slots.words)
    (hrest : slots.from? (Slots.leadsTo next) = some rest) (hid : rest.first = some id) :
    tree.placement slots.first word next = .ok (.joined id) := by
  obtain ⟨htest, id', values, ends, below, beside, rfl⟩ := Slots.from?_eq_some hrest
  cases next with
  | none => simp [Slots.leadsTo] at htest
  | some next =>
      rw [placement, firstAlong_holdsWord h hproper,
        (Slots.from?_holdsWord_eq_none_iff word slots).mpr hword]
      simp only [bind, Except.bind, Option.bind_none, Option.bindM]
      rw [firstAlong_eq (isFollowedBy_eq · · next) h hproper, hrest, Option.bind_some, hid]
      rfl

theorem placement_of_opens {word : String} {next : Option String}
    (h : tree.Holds parent slots) (hproper : slots.Proper) (hword : word ∉ slots.words)
    (hrest : slots.from? (Slots.leadsTo next) = none) :
    tree.placement slots.first word next = .ok (.opened slots.chain.getLast?) := by
  rw [placement, firstAlong_holdsWord h hproper,
    (Slots.from?_holdsWord_eq_none_iff word slots).mpr hword]
  cases next with
  | none =>
      simp only [bind, Except.bind, Option.bind_none, Option.bindM, pure, Except.pure]
      rw [chain_eq h]
  | some next =>
      simp only [bind, Except.bind, Option.bind_none, Option.bindM, pure, Except.pure]
      rw [firstAlong_eq (isFollowedBy_eq · · next) h hproper, hrest, Option.bind_none]
      simp only []
      rw [chain_eq h]

variable {level : Nat} {values : List Token} {ends : Int} {below beside : Slots}

theorem update_values {test : Slots → Bool} {f : List Token → List Token}
    (h : tree.Holds parent slots) (hrest : slots.from? test = some rest) :
    ∃ (id : Nat) (tree' : Tree), rest.first = some (id : Int) ∧
      (update id fun node => { node with values := f node.values }).run tree = .ok () tree' ∧
      tree.Replaces tree' parent slots (slots.changeFrom test (Slots.mapValues f)) ∧
      tree'.size = tree.size := by
  obtain ⟨-, id, values, ends, below, beside, rfl⟩ := Slots.from?_eq_some hrest
  refine ⟨id, _, rfl, run_update (locate_of_get? (h.from? hrest).spells.1) _, ?_, size_setAt ..⟩
  exact Replaces.changeFrom h (Slots.first_mapValues f) hrest
    (Replaces.changed (h.from? hrest) rfl)

/-- Inserting a token below a node has placed it in the chain there, and `rest` begins with the slot in
which the line goes on. -/
structure Placed (tree : Tree) (parent : Option NodeId) (level : Nat) (values : List Token)
    (ends : Int) (below beside : Slots) (t : Token) (next : Option Token) (id : Nat) (tree' : Tree)
    (rest : Slots) : Prop where
  run : (insertBelow level t next).run tree = .ok (id : Int) tree'
  replaces : tree.Replaces tree' parent (.slot level values ends below beside)
    (.slot level values ends (below.place tree.size t (next.map Token.word)) beside)
  found : (below.place tree.size t (next.map Token.word)).from? (Slots.holdsWord t.word) =
    some rest
  first : rest.first = some (id : Int)
  size_eq : tree'.size =
    if below.opens t.word (next.map Token.word) then tree.size + 1 else tree.size

theorem placed_of_mem (h : tree.Holds parent (.slot level values ends below beside))
    (hproper : below.Proper) {t : Token} (next : Option Token) (hword : t.word ∈ below.words) :
    ∃ id tree' rest, tree.Placed parent level values ends below beside t next id tree' rest := by
  obtain ⟨rest, hrest⟩ : ∃ rest, below.from? (Slots.holdsWord t.word) = some rest := by
    rw [← Option.isSome_iff_exists, Option.isSome_iff_ne_none, ne_eq,
      Slots.from?_holdsWord_eq_none_iff]
    exact not_not_intro hword
  obtain ⟨id, tree', hid, hrun, hreplaces, hsize⟩ :=
    update_values (f := countWord t.word) h.below hrest
  have hplace := placement_of_mem (next.map Token.word) h.below hproper hrest hid
  refine ⟨id, tree', rest.mapValues (countWord t.word), ?_, ?_, ?_, ?_, ?_⟩
  · simp only [insertBelow, EStateM.run_bind, Step.run_query, locate_of_get? h.spells.1, hplace,
      hrun]
    rfl
  · rw [Slots.place_of_mem hword]
    exact Replaces.lift_below h hreplaces (Slots.first_changeFrom (Slots.first_mapValues _) below)
  · rw [Slots.place_of_mem hword]
    refine Slots.from?_changeFrom hrest (.inl rfl) ?_
    obtain ⟨htest, id', values', ends', below', beside', rfl⟩ := Slots.from?_eq_some hrest
    rw [Slots.mapValues, Slots.holdsWord_slot, Slots.map_word_countWord]
    exact (Slots.holdsWord_slot ..).mp htest
  · rw [Slots.first_mapValues, hid]
  · rw [Slots.opens_of_mem hword, hsize]
    rfl

theorem placed_of_leadsTo (h : tree.Holds parent (.slot level values ends below beside))
    (hproper : below.Proper) {t : Token} {next : Option Token} (hword : t.word ∉ below.words)
    (hnext : below.from? (Slots.leadsTo (next.map Token.word)) = some rest) :
    ∃ id tree' rest, tree.Placed parent level values ends below beside t next id tree' rest := by
  obtain ⟨id, tree', hid, hrun, hreplaces, hsize⟩ :=
    update_values (f := (· ++ [{ t with occurs := 1 }])) h.below hnext
  have hplace := placement_of_leadsTo h.below hproper hword hnext hid
  refine ⟨id, tree', rest.mapValues (· ++ [{ t with occurs := 1 }]), ?_, ?_, ?_, ?_, ?_⟩
  · simp only [insertBelow, EStateM.run_bind, Step.run_query, locate_of_get? h.spells.1, hplace,
      hrun]
    rfl
  · rw [Slots.place_of_leadsTo hword hnext]
    exact Replaces.lift_below h hreplaces (Slots.first_changeFrom (Slots.first_mapValues _) below)
  · rw [Slots.place_of_leadsTo hword hnext]
    refine Slots.from?_changeFrom hnext (.inr hword) ?_
    obtain ⟨-, id', values', ends', below', beside', rfl⟩ := Slots.from?_eq_some hnext
    rw [Slots.mapValues, Slots.holdsWord_slot]
    simp
  · rw [Slots.first_mapValues, hid]
  · simp [Slots.opens, hnext, hsize]

theorem placed_of_opens (h : tree.Holds parent (.slot level values ends below beside))
    (hproper : below.Proper) {t : Token} {next : Option Token} (hword : t.word ∉ below.words)
    (hnext : below.from? (Slots.leadsTo (next.map Token.word)) = none) :
    ∃ id tree' rest, tree.Placed parent level values ends below beside t next id tree' rest := by
  have hplace := placement_of_opens h.below hproper hword hnext
  have hfound := Slots.from?_append (.slot tree.size [t] 0 .nil .nil) hword
    (by simp [Slots.holdsWord])
  have hopens : below.opens t.word (next.map Token.word) = true := by
    simp [Slots.opens, hnext, (Slots.from?_holdsWord_eq_none_iff t.word below).mpr hword]
  rw [← Slots.place_of_opens hword hnext] at hfound
  cases hlast : below.chain.getLast? with
  | none =>
      -- the first slot below the node, to which the node is linked
      obtain rfl : below = .nil := by
        cases below with
        | nil => rfl
        | slot id' values' ends' below' beside' => simp at hlast
      refine ⟨tree.size,
        setAt level (fun node => { node with child := some (tree.size : Int) })
          ⟨tree.nodes.push (some { values := [t], parent := some (level : Int) })⟩,
        _, ?_, ?_, hfound, rfl, ?_⟩
      · simp only [insertBelow, EStateM.run_bind, Step.run_query, locate_of_get? h.spells.1, hplace,
          hlast, run_create]
        rfl
      · rw [Slots.place_of_opens hword hnext]
        refine Replaces.around h (fun _ _ => rfl) rfl (Replaces.created ..)
          (fun n hn => ?_) (size_setAt ..) ?_
        · rw [get?_setAt, if_neg hn.symm]
        · have hlt : level < tree.size := h.spells.lt_size (by simp)
          rw [get?_setAt, if_pos rfl, get?_push, if_neg (Nat.ne_of_lt hlt), h.spells.1]
          rfl
      · rw [hopens, size_setAt, size_push]
        rfl
  | some last =>
      -- the slot after the last one, which is linked to it
      obtain ⟨n, hn, rfl, hreplaces⟩ := Replaces.append h.below [t] 0 hlast
      obtain ⟨node, hnode⟩ := Option.isSome_iff_exists.mp (h.below.spells.isSome hn)
      have hnode' : (⟨tree.nodes.push (some { values := [t], parent := some (level : Int) })⟩ :
          Tree).get? n = some node := by
        rw [get?_push, if_neg (Nat.ne_of_lt (lt_size_of_get? hnode)), hnode]
      have hne : below ≠ .nil := by
        rintro rfl
        simp at hlast
      refine ⟨tree.size,
        setAt n (fun node => { node with sibling := some (tree.size : Int) })
          ⟨tree.nodes.push (some { values := [t], parent := some (level : Int) })⟩,
        _, ?_, ?_, hfound, rfl, ?_⟩
      · simp only [insertBelow, EStateM.run_bind, Step.run_query, locate_of_get? h.spells.1, hplace,
          hlast, run_create, run_update (locate_of_get? hnode')]
        rfl
      · rw [Slots.place_of_opens hword hnext]
        exact Replaces.lift_below h hreplaces (Slots.first_append _ hne)
      · rw [hopens, size_setAt, size_push]
        rfl

theorem exists_placed (h : tree.Holds parent (.slot level values ends below beside))
    (hproper : below.Proper) (t : Token) (next : Option Token) :
    ∃ id tree' rest, tree.Placed parent level values ends below beside t next id tree' rest := by
  by_cases hword : t.word ∈ below.words
  · exact placed_of_mem h hproper next hword
  · cases hnext : below.from? (Slots.leadsTo (next.map Token.word)) with
    | some rest => exact placed_of_leadsTo h hproper hword hnext
    | none => exact placed_of_opens h hproper hword hnext

end Tree

end LogMining
