import LogMining.Proofs.Token.Expansion

/-!
# Lines of canonical words

The words of tokens are canonical: placeholders, slashes and words of no known shape. Such a word is one token, with
the same word, and stands for a shape if and only if it did before. So the words of the tokens of a line, with spaces
between them, make a line that has the same tokens; all that is lost is which of them were parts of a word.
-/

namespace LogMining

open Shape (IsMasked)

namespace Token

variable {word : List Char} {t : Token}

theorem ofWord_placeholder (shape : Shape) :
    ofWord shape.placeholder.toList = [{ word := shape.placeholder, special := true }] := by
  have hmarked : shape.placeholder.toList.head? = some Shape.marker := by cases shape <;> rfl
  rw [ofWord_of_marked hmarked, String.ofList_toList,
    decide_eq_true (Shape.mem_placeholders_iff.mpr ⟨shape, rfl⟩)]

theorem ofWord_slash : ofWord ['/'] = [{ word := "/" }] := by
  have hshape : Shape.ofWord? ['/'] = none := by decide +kernel
  refine ofWord_of_literal (by decide) hshape fun hmasked => ?_
  obtain ⟨c, hc, hdigit⟩ := Shape.head?_of_isMasked hmasked
  cases hc
  cases hdigit

theorem ofWord_of_mem_ofWord (ht : t ∈ ofWord word) : ofWord t.word.toList = [{ t with subword := false }] := by
  by_cases hmarked : word.head? = some Shape.marker
  · rw [ofWord_of_marked hmarked] at ht
    obtain rfl := List.mem_singleton.mp ht
    rw [String.toList_ofList, ofWord_of_marked hmarked]
  · by_cases hmasked : IsMasked word
    · rw [ofWord_of_isMasked hmasked] at ht
      simp only [List.mem_cons, List.not_mem_nil, or_false] at ht
      rcases ht with rfl | rfl | rfl
      · exact ofWord_placeholder .ipv4
      · exact ofWord_slash
      · exact ofWord_placeholder .integer
    · cases hshape : Shape.ofWord? word with
      | some shape =>
          rw [ofWord_of_shape hshape] at ht
          obtain rfl := List.mem_singleton.mp ht
          exact ofWord_placeholder shape
      | none =>
          rw [ofWord_of_literal hmarked hshape hmasked] at ht
          obtain rfl := List.mem_singleton.mp ht
          rw [String.toList_ofList, ofWord_of_literal hmarked hshape hmasked]

theorem not_isMasked_of_mem_ofWord (ht : t ∈ ofWord word) : ¬IsMasked t.word.toList := by
  intro hmasked
  have hone := ofWord_of_mem_ofWord ht
  rw [ofWord_of_isMasked hmasked] at hone
  simpa using congrArg List.length hone

/-- Words of tokens are read as these tokens again. -/
theorem flatMap_ofWord_map {tokens : List Token} (h : ∀ t ∈ tokens, ∃ word, t ∈ ofWord word) :
    (tokens.map fun t => t.word.toList).flatMap ofWord = tokens.map fun t => { t with subword := false } := by
  rw [List.flatMap_map, List.map_eq_flatMap]
  refine List.flatMap_congr fun t ht => ?_
  obtain ⟨word, hword⟩ := h t ht
  exact ofWord_of_mem_ofWord hword

end Token

namespace Source

open Text (words)

theorem run_toList_ofLine (line : String) {capacity : Int}
    (h : 2 ≤ capacity ∨ ∀ word ∈ words line.toList, ¬IsMasked word) :
    toList.run (ofLine line { capacity }) = .ok ((words line.toList).flatMap Token.ofWord)
      { pending := { capacity }, rest := [], position := line.length } := by
  rw [run_toList_of_room _ h, ← String.length_toList]
  simp [ofLine, Pending.clear]

/-- The words of the tokens of a line, with spaces between them, are read as the same tokens again, but for their
being parts of words. That takes no room for pending tokens, since none of the words is divided. -/
theorem run_toList_of_canonical (line : String) (capacity capacity' : Int) (hcapacity : 2 ≤ capacity) :
    ∃ tokens,
      toList.run (ofLine line { capacity }) =
        .ok tokens { pending := { capacity }, rest := [], position := line.length } ∧
      let again := " ".intercalate (tokens.map Token.word)
      toList.run (ofLine again { capacity := capacity' }) =
        .ok (tokens.map fun t => { t with subword := false })
          { pending := { capacity := capacity' }, rest := [], position := again.length } := by
  refine ⟨_, run_toList_ofLine line (.inl hcapacity), ?_⟩
  intro again
  have hof : ∀ t ∈ (words line.toList).flatMap Token.ofWord,
      ∃ word ∈ words line.toList, t ∈ Token.ofWord word := fun t => List.mem_flatMap.mp
  have hwords : words again.toList =
      ((words line.toList).flatMap Token.ofWord).map fun t => t.word.toList := by
    rw [String.toList_intercalate, List.map_map]
    refine Text.words_intercalate (by decide) fun word hword => ?_
    obtain ⟨t, ht, rfl⟩ := List.mem_map.mp hword
    obtain ⟨word, hword, ht⟩ := hof t ht
    obtain ⟨hne, hink⟩ := Text.isInk_of_mem_words hword
    have hgenuine := Token.genuine_of_mem_ofWord hne hink ht
    exact ⟨hgenuine.word_ne, hgenuine.isInk⟩
  rw [run_toList_ofLine again, hwords, Token.flatMap_ofWord_map]
  · intro t ht
    obtain ⟨word, -, ht⟩ := hof t ht
    exact ⟨word, ht⟩
  · refine .inr fun word hword => ?_
    rw [hwords] at hword
    obtain ⟨t, ht, rfl⟩ := List.mem_map.mp hword
    obtain ⟨word, -, ht⟩ := hof t ht
    exact Token.not_isMasked_of_mem_ofWord ht

/-- A masked address, which takes room for two tokens, and its three parts, which take none. -/
theorem run_toList_of_canonical_of_three_words :
    (2 : Int) ≤ 2 ∧
      toList.run (ofLine "10.0.0.1/24  x\t7:30:00" { capacity := 2 }) =
        .ok [{ word := "%ipv4%", subword := true, special := true }, { word := "/", subword := true },
            { word := "%posint%", subword := true, special := true }, { word := "x" },
            { word := "%duration%", special := true }]
          { pending := { capacity := 2 }, rest := [], position := 22 } ∧
      toList.run (ofLine "%ipv4% / %posint% x %duration%" { capacity := 0 }) =
        .ok [{ word := "%ipv4%", special := true }, { word := "/" }, { word := "%posint%", special := true },
            { word := "x" }, { word := "%duration%", special := true }]
          { pending := { capacity := 0 }, rest := [], position := 30 } := by
  obtain ⟨tokens, hread, hagain⟩ := run_toList_of_canonical "10.0.0.1/24  x\t7:30:00" 2 0 (by decide)
  have htokens : (words "10.0.0.1/24  x\t7:30:00".toList).flatMap Token.ofWord =
      [{ word := "%ipv4%", subword := true, special := true }, { word := "/", subword := true },
        { word := "%posint%", subword := true, special := true }, { word := "x" },
        { word := "%duration%", special := true }] := by decide +kernel
  have hfirst := run_toList_ofLine "10.0.0.1/24  x\t7:30:00" (.inl (Int.le_refl 2))
  rw [htokens] at hfirst
  obtain rfl : tokens = _ := (EStateM.Result.ok.inj (hread.symm.trans hfirst)).1
  exact ⟨by decide, hread, hagain⟩

end Source

end LogMining
