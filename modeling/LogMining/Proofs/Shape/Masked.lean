import LogMining.Proofs.Shape.Scan
import LogMining.Shape.Match

/-!
# Masked addresses

A masked address is an address, a slash and one or more digits. It has no shape of a single value, since
no such value holds a slash.
-/

namespace LogMining.Shape

open Text.Scan

/-- An address, a slash and one or more digits. -/
def IsMasked (word : List Char) : Prop :=
  ∃ address mask, word = address ++ '/' :: mask ∧ IsAddress address ∧ IsNumber mask

variable {shape : Shape} {word : List Char}

def IsValueChar (c : Char) : Prop := c.isDigit = true ∨ c = ':' ∨ c = '.'

theorem reads_scan (h : shape ∈ ofTokens) : Reads IsValueChar shape.scan := by
  have hrun : Reads IsValueChar digitRun := reads_digitRun fun _ => .inl
  have htwo : Reads IsValueChar (exactly 2) := reads_exactly (fun _ => .inl) 2
  have hcolon : Reads IsValueChar (char ':') := reads_char (.inr (.inl rfl))
  have hdot : Reads IsValueChar (char '.') := reads_char (.inr (.inr rfl))
  have hguard := fun (condition : Prop) [Decidable condition] => reads_guard IsValueChar condition
  simp only [ofTokens, List.mem_cons, List.not_mem_nil, or_false] at h
  rcases h with rfl | rfl | rfl | rfl
  · exact hrun.bind fun _ => reads_pure _ _
  · exact htwo.bind fun _ => hcolon.bind fun _ => htwo.bind fun _ => hcolon.bind fun _ =>
      htwo.bind fun _ => hguard _
  · exact hrun.bind fun _ => hcolon.bind fun _ => htwo.bind fun _ => hcolon.bind fun _ =>
      htwo.bind fun _ => hguard _
  · exact hrun.bind fun _ => hdot.bind fun _ => hrun.bind fun _ => hdot.bind fun _ =>
      hrun.bind fun _ => hdot.bind fun _ => hrun.bind fun _ => hguard _

theorem accepts_iff (h : shape ∈ ofTokens) :
    shape.accepts word = true ↔ shape.scan word = some ((), []) := by
  rw [accepts, beq_iff_eq, Shape.length?, Text.Scan.length?, Option.map_eq_some_iff]
  constructor
  · rintro ⟨⟨⟨⟩, rest⟩, hscan, hlength⟩
    obtain ⟨taken, rfl, -⟩ := reads_scan h word () rest hscan
    simp only [List.length_append] at hlength
    obtain rfl : rest = [] := List.eq_nil_of_length_eq_zero (by omega)
    exact hscan
  · intro hscan
    exact ⟨((), []), hscan, rfl⟩

theorem isValueChar_of_ofWord? (h : ofWord? word = some shape) : ∀ c ∈ word, IsValueChar c := by
  have hmem := List.mem_of_find?_eq_some h
  have haccepts : shape.accepts word = true := List.find?_some (p := fun s => accepts s word) h
  have hscan := (accepts_iff hmem).mp haccepts
  obtain ⟨taken, hword, htaken⟩ := reads_scan hmem word () [] hscan
  rwa [hword, List.append_nil]

theorem ofWord?_of_isMasked (h : IsMasked word) : ofWord? word = none := by
  obtain ⟨address, mask, rfl, -⟩ := h
  cases hshape : ofWord? (address ++ '/' :: mask) with
  | none => rfl
  | some shape =>
      rcases isValueChar_of_ofWord? hshape '/' (by simp) with hdigit | hcolon | hdot
      · exact absurd hdigit (by decide)
      · exact absurd hcolon (by decide)
      · exact absurd hdot (by decide)

theorem head?_of_isMasked (h : IsMasked word) : ∃ c ∈ word.head?, c.isDigit = true := by
  obtain ⟨_, mask, rfl, ⟨a, b, c, d, ⟨⟨hne, hdigits⟩, -⟩, -, -, -, rfl⟩, -⟩ := h
  obtain ⟨first, more, rfl⟩ := List.exists_cons_of_ne_nil hne
  exact ⟨first, rfl, hdigits first List.mem_cons_self⟩

theorem isMaskedAddress_iff : isMaskedAddress word = true ↔ IsMasked word := by
  have hslash : ∀ text, NoDigit ('/' :: text) := noDigit_cons (by decide)
  constructor
  · intro h
    unfold isMaskedAddress at h
    split at h
    · cases h
    · next n hlength =>
      rw [Shape.length?, Text.Scan.length?, Option.map_eq_some_iff] at hlength
      obtain ⟨⟨u, rest⟩, hscan, rfl⟩ := hlength
      obtain ⟨address, rfl, haddress, -⟩ := ipv4_eq_some_iff.mp hscan
      simp only [List.length_append, Nat.add_sub_cancel, List.drop_left'] at h
      split at h
      · next mask =>
        obtain ⟨digits, hmask, hdigits, -⟩ :=
          integer_eq_some_iff.mp ((accepts_iff (by decide)).mp h)
        rw [List.append_nil] at hmask
        exact ⟨address, mask, rfl, haddress, hmask ▸ hdigits⟩
      · cases h
  · rintro ⟨address, mask, rfl, haddress, hmask⟩
    have hscan : ipv4.scan (address ++ '/' :: mask) = some ((), '/' :: mask) :=
      ipv4_eq_some_iff.mpr ⟨address, rfl, haddress, hslash mask⟩
    have hlength : ipv4.length? (address ++ '/' :: mask) = some address.length := by
      rw [Shape.length?, Text.Scan.length?, hscan]
      simp
    have haccepts : integer.accepts mask = true :=
      (accepts_iff (by decide)).mpr (integer_eq_some_iff.mpr ⟨mask, by simp, hmask, noDigit_nil⟩)
    rw [isMaskedAddress, hlength]
    simpa using haccepts

end LogMining.Shape
