import LogMining.Line.Dates
import LogMining.Proofs.Shape.ScanDate

/-!
# Cutting a line at its dates

A list of segments is a cut of a line if the segments cover the line one behind the other and each of them is what
the shapes of dates find at its offset, in the whole line: a date of the first shape, one of the second shape where
the first finds none, or a character where neither finds any. There is one cut only, since a segment tells where the
next one begins, and the line is masked along it.
-/

namespace LogMining.Line

/-- What stands at an offset of a line. -/
def Segment.StandsAt (line : String) (start : Nat) : Segment → Prop
  | date shape span => span ≠ [] ∧
      (shape = .rfc3164 ∧ Shape.rfc3164.consumed line start = span.length ∨
        shape = .rfc5424 ∧ Shape.rfc3164.consumed line start = 0 ∧
          Shape.rfc5424.consumed line start = span.length)
  | char _ => Shape.rfc3164.consumed line start = 0 ∧ Shape.rfc5424.consumed line start = 0

/-- Segments stand one behind the other from an offset on, which is carried along. -/
def StandFrom (line : String) : Nat → List Segment → Prop
  | _, [] => True
  | start, segment :: segments => segment.StandsAt line start ∧
      StandFrom line (start + segment.source.length) segments

/-- The segments cover the line, and each of them stands at its offset. -/
structure IsCut (line : String) (segments : List Segment) : Prop where
  source_eq : segments.flatMap Segment.source = line.toList
  stand : StandFrom line 0 segments

variable {line : String} {before rest left : List Char} {c : Char} {segment : Segment}

theorem consumed_length_before (h : line.toList = before ++ rest) (shape : Shape) :
    shape.consumed line before.length = ((shape.length? rest).getD 0 : Nat) := by
  have hlength : before.length ≤ line.length := by
    rw [← String.length_toList, h, List.length_append]
    exact Nat.le_add_right _ _
  rw [Shape.consumed_of_le hlength, h, List.drop_left]

theorem date?_eq (text : List Char) :
    date? text =
      match (Shape.rfc3164.length? text).getD 0, (Shape.rfc5424.length? text).getD 0 with
      | n + 1, _ => some (.rfc3164, n)
      | 0, n + 1 => some (.rfc5424, n)
      | 0, 0 => none := by
  rw [date?, Shape.ofLines, List.findSome?_cons, List.findSome?_cons, List.findSome?_nil]
  rcases Shape.rfc3164.length? text with _ | _ | n
  all_goals rcases Shape.rfc5424.length? text with _ | _ | m
  all_goals rfl

theorem standsAt_date_iff {shape : Shape} {span : List Char} (h : line.toList = before ++ rest) :
    (Segment.date shape span).StandsAt line before.length ↔
      ∃ n, date? rest = some (shape, n) ∧ span.length = n + 1 := by
  rw [Segment.StandsAt, consumed_length_before h, consumed_length_before h, date?_eq]
  generalize (Shape.rfc3164.length? rest).getD 0 = first, (Shape.rfc5424.length? rest).getD 0 = second
  constructor
  · rintro ⟨hne, hfound⟩
    obtain ⟨n, hn⟩ := Nat.exists_eq_succ_of_ne_zero (List.length_pos_iff.mpr hne).ne'
    rw [hn] at hfound ⊢
    rcases hfound with ⟨rfl, hfirst⟩ | ⟨rfl, hfirst, hsecond⟩
    · obtain rfl : first = n + 1 := Int.ofNat.inj hfirst
      exact ⟨n, rfl, rfl⟩
    · obtain rfl : first = 0 := Int.ofNat.inj hfirst
      obtain rfl : second = n + 1 := Int.ofNat.inj hsecond
      exact ⟨n, rfl, rfl⟩
  · rintro ⟨n, hfound, hspan⟩
    refine ⟨List.ne_nil_of_length_eq_add_one hspan, ?_⟩
    rw [hspan]
    split at hfound
    · cases hfound
      exact .inl ⟨rfl, rfl⟩
    · cases hfound
      exact .inr ⟨rfl, rfl, rfl⟩
    · cases hfound

theorem standsAt_char_iff (h : line.toList = before ++ rest) :
    (Segment.char c).StandsAt line before.length ↔ date? rest = none := by
  rw [Segment.StandsAt, consumed_length_before h, consumed_length_before h, date?_eq, Int.natCast_eq_zero,
    Int.natCast_eq_zero]
  split
  · next hfirst => simp [hfirst]
  · next hsecond => simp [hsecond]
  · next hfirst hsecond => simp [hfirst, hsecond]

theorem lt_length_of_date? {text : List Char} {shape : Shape} {n : Nat} (h : date? text = some (shape, n)) :
    n < text.length := by
  obtain ⟨found, -, h⟩ := List.exists_of_findSome?_eq_some h
  split at h
  · next m hlength =>
    cases h
    exact Shape.length?_le hlength
  · cases h

theorem source_firstSegment (c : Char) (rest : List Char) :
    (firstSegment c rest).1.source ++ (firstSegment c rest).2.1 = c :: rest := by
  rw [firstSegment]
  split
  · next n _ => exact congrArg (c :: ·) (List.take_append_drop n rest)
  · rfl

theorem standsAt_firstSegment (h : line.toList = before ++ c :: rest) :
    (firstSegment c rest).1.StandsAt line before.length := by
  rw [firstSegment]
  split
  · next shape n hfound =>
    have hlt := lt_length_of_date? hfound
    rw [List.length_cons] at hlt
    refine (standsAt_date_iff h).mpr ⟨n, hfound, ?_⟩
    rw [List.length_cons, List.length_take, Nat.min_eq_left (Nat.le_of_lt_succ hlt)]
  · next hfound => exact (standsAt_char_iff h).mpr hfound

/-- Nothing else stands there that the line goes on with. -/
theorem eq_firstSegment (h : line.toList = before ++ c :: rest) (hstands : segment.StandsAt line before.length)
    (hsource : segment.source ++ left = c :: rest) : segment = (firstSegment c rest).1 := by
  rw [firstSegment]
  cases segment with
  | date shape span =>
      obtain ⟨n, hfound, hspan⟩ := (standsAt_date_iff h).mp hstands
      have htake : span = (c :: rest).take (n + 1) := by
        rw [← hsource, Segment.source, List.take_left' hspan]
      rw [hfound, htake]
      rfl
  | char d =>
      rw [(standsAt_char_iff h).mp hstands]
      exact congrArg Segment.char (List.cons.inj hsource).1

theorem Segment.StandsAt.source_ne_nil {start : Nat} (h : segment.StandsAt line start) : segment.source ≠ [] := by
  cases segment with
  | date shape span => exact h.1
  | char c => exact List.cons_ne_nil c []

theorem StandFrom.length_le {segments : List Segment} {start : Nat} (h : StandFrom line start segments) :
    segments.length ≤ (segments.flatMap Segment.source).length := by
  induction segments generalizing start with
  | nil => exact Nat.zero_le _
  | cons segment segments ih =>
      have hpos := List.length_pos_iff.mpr h.1.source_ne_nil
      have hle := ih h.2
      rw [List.flatMap_cons, List.length_append, List.length_cons]
      omega

theorem covers_iff {text : List Char} (h : line.toList = before ++ text) {segments : List Segment} :
    segments.flatMap Segment.source = text ∧ StandFrom line before.length segments ↔
      segments = Text.pieces firstSegment text := by
  -- on the pieces, with what stands before them growing
  induction text using Text.pieces_induction firstSegment generalizing before segments with
  | nil =>
      rw [Text.pieces_nil]
      constructor
      · rintro ⟨hsource, hstand⟩
        have hle := hstand.length_le
        rw [hsource] at hle
        exact List.eq_nil_of_length_eq_zero (Nat.le_zero.mp hle)
      · rintro rfl
        exact ⟨rfl, trivial⟩
  | cons c rest ih =>
      have hfirst := source_firstSegment c rest
      have hbehind : line.toList = before ++ (firstSegment c rest).1.source ++ (firstSegment c rest).2.1 := by
        rw [h, ← hfirst, List.append_assoc]
      have ih := @ih _ hbehind
      rw [List.length_append] at ih
      rw [Text.pieces_cons]
      constructor
      · rintro ⟨hsource, hstand⟩
        cases segments with
        | nil => cases hsource
        | cons segment segments =>
            rw [List.flatMap_cons] at hsource
            obtain rfl := eq_firstSegment h hstand.1 hsource
            have hrest := List.append_cancel_left (hsource.trans hfirst.symm)
            rw [ih.mp ⟨hrest, hstand.2⟩]
      · rintro rfl
        obtain ⟨hrest, hstand⟩ := ih.mpr rfl
        refine ⟨?_, standsAt_firstSegment h, hstand⟩
        rw [List.flatMap_cons, hrest, hfirst]

theorem isCut_iff {segments' : List Segment} : IsCut line segments' ↔ segments' = segments line.toList := by
  rw [segments, ← covers_iff (List.nil_append _).symm]
  exact ⟨fun h => ⟨h.source_eq, h.stand⟩, fun h => ⟨h.1, h.2⟩⟩

theorem standFrom_map_char
    (h : ∀ start < line.length, Shape.rfc3164.consumed line start = 0 ∧ Shape.rfc5424.consumed line start = 0)
    (text : List Char) (start : Nat) (hlength : start + text.length ≤ line.length) :
    StandFrom line start (text.map Segment.char) := by
  induction text generalizing start with
  | nil => trivial
  | cons c text ih =>
      rw [List.length_cons] at hlength
      exact ⟨h start (by omega), ih (start + 1) (by omega)⟩

/-- There is one cut of a line. The line is masked along it, and a line in which no date stands is left alone. -/
theorem exists_cut_maskDates (line : String) :
    ∃ cut, (∀ segments, IsCut line segments ↔ segments = cut) ∧ cut.length ≤ line.length ∧
      maskDates line = String.ofList (cut.flatMap Segment.text) ∧
      String.ofList (cut.flatMap Segment.source) = line ∧
      ((∀ start < line.length,
          Shape.rfc3164.consumed line start = 0 ∧ Shape.rfc5424.consumed line start = 0) →
        maskDates line = line) := by
  obtain ⟨hsource, hstand⟩ : IsCut line (segments line.toList) := isCut_iff.mpr rfl
  refine ⟨segments line.toList, fun _ => isCut_iff, ?length, rfl, ?source, ?undated⟩
  case length =>
    have hle := hstand.length_le
    rwa [hsource, String.length_toList] at hle
  case source => rw [hsource, String.ofList_toList]
  case undated =>
    intro h
    have hchars : IsCut line (line.toList.map Segment.char) :=
      ⟨by simp [List.flatMap_map, Segment.source],
        standFrom_map_char h line.toList 0 (by rw [Nat.zero_add, String.length_toList])⟩
    rw [maskDates, ← isCut_iff.mp hchars, List.flatMap_map]
    simp [Segment.text]

/-- One date ends where the next one begins, and the colon belongs to the second one. -/
example : maskDates "<13>Oct  1 1:2:3Oct 11 22:14:15: up" = "<13>%date-rfc3164%%date-rfc3164% up" := by
  decide +kernel

end LogMining.Line
