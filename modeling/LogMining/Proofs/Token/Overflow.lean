import LogMining.Token.Source

/-!
# The one fault of a source

Reading a line goes wrong for one reason only: more tokens are set aside than the pending stack has room
for. The room does not change while a line is read.
-/

namespace LogMining

namespace Pending

theorem capacity_push (t : Token) (p : Pending) :
    (Step.state ((push t).run p)).capacity = p.capacity := by
  rw [run_push]
  split <;> rfl

theorem fault_push {t : Token} {p p' : Pending} {fault : Fault}
    (h : (push t).run p = .error fault p') : fault = .overflow p.capacity := by
  rw [run_push] at h
  split at h
  · cases h
    rfl
  · cases h

theorem capacity_detect (t : Token) (p : Pending) :
    (Step.state ((detect t).run p)).capacity = p.capacity := by
  unfold detect
  split
  · rfl
  · split
    · have hmask := capacity_push maskPart p
      rw [EStateM.run_bind]
      split
      · next q hq =>
        rw [hq] at hmask
        have hslash := capacity_push slashPart q
        rw [EStateM.run_bind]
        split
        · next r hr =>
          rw [hr] at hslash
          exact hslash.trans hmask
        · next r hr =>
          rw [hr] at hslash
          exact hslash.trans hmask
      · next q hq =>
        rw [hq] at hmask
        exact hmask
    · rfl

theorem fault_detect {t : Token} {p p' : Pending} {fault : Fault}
    (h : (detect t).run p = .error fault p') : fault = .overflow p.capacity := by
  unfold detect at h
  split at h
  · cases h
  · split at h
    · have hmask := capacity_push maskPart p
      rw [EStateM.run_bind] at h
      split at h
      · next q hq =>
        rw [hq] at hmask
        rw [EStateM.run_bind] at h
        split at h
        · cases h
        · next r hr =>
          cases h
          rw [fault_push hr]
          exact congrArg Fault.overflow hmask
      · next q hq =>
        cases h
        exact fault_push hq
    · cases h

end Pending

namespace Source

theorem capacity_classify (word : List Char) (p : Pending) :
    (Step.state ((classify word).run p)).capacity = p.capacity := by
  unfold classify
  dsimp only
  split
  · rfl
  · have hdetect := Pending.capacity_detect { word := String.ofList word } p
    rw [EStateM.run_bind]
    split
    · next q hq =>
      rw [hq] at hdetect
      exact hdetect
    · next q hq =>
      rw [hq] at hdetect
      exact hdetect

theorem fault_classify {word : List Char} {p p' : Pending} {fault : Fault}
    (h : (classify word).run p = .error fault p') : fault = .overflow p.capacity := by
  unfold classify at h
  dsimp only at h
  split at h
  · cases h
  · rw [EStateM.run_bind] at h
    split at h
    · cases h
    · next q hq =>
      cases h
      exact Pending.fault_detect hq

theorem capacity_next {s s' : Source} {o : Option Token} (h : next.run s = .ok o s') :
    s'.pending.capacity = s.pending.capacity := by
  simp only [next, EStateM.run] at h
  split at h
  · cases h
    rfl
  · split at h
    · cases h
      rfl
    · have hclassify := capacity_classify ((s.rest.dropWhile Text.isBlank).takeWhile Text.isInk)
        s.pending
      split at h
      · next p hp =>
        cases h
        rw [EStateM.run, hp] at hclassify
        exact hclassify
      · cases h

theorem fault_next {s s' : Source} {fault : Fault} (h : next.run s = .error fault s') :
    fault = .overflow s.pending.capacity := by
  simp only [next, EStateM.run] at h
  split at h
  · cases h
  · split at h
    · cases h
    · split at h
      · cases h
      · next hp =>
        cases h
        exact fault_classify hp

/-- The tokens of a line come to an end only at the end of the line or when there is no room for what
has to be set aside. -/
theorem fault_feed {s : Source} {fault : Fault} (h : s.feed.fault = some fault) :
    fault = .overflow s.pending.capacity := by
  cases hnext : next.run s with
  | ok o s' =>
      cases o with
      | none =>
          rw [feed_of_end hnext] at h
          cases h
      | some t =>
          rw [feed_of_next hnext] at h
          rw [fault_feed h, capacity_next hnext]
  | error fault' s' =>
      rw [feed_of_fault hnext] at h
      cases h
      exact fault_next hnext
termination_by s.bound
decreasing_by exact bound_next_lt hnext

end Source

end LogMining
