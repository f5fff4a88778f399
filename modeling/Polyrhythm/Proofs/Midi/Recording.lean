import Mathlib.Algebra.Order.Ring.Int
import Polyrhythm.Midi.File
import Polyrhythm.Traversal

/-!
# Recorders that keep to the format

Which values a message may have and which tracks can be written is up to the recorder. What the
results about tracks and files ask of it is collected in `Recorder.Lawful`: the ranges of the format
are accepted, nothing that is accepted is changed, and a track is written unless a distance in it is
negative. The standard recorder keeps to this (`Recorder.lawful_standard`).
-/

namespace Polyrhythm

open Traversal

namespace Recorder

/-- A recorder accepts 16 channels, notes and velocities of 7 bits, and the usual number of beats a
minute; it keeps the values it accepts. It writes every track, but stops at a negative distance. -/
structure Lawful (recorder : Recorder) : Prop where
  channel : ∀ q n, recorder.channel q = .ok n ↔ q = some (.whole n) ∧ n ≤ 15
  data : ∀ q n, recorder.data q = .ok n ↔ q = some (.whole n) ∧ n ≤ 127
  tempo : ∃ microseconds, recorder.tempo (.whole 120) = .ok microseconds
  encode_of_nonneg : ∀ track, (∀ m ∈ track.messages, 0 ≤ m.1) →
    ∃ content, recorder.encode track = .ok content
  encode_of_neg : ∀ track, (∃ m ∈ track.messages, m.1 < 0) →
    recorder.encode track = .error .negativeDelta

/-! ## The standard recorder -/

/-- A value passes a check if it is a whole number up to the limit, and is then left as it is. -/
theorem checked_eq_ok {limit n : Nat} {fault : Fault} {q : Option Quantity} :
    checked limit fault q = .ok n ↔ q = some (.whole n) ∧ n ≤ limit := by
  constructor
  · intro h
    rw [checked.eq_def] at h
    split at h
    · next m =>
      split at h
      · next hrange =>
        cases h
        rw [Bool.and_eq_true, decide_eq_true_eq, decide_eq_true_eq] at hrange
        rw [Int.toNat_of_nonneg hrange.1]
        exact ⟨rfl, Int.toNat_le.2 hrange.2⟩
      · cases h
    · cases h
  · rintro ⟨rfl, hlimit⟩
    exact if_pos (by simpa using hlimit)

variable {messages : List (Int × Message)}

/-- Messages without negative distances can be encoded. -/
theorem encodeFrom_of_nonneg (h : ∀ m ∈ messages, 0 ≤ m.1) (running : Option UInt8) :
    ∃ content, encodeFrom running messages = .ok content := by
  induction messages generalizing running with
  | nil => exact ⟨[], rfl⟩
  | cons m ms ih =>
    obtain ⟨hm, hms⟩ := List.forall_mem_cons.1 h
    obtain ⟨more, hmore⟩ := ih hms m.2.status?
    exact ⟨_, (if_neg hm.not_gt).trans (bind_eq_ok.2 ⟨more, hmore, rfl⟩)⟩

/-- Encoding stops at a negative distance. -/
theorem encodeFrom_of_neg (h : ∃ m ∈ messages, m.1 < 0) (running : Option UInt8) :
    encodeFrom running messages = .error .negativeDelta := by
  induction messages generalizing running with
  | nil =>
    obtain ⟨m, hm, -⟩ := h
    cases hm
  | cons m ms ih =>
    by_cases hneg : m.1 < 0
    · exact if_pos hneg
    · have hlater : ∃ m ∈ ms, m.1 < 0 := by
        obtain ⟨m', hm', hneg'⟩ := h
        rcases List.mem_cons.1 hm' with rfl | hm'
        · exact absurd hneg' hneg
        · exact ⟨m', hm', hneg'⟩
      exact (if_neg hneg).trans (bind_eq_error.2 (.inl (ih hlater m.2.status?)))

theorem lawful_standard : standard.Lawful where
  channel _ _ := checked_eq_ok
  data _ _ := checked_eq_ok
  tempo := by
    have haccepted : (standard.tempo (.whole 120)).isOk = true := by decide +kernel
    exact exists_of_isOk haccepted
  encode_of_nonneg track h := by
    obtain ⟨content, hcontent⟩ := encodeFrom_of_nonneg h none
    exact ⟨_, bind_eq_ok.2 ⟨content, hcontent, rfl⟩⟩
  encode_of_neg track h := bind_eq_error.2 (.inl (encodeFrom_of_neg h none))

end Recorder

end Polyrhythm
