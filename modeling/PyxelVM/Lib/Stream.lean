/-
  PyxelVM.Lib.Stream — a byte stream that arrives in pieces.

  A `Socket` is the bytes still to come before the stream ends, and the way the
  transport cuts them: `cuts i` is how many it would give to the `i`-th `recv` from here.
  A `recv` gives at least one of the bytes that are left and at most as many as asked
  for; every way of cutting is some `cuts`. It gives none only at the end.

  `recvExact` asks again until it has all it wants: `recvExact_enough` and
  `recvExact_short` say what comes of it, whatever the cuts.
-/

import PyxelVM.Lib.Exec

namespace PyxelVM.Lib

structure Socket where
  stream : List UInt8
  cuts : Nat → Nat

/-- How many bytes a `recv` of `n` takes. -/
def Socket.piece (s : Socket) (n : Nat) : Nat := max 1 (min (s.cuts 0) n)

/-- `sock.recv(n)`, of at least one byte. -/
def Socket.recv (s : Socket) (n : Nat) : List UInt8 × Socket :=
  (s.stream.take (s.piece n), ⟨s.stream.drop (s.piece n), fun i => s.cuts (i + 1)⟩)

theorem Socket.piece_le (s : Socket) {n : Nat} (h : n ≠ 0) : 1 ≤ s.piece n ∧ s.piece n ≤ n := by
  unfold Socket.piece
  omega

/-- What is being received: the bytes so far, and how many are missing. -/
structure Receiving where
  sock : Socket
  bytes : List UInt8
  remaining : Nat

inductive StreamError where
  | closed
  deriving DecidableEq, Repr

/-- One more `recv`. -/
def Receiving.turn (r : Receiving) : Outcome StreamError Receiving :=
  let got := r.sock.recv r.remaining
  if got.1 = [] then .raised .closed { r with sock := got.2 }
  else .done ⟨got.2, r.bytes ++ got.1, r.remaining - got.1.length⟩

/-- `recv` until `size` bytes are there; each gives one, so that many turns are enough. -/
def recvExact (sock : Socket) (size : Nat) : Outcome StreamError Receiving :=
  repeatWhile (fun r => decide (r.remaining ≠ 0)) Receiving.turn size ⟨sock, [], size⟩

variable {r : Receiving}

theorem turn_closed (h : r.sock.stream = []) : ∃ r', r.turn = .raised .closed r' := by
  simp only [Receiving.turn, Socket.recv, h, List.take_nil, if_true]
  exact ⟨_, rfl⟩

/-- A turn before the end moves a piece over. -/
theorem turn_open (h : r.sock.stream ≠ []) (hr : r.remaining ≠ 0) :
    ∃ k sock', 1 ≤ k ∧ k ≤ r.remaining ∧ k ≤ r.sock.stream.length ∧ sock'.stream = r.sock.stream.drop k ∧
      r.turn = .done ⟨sock', r.bytes ++ r.sock.stream.take k, r.remaining - k⟩ := by
  obtain ⟨h1, hle⟩ := r.sock.piece_le hr
  have hpos : 0 < r.sock.stream.length := List.length_pos_iff.mpr h
  have hne : r.sock.stream.take (r.sock.piece r.remaining) ≠ [] := by
    intro e
    have := congrArg List.length e
    simp only [List.length_take, List.length_nil] at this
    omega
  refine ⟨min (r.sock.piece r.remaining) r.sock.stream.length, _, by omega, by omega, by omega, ?_,
    by simp only [Receiving.turn, Socket.recv, if_neg hne, List.length_take]; rw [List.take_eq_take_min]⟩
  rw [List.drop_eq_drop_min]

theorem nothing_missing (h : r.remaining = 0) : r = ⟨r.sock, r.bytes ++ r.sock.stream.take r.remaining, 0⟩ := by
  obtain ⟨sock, bytes, remaining⟩ := r
  obtain rfl : remaining = 0 := h
  simp

/-- The loop takes what is missing, if it is there. -/
theorem loop_enough {k : Nat} (hk : r.remaining ≤ k) (h : r.remaining ≤ r.sock.stream.length) :
    ∃ sock', sock'.stream = r.sock.stream.drop r.remaining ∧
      repeatWhile (fun r => decide (r.remaining ≠ 0)) Receiving.turn k r =
        .done ⟨sock', r.bytes ++ r.sock.stream.take r.remaining, 0⟩ := by
  induction k generalizing r with
  | zero =>
    have h0 : r.remaining = 0 := by omega
    refine ⟨r.sock, by rw [h0, List.drop_zero], ?_⟩
    rw [← nothing_missing h0]
    rfl
  | succ k ih =>
    by_cases h0 : r.remaining = 0
    · refine ⟨r.sock, by rw [h0, List.drop_zero], ?_⟩
      simp only [repeatWhile, h0, ne_eq, not_true_eq_false, decide_false, Bool.false_eq_true, if_false, List.take_zero,
        List.append_nil]
      rw [← h0]
    · have hne : r.sock.stream ≠ [] := by
        intro e
        rw [e, List.length_nil] at h
        omega
      obtain ⟨j, sock', h1, h2, h3, hs, ht⟩ := turn_open hne h0
      obtain ⟨sock'', hs'', hl⟩ := ih (r := ⟨sock', r.bytes ++ r.sock.stream.take j, r.remaining - j⟩)
        (by show _ - j ≤ k; omega)
        (by show _ - j ≤ sock'.stream.length; rw [hs, List.length_drop]; omega)
      have hj : j + (r.remaining - j) = r.remaining := by omega
      refine ⟨sock'', by rw [hs'', hs, List.drop_drop, hj], ?_⟩
      simp only [repeatWhile, ne_eq, h0, not_false_eq_true, decide_true, if_true, ht, Outcome.bind_done]
      simp only [ne_eq] at hl
      rw [hl, hs, List.append_assoc, ← List.take_add, hj]

/-- The loop raises, if the stream ends before. -/
theorem loop_short {k : Nat} (hk : r.remaining ≤ k) (h : r.sock.stream.length < r.remaining) :
    ∃ r', repeatWhile (fun r => decide (r.remaining ≠ 0)) Receiving.turn k r = .raised .closed r' := by
  induction k generalizing r with
  | zero => omega
  | succ k ih =>
    have h0 : r.remaining ≠ 0 := by omega
    simp only [repeatWhile, ne_eq, h0, not_false_eq_true, decide_true, if_true]
    by_cases hne : r.sock.stream = []
    · obtain ⟨r', hr'⟩ := turn_closed hne
      exact ⟨r', by rw [hr', Outcome.bind_raised]⟩
    · obtain ⟨j, sock', h1, h2, h3, hs, ht⟩ := turn_open hne h0
      obtain ⟨r', hr'⟩ := ih (r := ⟨sock', r.bytes ++ r.sock.stream.take j, r.remaining - j⟩) (by show _ - j ≤ k; omega)
        (by show sock'.stream.length < _ - j; rw [hs, List.length_drop]; omega)
      exact ⟨r', by rw [ht, Outcome.bind_done]; exact hr'⟩

/-- However it is cut, a stream that has the bytes gives them and is left with the rest. -/
theorem recvExact_enough (sock : Socket) {n : Nat} (h : n ≤ sock.stream.length) :
    ∃ sock', sock'.stream = sock.stream.drop n ∧ recvExact sock n = .done ⟨sock', sock.stream.take n, 0⟩ :=
  loop_enough (r := ⟨sock, [], n⟩) (Nat.le_refl n) h

/-- However it is cut, a stream that ends before gives nothing. -/
theorem recvExact_short (sock : Socket) {n : Nat} (h : sock.stream.length < n) :
    ∃ r, recvExact sock n = .raised .closed r :=
  loop_short (r := ⟨sock, [], n⟩) (Nat.le_refl n) h

end PyxelVM.Lib
