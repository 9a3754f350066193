import Libatp.Base.Posix

/-!
# `SendHelper::nonblockWrite` (`app/atp_send_helper.hpp`)

A first `::send`, and a loop of `poll` and `::send` for what the kernel did not take at
once. The test of the result of `poll` goes round the loop if the call was interrupted and
returns an error otherwise, also if the descriptor is ready: whatever follows the test in
the loop is not reached, and what the first `::send` left behind is never sent.
-/

namespace Libatp.App
open Base

/-- `ATP_HELPER_POLL_ERROR` -/
def pollError : Int := -106

/-- `ATP_HELPER_SEND_ERROR` -/
def sendError : Int := -108

/-- The bits of `revents` that are looked at. -/
structure Revents where
  err : Bool
  nval : Bool
  hup : Bool
  out : Bool
  deriving DecidableEq, Repr

inductive PollOutcome where
  /-- 0 for a timeout, 1 if there are events -/
  | returned (ret : Nat) (revents : Revents)
  | failed (errno : Errno)
  deriving DecidableEq, Repr

namespace PollOutcome

/-- `ret < 0 && errno == EINTR` -/
def interrupted : PollOutcome → Bool
  | failed errno => errno = .eintr
  | returned _ _ => false

/-- A call that failed leaves the field as it was; nothing reads it then. -/
def revents : PollOutcome → Revents
  | returned _ revents => revents
  | failed _ => ⟨false, false, false, false⟩

end PollOutcome

/-- What the kernel answers to each call of `::send` and of `poll`. -/
structure Kernel where
  send : Nat → SendOutcome
  poll : Nat → PollOutcome

/-- The descriptor, the number of calls so far, and the bytes the kernel has taken. -/
structure Helper where
  fd : Int
  sends : Nat
  polls : Nat
  taken : List Byte
  deriving DecidableEq, Repr

namespace Helper

def setFd (fd : Int) : Helper := ⟨fd, 0, 0, []⟩

def close (w : Helper) : Helper := { w with fd := -1 }

/-- `::send` of `bytes`; it takes no more than it is offered. -/
def send (k : Kernel) (w : Helper) (bytes : List Byte) : Helper × Int :=
  match k.send w.sends with
  | .accepted count _ =>
    ({ w with sends := w.sends + 1, taken := w.taken ++ bytes.take count },
      (min count bytes.length : Nat))
  | .failed _ => ({ w with sends := w.sends + 1 }, -1)

def poll (k : Kernel) (w : Helper) : Helper × PollOutcome :=
  ({ w with polls := w.polls + 1 }, k.poll w.polls)

end Helper

/-- Where the loop goes after a test. -/
inductive Flow where
  | again
  | leave (code : Int)
  | on
  deriving DecidableEq, Repr

def testPoll (p : PollOutcome) : Flow :=
  if p.interrupted then .again else .leave pollError

/-- The loop; `none` if it has not come to an end in `fuel` rounds. -/
def writeLoop (k : Kernel) (data : List Byte) :
    Nat → Helper → (remaining : Nat) → (offset : Int) → Option (Helper × Int)
  | 0, _, _, _ => none
  | fuel + 1, w, remaining, offset =>
    let (w, p) := w.poll k
    match testPoll p with
    | .again => writeLoop k data fuel w remaining offset
    | .leave code => some (w, code)
    | .on =>
      if p.revents.err || p.revents.nval || p.revents.hup then some (w.close, pollError)
      else if p.revents.out then
        let (w, nwrite) := w.send k ((data.drop offset.toNat).take remaining)
        if nwrite < 0 then some (w, sendError)
        else if remaining - nwrite.toNat = 0 then some (w, 0)
        else writeLoop k data fuel w (remaining - nwrite.toNat) (int32 (offset + nwrite))
      else writeLoop k data fuel w remaining offset

def nonblockWrite (k : Kernel) (fuel : Nat) (w : Helper) (data : List Byte) :
    Option (Helper × Int) :=
  let (w, nwrite) := w.send k data
  if 0 ≤ nwrite then
    let remaining := data.length - nwrite.toNat
    if remaining = 0 then some (w, 0)
    else if 0 < remaining then writeLoop k data fuel w remaining (int32 nwrite)
    else some (w, sendError)
  else some (w.close, sendError)

/-! ## The loop -/

variable {k : Kernel} {data : List Byte} {w w' : Helper} {remaining fuel : Nat} {offset code : Int}

theorem testPoll_interrupted {p : PollOutcome} (h : p.interrupted = true) :
    testPoll p = .again :=
  if_pos h

theorem testPoll_other {p : PollOutcome} (h : p.interrupted = false) :
    testPoll p = .leave pollError :=
  if_neg (by simp [h])

theorem writeLoop_interrupted (h : (k.poll w.polls).interrupted = true) :
    writeLoop k data (fuel + 1) w remaining offset =
      writeLoop k data fuel { w with polls := w.polls + 1 } remaining offset := by
  simp only [writeLoop, Helper.poll, testPoll_interrupted h]

theorem writeLoop_other (h : (k.poll w.polls).interrupted = false) :
    writeLoop k data (fuel + 1) w remaining offset =
      some ({ w with polls := w.polls + 1 }, pollError) := by
  simp only [writeLoop, Helper.poll, testPoll_other h]

/-- The loop sends nothing and ends with an error. -/
theorem writeLoop_fails (h : writeLoop k data fuel w remaining offset = some (w', code)) :
    code = pollError ∧ w'.taken = w.taken := by
  induction fuel generalizing w with
  | zero => cases h
  | succ fuel ih =>
    cases p : (k.poll w.polls).interrupted with
    | true =>
      rw [writeLoop_interrupted p] at h
      have later := ih h
      exact later
    | false =>
      rw [writeLoop_other p] at h
      cases h
      exact ⟨rfl, rfl⟩

/-- It ends at the first call of `poll` that is not interrupted, `n` rounds from here. -/
theorem writeLoop_ends (data : List Byte) {n : Nat}
    (first : (k.poll (w.polls + n)).interrupted = false) :
    ∃ fuel w', writeLoop k data fuel w remaining offset = some (w', pollError) := by
  induction n generalizing w with
  | zero => exact ⟨1, _, writeLoop_other first⟩
  | succ n ih =>
    cases p : (k.poll w.polls).interrupted with
    | false => exact ⟨1, _, writeLoop_other p⟩
    | true =>
      have next : w.polls + (n + 1) = w.polls + 1 + n := by omega
      rw [next] at first
      obtain ⟨fuel, w', run⟩ := @ih { w with polls := w.polls + 1 } first
      exact ⟨fuel + 1, w', (writeLoop_interrupted p).trans run⟩

/-! ## The whole call -/

/-- A kernel that lets every write come to its end: each `::send` takes something, and each
`poll` reports that the descriptor can be written or is interrupted, but not for ever. -/
structure Obliging (k : Kernel) : Prop where
  accepts : ∀ n, ∃ count errno, k.send n = .accepted count errno ∧ 1 ≤ count
  ready : ∀ n, (k.poll n).interrupted = true ∨ (k.poll n).revents.out = true
  finite : ∀ n, ∃ m, (k.poll (n + m)).interrupted = false

/-- The answer to the first `::send` covers all of `data`. -/
def AtOnce (k : Kernel) (data : List Byte) : Prop :=
  ∃ count errno, k.send 0 = .accepted count errno ∧ data.length ≤ count

/-- The call returns 0, and the kernel has taken `data`. -/
def Complete (k : Kernel) (fd : Int) (data : List Byte) : Prop :=
  ∃ fuel w, nonblockWrite k fuel (.setFd fd) data = some (w, 0) ∧ w.taken = data

section
variable {fd : Int} {count : Nat} {errno : Errno}

theorem nonblockWrite_failed (h : k.send 0 = .failed errno) :
    nonblockWrite k fuel (.setFd fd) data = some ({ fd := -1, sends := 1, polls := 0, taken := [] },
      sendError) := by
  simp [nonblockWrite, Helper.send, Helper.setFd, Helper.close, h]

theorem nonblockWrite_all (h : k.send 0 = .accepted count errno) (all : data.length ≤ count) :
    nonblockWrite k fuel (.setFd fd) data =
      some ({ fd := fd, sends := 1, polls := 0, taken := data }, 0) := by
  simp [nonblockWrite, Helper.send, Helper.setFd, h, Nat.min_eq_right all,
    List.take_of_length_le all]

theorem nonblockWrite_part (h : k.send 0 = .accepted count errno) (part : count < data.length) :
    nonblockWrite k fuel (.setFd fd) data =
      writeLoop k data fuel { fd := fd, sends := 1, polls := 0, taken := data.take count }
        (data.length - count) (int32 count) := by
  have more : data.length - count ≠ 0 := by omega
  simp [nonblockWrite, Helper.send, Helper.setFd, h, Nat.min_eq_left (Nat.le_of_lt part), more,
    Nat.pos_of_ne_zero more]

/-- A call returns 0 only if the first `::send` took everything. -/
theorem nonblockWrite_zero (h : nonblockWrite k fuel (.setFd fd) data = some (w, 0)) :
    AtOnce k data ∧ w.taken = data := by
  cases outcome : k.send 0 with
  | failed errno =>
    rw [nonblockWrite_failed outcome] at h
    cases h
  | accepted count errno =>
    by_cases all : data.length ≤ count
    · rw [nonblockWrite_all outcome all] at h
      cases h
      exact ⟨⟨count, errno, outcome, all⟩, rfl⟩
    · rw [nonblockWrite_part outcome (by omega)] at h
      have error := (writeLoop_fails h).1
      cases error

theorem nonblockWrite_returns (kind : Obliging k) :
    ∃ fuel w code, nonblockWrite k fuel (.setFd fd) data = some (w, code) := by
  obtain ⟨count, errno, outcome, _⟩ := kind.accepts 0
  by_cases all : data.length ≤ count
  · exact ⟨0, _, 0, nonblockWrite_all outcome all⟩
  · obtain ⟨n, first⟩ := kind.finite 0
    obtain ⟨fuel, w, run⟩ := writeLoop_ends (k := k) data
      (w := { fd := fd, sends := 1, polls := 0, taken := data.take count }) first
    exact ⟨fuel, w, pollError, (nonblockWrite_part outcome (by omega)).trans run⟩

theorem complete_iff : Complete k fd data ↔ AtOnce k data := by
  constructor
  · rintro ⟨fuel, w, run, _⟩
    exact (nonblockWrite_zero run).1
  · rintro ⟨count, errno, outcome, all⟩
    exact ⟨0, _, nonblockWrite_all outcome all, rfl⟩

end

/-- **A write is complete if and only if the first `::send` takes everything**, also where
the kernel goes on taking bytes; the call returns in any case. Whatever the kernel answers,
0 means that all bytes were taken. -/
theorem write_complete_iff (fd : Int) (data : List Byte) :
    (∀ k : Kernel, Obliging k →
      (∃ fuel w code, nonblockWrite k fuel (.setFd fd) data = some (w, code)) ∧
      (Complete k fd data ↔ AtOnce k data)) ∧
    ∀ (k : Kernel) (fuel : Nat) (w : Helper),
      nonblockWrite k fuel (.setFd fd) data = some (w, 0) → w.taken = data :=
  ⟨fun _ kind => ⟨nonblockWrite_returns kind, complete_iff⟩,
    fun _ _ _ run => (nonblockWrite_zero run).2⟩

/-- A kernel that takes up to `count` bytes at a time and is always ready. -/
def steady (count : Nat) : Kernel where
  send _ := .accepted count .eagain
  poll _ := .returned 1 ⟨false, false, false, true⟩

theorem steady_obliging {count : Nat} (some : 1 ≤ count) : Obliging (steady count) where
  accepts _ := ⟨count, .eagain, rfl, some⟩
  ready _ := .inr rfl
  finite _ := ⟨0, rfl⟩

theorem write_complete_steady : Obliging (steady 4) ∧ Complete (steady 4) 5 [1, 2, 3] := by
  have kind : Obliging (steady 4) := steady_obliging (by decide)
  exact ⟨kind, (((write_complete_iff 5 [1, 2, 3]).1 _ kind).2).mpr ⟨4, .eagain, rfl, by decide⟩⟩

/-- Two bytes, of which the kernel takes one at a time: the descriptor is ready for the
second, and the call returns the error of `poll`. -/
theorem second_byte_left : Obliging (steady 1) ∧
    nonblockWrite (steady 1) 1 (.setFd 5) [1, 2] =
      some ({ fd := 5, sends := 1, polls := 1, taken := [1] }, pollError) ∧
    ¬ Complete (steady 1) 5 [1, 2] := by
  refine ⟨steady_obliging (by decide), by decide, ?_⟩
  rw [complete_iff]
  rintro ⟨count, errno, outcome, all⟩
  cases outcome
  exact absurd all (by decide)

end Libatp.App
