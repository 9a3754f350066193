import Libatp.Base.Checked
import Mathlib.Data.List.Rotate
import Mathlib.Data.Nat.Prime.Basic

/-!
# `EventLoopPool` and the turns of its loops (`net/atp_event_loop_thread_pool.cpp`)

`getIOEventLoop` takes the loops in turn by a counter of 32 bits that starts at -1.
The remainder is taken of the counter as a `size_t`, so a negative value counts as
one below 2^64, and the remainder is stored in an `int` again. The turns are even if
the wraps of the counter fall on a whole round, which the number of loops decides.
-/

namespace Libatp.LoopPool
open Base

/-- `SERVICE_STATE`. -/
inductive ServiceState where
  | null
  | init
  | running
  | stopping
  | stopped
  deriving DecidableEq, Repr

structure EventLoopPool (Loop : Type) where
  state : ServiceState
  threadsNum : Nat
  currentIndex : BitVec 32
  threads : List Loop
  deriving DecidableEq, Repr

/-- The value of an `int` as a `size_t`. -/
def asSize (current : BitVec 32) : Nat := (current.signExtend 64).toNat

/-- Where `threads_[current % threads_.size()]` looks. -/
def place (size : Nat) (current : BitVec 32) : Nat :=
  asSize (BitVec.ofNat 32 (asSize current % size))

namespace EventLoopPool

variable {Loop : Type}

def create (threadsNum : Nat) : EventLoopPool Loop := ⟨.null, threadsNum, -1, []⟩

/-- The loop of `autoStart` from thread `i` on, with `left` threads to go. `started i`
is the thread's event loop, once it is running, or `none` if `start()` failed. -/
def startThreads (started : Nat → Option Loop) (pool : EventLoopPool Loop) :
    Nat → Nat → EventLoopPool Loop × Bool
  | _, 0 => ({ pool with state := .running }, true)
  | i, left + 1 =>
    match started i with
    | none => ({ pool with state := .stopped }, false)
    | some loop => startThreads started { pool with threads := pool.threads ++ [loop] } (i + 1) left

def autoStart (pool : EventLoopPool Loop) (started : Nat → Option Loop) :
    EventLoopPool Loop × Bool :=
  if pool.threadsNum = 0 then ({ pool with state := .stopped }, false)
  else startThreads started { pool with state := .init } 0 pool.threadsNum

def getIOEventLoop (pool : EventLoopPool Loop) : Checked (EventLoopPool Loop × Loop) := do
  require (pool.state = .running)
  match pool.threads[place pool.threads.length pool.currentIndex]? with
  | some loop => return ({ pool with currentIndex := pool.currentIndex + 1 }, loop)
  | none => .error .outOfBounds

/-- What that many calls in a row return. -/
def calls : Nat → EventLoopPool Loop → Checked (EventLoopPool Loop × List Loop)
  | 0, pool => return (pool, [])
  | k + 1, pool => do
    let (pool, loop) ← pool.getIOEventLoop
    let (pool, loops) ← calls k pool
    return (pool, loop :: loops)

end EventLoopPool

/-! ## The arithmetic of one call -/

theorem asSize_eq (current : BitVec 32) : asSize current =
    if current.toNat < 2 ^ 31 then current.toNat else current.toNat + (2 ^ 64 - 2 ^ 32) := by
  have fits : current.toNat < 2 ^ 64 := by have := current.isLt; omega
  rw [asSize, BitVec.toNat_signExtend, BitVec.toNat_setWidth, Nat.mod_eq_of_lt fits,
    BitVec.msb_eq_decide]
  by_cases small : current.toNat < 2 ^ 31
  · have msb : ¬ 2 ^ (32 - 1) ≤ current.toNat := by omega
    rw [if_pos small, decide_eq_false msb]
    rfl
  · have msb : 2 ^ (32 - 1) ≤ current.toNat := by omega
    rw [if_neg small, decide_eq_true msb]
    rfl

theorem asSize_ofNat {r : Nat} (small : r < 2 ^ 31) : asSize (BitVec.ofNat 32 r) = r := by
  have eq : (BitVec.ofNat 32 r).toNat = r := by
    rw [BitVec.toNat_ofNat]
    exact Nat.mod_eq_of_lt (by omega)
  rw [asSize_eq, eq, if_pos small]

theorem place_eq {size : Nat} (some : 0 < size) (small : size ≤ 2 ^ 31) (current : BitVec 32) :
    place size current = asSize current % size :=
  asSize_ofNat ((Nat.mod_lt _ some).trans_le small)

/-- An `int` that is not negative is below 2^31, and a negative one is far above. -/
theorem place_ne (size : Nat) (current : BitVec 32) : place size current ≠ 2 ^ 31 := by
  have := (BitVec.ofNat 32 (asSize current % size)).isLt
  rw [place, asSize_eq]
  split
  · omega
  · omega

/-- When the wraps fall on whole rounds the sign does not matter. -/
theorem place_of_dvd {size : Nat} (divides : size ∣ 2 ^ 31) (current : BitVec 32) :
    place size current = current.toNat % size := by
  have some : 0 < size := Nat.pos_of_dvd_of_pos divides (by decide)
  have wrap : size ∣ 2 ^ 64 - 2 ^ 32 := divides.trans (by decide)
  rw [place_eq some (Nat.le_of_dvd (by decide) divides), asSize_eq]
  split
  · rfl
  · rw [Nat.add_mod, Nat.mod_eq_zero_of_dvd wrap, Nat.add_zero, Nat.mod_mod]

/-! ## Calls in a row -/

namespace EventLoopPool

variable {Loop : Type} {pool pool' : EventLoopPool Loop} {loops : List Loop}

/-- After `autoStart` has returned true there are as many loops as asked for, and the
counter has not moved. -/
theorem startThreads_spec {started : Nat → Option Loop} {i left : Nat}
    (h : startThreads started pool i left = (pool', true)) :
    pool'.state = .running ∧ pool'.currentIndex = pool.currentIndex ∧
      pool'.threads.length = pool.threads.length + left := by
  induction left generalizing pool i with
  | zero =>
    cases h
    exact ⟨rfl, rfl, rfl⟩
  | succ left ih =>
    unfold startThreads at h
    cases loop : started i with
    | none =>
      rw [loop] at h
      cases h
    | some loop' =>
      rw [loop] at h
      obtain ⟨state, index, length⟩ := ih h
      rw [List.length_append, List.length_singleton] at length
      exact ⟨state, index, by omega⟩

theorem autoStart_spec {threadsNum : Nat} {started : Nat → Option Loop}
    (h : (create threadsNum).autoStart started = (pool, true)) :
    0 < threadsNum ∧ pool.state = .running ∧ pool.currentIndex = -1 ∧
      pool.threads.length = threadsNum := by
  unfold autoStart at h
  split at h
  · cases h
  · rename_i some
    obtain ⟨state, index, length⟩ := startThreads_spec h
    exact ⟨Nat.pos_of_ne_zero some, state, index, length.trans (Nat.zero_add _)⟩

theorem getIOEventLoop_ok_iff {loop : Loop} :
    pool.getIOEventLoop = .ok (pool', loop) ↔ pool.state = .running ∧
      pool.threads[place pool.threads.length pool.currentIndex]? = some loop ∧
        pool' = { pool with currentIndex := pool.currentIndex + 1 } := by
  unfold getIOEventLoop
  rw [bind_ok_iff]
  constructor
  · rintro ⟨_, running, rest⟩
    split at rest
    · rename_i loop' found
      cases rest
      exact ⟨require_ok_iff.mp running, found, rfl⟩
    · cases rest
  · rintro ⟨running, found, rfl⟩
    exact ⟨(), require_true running, by rw [found]; rfl⟩

/-- Where the counter stands after a number of calls, and what each of them returned. -/
theorem calls_spec {k : Nat} (h : pool.calls k = .ok (pool', loops)) :
    pool'.state = pool.state ∧ pool'.threads = pool.threads ∧
      pool'.currentIndex = pool.currentIndex + BitVec.ofNat 32 k ∧ loops.length = k ∧
      ∀ j < k, loops[j]? =
        pool.threads[place pool.threads.length (pool.currentIndex + BitVec.ofNat 32 j)]? := by
  induction k generalizing pool loops with
  | zero =>
    cases h
    exact ⟨rfl, rfl, (BitVec.add_zero _).symm, rfl, nofun⟩
  | succ k ih =>
    obtain ⟨⟨next, loop⟩, first, rest⟩ := bind_ok_iff.mp h
    obtain ⟨⟨last, loops'⟩, others, eq⟩ := bind_ok_iff.mp rest
    cases eq
    obtain ⟨_, found, rfl⟩ := getIOEventLoop_ok_iff.mp first
    obtain ⟨state, threads, index, length, each⟩ := ih others
    have shift (j : Nat) : pool.currentIndex + 1 + BitVec.ofNat 32 j =
        pool.currentIndex + BitVec.ofNat 32 (j + 1) := by
      rw [BitVec.add_assoc, BitVec.ofNat_add, BitVec.add_comm (1 : BitVec 32)]
      rfl
    refine ⟨state, threads, index.trans (shift k), by simp [length], fun j inside => ?_⟩
    cases j with
    | zero =>
      rw [List.getElem?_cons_zero, ← found]
      simp
    | succ j =>
      rw [List.getElem?_cons_succ, each j (by omega), shift]

/-- As long as every place is one of the threads the calls return. -/
theorem calls_ok (running : pool.state = .running)
    (inside : ∀ current, place pool.threads.length current < pool.threads.length) (k : Nat) :
    ∃ pool' loops, pool.calls k = .ok (pool', loops) := by
  induction k generalizing pool with
  | zero => exact ⟨pool, [], rfl⟩
  | succ k ih =>
    obtain ⟨loop, found⟩ : ∃ loop,
        pool.threads[place pool.threads.length pool.currentIndex]? = some loop :=
      ⟨_, List.getElem?_eq_getElem (inside pool.currentIndex)⟩
    have first := getIOEventLoop_ok_iff.mpr ⟨running, found, rfl⟩
    have rest : ∃ pool' loops,
        calls k { pool with currentIndex := pool.currentIndex + 1 } = .ok (pool', loops) :=
      ih running inside
    obtain ⟨pool', loops, others⟩ := rest
    refine ⟨pool', loop :: loops, ?_⟩
    simp only [calls, first, ok_bind, others, pure_eq_ok]

/-! ## Even turns -/

/-- Any `n` calls in a row return each loop once, wherever in the sequence of calls. -/
def EvenTurns (pool : EventLoopPool Loop) (n : Nat) : Prop :=
  ∀ position before pool', pool.calls position = .ok (pool', before) →
    ∃ pool'' loops, pool'.calls n = .ok (pool'', loops) ∧ loops.Perm pool.threads

/-- The place of the call at a position is the one before it, modulo the number. -/
theorem place_at {size position : Nat} (divides : size ∣ 2 ^ 31) :
    place size (-1 + BitVec.ofNat 32 position) = (position + (size - 1)) % size := by
  have some : 0 < size := Nat.pos_of_dvd_of_pos divides (by decide)
  have wrap : size ∣ 2 ^ 32 := divides.trans (by decide)
  have value : (-1 + BitVec.ofNat 32 position).toNat = (2 ^ 32 - 1 + position) % 2 ^ 32 := by
    rw [BitVec.toNat_add, BitVec.toNat_ofNat, Nat.add_mod_mod]
    rfl
  have below : 2 ^ 32 - 1 + position = (2 ^ 32 - size) + (position + (size - 1)) := by
    have := Nat.le_of_dvd (by decide) wrap
    omega
  rw [place_of_dvd divides, value, Nat.mod_mod_of_dvd _ wrap, below, Nat.add_mod,
    Nat.mod_eq_zero_of_dvd (Nat.dvd_sub wrap (Nat.dvd_refl size)), Nat.zero_add, Nat.mod_mod]

/-- The calls from a position on go round once from where it stands. -/
theorem evenTurns_of_dvd (running : pool.state = .running) (start : pool.currentIndex = -1)
    (divides : pool.threads.length ∣ 2 ^ 31) : pool.EvenTurns pool.threads.length := by
  intro position before pool' earlier
  obtain ⟨state, threads, index, _, _⟩ := calls_spec earlier
  have some : 0 < pool.threads.length := Nat.pos_of_dvd_of_pos divides (by decide)
  have inside (current : BitVec 32) :
      place pool'.threads.length current < pool'.threads.length := by
    rw [threads, place_of_dvd divides]
    exact Nat.mod_lt _ some
  obtain ⟨pool'', loops, round⟩ := calls_ok (state.trans running) inside pool.threads.length
  obtain ⟨_, _, _, length, each⟩ := calls_spec round
  have rotated : loops = pool.threads.rotate (position + (pool.threads.length - 1)) := by
    apply List.ext_getElem?
    intro j
    by_cases within : j < pool.threads.length
    · have shift : pool'.currentIndex + BitVec.ofNat 32 j =
          -1 + BitVec.ofNat 32 (j + position) := by
        rw [index, start, BitVec.add_assoc, ← BitVec.ofNat_add, Nat.add_comm position]
      rw [each j within, shift, threads, place_at divides, List.getElem?_rotate within,
        Nat.add_assoc]
    · rw [List.getElem?_eq_none (by omega), List.getElem?_eq_none]
      rw [List.length_rotate]
      omega
  exact ⟨pool'', loops, round, rotated ▸ List.rotate_perm _ _⟩

/-- With more than 2^31 loops, the one at that place is never returned. -/
theorem small_of_evenTurns (distinct : pool.threads.Nodup)
    (even : pool.EvenTurns pool.threads.length) : pool.threads.length ≤ 2 ^ 31 := by
  by_contra large
  have inside : 2 ^ 31 < pool.threads.length := by omega
  obtain ⟨pool', loops, round, perm⟩ := even 0 [] pool rfl
  obtain ⟨_, _, _, length, each⟩ := calls_spec round
  have member : pool.threads[2 ^ 31] ∈ loops := perm.mem_iff.mpr (List.getElem_mem inside)
  obtain ⟨j, within, at_⟩ := List.getElem_of_mem member
  have found := each j (length ▸ within)
  rw [List.getElem?_eq_getElem within, at_, eq_comm, List.getElem?_eq_some_iff] at found
  obtain ⟨bound, same⟩ := found
  exact place_ne _ _ ((distinct.getElem_inj_iff).mp same)

/-- From the second call on the counter is not negative. -/
theorem second_place {size r : Nat} (small : size ≤ 2 ^ 31) (inside : r < size) :
    place size (-1 + BitVec.ofNat 32 (r + 1)) = r := by
  have current : -1 + BitVec.ofNat 32 (r + 1) = BitVec.ofNat 32 r := by
    rw [BitVec.ofNat_add, BitVec.add_comm (BitVec.ofNat 32 r), ← BitVec.add_assoc]
    exact BitVec.zero_add _
  rw [place_eq (by omega) small, current, asSize_ofNat (by omega), Nat.mod_eq_of_lt inside]

/-- The first call is at -1 and the next ones at 0, 1 and so on, so -1 has to have the
last place. -/
theorem last_of_evenTurns (start : pool.currentIndex = -1) (distinct : pool.threads.Nodup)
    (some : 0 < pool.threads.length) (small : pool.threads.length ≤ 2 ^ 31)
    (even : pool.EvenTurns pool.threads.length) :
    (2 ^ 64 - 1) % pool.threads.length = pool.threads.length - 1 := by
  obtain ⟨pool', loops, round, perm⟩ := even 0 [] pool rfl
  obtain ⟨_, _, _, length, each⟩ := calls_spec round
  let r := (2 ^ 64 - 1) % pool.threads.length
  have below : r < pool.threads.length := Nat.mod_lt _ some
  by_contra other
  have before : r + 1 < pool.threads.length := by omega
  have first : loops[0]? = pool.threads[r]? := by
    rw [each 0 some, start, place_eq some small]
    rfl
  have again : loops[r + 1]? = pool.threads[r]? := by
    rw [each (r + 1) before, start, second_place small below]
  have zero : 0 < loops.length := by omega
  have same := (List.getElem?_inj zero (perm.nodup_iff.mpr distinct)).mp (first.trans again.symm)
  omega

/-- A power of two that is at most 2^31. -/
theorem dvd_of_last {n : Nat} (some : 0 < n) (small : n ≤ 2 ^ 31)
    (last : (2 ^ 64 - 1) % n = n - 1) : n ∣ 2 ^ 31 := by
  have divides : n ∣ 2 ^ 64 := by
    have split := Nat.div_add_mod (2 ^ 64 - 1) n
    refine ⟨(2 ^ 64 - 1) / n + 1, ?_⟩
    rw [Nat.mul_succ]
    omega
  obtain ⟨k, _, rfl⟩ := (Nat.dvd_prime_pow Nat.prime_two).mp divides
  exact Nat.pow_dvd_pow 2 ((Nat.pow_le_pow_iff_right (by decide)).mp small)

end EventLoopPool

/-- **Round robin.** Any `n` calls in a row return each of the `n` loops once, exactly
if `n` divides 2^31. -/
theorem round_robin_iff {Loop : Type} {n : Nat} {started : Nat → Option Loop}
    {pool : EventLoopPool Loop} (h : (EventLoopPool.create n).autoStart started = (pool, true))
    (distinct : pool.threads.Nodup) : pool.EvenTurns n ↔ n ∣ 2 ^ 31 := by
  obtain ⟨some, running, start, rfl⟩ := EventLoopPool.autoStart_spec h
  constructor
  · intro even
    have small := EventLoopPool.small_of_evenTurns distinct even
    exact EventLoopPool.dvd_of_last some small
      (EventLoopPool.last_of_evenTurns start distinct some small even)
  · intro divides
    exact EventLoopPool.evenTurns_of_dvd running start divides

/-- Four loops. -/
theorem round_robin_iff_four : ∃ pool : EventLoopPool Nat,
    (EventLoopPool.create 4).autoStart some = (pool, true) ∧ pool.EvenTurns 4 := by
  have started : (EventLoopPool.create 4).autoStart some =
      (⟨.running, 4, -1, [0, 1, 2, 3]⟩, true) := rfl
  exact ⟨_, started, (round_robin_iff started (by decide)).mpr (by decide)⟩

/-- Of three loops, the first two calls after `autoStart` return the same one. -/
theorem round_robin_three : ∃ pool : EventLoopPool Nat,
    (EventLoopPool.create 3).autoStart some = (pool, true) ∧ ¬ pool.EvenTurns 3 := by
  refine ⟨⟨.running, 3, -1, [0, 1, 2]⟩, rfl, fun even => ?_⟩
  obtain ⟨pool, loops, round, perm⟩ := even 0 [] _ rfl
  have turns : (⟨.running, 3, -1, [0, 1, 2]⟩ : EventLoopPool Nat).calls 3 =
      .ok (⟨.running, 3, 2, [0, 1, 2]⟩, [0, 0, 1]) := by decide
  cases turns.symm.trans round
  exact absurd perm (by decide)

end Libatp.LoopPool
