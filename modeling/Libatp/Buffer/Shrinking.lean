import Libatp.Buffer.Queue

/-!
# `decrease`

Two blocks with tests of their own. The first moves the unread bytes to the front of the
array and leaves the indices where they are, so that they show what the move put in the
place of the bytes. The second moves the bytes to a smaller array and sets the indices.
The first one is for a length that is not writable now but would be after the move; it
computes what would be writable as a word, and a prepended integer can make that negative.
-/

namespace Libatp.Buffer
open Base

namespace ByteBuffer

/-- `available_len`, as it is computed. -/
def availableLen (b : ByteBuffer) : Nat :=
  wsub (wsub b.caps b.prependHeaderBytes) (b.writeIndex - b.readIndex)

/-- The unread bytes fit between the reserved prefix and the end of the array. -/
def Compactable (b : ByteBuffer) : Prop :=
  b.reservedPrependSize + (b.writeIndex - b.readIndex) ≤ b.caps

instance (b : ByteBuffer) : Decidable b.Compactable := inferInstanceAs (Decidable (_ ≤ _))

theorem availableLen_eq {b : ByteBuffer} (hv : b.Valid) (room : b.Compactable) :
    b.availableLen = b.caps - b.reservedPrependSize - (b.writeIndex - b.readIndex) := by
  have hc := hv.caps_lt
  rw [Compactable] at room
  rw [availableLen, prependHeaderBytes,
    wsub_of_le (show b.reservedPrependSize ≤ b.caps by omega) hc, wsub_of_le (by omega) (by omega)]

/-- Whether the first block is entered, if `available_len` is what it should be. -/
def Shifts (b : ByteBuffer) (n : Nat) : Prop :=
  b.caps - b.writeIndex < n ∧ n ≤ b.caps - b.reservedPrependSize - (b.writeIndex - b.readIndex)

instance (b : ByteBuffer) (n : Nat) : Decidable (b.Shifts n) := inferInstanceAs (Decidable (_ ∧ _))

/-- The first block once its test has passed. -/
def shifted (b : ByteBuffer) : ByteBuffer :=
  { b with buff := splice b.buff b.reservedPrependSize b.unread }

theorem decreaseCompact_eq {b : ByteBuffer} (hv : b.Valid) (room : b.Compactable) (n : Nat) :
    b.decreaseCompact n =
      if b.Shifts n then
        if b.writeIndex - b.readIndex ≠ 0 then .ok b.shifted else .error .assertion
      else .ok b := by
  have hs := hv.size
  have hl := unread_length hv.ordered
  have available : wsub (wsub b.caps b.reservedPrependSize) (b.writeIndex - b.readIndex) = _ :=
    availableLen_eq hv room
  rw [Compactable] at room
  have fits : b.reservedPrependSize + b.unread.length ≤ b.buff.length := by omega
  simp only [decreaseCompact, unreadBytes_eq hv.ordered, writableBytes_eq hv.ordered, ok_bind,
    load_unread hv.ordered, prependHeaderBytes, store_ok fits, available]
  by_cases shifts : b.Shifts n
  · rw [if_pos (show _ ∧ _ from shifts), if_pos shifts, require]
    split <;> rfl
  · rw [if_neg (show ¬ (_ ∧ _) from shifts), if_neg shifts]
    rfl

theorem shifted_valid {b : ByteBuffer} (hv : b.Valid) (room : b.Compactable) :
    b.shifted.Valid := by
  have hs := hv.size
  have hl := unread_length hv.ordered
  rw [Compactable] at room
  have same : b.shifted.buff.length = b.caps := by rw [shifted, splice_length (by omega), hs]
  exact ⟨same, hv.read_le, hv.write_le, hv.reserved_le, hv.reserved_pos, hv.caps_lt⟩

/-- The unread bytes after the move. Those that were moved over themselves are the ones that
stood `readIndex - reservedPrependSize` places behind. -/
theorem shifted_unread {b : ByteBuffer} (hv : b.Valid) (room : b.Compactable)
    (ahead : b.reservedPrependSize ≤ b.readIndex)
    (overlap : b.readIndex - b.reservedPrependSize ≤ b.unread.length) :
    b.shifted.unread = b.unread.drop (b.readIndex - b.reservedPrependSize) ++
      b.unread.drop (b.unread.length - (b.readIndex - b.reservedPrependSize)) := by
  have hs := hv.size
  have hl := unread_length hv.ordered
  rw [Compactable] at room
  have start : b.readIndex = b.reservedPrependSize + (b.readIndex - b.reservedPrependSize) := by
    omega
  have moved : b.shifted.unread = window (splice b.buff b.reservedPrependSize b.unread)
      (b.reservedPrependSize + (b.readIndex - b.reservedPrependSize)) b.unread.length := by
    rw [← start, hl]
    rfl
  have kept : b.unread.drop (b.unread.length - (b.readIndex - b.reservedPrependSize)) =
      window b.buff (b.reservedPrependSize + b.unread.length)
        (b.unread.length - (b.unread.length - (b.readIndex - b.reservedPrependSize))) := by
    generalize past : b.unread.length - (b.readIndex - b.reservedPrependSize) = k
    rw [hl] at past ⊢
    rw [unread, window_drop]
    congr 1
    omega
  rw [moved, kept, window_splice_inside (by omega) overlap (by omega)]

/-- The move is harmless exactly if the bytes it leaves in place repeat those in front. -/
theorem shifted_unread_iff {b : ByteBuffer} (hv : b.Valid) (room : b.Compactable)
    (ahead : b.reservedPrependSize ≤ b.readIndex) :
    b.shifted.unread = b.unread ↔
      b.unread.drop (b.readIndex - b.reservedPrependSize) <+: b.unread := by
  by_cases overlap : b.readIndex - b.reservedPrependSize ≤ b.unread.length
  · rw [shifted_unread hv room ahead overlap, List.prefix_iff_eq_take, List.length_drop]
    nth_rewrite 4 [← List.take_append_drop
      (b.unread.length - (b.readIndex - b.reservedPrependSize)) b.unread]
    exact List.append_left_inj _
  · have hs := hv.size
    have hl := unread_length hv.ordered
    rw [Compactable] at room
    have apart : window b.shifted.buff b.readIndex (b.writeIndex - b.readIndex) = b.unread :=
      window_splice_after (by omega) (by omega)
    have nothing : b.unread.drop (b.readIndex - b.reservedPrependSize) = [] :=
      List.drop_of_length_le (by omega)
    rw [show b.shifted.unread = b.unread from apart, nothing]
    exact ⟨fun _ => List.nil_prefix, fun _ => rfl⟩

/-- The size of the second block's array, which need not be a word. -/
theorem decreaseRealloc_eq {b : ByteBuffer} (hv : b.Valid) {n : Nat}
    (writable : n ≤ b.caps - b.writeIndex) :
    b.decreaseRealloc n =
      if b.caps + b.reservedPrependSize < wordSize + n then
        .ok (b.relocated (List.replicate (b.caps + b.reservedPrependSize - n) 0#8))
      else .error .outOfBounds := by
  have hr := hv.read_le
  have hw := hv.write_le
  have hc := hv.caps_lt
  have hl := unread_length hv.ordered
  have size : wsub (wrap (b.caps + b.reservedPrependSize)) n =
      wrap (b.caps + b.reservedPrependSize - n) := wsub_wrap (by omega) (by omega)
  simp only [decreaseRealloc, unreadBytes_eq hv.ordered, writableBytes_eq hv.ordered, ok_bind,
    if_pos writable, prependHeaderBytes, size, load_unread hv.ordered]
  by_cases word : b.caps + b.reservedPrependSize < wordSize + n
  · have tail := update_relocated hv.settable
      (List.replicate (b.caps + b.reservedPrependSize - n) 0#8)
      (by rw [List.length_replicate]; omega) (by rw [List.length_replicate]; omega)
    rw [wrap_of_lt (show b.caps + b.reservedPrependSize - n < wordSize by omega), if_pos word,
      store_ok (by rw [List.length_replicate]; omega), ok_bind, ← tail, List.length_replicate]
    rfl
  · have res := hv.reserved_le
    have rest : wrap (b.caps + b.reservedPrependSize - n) =
        b.caps + b.reservedPrependSize - n - wordSize := by
      unfold wrap
      rw [Nat.mod_eq_sub_mod (by omega), Nat.mod_eq_of_lt (by omega)]
    rw [rest, if_neg word, store_outside (by rw [List.length_replicate]; omega)]
    rfl

theorem decreaseRealloc_skips {b : ByteBuffer} (hv : b.Valid) {n : Nat}
    (more : b.caps - b.writeIndex < n) : b.decreaseRealloc n = .ok b := by
  simp only [decreaseRealloc, unreadBytes_eq hv.ordered, writableBytes_eq hv.ordered, ok_bind,
    if_neg (Nat.not_le_of_lt more), pure_eq_ok]

theorem decrease_shifts {b : ByteBuffer} (hv : b.Valid) (room : b.Compactable) {n : Nat}
    (shifts : b.Shifts n) (some : b.writeIndex - b.readIndex ≠ 0) :
    b.decrease n = .ok b.shifted := by
  have positive : n ≠ 0 := by
    have := shifts.1
    omega
  rw [decrease, if_neg positive, decreaseCompact_eq hv room, if_pos shifts, if_pos some]
  exact decreaseRealloc_skips (shifted_valid hv room) shifts.1

/-- A length that is writable never gets to the move, whatever `available_len` is. -/
theorem decrease_realloc {b : ByteBuffer} (hv : b.Valid) {n : Nat} (positive : n ≠ 0)
    (writable : n ≤ b.caps - b.writeIndex) : b.decrease n = b.decreaseRealloc n := by
  have stays : b.decreaseCompact n = .ok b := by
    simp only [decreaseCompact, unreadBytes_eq hv.ordered, writableBytes_eq hv.ordered, ok_bind,
      pure_eq_ok]
    rw [if_neg fun needed => absurd needed.1 (Nat.not_lt_of_le writable)]
  rw [decrease, if_neg positive, stays]
  rfl

theorem decrease_skips {b : ByteBuffer} (hv : b.Valid) (room : b.Compactable) {n : Nat}
    (positive : n ≠ 0) (more : b.caps - b.writeIndex < n) (not : ¬ b.Shifts n) :
    b.decrease n = .ok b := by
  rw [decrease, if_neg positive, decreaseCompact_eq hv room, if_neg not]
  exact decreaseRealloc_skips hv more

/-! ## Reachable buffers -/

/-- An empty buffer starts at its reserved prefix. -/
def Rested (b : ByteBuffer) : Prop :=
  b.readIndex = b.writeIndex → b.readIndex = b.reservedPrependSize

theorem append_rested {b b' : ByteBuffer} (hv : b.Valid) (rested : b.Rested) {data : List Byte}
    (h : b.append data = .ok b') : b'.Rested := by
  obtain ⟨c, grown, _, rfl⟩ := (append_ok_iff hv).mp h
  by_cases full : b.caps - b.writeIndex < data.length
  · rw [if_pos full] at grown
    have below := (grow_spec hv grown).1.read_le
    intro same
    simp only [written] at same
    omega
  · rw [if_neg full] at grown
    cases grown
    have below := hv.read_le
    intro same
    simp only [written] at same
    exact rested (by omega)

theorem prependBytes_rested {b b' : ByteBuffer} (hv : b.Valid) {bytes : List Byte}
    (some : 1 ≤ bytes.length) (h : b.prependBytes bytes = .ok b') : b'.Rested := by
  obtain ⟨room, rfl⟩ := (prependBytes_ok_iff hv some).mp h
  have below := hv.read_le
  intro same
  simp only at same
  omega

theorem remove_rested {b b' : ByteBuffer} (hv : b.Valid) {n : Nat}
    (h : b.remove n = .ok b') : b'.Rested := by
  have hw := hv.write_le
  have hc := hv.caps_lt
  simp only [remove, unreadBytes_eq hv.ordered, ok_bind] at h
  by_cases less : n < b.writeIndex - b.readIndex
  · rw [if_pos less, update_read (by omega)] at h
    cases h
    intro same
    simp only at same
    omega
  · rw [if_neg less] at h
    cases h
    intro _
    rfl

theorem consume_removes {b b' : ByteBuffer} {s : Slice} {n : Nat}
    (h : b.consume n = .ok (b', s)) : ∃ m, b.remove m = .ok b' := by
  obtain ⟨unread, _, h⟩ := bind_ok_iff.mp h
  split at h
  · obtain ⟨c, removed, same⟩ := bind_ok_iff.mp h
    cases same
    exact ⟨_, removed⟩
  · obtain ⟨c, removed, same⟩ := bind_ok_iff.mp h
    cases same
    exact ⟨_, removed⟩

end ByteBuffer

theorem exec_rested {b b' : ByteBuffer} {out : List Byte} (hv : b.Valid) (rested : b.Rested)
    {op : Op} (h : op.exec b = .ok (b', out)) : b'.Rested := by
  cases op with
  | append data | appendInt32 x | appendInt64 x =>
    obtain ⟨c, appended, same⟩ := bind_ok_iff.mp h
    cases same
    exact ByteBuffer.append_rested hv rested appended
  | prependInt32 x | prependInt64 x =>
    obtain ⟨c, prepended, same⟩ := bind_ok_iff.mp h
    cases same
    exact ByteBuffer.prependBytes_rested hv (by simp) prepended
  | remove n =>
    obtain ⟨c, removed, same⟩ := bind_ok_iff.mp h
    cases same
    exact ByteBuffer.remove_rested hv removed
  | consume n =>
    obtain ⟨⟨c, s⟩, consumed, same⟩ := bind_ok_iff.mp h
    cases same
    obtain ⟨m, removed⟩ := ByteBuffer.consume_removes consumed
    exact ByteBuffer.remove_rested hv removed
  | consumeVerify n verify =>
    obtain ⟨⟨c, s⟩, consumed, same⟩ := bind_ok_iff.mp h
    cases same
    rw [ByteBuffer.consumeVerify_eq hv] at consumed
    split at consumed
    · cases consumed
      exact rested
    · obtain ⟨m, removed⟩ := ByteBuffer.consume_removes consumed
      exact ByteBuffer.remove_rested hv removed
  | reset =>
    cases h
    intro _
    rfl

theorem run_rested {b b' : ByteBuffer} {ops : List Op} {outs : List (List Byte)} (hv : b.Valid)
    (rested : b.Rested) (h : run b ops = .ok (b', outs)) : b'.Valid ∧ b'.Rested := by
  induction ops generalizing b outs with
  | nil =>
    cases h
    exact ⟨hv, rested⟩
  | cons op ops ih =>
    obtain ⟨⟨b₁, out⟩, first, rest⟩ := bind_ok_iff.mp h
    obtain ⟨⟨b₂, outs'⟩, later, same⟩ := bind_ok_iff.mp rest
    cases same
    exact ih (exec_valid hv first) (exec_rested hv rested first) later

/-! ## The result -/

/-- The call returns, so every copy stays inside its arrays; the indices are in order, the
unread bytes are the same, and `available_len` is not computed below zero. -/
def Shrinks (b : ByteBuffer) (n : Nat) : Prop :=
  (n ≠ 0 → (b.availableLen : Int) =
      b.caps - b.reservedPrependSize - (b.writeIndex - b.readIndex : Nat)) ∧
    ∃ b', b.decrease n = .ok b' ∧ b'.Valid ∧ b'.unread = b.unread

/-- What it takes: the unread bytes fit behind the reserved prefix; if the first block runs,
the bytes repeat with the distance they are moved by; if the second runs, the size of its
array is a word. -/
def Harmless (b : ByteBuffer) (n : Nat) : Prop :=
  b.Compactable ∧
    (b.Shifts n → b.unread.drop (b.readIndex - b.reservedPrependSize) <+: b.unread) ∧
    (n ≤ b.caps - b.writeIndex → b.caps + b.reservedPrependSize < wordSize + n)

instance (b : ByteBuffer) (n : Nat) : Decidable (Harmless b n) :=
  inferInstanceAs (Decidable (_ ∧ _ ∧ _))

theorem availableLen_exact_iff {b : ByteBuffer} (hv : b.Valid) :
    (b.availableLen : Int) =
      b.caps - b.reservedPrependSize - (b.writeIndex - b.readIndex : Nat) ↔ b.Compactable := by
  constructor
  · intro exact
    rw [ByteBuffer.Compactable]
    omega
  · intro room
    rw [ByteBuffer.availableLen_eq hv room]
    rw [ByteBuffer.Compactable] at room
    omega

theorem shifts_ahead {b : ByteBuffer} (hv : b.Valid) (room : b.Compactable) {n : Nat}
    (shifts : b.Shifts n) : b.reservedPrependSize < b.readIndex := by
  have hr := hv.read_le
  have hw := hv.write_le
  rw [ByteBuffer.Compactable] at room
  obtain ⟨more, available⟩ := shifts
  omega

/-- The first block leaves other bytes, unless they are the same. -/
theorem keeps_shifts_iff {b : ByteBuffer} (hv : b.Valid) (rested : b.Rested) (room : b.Compactable)
    {n : Nat} (shifts : b.Shifts n) :
    (∃ b', b.decrease n = .ok b' ∧ b'.Valid ∧ b'.unread = b.unread) ↔
      b.unread.drop (b.readIndex - b.reservedPrependSize) <+: b.unread := by
  have ahead := shifts_ahead hv room shifts
  have some : b.writeIndex - b.readIndex ≠ 0 := by
    have hr := hv.read_le
    intro none
    have := rested (by omega)
    omega
  rw [ByteBuffer.decrease_shifts hv room shifts some,
    ← ByteBuffer.shifted_unread_iff hv room (Nat.le_of_lt ahead)]
  constructor
  · rintro ⟨b', same, _, kept⟩
    cases same
    exact kept
  · intro kept
    exact ⟨_, rfl, ByteBuffer.shifted_valid hv room, kept⟩

/-- The second block keeps them, unless its array comes out too small. -/
theorem keeps_realloc_iff {b : ByteBuffer} (hv : b.Valid) {n : Nat} (positive : n ≠ 0)
    (writable : n ≤ b.caps - b.writeIndex) :
    (∃ b', b.decrease n = .ok b' ∧ b'.Valid ∧ b'.unread = b.unread) ↔
      b.caps + b.reservedPrependSize < wordSize + n := by
  rw [ByteBuffer.decrease_realloc hv positive writable, ByteBuffer.decreaseRealloc_eq hv writable]
  by_cases word : b.caps + b.reservedPrependSize < wordSize + n
  · have hr := hv.read_le
    have hw := hv.write_le
    have moved := ByteBuffer.relocated_spec hv
      (List.replicate (b.caps + b.reservedPrependSize - n) 0#8)
      (by rw [List.length_replicate]; omega) (by rw [List.length_replicate]; omega)
    rw [if_pos word]
    exact ⟨fun _ => word, fun _ => ⟨_, rfl, moved⟩⟩
  · rw [if_neg word]
    constructor
    · rintro ⟨b', fault, _⟩
      cases fault
    · intro size
      exact absurd size word

/-- **`decrease` keeps the data exactly if it is harmless**, in every buffer that calls can
make and for every length. -/
theorem decrease_keeps_iff (prepend initial : Nat) (hp : 1 ≤ prepend)
    (hs : prepend + initial < wordSize) (ops : List Op) {b : ByteBuffer} {outs : List (List Byte)}
    (reached : run (.create prepend initial) ops = .ok (b, outs)) (n : Nat) :
    Shrinks b n ↔ n = 0 ∨ Harmless b n := by
  have fresh := (create_valid prepend initial hp hs).1
  obtain ⟨hv, rested⟩ := run_rested fresh (fun _ => rfl) reached
  by_cases zero : n = 0
  · refine ⟨fun _ => .inl zero, fun _ => ⟨fun positive => absurd zero positive, b, ?_, hv, rfl⟩⟩
    rw [ByteBuffer.decrease, if_pos zero]
    rfl
  rw [Shrinks, imp_iff_right zero, availableLen_exact_iff hv, or_iff_right zero, Harmless]
  apply and_congr_right
  intro room
  by_cases shifts : b.Shifts n
  · have full : ¬ n ≤ b.caps - b.writeIndex := Nat.not_le_of_lt shifts.1
    rw [keeps_shifts_iff hv rested room shifts]
    simp only [shifts, full, forall_true_left, false_implies, and_true]
  by_cases writable : n ≤ b.caps - b.writeIndex
  · rw [keeps_realloc_iff hv zero writable]
    simp only [shifts, writable, forall_true_left, false_implies, true_and]
  · rw [ByteBuffer.decrease_skips hv room zero (Nat.lt_of_not_le writable) shifts]
    simp only [shifts, writable, false_implies, and_self, iff_true]
    exact ⟨b, rfl, hv, rfl⟩

/-- After a prefix that is as long as what is left, nothing is moved over itself. -/
theorem decrease_keeps_apart :
    ∃ b outs, run (.create 1 4) [.append [1, 2, 3, 4], .remove 2] = .ok (b, outs) ∧
      b.Shifts 1 ∧ Shrinks b 1 := by
  refine ⟨_, _, rfl, by decide, ?_⟩
  exact (decrease_keeps_iff 1 4 (by decide) (by decide) [.append [1, 2, 3, 4], .remove 2] rfl 1).mpr
    (by decide)

/-- Four bytes of which one was removed are moved by one place; and a full buffer whose
prefix is used makes `available_len` wrap, so that the move leaves the array. -/
theorem decrease_spoils :
    (∃ b outs, run (.create 1 4) [.append [1, 2, 3, 4], .remove 1] = .ok (b, outs) ∧
      b.unread = [2, 3, 4] ∧ ∃ b', b.decrease 1 = .ok b' ∧ b'.unread = [3, 4, 4]) ∧
    ∃ b outs, run (.create 8 0) [.prependInt64 7] = .ok (b, outs) ∧
      b.availableLen = wordSize - 8 ∧ b.decrease 1 = .error .outOfBounds :=
  ⟨⟨_, _, rfl, rfl, _, rfl, rfl⟩, _, _, rfl, rfl, rfl⟩

end Libatp.Buffer
